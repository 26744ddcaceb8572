import Cappo.VdbC1.RecordChain

/-!
# The offline verifier

`verify.py`: the checks of `_verify` and `_verify_witness` over a bundle that is any JSON
value, in the order of the source, with the verdict and the check each failure is reported
under. Whatever raises in Python (a missing member, a value of the wrong type, a value with
no canonical encoding) is reported as an incomplete bundle. Every comparison is Python's
`==` on parsed JSON.

The texts of the field `detail`, which only explain a verdict, are not modelled.
-/

namespace VdbC1

open Checks

/-- The verdicts of a rejected bundle. -/
inductive RejectVerdict where
  | incompleteBundle | journalInconsistent | untrustedKey | badSignature | outsideAuthorityWindow
  | rootMismatch | generationMismatch | payloadSubstitution | duplicateFinality | receiptMismatch
  | notWitnessed | fork
  deriving DecidableEq

/-- `Reject`: the verdict and the check that failed. -/
structure Rejection where
  verdict : RejectVerdict
  check : String
  deriving DecidableEq

/-- The evidence profile of a valid bundle. -/
inductive Profile where
  | l1 | w1
  deriving DecidableEq

/-- The public keys a verifier trusts. -/
structure TrustStore where
  authorityKeys : List (PyStr × PyStr)
  finalizerKeys : List (PyStr × PyStr)
  witnessKeys : Option (List (PyStr × PyStr))

/-- What `verify_bundle` returns. -/
inductive VerifyResult where
  | rejected (rejection : Rejection) (checksPassed : List String)
  | valid (profile : Profile) (intentId postRoot : Json) (checksPassed : List String)

/-- The verdict is `VALID_FINALIZED`. -/
def VerifyResult.isValid : VerifyResult → Bool
  | rejected _ _ => false
  | valid _ _ _ _ => true

namespace Verify

/-- A check of the verifier. -/
abbrev Check := Except Rejection

/-- A Python exception, as `verify_bundle` reports it. -/
def raised : Rejection := ⟨.incompleteBundle, "structure"⟩

/-- Python's `j[k]`. -/
def read (k : PyStr) (j : Json) : Check Json := ofOption raised (j.field? k)

/-- Python's `j.get(k)`. -/
def get (k : PyStr) (j : Json) : Check Json := ofOption raised (j.get? k)

/-- Reject if the condition fails. -/
def check (verdict : RejectVerdict) (check : String) (c : Bool) : Check Unit :=
  require ⟨verdict, check⟩ c

variable (P : Platform)

/-- `digest`. -/
def digest (j : Json) : Check PyStr := ofOption raised (P.digest j)

/-- `ts`. -/
def ts : Json → Check ℚ
  | .str text => ofOption raised (P.parseTime text)
  | _ => .error raised

/-- `check_signed`. A key id that is no string is in no trust store, and looking up one that
is a list or a dictionary raises. What follows in the source is `verify_signed` of
`canon.py` again. -/
def checkSigned (signed : Json) (trusted : List (PyStr × PyStr)) (what : String) : Check Unit := do
  match ← get "kid" signed with
  | .str kid =>
    check .untrustedKey what (FieldMap.lookup kid trusted).isSome
    check .badSignature what (P.verifySigned signed trusted)
  | .arr _ => .error raised
  | .obj _ => .error raised
  | _ => .error ⟨.untrustedKey, what⟩

/-- The members of a bundle that `_verify` reads first. -/
structure Opened where
  intentId : Json
  journal : List Json
  receipt : Json
  cert : Json

variable (bundle : Json) (trust : TrustStore) (o : Opened) (b : Bodies)

/-- Step 1: structure. -/
def openBundle : Check Opened := do
  let protocol ← get "protocol" bundle
  check .incompleteBundle "structure" (protocol.pyEq "veklom.vdb.c1.bundle/v1")
  let intentId ← read "intent_id" bundle
  let journal ← read "journal" bundle
  let receipt ← read "receipt" bundle
  let cert ← read "certificate" receipt
  match journal with
  | .arr (r :: rs) => return ⟨intentId, r :: rs, receipt, cert⟩
  | _ => .error ⟨.incompleteBundle, "structure"⟩

/-- `BINDING`. -/
def bindingKinds : List Json :=
  ["PREPARED", "COMMITTING", "COMMIT_UNCERTAIN", "COMMITTED", "FINALIZED", "ABORTED"]

/-- `LEGAL_FINAL_PATHS`. -/
def legalFinalPaths : List (List Json) :=
  [["PREPARED", "COMMITTING", "COMMITTED", "FINALIZED"],
    ["PREPARED", "COMMITTING", "COMMIT_UNCERTAIN", "COMMITTED", "FINALIZED"]]

/-- The record is a binding record of the intent. -/
def isMine (intentId r : Json) : Check Bool := do
  let id ← read "intent_id" r
  if id.pyEq intentId then do
    let kind ← read "kind" r
    return bindingKinds.any fun k => kind.pyEq k
  else return false

/-- The kind of a record in which it was read already. -/
def kindOf (r : Json) : Json := (r.field? "kind").getD .null

/-- The binding records of the intent, with the ones finality rests on. -/
structure Selected where
  mine : List Json
  prepared : Json
  committed : Json
  finalized : Json

/-- The state-machine check of step 3: no kind of finality twice, and a legal path. -/
def checkPath (kinds : List Json) : Check Unit := do
  check .duplicateFinality "single_finality"
    (decide (kinds.count (.str "FINALIZED") ≤ 1) && decide (kinds.count (.str "COMMITTED") ≤ 1) &&
      decide (kinds.count (.str "PREPARED") ≤ 1))
  check .journalInconsistent "state_machine" (decide (kinds ∈ legalFinalPaths))

/-- Step 3: one finality, a legal path, and a bundle that ends at it. The last record of the
journal is the last one of the intent (Python's `is`) when it is one of the intent. -/
def selectRecords : Check Selected := do
  let mine ← filter (isMine o.intentId) o.journal
  checkPath (mine.map kindOf)
  let last ← ofOption raised o.journal.getLast?
  let ends ← isMine o.intentId last
  check .journalInconsistent "bundle_prefix" ends
  let prepared ← ofOption raised mine.head?
  let committed ← ofOption raised (mine.find? fun r => kindOf r = "COMMITTED")
  return ⟨mine, prepared, committed, last⟩

/-- The bodies of the selected records and the signed intent in them. -/
structure Bodies where
  pb : Json
  cb : Json
  signedIntent : Json
  intent : Json

/-- The members that the steps after step 3 work with. -/
def readBodies (s : Selected) : Check Bodies := do
  let pb ← read "body" s.prepared
  let cb ← read "body" s.committed
  let signedIntent ← read "signed_intent" pb
  let intent ← read "payload" signedIntent
  return ⟨pb, cb, signedIntent, intent⟩

/-- Step 4: the signatures of authority and finalizer. -/
def checkSignatures : Check Unit := do
  checkSigned P b.signedIntent trust.authorityKeys "intent_signature"
  let authorityKid ← read "authority_kid" b.intent
  let kid ← read "kid" b.signedIntent
  check .badSignature "intent_signature" (authorityKid.pyEq kid)
  let protocol ← get "protocol" b.intent
  check .badSignature "intent_signature" (protocol.pyEq "veklom.vdb.c1.intent/v1")
  checkSigned P o.cert trust.finalizerKeys "certificate_signature"

/-- Step 5: every record of the intent binds the one signed intent. Its hash. -/
def checkBinding (s : Selected) (b : Bodies) : Check PyStr := do
  let ih ← digest P b.intent
  let intentId ← read "intent_id" b.intent
  check .journalInconsistent "intent_binding" (intentId.pyEq o.intentId)
  forEach (fun r => do
    let body ← read "body" r
    let hash ← get "intent_hash" body
    check .journalInconsistent "intent_binding" (hash.pyEq (.str ih))) s.mine
  return ih

/-- Step 6: admitted inside the authority's window, in double arithmetic. -/
def checkWindow : Check Unit := do
  let admission ← read "admission" b.pb
  let admitted ← ts P (← read "admitted_at" admission)
  let issued ← ts P (← read "issued_at" b.intent)
  check .outsideAuthorityWindow "authority_window"
    (decide (Json.roundDouble (issued - 5) ≤ admitted))
  let expires ← ts P (← read "expires_at" b.intent)
  check .outsideAuthorityWindow "authority_window" (decide (admitted < expires))

/-- Step 7: the roots recompute from their entries. -/
def checkRoots : Check Unit := do
  let ns ← read "namespace" b.intent
  let preGeneration ← read "pre_generation" b.pb
  let preEntries ← read "pre_entries" b.pb
  let pre ← ofOption raised (P.stateRoot ns preGeneration preEntries)
  let preRoot ← read "pre_root" b.pb
  check .rootMismatch "pre_root" (Json.pyEq (.str pre) preRoot)
  let expectedRoot ← read "expected_root" b.intent
  check .rootMismatch "precondition_root" (preRoot.pyEq expectedRoot)
  let postGeneration ← read "post_generation" b.cb
  let postEntries ← read "post_entries" b.cb
  let post ← ofOption raised (P.stateRoot ns postGeneration postEntries)
  let postRoot ← read "post_root" b.cb
  check .rootMismatch "post_root" (Json.pyEq (.str post) postRoot)

/-- Step 8: the generations. -/
def checkGeneration : Check Unit := do
  let preGeneration ← read "pre_generation" b.pb
  let expected ← read "expected_generation" b.intent
  check .generationMismatch "generation" (preGeneration.pyEq expected)
  let postGeneration ← read "post_generation" b.cb
  let next ← ofOption raised preGeneration.addOne
  check .generationMismatch "generation" (postGeneration.pyEq next)

/-- The entry is for another key than the intent's: `e[0] != intent["key"]`. -/
def isOther (key e : Json) : Check Bool := do
  let k ← ofOption raised e.first?
  return !k.pyEq key

/-- Step 9: the committed state is the signed payload applied once. The commitment. -/
def checkPayload (ih : PyStr) : Check PyStr := do
  let op ← read "op" b.intent
  let key ← read "key" b.intent
  let value ← read "value" b.intent
  let commitment ← ofOption raised (P.payloadCommitment op key value)
  let preEntries ← ofOption raised (← read "pre_entries" b.pb).items
  let others ← filter (isOther key) preEntries
  let expectedPost ← ofOption raised (P.sorted (others ++ [.arr [key, value]]))
  let applied ← read "applied_row" b.cb
  check .payloadSubstitution "payload" (op.pyEq "UPSERT")
  let stated ← read "payload_commitment" b.pb
  check .payloadSubstitution "payload" (stated.pyEq (.str commitment))
  let postEntries ← ofOption raised (← read "post_entries" b.cb).items
  let post ← ofOption raised (P.sorted postEntries)
  check .payloadSubstitution "payload" (Json.pyEq (.arr post) (.arr expectedPost))
  let postGeneration ← read "post_generation" b.cb
  let postRoot ← read "post_root" b.cb
  check .payloadSubstitution "payload" (applied.pyEq (.obj [("intent_id", o.intentId),
    ("intent_hash", .str ih), ("generation", postGeneration), ("post_root", postRoot)]))
  return commitment

/-- The certificate payload re-derived from the records (`want`). -/
def wanted (s : Selected) (b : Bodies) (ih commitment : PyStr) : Check Json := do
  let ns ← read "namespace" b.intent
  let authorityKid ← read "authority_kid" b.intent
  let expected ← read "expected_generation" b.intent
  let preRoot ← read "pre_root" b.pb
  let postGeneration ← read "post_generation" b.cb
  let postRoot ← read "post_root" b.cb
  let applied ← read "applied_row" b.cb
  let physical ← ofOption raised ((← read "physical" b.cb).updated "applied_row" applied)
  let preparedSeq ← read "seq" s.prepared
  let preparedHash ← read "hash" s.prepared
  let committedSeq ← read "seq" s.committed
  let committedHash ← read "hash" s.committed
  let stamp ← read "at" s.committed
  let kid ← read "kid" o.cert
  return .obj [("protocol", "veklom.vdb.c1.finality/v1"), ("intent_id", o.intentId),
    ("intent_hash", .str ih), ("namespace", ns), ("authority_kid", authorityKid),
    ("expected_generation", expected), ("pre_root", preRoot),
    ("payload_commitment", .str commitment), ("post_generation", postGeneration),
    ("post_root", postRoot), ("physical", physical),
    ("journal", .obj [("prepared_seq", preparedSeq), ("prepared_hash", preparedHash),
      ("committed_seq", committedSeq), ("committed_hash", committedHash)]),
    ("finalized_at", stamp), ("finalizer_kid", kid)]

/-- Step 10: the receipt is the certificate in the journal and states the fields re-derived
from it. -/
def checkReceipt (s : Selected) (b : Bodies) (ih commitment : PyStr) : Check Unit := do
  let want ← wanted o s b ih commitment
  let body ← read "body" s.finalized
  let certificate ← read "certificate" body
  check .receiptMismatch "receipt_binding" (certificate.pyEq o.cert)
  let stated ← read "certificate_digest" o.receipt
  let d ← digest P o.cert
  check .receiptMismatch "receipt_binding" (stated.pyEq (.str d))
  let payload ← read "payload" o.cert
  check .receiptMismatch "receipt_binding" (payload.pyEq want)

/-- The checks passed before a stage, beside the stage's own failure. -/
def stage {α : Type} (passed : List String) (x : Check α) : Except (Rejection × List String) α :=
  match x with
  | .ok a => .ok a
  | .error r => .error (r, passed)

/-- The names `_verify` reports its steps under when they have passed. -/
def steps : List String :=
  ["structure", "journal_chain", "state_machine", "intent_signature", "certificate_signature",
    "intent_binding", "authority_window", "state_roots", "generation", "payload",
    "receipt_binding"]

/-- `_verify`. -/
def verify : Except (Rejection × List String) Unit := do
  let o ← stage [] (openBundle bundle)
  let _ ← stage (steps.take 1)
    (checkChain P raised ⟨.journalInconsistent, "journal_chain"⟩ 0 "genesis" o.journal)
  let s ← stage (steps.take 2) (selectRecords o)
  let b ← stage (steps.take 3) (readBodies s)
  stage (steps.take 3) (checkSignatures P trust o b)
  let ih ← stage (steps.take 5) (checkBinding P o s b)
  stage (steps.take 6) (checkWindow P b)
  stage (steps.take 7) (checkRoots P b)
  stage (steps.take 8) (checkGeneration b)
  let commitment ← stage (steps.take 9) (checkPayload P o b ih)
  stage (steps.take 10) (checkReceipt P o s b ih commitment)

/-- The witnessed part of `_verify_witness`: a pinned witness countersigned a head at or
after the finality, and the records in between chain on and are none of the intent's. -/
def checkWitness (bundle w : Json) (trust : TrustStore) : Check Unit := do
  let cp ← read "checkpoint" w
  let suffix ← read "journal_suffix" w
  checkSigned P cp (trust.witnessKeys.getD []) "witness_signature"
  let journal ← ofOption raised (← read "journal" bundle).elements?
  let suffix ← ofOption raised suffix.elements?
  let last ← ofOption raised journal.getLast?
  let head ← checkChain P raised ⟨.journalInconsistent, "witness_suffix"⟩ journal.length
    last.recordHash suffix
  let intentId ← read "intent_id" bundle
  forEach (fun r => do
    let mine ← isMine intentId r
    check .duplicateFinality "witness_suffix" !mine) suffix
  let p ← read "payload" cp
  let protocol ← get "protocol" p
  check .fork "witness_checkpoint" (protocol.pyEq "veklom.vdb.c1.checkpoint/v1")
  let seq ← read "seq" p
  check .fork "witness_checkpoint" (seq.pyEq (.int ((journal ++ suffix).length - 1)))
  let headHash ← read "head_hash" p
  check .fork "witness_checkpoint" (headHash.pyEq (.str head))
  let genesisHash ← read "journal_genesis_hash" p
  let first ← ofOption raised journal.head?
  check .fork "witness_checkpoint" (genesisHash.pyEq (.str first.recordHash))

/-- `_verify_witness`. -/
def verifyWitness : Check Profile :=
  match bundle.field? "witness" with
  | none => .ok .l1
  | some w => do
    checkWitness P bundle w trust
    return .w1

/-- The checks of `verify_bundle` up to its verdict. -/
def checks (requireWitness : Bool) : Except (Rejection × List String) Profile := do
  verify P bundle trust
  let profile ← stage steps (verifyWitness P bundle trust)
  let passed := if profile = .w1 then steps ++ ["witness"] else steps
  stage passed (check .notWitnessed "witness" (!(requireWitness && decide (profile ≠ .w1))))
  return profile

/-- `verify_bundle`; the members a valid result reports are read after the checks, where a
missing one would raise (`none`). -/
def verifyBundle (requireWitness : Bool) : Option VerifyResult :=
  match checks P bundle trust requireWitness with
  | .error (rejection, passed) => some (.rejected rejection passed)
  | .ok profile => do
    let intentId ← bundle.field? "intent_id"
    let receipt ← bundle.field? "receipt"
    let cert ← receipt.field? "certificate"
    let payload ← cert.field? "payload"
    let postRoot ← payload.field? "post_root"
    return .valid profile intentId postRoot (if profile = .w1 then steps ++ ["witness"] else steps)

end Verify

end VdbC1
