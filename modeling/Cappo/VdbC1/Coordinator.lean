import Cappo.Lib.Durable
import Cappo.VdbC1.Journal

/-!
# The coordinator

`coordinator.py`: admission, the protocol run of an intent and recovery, as procedures on a
`World` (the journal file and the store, both durable) that can be killed before any durable
write. The durable writes are the append of a journal record and the COMMIT of the storage
transaction. The crash points of the source lie between two of them, so a budget of writes
reaches each one. The file lock makes calls follow one another, and every call first reads
the journal back.
-/

namespace VdbC1

open Proc

/-- Why a call stops without returning. -/
inductive Fault where
  | killed
  | journalCorrupt
  | illegalTransition
  | canonicalization
  | clockRange
  | recovery
  | missingRecord
  | notExportable
  | storage (fault : StorageFault)
  deriving DecidableEq

/-- What the calls on one home act on: the durable journal and store, the number of clock
readings so far, and the storage transactions started so far (`execute_calls` counts
them), each with its intent and payload hash. -/
structure World where
  journal : List Record
  store : Store
  tick : ℕ
  executions : List (PyStr × Option PyStr)

/-- A coordinator opened on a home: the trusted authority keys, the finalizer's key and the
injected clock, which returns its `n`-th reading. -/
structure Coordinator (P : Platform) where
  authorityKeys : List (PyStr × PyStr)
  finalizerSk : P.SecretKey
  clock : ℕ → ℚ

/-- What `submit` returns. -/
structure Outcome where
  intentId : PyStr
  state : State
  replayed : Bool
  certificate : Option Json
  reason : Option Reason

/-- One line of the report of `recover`. -/
structure Report where
  intentId : PyStr
  before : State
  after : State

namespace Coordinator

variable {P : Platform} (C : Coordinator P)

/-- A procedure on a home. -/
abbrev M (α : Type) := Proc World Fault α

/-- The key id of the finalizer. -/
def finalizerKid : PyStr := P.keyId (P.publicRaw C.finalizerSk)

/-! ## Plumbing -/

/-- A reading of the injected clock. -/
def readClock : M ℚ := do
  let w ← read
  update fun w => { w with tick := w.tick + 1 }
  return C.clock w.tick

/-- `_now`. -/
def now : M PyStr := do
  let t ← C.readClock
  ofOption .clockRange (P.formatTime t)

/-- `_locked`: the journal is read back and its chain checked. -/
def load : M Unit := do
  let w ← read
  ensure .journalCorrupt (decide (Chained P w.journal))

/-- A fresh connection's view of the store. -/
def snapshot : M Snapshot := do
  let w ← read
  ofOption .canonicalization (w.store.snapshot P)

variable (signed : Json) (journal : List Record) (intentId : PyStr)

/-- `_append`: a binding record must be a legal next step of its intent. -/
def append (body : Body) : M Unit := do
  let w ← read
  let kinds := (binding w.journal intentId).map (·.kind)
  ensure .illegalTransition
    (!body.detail.kind.binding || (stateAfter (kinds ++ [body.detail.kind])).isSome)
  let stamp ← C.now
  let r ← ofOption .canonicalization (nextRecord P w.journal intentId body stamp)
  persist .killed fun w => { w with journal := w.journal ++ [r] }

/-! ## Admission -/

/-- The validity window of a payload that passes the rest of the schema checks: its bounds,
its UUID and its two times. -/
def window? (i : Intent) : Option (ℚ × ℚ) :=
  if i.bounded && P.isUuid i.intentId then do
    let issued ← P.parseTime i.issuedAt
    let expires ← P.parseTime i.expiresAt
    return (issued, expires)
  else none

/-- The checks of protocol and operation. -/
def formRefusal (i : Intent) : Option Reason :=
  if i.protocol ≠ "veklom.vdb.c1.intent/v1" then some .protocol
  else if i.op ≠ "UPSERT" then some .op
  else none

/-- The checks of namespace, key and signature. -/
def keyRefusal (s : SignedIntent) (ns : PyStr) : Option Reason :=
  if s.intent.ns ≠ ns then some .ns
  else if s.envelope.field? "kid" ≠ some (.str s.intent.authorityKid) then some .kidMismatch
  else if (FieldMap.lookup s.intent.authorityKid C.authorityKeys).isNone then some .untrustedKey
  else if !P.verifySigned s.envelope C.authorityKeys then some .badSignature
  else none

/-- The checks of lifetime and validity window, in double arithmetic. -/
def timeRefusal (window : ℚ × ℚ) (now : ℚ) : Option Reason :=
  if 600 < Json.roundDouble (window.2 - window.1) ∨ window.2 ≤ window.1 then some .ttl
  else if now < Json.roundDouble (window.1 - 5) then some .notYetValid
  else if window.2 ≤ now then some .expired
  else none

/-- `_admission`: the reason to refuse the value, or the intent it signs. -/
def admission : M (Except Reason SignedIntent) :=
  match SignedIntent.ofJson? signed with
  | none => pure (.error .schema)
  | some s =>
    match window? (P := P) s.intent, formRefusal s.intent with
    | none, _ => pure (.error .schema)
    | some _, some reason => pure (.error reason)
    | some window, none => do
      let snap ← snapshot (P := P)
      match C.keyRefusal s snap.ns with
      | some reason => pure (.error reason)
      | none => do
        let now ← C.readClock
        match timeRefusal window now with
        | some reason => pure (.error reason)
        | none => pure (.ok s)

/-! ## Commit confirmation and finality -/

/-- What the fresh read of `_confirm_commit` contradicts. -/
def freshReadProblems (pb : PreparedBody) (intentHash : Option PyStr)
    (applied : Option AppliedRow) (fresh : Snapshot) : List Problem :=
  let i := pb.signed.intent
  let expectedEntries := KeyedTable.ordered
    (pb.preEntries.filter (fun r => r.1 ≠ i.key) ++ [(i.key, i.value)])
  (if applied.map AppliedRow.intentHash ≠ intentHash ∨ applied = none then [.appliedRow] else []) ++
  (if fresh.storeId ≠ pb.storeId then [.storeId] else []) ++
  (if applied.any fun row =>
      !(fresh.generation = row.generation ∧ row.generation = pb.preGeneration + 1)
    then [.generation] else []) ++
  (if applied.any fun row => fresh.root ≠ row.postRoot then [.postRoot] else []) ++
  (if fresh.entries ≠ expectedEntries then [.entries] else [])

/-- The payload of the finality certificate. -/
def certificatePayload (prepared committed : Record) (pb : PreparedBody)
    (cb : CommittedBody) : Json :=
  let i := pb.signed.intent
  .obj [("protocol", "veklom.vdb.c1.finality/v1"), ("intent_id", .str intentId),
    ("intent_hash", optStr prepared.body.intentHash),
    ("namespace", .str i.ns),
    ("authority_kid", .str i.authorityKid),
    ("expected_generation", .int i.expectedGeneration),
    ("pre_root", .str pb.preRoot),
    ("payload_commitment", .str pb.payloadCommitment),
    ("post_generation", .int cb.postGeneration),
    ("post_root", .str cb.postRoot),
    ("physical", .obj (("applied_row", cb.appliedRow.toJson) :: physicalFields cb.storeId)),
    ("journal", .obj [("prepared_seq", .int prepared.seq), ("prepared_hash", .str prepared.hash),
      ("committed_seq", .int committed.seq), ("committed_hash", .str committed.hash)]),
    ("finalized_at", .str committed.stamp),
    ("finalizer_kid", .str C.finalizerKid)]

/-- The first record's PREPARED body and the COMMITTED record among the records of an
intent. -/
def finalityRecords (recs : List Record) :
    Option ((Record × PreparedBody) × (Record × CommittedBody)) := do
  let prepared ← recs.head?
  let committed ← recs.find? fun r => r.kind = .committed
  match prepared.body.detail, committed.body.detail with
  | .prepared pb, .committed cb => some ((prepared, pb), (committed, cb))
  | _, _ => none

/-- `_finalize`, with `_certificate`. -/
def finalize : M Unit := do
  let w ← read
  let recs ← ofOption .missingRecord (finalityRecords (binding w.journal intentId))
  let payload := C.certificatePayload intentId recs.1.1 recs.2.1 recs.1.2 recs.2.2
  let cert ← ofOption .canonicalization (P.signPayload payload C.finalizerSk C.finalizerKid)
  C.append intentId ⟨recs.1.1.body.intentHash, .finalized cert⟩

/-- The PREPARED record an intent's protocol run starts with. -/
def preparedOf (recs : List Record) : Option (Record × PreparedBody) := do
  let r ← recs.head?
  match r.body.detail with
  | .prepared pb => some (r, pb)
  | _ => none

/-- `_confirm_commit`: a fresh read must prove the commit; then COMMITTED and FINALIZED. -/
def confirmCommit (recovered : Bool) : M Bool := do
  let w ← read
  let prepared ← ofOption .missingRecord (preparedOf (binding w.journal intentId))
  let pb := prepared.2
  let intentHash := prepared.1.body.intentHash
  let fresh ← snapshot (P := P)
  match w.store.appliedRow intentId,
      freshReadProblems pb intentHash (w.store.appliedRow intentId) fresh with
  | some row, [] => do
    C.append intentId ⟨intentHash, .committed ⟨fresh.generation, fresh.root, fresh.entries, row,
      fresh.storeId, recovered⟩⟩
    C.finalize intentId
    return true
  | _, problems =>
    if (binding w.journal intentId).getLast?.map (·.kind) ≠ some .commitUncertain then do
      C.append intentId ⟨intentHash, .commitUncertain (.freshReadMismatch problems)⟩
      return false
    else return false

/-- `_result`. -/
def result (replayed : Bool) : M Outcome := do
  let w ← read
  let recs := binding w.journal intentId
  let state ← ofOption .illegalTransition (stateAfter (recs.map (·.kind)))
  let last ← ofOption .missingRecord recs.getLast?
  match state, last.body.detail with
  | .finalized, .finalized cert => return ⟨intentId, state, replayed, some cert, none⟩
  | .finalized, _ => throw .missingRecord
  | _, detail => return ⟨intentId, state, replayed, none, detail.reason?⟩

/-! ## Submission -/

/-- `apply_upsert`: the transaction runs, `before_commit` journals COMMITTING, and the
COMMIT makes the store durable. Whatever stops it before the COMMIT rolls it back. -/
def applyUpsert (intentHash : Option PyStr) (i : Intent) : M Unit := do
  update fun w => { w with executions := w.executions ++ [(intentId, intentHash)] }
  let w ← read
  match w.store.transaction P intentId intentHash i.key i.value i.expectedGeneration
      i.expectedRoot with
  | .error fault => throw (.storage fault)
  | .ok (store, _) => do
    C.append intentId ⟨intentHash, .committing⟩
    persist .killed fun w => { w with store := store }

/-- The reason of a `PreconditionFailed`. -/
def preconditionReason : Fault → Option Reason
  | .storage .staleGeneration => some .staleGeneration
  | .storage .rootMismatch => some .rootMismatch
  | _ => none

/-- The protocol run of an admitted intent whose precondition holds. -/
def attempt (s : SignedIntent) (intentId : PyStr) (intentHash : Option PyStr)
    (pre : Snapshot) : M Outcome := do
  let i := s.intent
  let admittedAt ← C.now
  let commitment ← ofOption .canonicalization
    (P.payloadCommitment (.str i.op) (.str i.key) (.str i.value))
  C.append intentId ⟨intentHash, .prepared ⟨s, admittedAt, pre.storeId, pre.generation, pre.root,
    pre.entries, commitment⟩⟩
  let refused ← tryCatch (do C.applyUpsert intentId intentHash i; return none) fun e =>
    match preconditionReason e with
    | some reason => return some reason
    | none => throw e
  match refused with
  | some reason => do
    C.append intentId ⟨intentHash, .aborted reason⟩
    result intentId false
  | none => do
    let _ ← C.confirmCommit intentId false
    result intentId false

/-- `_reject`. -/
def reject (intentHash : Option PyStr) (reason : Reason) : M Outcome := do
  C.append intentId ⟨intentHash, .admissionRejected reason⟩
  return ⟨intentId, .admissionRejected, false, none, some reason⟩

/-- The record and the outcome of a failed precondition. -/
def rejectPrecondition (s : SignedIntent) (intentId : PyStr) (intentHash : Option PyStr)
    (pre : Snapshot) (reason : Reason) : M Outcome := do
  C.append intentId ⟨intentHash, .preconditionRejected reason s pre⟩
  return ⟨intentId, .preconditionRejected, false, none, some reason⟩

/-- The payload of a submitted value; `None` if it has none. -/
def payloadOf : Json := (signed.get? "payload").getD .null

/-- The intent id under which a submitted value is recorded. -/
def intentIdOf : PyStr := ((payloadOf signed).str? "intent_id").getD "unknown"

/-- The hash under which a submitted value is recorded: none if the payload is no dictionary
or has no canonical encoding. -/
def intentHashOf (P : Platform) (signed : Json) : Option PyStr :=
  match payloadOf signed with
  | .obj fields => P.digest (.obj fields)
  | _ => none

/-- The binding records of a submitted value's intent id. -/
def boundRecords : List Record :=
  if intentId ≠ "unknown" then binding journal intentId else []

/-- `_submit_locked`. -/
def submitLocked : M Outcome := do
  let w ← read
  let intentId := intentIdOf signed
  let intentHash := intentHashOf P signed
  match boundRecords w.journal intentId with
  | first :: _ =>
    if first.body.intentHash ≠ intentHash then C.reject intentId intentHash .intentConflict
    else if !P.verifySigned signed C.authorityKeys then
      C.reject intentId intentHash .badSignature
    else result intentId true
  | [] => do
    match ← C.admission signed with
    | .error reason => C.reject intentId intentHash reason
    | .ok s => do
      let pre ← snapshot (P := P)
      if (pre.generation : ℤ) ≠ s.intent.expectedGeneration then
        C.rejectPrecondition s intentId intentHash pre .staleGeneration
      else if pre.root ≠ s.intent.expectedRoot then
        C.rejectPrecondition s intentId intentHash pre .rootMismatch
      else C.attempt s intentId intentHash pre

/-! ## Recovery -/

/-- The intents with a PREPARED record, in the order of their first one. -/
def seenIntents : List PyStr :=
  journal.foldl (fun seen r =>
    if r.kind = .prepared ∧ r.intentId ∉ seen then seen ++ [r.intentId] else seen) []

/-- `_recover_one`. -/
def recoverOne (kinds : List Kind) : M Unit := do
  let w ← read
  let first ← ofOption .missingRecord (binding w.journal intentId).head?
  let last ← ofOption .missingRecord kinds.getLast?
  let intentHash := first.body.intentHash
  let applied := w.store.appliedRow intentId
  match last with
  | .prepared =>
    if applied.isSome then throw .recovery
    else C.append intentId ⟨intentHash, .aborted .crashBeforeStorageTransaction⟩
  | .committed => C.finalize intentId
  | last => do
    if last = .committing then
      C.append intentId ⟨intentHash, .commitUncertain .outcomeUnknownAfterCrash⟩
    else pure ()
    if applied.isNone then C.append intentId ⟨intentHash, .aborted .storageCommitNotDurable⟩
    else do
      let _ ← C.confirmCommit intentId true
      pure ()

/-- One round of the loop of `_recover_locked`. -/
def recoverNext (report : List Report) (intentId : PyStr) : M (List Report) := do
  let w ← read
  let kinds := (binding w.journal intentId).map (·.kind)
  let before ← ofOption .illegalTransition (stateAfter kinds)
  if before.terminal then return report
  else do
    C.recoverOne intentId kinds
    let w' ← read
    let after ← ofOption .illegalTransition
      (stateAfter ((binding w'.journal intentId).map (·.kind)))
    return report ++ [⟨intentId, before, after⟩]

/-- `_recover_locked`. -/
def recoverLocked : M (List Report) := do
  let w ← read
  (seenIntents w.journal).foldlM C.recoverNext []

/-- `submit`. -/
def submit : M Outcome := do
  load (P := P)
  let _ ← C.recoverLocked
  C.submitLocked signed

/-- `recover`. -/
def recover : M (List Report) := do
  load (P := P)
  C.recoverLocked

/-! ## Export -/

/-- The records a checkpoint covers after the finality at `seq`; `cp_seq` must lie between
the finality and the end of the journal. -/
def suffixOf (seq : ℕ) (checkpoint : Json) : Option (List Record) := do
  let payload ← checkpoint.field? "payload"
  let cpSeq ← (← payload.field? "seq").index?
  if (seq : ℤ) ≤ cpSeq ∧ cpSeq < journal.length then
    some ((journal.take (cpSeq.toNat + 1)).drop (seq + 1))
  else none

/-- The member `witness` of a bundle. -/
def witnessFields (seq : ℕ) : Option Json → Option (List (PyStr × Json))
  | none => some []
  | some checkpoint => do
    let suffix ← suffixOf journal seq checkpoint
    return [("witness", .obj [("checkpoint", checkpoint),
      ("journal_suffix", .arr (suffix.map Record.toJson))])]

/-- `export_bundle`. -/
def exportBundle (checkpoint : Option Json) : M Json := do
  load (P := P)
  let w ← read
  match (forIntent w.journal intentId).filter fun r => r.kind = .finalized with
  | [fin] =>
    match fin.body.detail with
    | .finalized cert => do
      let witness ← ofOption .notExportable (witnessFields w.journal fin.seq checkpoint)
      let digest ← ofOption .canonicalization (P.digest cert)
      return .obj (bundleFields (.str intentId)
        ((w.journal.take (fin.seq + 1)).map Record.toJson) cert digest ++ witness)
    | _ => throw .notExportable
  | _ => throw .notExportable

/-! ## Runs -/

/-- A call on the home. -/
inductive Call where
  | submit (signed : Json)
  | recover

/-- The call as a procedure. -/
def Call.proc : Call → M Unit
  | .submit signed => do let _ ← C.submit signed
  | .recover => do let _ ← C.recover

/-- The world a call leaves, whether it returns, raises or is killed after `budget` durable
writes. -/
def Call.run (w : World) (call : Call × Option ℕ) : World :=
  (call.1.proc C ⟨w, call.2⟩).2.world

/-- The world a sequence of calls leaves. -/
def run (w : World) (calls : List (Call × Option ℕ)) : World := calls.foldl (Call.run C) w

/-- A home as `init_home` leaves it; SQLite takes no text that has no UTF-8 encoding. -/
def freshHome (ns storeId : { s : PyStr // s.encodable = true }) (tick : ℕ) : World :=
  ⟨[], Store.create ns storeId, tick, []⟩

end Coordinator

end VdbC1
