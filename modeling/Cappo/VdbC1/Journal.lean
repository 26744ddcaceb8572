import Cappo.Lib.HashChain
import Cappo.VdbC1.Intent
import Cappo.VdbC1.StateAdapter
import Cappo.VdbC1.States

/-!
# The protocol journal

The records of `journal.py`, with one body for each kind of record, their JSON and their
hash chain. A line of the file is kept as the record it parses to: a record is appended
whole or, cut off by a crash, dropped on the next open.

## Main results

* `Draft.encodable_iff`: which records can be appended at all;
* `chained_concat`: an appended record continues the chain.
-/

namespace VdbC1

/-- The body of a PREPARED record. -/
structure PreparedBody where
  signed : SignedIntent
  admittedAt : PyStr
  storeId : PyStr
  preGeneration : ℕ
  preRoot : PyStr
  preEntries : List (PyStr × PyStr)
  payloadCommitment : PyStr

/-- The body of a COMMITTED record. -/
structure CommittedBody where
  postGeneration : ℕ
  postRoot : PyStr
  postEntries : List (PyStr × PyStr)
  appliedRow : AppliedRow
  storeId : PyStr
  recovered : Bool

/-- What a record says beyond the hash of its intent, one constructor for each kind. -/
inductive Detail where
  | admissionRejected (reason : Reason)
  | preconditionRejected (reason : Reason) (signed : SignedIntent) (observed : Snapshot)
  | prepared (b : PreparedBody)
  | committing
  | commitUncertain (reason : Reason)
  | committed (b : CommittedBody)
  | finalized (certificate : Json)
  | aborted (reason : Reason)

/-- The body of a record; every body names the hash of its intent. -/
structure Body where
  intentHash : Option PyStr
  detail : Detail

/-- A record before it is hashed. -/
structure Draft where
  seq : ℕ
  prev : PyStr
  stamp : PyStr
  intentId : PyStr
  body : Body

/-- A journal record. -/
structure Record extends Draft where
  hash : PyStr

/-! ## JSON -/

/-- `durability` of the adapter, with the store's id. -/
def physicalFields (storeId : PyStr) : List (PyStr × Json) :=
  [("adapter", "sqlite-wal/v1"), ("journal_mode", "wal"), ("synchronous", "FULL"),
    ("store_id", .str storeId)]

/-- The members of a PREPARED body. -/
def PreparedBody.fields (b : PreparedBody) : List (PyStr × Json) :=
  [("signed_intent", b.signed.envelope),
    ("admission", .obj [("authority_kid", .str b.signed.intent.authorityKid),
      ("admitted_at", .str b.admittedAt),
      ("checks", .arr ["schema", "protocol", "op", "namespace", "kid", "trusted_key",
        "signature", "validity_window", "ttl"])]),
    ("store_id", .str b.storeId),
    ("pre_generation", .int b.preGeneration),
    ("pre_root", .str b.preRoot),
    ("pre_entries", entriesJson b.preEntries),
    ("payload_commitment", .str b.payloadCommitment)]

/-- The members of a COMMITTED body. -/
def CommittedBody.fields (b : CommittedBody) : List (PyStr × Json) :=
  [("post_generation", .int b.postGeneration), ("post_root", .str b.postRoot),
    ("post_entries", entriesJson b.postEntries),
    ("applied_row", b.appliedRow.toJson),
    ("physical", .obj (physicalFields b.storeId)),
    ("recovered", .bool b.recovered)]

namespace Detail

/-- The kind of record the detail belongs to. -/
def kind : Detail → Kind
  | admissionRejected _ => .admissionRejected
  | preconditionRejected .. => .preconditionRejected
  | prepared _ => .prepared
  | committing => .committing
  | commitUncertain _ => .commitUncertain
  | committed _ => .committed
  | finalized _ => .finalized
  | aborted _ => .aborted

/-- The reason a record gives, if it gives one. -/
def reason? : Detail → Option Reason
  | admissionRejected r => some r
  | preconditionRejected r _ _ => some r
  | commitUncertain r => some r
  | aborted r => some r
  | _ => none

/-- The members of the body besides the intent's hash. -/
def fields : Detail → List (PyStr × Json)
  | admissionRejected r => [("reason", r.text)]
  | preconditionRejected r signed observed =>
    [("reason", r.text), ("signed_intent", signed.envelope),
      ("observed_generation", .int observed.generation), ("observed_root", .str observed.root)]
  | prepared b => b.fields
  | committing => []
  | commitUncertain r => [("reason", r.text)]
  | committed b => b.fields
  | finalized certificate => [("certificate", certificate)]
  | aborted r => [("reason", r.text)]

end Detail

/-- An optional string; `None` is `null`. -/
def optStr : Option PyStr → Json
  | some s => .str s
  | none => .null

/-- The body as JSON. -/
def Body.toJson (b : Body) : Json := .obj (("intent_hash", optStr b.intentHash) :: b.detail.fields)

namespace Draft

/-- The kind of the record. -/
def kind (d : Draft) : Kind := d.body.detail.kind

/-- The members of the record before it is hashed. -/
def fields (d : Draft) : List (PyStr × Json) :=
  [("protocol", "veklom.vdb.c1.journal/v1"), ("seq", .int d.seq), ("prev", .str d.prev),
    ("at", .str d.stamp), ("kind", d.kind.text), ("intent_id", .str d.intentId),
    ("body", d.body.toJson)]

/-- The record before it is hashed, as JSON. -/
def toJson (d : Draft) : Json := .obj d.fields

/-- A record can be hashed exactly when its position, its texts and its body have an
encoding. -/
theorem encodable_iff (d : Draft) : d.toJson.encodable = true ↔
      (d.seq : ℤ) ≤ Json.maxSafe ∧ d.prev.encodable = true ∧ d.stamp.encodable = true ∧
        d.intentId.encodable = true ∧ d.body.toJson.encodable = true := by
  constructor
  · intro h
    have hread := fun k v => Json.encodable_field? h (k := k) (v := v)
    have hseq := hread "seq" (.int d.seq) (by simp [toJson, fields])
    refine ⟨?_, hread "prev" (.str d.prev) (by simp [toJson, fields]),
      hread "at" (.str d.stamp) (by simp [toJson, fields]),
      hread "intent_id" (.str d.intentId) (by simp [toJson, fields]),
      hread "body" d.body.toJson (by simp [toJson, fields])⟩
    simpa using hseq
  · rintro ⟨hseq, hprev, hstamp, hid, hbody⟩
    refine Json.encodable_obj ?_
    simp [fields, hprev, hstamp, hid, hbody, hseq]

end Draft

namespace Record

variable (r : Record)

/-- The record as JSON. -/
def toJson : Json := .obj (r.fields ++ [(PyStr.ofString "hash", Json.str r.hash)])

/-! The members of a record as a reader of the file finds them. -/

@[simp]
lemma field?_seq : r.toJson.field? "seq" = some (.int r.seq) := by
  simp [toJson, Draft.fields]

@[simp]
lemma field?_stamp : r.toJson.field? "at" = some (.str r.stamp) := by
  simp [toJson, Draft.fields]

@[simp]
lemma field?_kind : r.toJson.field? "kind" = some (.str r.kind.text) := by
  simp [toJson, Draft.fields]

@[simp]
lemma field?_intentId : r.toJson.field? "intent_id" = some (.str r.intentId) := by
  simp [toJson, Draft.fields]

@[simp]
lemma field?_body : r.toJson.field? "body" = some r.body.toJson := by
  simp [toJson, Draft.fields]

@[simp]
lemma field?_hash : r.toJson.field? "hash" = some (.str r.hash) := by
  simp [toJson, Draft.fields]

/-- Leaving out the hash gives what was hashed. -/
lemma without_hash : r.toJson.without "hash" = some r.toDraft.toJson := by
  simp [toJson, Json.without, FieldMap.erase, Draft.toJson, Draft.fields]

end Record

/-! ## The chain -/

section Chain

variable (P : Platform)

/-- The check of one line in `_load`. -/
def validRecord (i : ℕ) (prev : PyStr) (r : Record) : Prop :=
  r.seq = i ∧ r.prev = prev ∧ P.digest r.toDraft.toJson = some r.hash

instance (i : ℕ) (prev : PyStr) (r : Record) : Decidable (validRecord P i prev r) :=
  inferInstanceAs (Decidable (_ ∧ _ ∧ _))

variable (journal : List Record)

/-- The check of the whole journal in `_load`. -/
def Chained : Prop :=
  HashChain.Chain Record.hash (validRecord P) 0 "genesis" journal

instance (journal : List Record) : Decidable (Chained P journal) :=
  HashChain.decidableChain _ _ journal 0 _

/-- The hash the next record names as its predecessor. -/
def lastHash : PyStr := HashChain.head Record.hash "genesis" journal

/-- The record `append` is about to hash. -/
def nextDraft (intentId : PyStr) (body : Body) (stamp : PyStr) : Draft :=
  ⟨journal.length, lastHash journal, stamp, intentId, body⟩

/-- The record `append` writes; hashing it raises if it has no encoding. -/
def nextRecord (intentId : PyStr) (body : Body) (stamp : PyStr) : Option Record :=
  (P.digest (nextDraft journal intentId body stamp).toJson).map fun hash =>
    { nextDraft journal intentId body stamp with hash := hash }

variable {P}

variable {intentId : PyStr} {journal : List Record} {r : Record}

lemma nextRecord_eq_some (h : nextRecord P journal intentId body stamp = some r) :
    r.toDraft = nextDraft journal intentId body stamp ∧
      P.digest r.toDraft.toJson = some r.hash := by
  obtain ⟨hash, hhash, rfl⟩ := Option.map_eq_some_iff.mp h
  exact ⟨rfl, hhash⟩

/-- An appended record continues the chain. -/
theorem chained_concat {body : Body} {stamp : PyStr} (hchain : Chained P journal)
    (h : nextRecord P journal intentId body stamp = some r) : Chained P (journal ++ [r]) := by
  obtain ⟨hdraft, hhash⟩ := nextRecord_eq_some h
  refine HashChain.chain_append.mpr ⟨hchain, ?_, trivial⟩
  exact ⟨by rw [hdraft, nextDraft, zero_add], by rw [hdraft]; rfl, hhash⟩

end Chain

/-! ## Records of one intent -/

/-- `for_intent`. -/
def forIntent (journal : List Record) (intentId : PyStr) : List Record :=
  journal.filter fun r => r.intentId = intentId

/-- `_binding`: the records of the intent that belong to its protocol run. -/
def binding (journal : List Record) (intentId : PyStr) : List Record :=
  (forIntent journal intentId).filter fun r => r.kind.binding

lemma mem_binding : r ∈ binding journal intentId ↔
      r ∈ journal ∧ r.intentId = intentId ∧ r.kind.binding = true := by
  simp only [binding, forIntent, List.mem_filter, decide_eq_true_eq, and_assoc]

@[simp]
lemma binding_append (a b : List Record) (intentId : PyStr) :
    binding (a ++ b) intentId = binding a intentId ++ binding b intentId := by
  simp [binding, forIntent]

/-! ## Bundles -/

/-- The members of a bundle about an intent: the journal up to its finality, and the receipt
with the certificate. -/
def bundleFields (intentId : Json) (journal : List Json) (certificate : Json) (digest : PyStr) :
    List (PyStr × Json) :=
  [("protocol", "veklom.vdb.c1.bundle/v1"), ("intent_id", intentId), ("journal", .arr journal),
    ("receipt", .obj [("certificate", certificate), ("certificate_digest", .str digest)])]

end VdbC1
