import Cappo.VdbC1.Canon

/-!
# Signed intents

The envelope and payload of an intent, and the reasons the coordinator gives for what it
records. A `SignedIntent` is a submitted value that passed the schema checks of
`_admission`: it carries the typed payload together with the proof that it is the payload.
-/

namespace VdbC1

open Option

namespace Json

/-- The string member `k`. -/
def str? (k : PyStr) (j : Json) : Option PyStr :=
  match j.field? k with
  | some (.str s) => some s
  | _ => none

/-- The integer member `k`; booleans and floats are not integers here. -/
def int? (k : PyStr) (j : Json) : Option ℤ :=
  match j.field? k with
  | some (.int n) => some n
  | _ => none

lemma field?_of_str? {k s : PyStr} {j : Json} (h : j.str? k = some s) :
    j.field? k = some (.str s) := by
  unfold str? at h
  split at h
  · rename_i heq
    rw [heq, some.inj h]
  · simp at h

lemma field?_of_int? {k : PyStr} {n : ℤ} {j : Json} (h : j.int? k = some n) :
    j.field? k = some (.int n) := by
  unfold int? at h
  split at h
  · rename_i heq
    rw [heq, some.inj h]
  · simp at h

end Json

/-- The payload of an intent. -/
structure Intent where
  protocol : PyStr
  intentId : PyStr
  ns : PyStr
  op : PyStr
  key : PyStr
  value : PyStr
  expectedGeneration : ℤ
  expectedRoot : PyStr
  issuedAt : PyStr
  expiresAt : PyStr
  authorityKid : PyStr
  deriving DecidableEq

namespace Intent

/-- The payload, if every member has its type: strings, and an integer
`expected_generation`. -/
def ofPayload? (p : Json) : Option Intent := do
  let protocol ← p.str? "protocol"
  let intentId ← p.str? "intent_id"
  let ns ← p.str? "namespace"
  let op ← p.str? "op"
  let key ← p.str? "key"
  let value ← p.str? "value"
  let expectedGeneration ← p.int? "expected_generation"
  let expectedRoot ← p.str? "expected_root"
  let issuedAt ← p.str? "issued_at"
  let expiresAt ← p.str? "expires_at"
  let authorityKid ← p.str? "authority_kid"
  return ⟨protocol, intentId, ns, op, key, value, expectedGeneration, expectedRoot, issuedAt,
    expiresAt, authorityKid⟩

/-- The members of the payload `p` are those of the intent. -/
structure Reads (i : Intent) (p : Json) : Prop where
  protocol : p.field? "protocol" = some (.str i.protocol)
  intentId : p.field? "intent_id" = some (.str i.intentId)
  ns : p.field? "namespace" = some (.str i.ns)
  op : p.field? "op" = some (.str i.op)
  key : p.field? "key" = some (.str i.key)
  value : p.field? "value" = some (.str i.value)
  expectedGeneration : p.field? "expected_generation" = some (.int i.expectedGeneration)
  expectedRoot : p.field? "expected_root" = some (.str i.expectedRoot)
  issuedAt : p.field? "issued_at" = some (.str i.issuedAt)
  expiresAt : p.field? "expires_at" = some (.str i.expiresAt)
  authorityKid : p.field? "authority_kid" = some (.str i.authorityKid)

lemma reads_of_ofPayload? {p : Json} {i : Intent} (h : ofPayload? p = some i) : i.Reads p := by
  simp only [ofPayload?, bind_eq_bind, bind_eq_some_iff, pure_def, Option.some.injEq] at h
  obtain ⟨_, h1, _, h2, _, h3, _, h4, _, h5, _, h6, _, h7, _, h8, _, h9, _, h10, _, h11, rfl⟩ := h
  exact ⟨Json.field?_of_str? h1, Json.field?_of_str? h2, Json.field?_of_str? h3,
    Json.field?_of_str? h4, Json.field?_of_str? h5, Json.field?_of_str? h6,
    Json.field?_of_int? h7, Json.field?_of_str? h8, Json.field?_of_str? h9,
    Json.field?_of_str? h10, Json.field?_of_str? h11⟩

/-- The bounds `_admission` puts on a typed payload: a generation that is not negative and
sizes within `MAX_KEY` and `MAX_VALUE`. -/
def bounded (i : Intent) : Bool :=
  decide (0 ≤ i.expectedGeneration) && decide (i.key.length ≤ 256) &&
    decide (i.value.length ≤ 65536) && !i.key.isEmpty

end Intent

/-- A submitted value with the members `_admission` requires. -/
structure SignedIntent where
  envelope : Json
  payload : Json
  intent : Intent
  payload_eq : envelope.field? "payload" = some payload
  reads : intent.Reads payload

/-- `ENVELOPE_KEYS` of `coordinator.py`. -/
def envelopeKeys : List PyStr := ["alg", "kid", "payload", "sig"]

/-- `INTENT_KEYS` of `coordinator.py`. -/
def intentKeys : List PyStr :=
  ["protocol", "intent_id", "namespace", "op", "key", "value", "expected_generation",
    "expected_root", "issued_at", "expires_at", "authority_kid"]

/-- The value is a dictionary with exactly these keys. -/
def Json.isDictOf (keys : List PyStr) : Json → Bool
  | .obj fields => Json.hasKeys keys fields
  | _ => false

/-- A dictionary with exactly these keys has an encoding if its members under them have. -/
lemma Json.encodable_of_isDictOf {keys : List PyStr} {j : Json} (h : j.isDictOf keys = true)
    (hkeys : ∀ k ∈ keys, k.encodable = true ∧ ∀ v, j.field? k = some v → v.encodable = true) :
    j.encodable = true := by
  cases j with
  | obj fields =>
    obtain ⟨hall, -⟩ := Bool.and_eq_true_iff.mp h
    refine Json.encodable_obj_iff.mpr fun k v hk => ?_
    have hmem : k ∈ keys := by
      simpa using List.all_eq_true.mp hall (k, v) (FieldMap.mem_of_lookup hk)
    exact ⟨(hkeys k hmem).1, (hkeys k hmem).2 v hk⟩
  | _ => simp [Json.isDictOf] at h

namespace SignedIntent

/-- The schema checks of `_admission` on the shape of the value: the exact keys of envelope
and payload and the types of the payload's members. -/
def ofJson? (signed : Json) : Option SignedIntent :=
  if signed.isDictOf envelopeKeys then
    match hp : signed.field? "payload" with
    | none => none
    | some payload =>
      if payload.isDictOf intentKeys then
        match hi : Intent.ofPayload? payload with
        | none => none
        | some intent => some ⟨signed, payload, intent, hp, Intent.reads_of_ofPayload? hi⟩
      else none
  else none

lemma ofJson?_eq_some (h : ofJson? signed = some s) :
    s.envelope = signed ∧ signed.isDictOf envelopeKeys = true := by
  unfold ofJson? at h
  split_ifs at h with hkeys
  split at h
  · simp at h
  · split_ifs at h
    split at h
    · simp at h
    · exact ⟨by rw [← some.inj h], hkeys⟩

end SignedIntent

/-! ## Making an intent -/

/-- The payload as JSON. -/
def Intent.payload (i : Intent) : Json :=
  .obj [("protocol", .str i.protocol), ("intent_id", .str i.intentId), ("namespace", .str i.ns),
    ("op", .str i.op), ("key", .str i.key), ("value", .str i.value),
    ("expected_generation", .int i.expectedGeneration), ("expected_root", .str i.expectedRoot),
    ("issued_at", .str i.issuedAt), ("expires_at", .str i.expiresAt),
    ("authority_kid", .str i.authorityKid)]

/-- `make_intent` of `coordinator.py`, at the time `now` and for a given intent id. -/
def Platform.makeIntent (P : Platform) (sk : P.SecretKey) (kid ns key value : PyStr)
    (expectedGeneration : ℤ) (expectedRoot : PyStr) (ttl : ℤ) (now : ℚ) (intentId : PyStr) :
    Option Json := do
  let issuedAt ← P.formatTime now
  let expiresAt ← P.formatTime (Json.roundDouble (now + ttl))
  P.signPayload (Intent.payload ⟨"veklom.vdb.c1.intent/v1", intentId, ns, "UPSERT", key, value,
    expectedGeneration, expectedRoot, issuedAt, expiresAt, kid⟩) sk kid

lemma Intent.ofPayload?_payload (i : Intent) : ofPayload? i.payload = some i := by
  simp [ofPayload?, payload, Json.str?, Json.int?]

/-- An envelope around the payload of an intent passes the schema checks. -/
lemma SignedIntent.ofJson?_envelope (i : Intent) (kid sig : PyStr) :
    ∃ s, ofJson? (Platform.envelope i.payload kid sig) = some s ∧ s.intent = i := by
  have hkeys : (Platform.envelope i.payload kid sig).isDictOf envelopeKeys = true := rfl
  have hikeys : i.payload.isDictOf intentKeys = true := rfl
  have hfield : (Platform.envelope i.payload kid sig).field? "payload" = some i.payload := by
    simp [Platform.envelope]
  refine ⟨⟨_, i.payload, i, hfield, Intent.reads_of_ofPayload? i.ofPayload?_payload⟩, ?_, rfl⟩
  rw [ofJson?, if_pos hkeys]
  split
  · rename_i hp
    simp [hfield] at hp
  · rename_i payload hp
    obtain rfl := mem_unique hfield hp
    rw [if_pos hikeys]
    split
    · rename_i hi
      simp [Intent.ofPayload?_payload] at hi
    · rename_i intent hi
      obtain rfl := some.inj (i.ofPayload?_payload.symm.trans hi)
      rfl

lemma SignedIntent.ofJson?_signPayload {P : Platform} {i : Intent} {sk : P.SecretKey}
    {kid : PyStr} {signed : Json} (h : P.signPayload i.payload sk kid = some signed) :
    ∃ s, ofJson? signed = some s ∧ s.intent = i ∧ signed.field? "kid" = some (.str kid) := by
  obtain ⟨m, -, rfl⟩ := map_eq_some_iff.mp h
  obtain ⟨s, hs, hi⟩ := ofJson?_envelope i kid (Platform.b64u (P.sign sk m))
  exact ⟨s, hs, hi, by simp [Platform.envelope]⟩

/-- What a fresh read of the store can contradict. -/
inductive Problem where
  | appliedRow | storeId | generation | postRoot | entries
  deriving DecidableEq

/-- The problem's text in a reason. -/
def Problem.text : Problem → String
  | appliedRow => "applied_row"
  | storeId => "store_id"
  | generation => "generation"
  | postRoot => "post_root"
  | entries => "entries"

/-- The reasons the coordinator records and returns. -/
inductive Reason where
  | schema | protocol | op | ns | kidMismatch | untrustedKey | badSignature | ttl | notYetValid
  | expired | intentConflict | staleGeneration | rootMismatch | crashBeforeStorageTransaction
  | outcomeUnknownAfterCrash | storageCommitNotDurable
  | freshReadMismatch (problems : List Problem)
  deriving DecidableEq

/-- The reason's text. -/
def Reason.text : Reason → String
  | schema => "E_SCHEMA"
  | protocol => "E_PROTOCOL"
  | op => "E_OP"
  | ns => "E_NAMESPACE"
  | kidMismatch => "E_KID_MISMATCH"
  | untrustedKey => "E_UNTRUSTED_KEY"
  | badSignature => "E_BAD_SIGNATURE"
  | ttl => "E_TTL"
  | notYetValid => "E_NOT_YET_VALID"
  | expired => "E_EXPIRED"
  | intentConflict => "E_INTENT_CONFLICT"
  | staleGeneration => "E_STALE_GENERATION"
  | rootMismatch => "E_ROOT_MISMATCH"
  | crashBeforeStorageTransaction => "E_CRASH_BEFORE_STORAGE_TRANSACTION"
  | outcomeUnknownAfterCrash => "E_OUTCOME_UNKNOWN_AFTER_CRASH"
  | storageCommitNotDurable => "E_STORAGE_COMMIT_NOT_DURABLE"
  | freshReadMismatch problems =>
    "E_FRESH_READ_MISMATCH:" ++ String.intercalate "," (problems.map Problem.text)

end VdbC1
