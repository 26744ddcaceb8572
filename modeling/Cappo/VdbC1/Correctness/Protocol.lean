import Cappo.VdbC1.Coordinator
import Mathlib.Data.Fintype.Sum
import Mathlib.Tactic.DeriveFintype

/-!
# The shape of a home

What the journal and the store of one home can look like, described by what happened and not
by how the coordinator got there. A settled home (`Settled`) is built up, from an empty one,
by rejections and by closed attempts: an attempt is the protocol run of one intent, and
`Stage` says how far it has come. A home is settled, or one attempt on a settled home is
still open (`Open`).

## Main results

* `Settled.binding_cases`: the binding records of an intent are those of one closed attempt;
* `Settled.storeFacts`: what the store of a settled home satisfies;
* `Begins.transaction`: the storage transaction of an attempt on a settled home cannot be
  refused.
-/

namespace VdbC1

open Coordinator List

/-- How far an attempt has come: what is journaled, and whether its transaction is stored. -/
inductive Stage where
  | prepared
  | committing
  | stored
  | uncertain
  | uncertainStored
  | confirmed (uncertain : Bool)
  | finalized (uncertain : Bool)
  | abortedEarly
  | abortedLate
  deriving DecidableEq, Fintype

namespace Stage

/-- The kinds journaled for the attempt. -/
def kinds : Stage → List Kind
  | prepared => [.prepared]
  | committing => [.prepared, .committing]
  | stored => [.prepared, .committing]
  | uncertain => [.prepared, .committing, .commitUncertain]
  | uncertainStored => [.prepared, .committing, .commitUncertain]
  | confirmed false => [.prepared, .committing, .committed]
  | confirmed true => [.prepared, .committing, .commitUncertain, .committed]
  | finalized false => [.prepared, .committing, .committed, .finalized]
  | finalized true => [.prepared, .committing, .commitUncertain, .committed, .finalized]
  | abortedEarly => [.prepared, .aborted]
  | abortedLate => [.prepared, .committing, .commitUncertain, .aborted]

/-- The storage transaction of the attempt is committed. -/
def isStored : Stage → Bool
  | stored => true
  | uncertainStored => true
  | confirmed _ => true
  | finalized _ => true
  | _ => false

/-- Nothing more is journaled for the attempt. -/
def closed : Stage → Bool
  | finalized _ => true
  | abortedEarly => true
  | abortedLate => true
  | _ => false

/-- The state of the intent. -/
def state : Stage → State
  | prepared => .prepared
  | committing => .committing
  | stored => .committing
  | uncertain => .commitUncertain
  | uncertainStored => .commitUncertain
  | confirmed false => .committing
  | confirmed true => .commitUncertain
  | finalized _ => .finalized
  | abortedEarly => .aborted
  | abortedLate => .aborted

/-- Replaying the kinds of a stage gives its state. -/
@[simp]
lemma stateAfter_kinds (st : Stage) : stateAfter st.kinds = some st.state := by
  decide +revert

/-- A stage is closed if its state is terminal. -/
@[simp]
lemma terminal_state (st : Stage) : st.state.terminal = st.closed := by
  decide +revert

lemma binding_of_mem_kinds {st : Stage} (h : k ∈ st.kinds) : k.binding = true := by
  revert k
  decide +revert

lemma length_kinds_le (st : Stage) : st.kinds.length ≤ 5 := by
  decide +revert

lemma finalized_mem_kinds (st : Stage) : .finalized ∈ st.kinds ↔ ∃ u, st = .finalized u := by
  rcases st with _ | _ | _ | _ | _ | (_ | _) | (_ | _) | _ | _ <;> simp [kinds]

end Stage

/-- The intent has binding records and they do not replay to a terminal state. -/
def InFlight (J : List Record) (id : PyStr) : Prop :=
  binding J id ≠ [] ∧ ∀ state, stateAfter ((binding J id).map fun r => r.kind) = some state →
      state.terminal = false

/-- An attempt, known by its PREPARED record. -/
structure Attempt where
  record : Record
  body : PreparedBody
  hash : PyStr
  body_eq : record.body = ⟨some hash, .prepared body⟩

namespace Attempt

/-- The intent id of the attempt. -/
abbrev id (a : Attempt) : PyStr := a.record.intentId

/-- The intent of the attempt. -/
abbrev intent (a : Attempt) : Intent := a.body.signed.intent

lemma kind_record (a : Attempt) : a.record.kind = .prepared := by
  rw [Draft.kind, a.body_eq]
  rfl

end Attempt

section

variable {P : Platform} (C : Coordinator P)

/-- The attempt was admitted on the journal `J` and the store `S`: its id is new, the intent
passed every check at clock reading `n`, and its PREPARED record states the store as it
is. -/
structure Begins (n : ℕ) (J : List Record) (S : Store) (a : Attempt) : Prop where
  fresh : binding J a.id = []
  known : a.id ≠ "unknown"
  id_eq : a.intent.intentId = a.id
  hash_eq : P.digest a.body.signed.payload = some a.hash
  form : formRefusal a.intent = none
  key : C.keyRefusal a.body.signed S.ns = none
  time : ∃ window, window? (P := P) a.intent = some window ∧ timeRefusal window (C.clock n) = none
  admitted : P.formatTime (C.clock (n + 1)) = some a.body.admittedAt
  pre : S.snapshot P = some
    ⟨S.ns, a.body.storeId, a.body.preGeneration, a.body.preEntries, a.body.preRoot⟩
  generation : (a.body.preGeneration : ℤ) = a.intent.expectedGeneration
  root : a.body.preRoot = a.intent.expectedRoot
  commitment : P.payloadCommitment (.str a.intent.op) (.str a.intent.key) (.str a.intent.value) =
    some a.body.payloadCommitment

/-- `S'` is the store after the COMMIT of the attempt on `S`. -/
def Commits (P : Platform) (S : Store) (a : Attempt) (S' : Store) : Prop :=
  ∃ post, (S.upsert a.intent.key a.intent.value).snapshot P = some post ∧
    S' = { S.upsert a.intent.key a.intent.value with
      applied := S.applied ++ [⟨a.id, a.hash, post.generation, post.root⟩] }

/-- The body of a COMMITTED record states the store `S` as it is read. -/
def Confirms (P : Platform) (S : Store) (id : PyStr) (cb : CommittedBody) : Prop :=
  ∃ snap row recovered, S.snapshot P = some snap ∧ S.appliedRow id = some row ∧
    cb = ⟨snap.generation, snap.root, snap.entries, row, snap.storeId, recovered⟩

/-- The certificate is the finalizer's signature over what the records state. -/
def Certifies (id : PyStr) (rs : List Record) (cert : Json) : Prop :=
  ∃ recs, finalityRecords rs = some recs ∧
    P.signPayload (C.certificatePayload id recs.1.1 recs.2.1 recs.1.2 recs.2.2) C.finalizerSk
      C.finalizerKid = some cert

/-- The records `rs` and the store `S'` of an attempt on `S` at a stage. -/
structure Block (S : Store) (a : Attempt) (st : Stage) (rs : List Record) (S' : Store) :
    Prop where
  kinds : rs.map (fun r => r.kind) = st.kinds
  head : rs.head? = some a.record
  same : ∀ r ∈ rs, r.intentId = a.id ∧ r.body.intentHash = some a.hash
  store : if st.isStored then Commits P S a S' else S' = S
  committed : ∀ r ∈ rs, ∀ cb, r.body.detail = .committed cb → Confirms P S' a.id cb
  finalized : ∀ r ∈ rs, ∀ cert, r.body.detail = .finalized cert → Certifies C a.id rs cert

/-- The homes on which no attempt is open: rejections and closed attempts, from an empty
home. -/
inductive Settled : List Record → Store → Prop
  | fresh {ns storeId : PyStr} (hns : ns.encodable = true) (hid : storeId.encodable = true) :
    Settled [] (Store.create ns storeId)
  | rejected {J : List Record} {S : Store} {r : Record} (h : Settled J S)
    (hr : r.kind.binding = false) : Settled (J ++ [r]) S
  | closed {J : List Record} {S : Store} {n : ℕ} {a : Attempt} {st : Stage} {rs : List Record}
    {S' : Store} (h : Settled J S) (hbegins : Begins C n J S a) (hblock : Block C S a st rs S')
    (hst : st.closed = true) : Settled (J ++ rs) S'

/-- An attempt on a settled home is open. -/
def Open (J : List Record) (S : Store) : Prop :=
  ∃ J0 S0 n a st rs, Settled C J0 S0 ∧ Begins C n J0 S0 a ∧ Block C S0 a st rs S ∧
    st.closed = false ∧ J = J0 ++ rs

variable {C}

/-! ## Blocks -/

namespace Block

variable {S S' : Store} {a : Attempt} {st : Stage} {rs : List Record}

variable (h : Block C S a st rs S')

include h

lemma kind_mem (hr : r ∈ rs) : r.kind ∈ st.kinds := by
  rw [← h.kinds]
  exact mem_map_of_mem hr

/-- Every kind of the stage has its record. -/
lemma exists_of_kind_mem (hk : k ∈ st.kinds) : ∃ r ∈ rs, r.kind = k := by
  rw [← h.kinds] at hk
  exact mem_map.mp hk

/-- All records of a block are binding records of its intent. -/
lemma binding_self : binding rs a.id = rs := by
  rw [binding, forIntent, filter_filter]
  refine filter_eq_self.mpr fun r hr => ?_
  rw [Stage.binding_of_mem_kinds (h.kind_mem hr), (h.same r hr).1]
  simp

/-- A block has the records of one intent. -/
lemma forIntent_of_ne {id : PyStr} (hid : id ≠ a.id) : forIntent rs id = [] := by
  refine filter_eq_nil_iff.mpr fun r hr => ?_
  rw [(h.same r hr).1]
  simpa using Ne.symm hid

lemma binding_of_ne {id : PyStr} (hid : id ≠ a.id) : binding rs id = [] := by
  rw [binding, h.forIntent_of_ne hid, filter_nil]

lemma length_eq : rs.length = st.kinds.length := by
  rw [← h.kinds, length_map]

lemma record_mem : a.record ∈ rs := mem_of_head? h.head

end Block

namespace Begins

variable {n : ℕ} {J : List Record} {S : Store} {a : Attempt}

lemma encodable_payload (h : Begins C n J S a) : a.body.signed.payload.encodable = true :=
  P.encodable_of_digest h.hash_eq

lemma encodable_id (h : Begins C n J S a) : a.id.encodable = true := by
  rw [← h.id_eq]
  exact Json.encodable_field? h.encodable_payload a.body.signed.reads.intentId

lemma encodable_key (h : Begins C n J S a) : a.intent.key.encodable = true :=
  Json.encodable_field? h.encodable_payload a.body.signed.reads.key

lemma encodable_value (h : Begins C n J S a) : a.intent.value.encodable = true :=
  Json.encodable_field? h.encodable_payload a.body.signed.reads.value

end Begins

variable {J rs : List Record} {S S' : Store} {a : Attempt} {n : ℕ}

/-- The records of an attempt are of none of the intents finalized before it. -/
lemma Block.binding_of_finalized
    {st : Stage} (hblock : Block C S a st rs S') (hb : Begins C n J S a) {r : Record}
    (hr : r ∈ J) (hk : r.kind = .finalized) : binding rs r.intentId = [] := by
  refine hblock.binding_of_ne fun hid => ?_
  have : r ∈ binding J a.id := mem_binding.mpr ⟨hr, hid, by rw [hk]; rfl⟩
  simp [hb.fresh] at this

/-! ## Settled homes -/

/-- The binding records of an intent on a settled home are those of one closed attempt. -/
theorem Settled.binding_cases (h : Settled C J S) (id : PyStr) :
    binding J id = [] ∨ ∃ J0 S0 n a st rs S1, Begins C n J0 S0 a ∧ Block C S0 a st rs S1 ∧
      st.closed = true ∧ a.id = id ∧ binding J id = rs := by
  induction h with
  | fresh => exact .inl rfl
  | rejected h hr ih =>
    have hnil : ∀ r : Record, r.kind.binding = false → binding [r] id = [] := by
      intro r hr
      simp [binding, forIntent, filter_filter, hr]
    rwa [binding_append, hnil _ hr, append_nil]
  | @closed J S n a st rs S' h hbegins hblock hst ih =>
    rw [binding_append]
    by_cases hid : id = a.id
    · subst hid
      rw [hbegins.fresh, hblock.binding_self, nil_append]
      exact .inr ⟨J, S, n, a, st, rs, S', hbegins, hblock, hst, rfl, rfl⟩
    · rwa [hblock.binding_of_ne hid, append_nil]

/-- What the store of a settled home satisfies: its texts are encodable, its generation
counts the FINALIZED records, and its applied rows are the intents that have one. -/
structure StoreFacts (J : List Record) (S : Store) : Prop where
  keyed : KeyedTable.Keyed S.kv
  ns : S.ns.encodable = true
  storeId : S.storeId.encodable = true
  rows : ∀ r ∈ S.kv, r.1.encodable = true ∧ r.2.encodable = true
  generation : S.generation = (J.map fun r => r.kind).count .finalized
  applied_le : ∀ row ∈ S.applied, row.generation ≤ S.generation
  applied_iff : ∀ id, (∃ row ∈ S.applied, row.intentId = id) ↔
    ∃ r ∈ J, r.intentId = id ∧ r.kind = .finalized

/-- A closed stage is finalized once if the store has its row, and else never. -/
lemma count_finalized_kinds (st : Stage) (h : st.closed = true) :
    st.kinds.count .finalized = if st.isStored then 1 else 0 := by
  decide +revert

lemma finalized_mem_kinds_iff (st : Stage) (h : st.closed = true) :
    .finalized ∈ st.kinds ↔ st.isStored = true := by
  decide +revert

/-- A finalized attempt has one FINALIZED record. -/
lemma Block.exists_filter_finalized
    (h : Block C S a (.finalized u) rs S') :
    ∃ f, (rs.filter fun r => decide (r.kind = .finalized)) = [f] := by
  rw [← length_eq_one_iff, ← countP_eq_length_filter]
  have hcount := count_finalized_kinds (.finalized u) rfl
  rw [← h.kinds, List.count, countP_map] at hcount
  exact hcount

/-- The COMMIT of an attempt keeps the facts, once its FINALIZED record is journaled. -/
theorem StoreFacts.commits {st : Stage}
    (h : StoreFacts J S) (hbegins : Begins C n J S a) (hblock : Block C S a st rs S')
    (hst : st.closed = true) (hstored : st.isStored = true) : StoreFacts (J ++ rs) S' := by
  have hcommits := hblock.store
  rw [if_pos hstored] at hcommits
  obtain ⟨post, hpost, rfl⟩ := hcommits
  obtain ⟨-, -, hgen, -, -⟩ := Store.snapshot_eq_some hpost
  have hcount : (rs.map fun r => r.kind).count .finalized = 1 := by
    rw [hblock.kinds, count_finalized_kinds st hst, if_pos hstored]
  refine ⟨KeyedTable.keyed_upsert h.keyed, h.ns, h.storeId, fun r hr => ?_, ?_, ?_, fun id => ?_⟩
  · rcases KeyedTable.mem_upsert hr with rfl | hr
    · exact ⟨hbegins.encodable_key, hbegins.encodable_value⟩
    · exact h.rows r hr
  · rw [map_append, count_append, hcount, ← h.generation]
    rfl
  · refine forall_mem_append.mpr ⟨fun row hrow => ?_, forall_mem_singleton.mpr hgen.le⟩
    exact (h.applied_le row hrow).trans (Nat.le_succ _)
  · obtain ⟨f, hf, hfk⟩ := hblock.exists_of_kind_mem ((finalized_mem_kinds_iff st hst).mpr hstored)
    have hrs : (∃ r ∈ rs, r.intentId = id ∧ r.kind = .finalized) ↔ a.id = id :=
      ⟨fun ⟨r, hr, hid, _⟩ => (hblock.same r hr).1.symm.trans hid,
        fun hid => ⟨f, hf, (hblock.same f hf).1.trans hid, hfk⟩⟩
    simp only [mem_append, or_and_right, exists_or, h.applied_iff, hrs, mem_singleton,
      exists_eq_left]

/-- What a settled store has in common with its journal. -/
lemma Settled.storeFacts (h : Settled C J S) : StoreFacts J S := by
  induction h with
  | fresh hns hid =>
    exact ⟨KeyedTable.keyed_nil, hns, hid, by simp [Store.create], rfl, by simp [Store.create],
      by simp [Store.create]⟩
  | @rejected J S r h hr ih =>
    have hne : r.kind ≠ .finalized := fun hk => by simp [hk, Kind.binding] at hr
    refine ⟨ih.keyed, ih.ns, ih.storeId, ih.rows, ?_, ih.applied_le, fun id => ?_⟩
    · rw [map_append, count_append, ← ih.generation, map_singleton, count_singleton]
      simp [hne]
    · simp [ih.applied_iff, or_and_right, exists_or, hne]
  | @closed J S n a st rs S' h hbegins hblock hst ih =>
    by_cases hstored : st.isStored = true
    · exact ih.commits hbegins hblock hst hstored
    · have hS := hblock.store
      rw [if_neg hstored] at hS
      subst hS
      have hnone : .finalized ∉ st.kinds := fun hk =>
        hstored ((finalized_mem_kinds_iff st hst).mp hk)
      refine ⟨ih.keyed, ih.ns, ih.storeId, ih.rows, ?_, ih.applied_le, fun id => ?_⟩
      · rw [map_append, count_append, hblock.kinds, count_eq_zero_of_not_mem hnone,
          ← ih.generation, Nat.add_zero]
      · have hrs : ¬∃ r ∈ rs, r.intentId = id ∧ r.kind = .finalized :=
          fun ⟨r, hr, _, hk⟩ => hnone (hk ▸ hblock.kind_mem hr)
        simp only [mem_append, or_and_right, exists_or, ih.applied_iff, hrs, or_false]

/-! ## The transaction of an attempt -/

/-- On a settled home the storage transaction of an attempt reaches its COMMIT, unless the
generation has outgrown RFC 8785. -/
theorem Begins.transaction
    (hb : Begins C n J S a) (hs : StoreFacts J S) :
    (∃ S' post, S.transaction P a.id (some a.hash) a.intent.key a.intent.value
        a.intent.expectedGeneration a.intent.expectedRoot = .ok (S', post) ∧ Commits P S a S') ∨
      (S.transaction P a.id (some a.hash) a.intent.key a.intent.value
        a.intent.expectedGeneration a.intent.expectedRoot = .error .canonicalization ∧
        Json.maxSafe ≤ S.generation) := by
  have hgen := not_not.mpr hb.generation
  have hroot := not_not.mpr hb.root
  cases hpost : (S.upsert a.intent.key a.intent.value).snapshot P with
  | none =>
    refine .inr ⟨by simp only [Store.transaction, hb.pre, hgen, hroot, hpost, if_false], ?_⟩
    have hrows : ∀ r ∈ (S.upsert a.intent.key a.intent.value).kv,
        r.1.encodable = true ∧ r.2.encodable = true := fun r hr => by
      rcases KeyedTable.mem_upsert hr with rfl | hr
      · exact ⟨hb.encodable_key, hb.encodable_value⟩
      · exact hs.rows r hr
    by_contra hlt
    have hgen' : ((S.upsert a.intent.key a.intent.value).generation : ℤ) ≤ Json.maxSafe := by
      simp only [Store.upsert]
      push_cast
      omega
    obtain ⟨snap, hsnap⟩ := Store.exists_snapshot (P := P)
      (s := S.upsert a.intent.key a.intent.value) hs.ns hrows hgen'
    simp [hpost] at hsnap
  | some post =>
    obtain ⟨-, -, hpg, -, -⟩ := Store.snapshot_eq_some hpost
    -- neither the intent nor the new generation has an applied row
    have hnew : (S.applied.any fun r => r.intentId = a.id || r.generation = post.generation) =
        false := by
      rw [any_eq_false]
      intro row hrow
      have hid : row.intentId ≠ a.id := fun hid => by
        obtain ⟨r, hr, hrid, hrk⟩ := (hs.applied_iff a.id).mp ⟨row, hrow, hid⟩
        have : r ∈ binding J a.id := mem_binding.mpr ⟨hr, hrid, by rw [hrk]; rfl⟩
        simp [hb.fresh] at this
      have hle := hs.applied_le row hrow
      have hlt : row.generation ≠ post.generation := by
        rw [hpg, Store.upsert]
        simp only
        omega
      simp [hid, hlt]
    refine .inl ⟨_, post, ?_, post, hpost, rfl⟩
    simp only [Store.transaction, hb.pre, hgen, hroot, hpost, if_false, Store.insertApplied]
    rw [show (S.upsert a.intent.key a.intent.value).applied = S.applied from rfl, hnew]
    rfl

end

end VdbC1
