import Cappo.VdbC1.Canon

/-!
# The state store

The SQLite store of `state_adapter.py`: the tables `meta`, `kv` and `applied`, the snapshot
a fresh connection reads, and the conditional upsert. A transaction is atomic, so it is a
function from the committed store to the store its COMMIT would leave; the coordinator
decides when the COMMIT happens.

## Main results

* `Store.exists_snapshot`: when the store can be read at all;
* `Store.snapshot_upsert`: what a fresh read sees after the upsert, from what it saw before.
-/

namespace VdbC1

open Option KeyedTable

/-- A row of the table `applied`. -/
structure AppliedRow where
  intentId : PyStr
  intentHash : PyStr
  generation : ℕ
  postRoot : PyStr
  deriving DecidableEq

/-- The row as `applied` returns it. -/
def AppliedRow.toJson (r : AppliedRow) : Json :=
  .obj [("intent_id", .str r.intentId), ("intent_hash", .str r.intentHash),
    ("generation", .int r.generation), ("post_root", .str r.postRoot)]

/-- The committed contents of the store. -/
structure Store where
  ns : PyStr
  storeId : PyStr
  generation : ℕ
  kv : List (PyStr × PyStr)
  applied : List AppliedRow
  deriving DecidableEq

/-- What a connection reads of the store. -/
structure Snapshot where
  ns : PyStr
  storeId : PyStr
  generation : ℕ
  entries : List (PyStr × PyStr)
  root : PyStr
  deriving DecidableEq

/-- Why a storage transaction is rolled back. -/
inductive StorageFault where
  | staleGeneration
  | rootMismatch
  | integrity
  | canonicalization
  deriving DecidableEq

/-- An entry list as JSON. -/
def entriesJson (t : List (PyStr × PyStr)) : Json := .arr (t.map entry)

lemma encodable_entry (h : r.1.encodable = true ∧ r.2.encodable = true) :
    (entry r).encodable = true := by
  simp [entry, h.1, h.2]

lemma encodable_entriesJson (h : ∀ r ∈ t, r.1.encodable = true ∧ r.2.encodable = true) :
    (entriesJson t).encodable = true := by
  rw [entriesJson, Json.encodable_arr_iff, List.forall_mem_map]
  exact fun r hr => encodable_entry (h r hr)

namespace Store

variable (P : Platform)

/-- The store `create` leaves: generation 0 and no rows. -/
def create (ns storeId : PyStr) : Store := ⟨ns, storeId, 0, [], []⟩

/-- `_read`: the state root is recomputed from the rows, which raises if they have no
canonical encoding. -/
def snapshot (s : Store) : Option Snapshot :=
  (P.stateRoot (.str s.ns) (.int s.generation) (entriesJson (ordered s.kv))).map
    fun root => ⟨s.ns, s.storeId, s.generation, ordered s.kv, root⟩

/-- `applied`: the row of an intent. -/
def appliedRow (s : Store) (intentId : PyStr) : Option AppliedRow :=
  s.applied.find? fun r => r.intentId = intentId

/-- The store with one row set and the generation counted up. -/
def upsert (key value : PyStr) (s : Store) : Store :=
  { s with kv := KeyedTable.upsert key value s.kv, generation := s.generation + 1 }

/-- `INSERT INTO applied`: the intent and the generation are unique columns and the hash is
not null. -/
def insertApplied (intentId : PyStr) (intentHash : Option PyStr) (post : Snapshot) (s : Store) :
    Option Store :=
  match intentHash with
  | none => none
  | some hash =>
    if s.applied.any fun r => r.intentId = intentId || r.generation = post.generation then none
    else some { s with applied := s.applied ++ [⟨intentId, hash, post.generation, post.root⟩] }

/-- `apply_upsert` up to its COMMIT: the store the COMMIT would leave, and the state read
before it. The generation cannot move between the check and the update, which are in one
transaction, so the row count of the update is one. -/
def transaction (s : Store) (intentId : PyStr) (intentHash : Option PyStr) (key value : PyStr)
    (expectedGeneration : ℤ) (expectedRoot : PyStr) : Except StorageFault (Store × Snapshot) :=
  match s.snapshot P with
  | none => .error .canonicalization
  | some pre =>
    if (pre.generation : ℤ) ≠ expectedGeneration then .error .staleGeneration
    else if pre.root ≠ expectedRoot then .error .rootMismatch
    else
      match (s.upsert key value).snapshot P with
      | none => .error .canonicalization
      | some post =>
        match (s.upsert key value).insertApplied intentId intentHash post with
        | none => .error .integrity
        | some s' => .ok (s', post)

variable {P}

variable {s : Store}

lemma snapshot_eq_some (h : s.snapshot P = some snap) :
    snap.ns = s.ns ∧ snap.storeId = s.storeId ∧ snap.generation = s.generation ∧
      snap.entries = ordered s.kv ∧
      P.stateRoot (.str s.ns) (.int s.generation) (entriesJson snap.entries) = some snap.root := by
  obtain ⟨root, hroot, rfl⟩ := map_eq_some_iff.mp h
  exact ⟨rfl, rfl, rfl, rfl, hroot⟩

/-- What a snapshot states can be encoded. -/
lemma encodable_of_snapshot (h : s.snapshot P = some snap) :
    (snap.generation : ℤ) ≤ Json.maxSafe ∧ (entriesJson snap.entries).encodable = true ∧
      snap.root.encodable = true := by
  obtain ⟨root, hroot, rfl⟩ := map_eq_some_iff.mp h
  have hdigest := hroot
  simp only [Platform.stateRoot, entriesJson, Json.items, bind_eq_bind, bind_some,
    P.sorted_entries, ordered_ordered] at hdigest
  have henc := P.encodable_of_digest hdigest
  have hgen := Json.encodable_field? henc (k := "generation") (v := .int s.generation) (by simp)
  have hent := Json.encodable_field? henc (k := "entries")
    (v := entriesJson (ordered s.kv)) (by simp [entriesJson])
  exact ⟨by simpa using hgen, hent, P.encodable_digest hdigest⟩

/-- A store of encodable texts can be read, unless its generation has outgrown RFC 8785. -/
theorem exists_snapshot (hns : s.ns.encodable = true)
    (hrows : ∀ r ∈ s.kv, r.1.encodable = true ∧ r.2.encodable = true)
    (hgen : (s.generation : ℤ) ≤ Json.maxSafe) : ∃ snap, s.snapshot P = some snap := by
  have hent : (entriesJson (ordered (ordered s.kv))).encodable = true :=
    encodable_entriesJson fun r hr => hrows r (by simpa using hr)
  have henc : (Json.obj [("protocol", "veklom.vdb.c1.state/v1"), ("namespace", .str s.ns),
      ("generation", .int s.generation),
      ("entries", entriesJson (ordered (ordered s.kv)))]).encodable =
        true := by
    simp [hns, hent, hgen]
  obtain ⟨root, hroot⟩ := P.exists_digest henc
  refine ⟨⟨s.ns, s.storeId, s.generation, ordered s.kv, root⟩, ?_⟩
  rw [snapshot, Platform.stateRoot, entriesJson, Json.items]
  simp only [bind_eq_bind, bind_some, P.sorted_entries]
  exact congrArg _ hroot

/-- A fresh read after the upsert, from the entries read before it. -/
theorem snapshot_upsert {key value : PyStr} {pre post : Snapshot} (hkeyed : KeyedTable.Keyed s.kv)
    (hpre : s.snapshot P = some pre) (hpost : (s.upsert key value).snapshot P = some post) :
    post.ns = pre.ns ∧ post.storeId = pre.storeId ∧ post.generation = pre.generation + 1 ∧
      post.entries =
        ordered (pre.entries.filter (fun r => r.1 ≠ key) ++ [(key, value)]) := by
  obtain ⟨hns, hid, hgen, hent, -⟩ := snapshot_eq_some hpre
  obtain ⟨hns', hid', hgen', hent', -⟩ := snapshot_eq_some hpost
  refine ⟨hns'.trans hns.symm, hid'.trans hid.symm, ?_, ?_⟩
  · rw [hgen', hgen, upsert]
  · rw [hent', hent]
    exact KeyedTable.ordered_upsert hkeyed

end Store

end VdbC1
