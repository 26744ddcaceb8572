import Cappo.VdbC1.Correctness.Progress

/-!
# Exactly-once consequences

On a settled home the store is what the finalized intents make of an empty one, each of
them applied once, in journal order. Since `recover` settles a home, this holds after every
`recover` that returns, whatever calls were made and killed before it.

## Main results

* `Settled.exactlyOnce`: the store of a settled home is the fold of its finalized intents;
* `recover_exactlyOnce`: after every run, a `recover` that returns leaves such a home.
-/

namespace VdbC1

open Coordinator List

/-- What a record states of the store: its generation, root and entries. -/
structure StateView where
  generation : ℕ
  root : PyStr
  entries : List (PyStr × PyStr)

/-- The state a snapshot shows. -/
def Snapshot.view (s : Snapshot) : StateView := ⟨s.generation, s.root, s.entries⟩

/-- The state a PREPARED record states: `pre_generation`, `pre_root` and `pre_entries`. -/
def PreparedBody.pre (b : PreparedBody) : StateView := ⟨b.preGeneration, b.preRoot, b.preEntries⟩

/-- The state a COMMITTED record states: `post_generation`, `post_root` and
`post_entries`. -/
def CommittedBody.post (b : CommittedBody) : StateView :=
  ⟨b.postGeneration, b.postRoot, b.postEntries⟩

/-- The PREPARED and COMMITTED bodies of an intent with both. -/
def transition? (J : List Record) (id : PyStr) : Option (PreparedBody × CommittedBody) :=
  (finalityRecords (binding J id)).map fun recs => (recs.1.2, recs.2.2)

/-- The transitions of the finalized intents, in the order of their FINALIZED records. -/
def transitions (J : List Record) : List (PreparedBody × CommittedBody) :=
  (J.filter fun r => r.kind = .finalized).filterMap fun r => transition? J r.intentId

/-- The table the upserts of the transitions make of an empty one. -/
def applyAll (ts : List (PreparedBody × CommittedBody)) : List (PyStr × PyStr) :=
  ts.foldl (fun kv t => KeyedTable.upsert t.1.signed.intent.key t.1.signed.intent.value kv) []

/-- Each transition starts in the state the one before it ended in, the first one in `v`. -/
def Linked (v : StateView) (ts : List (PreparedBody × CommittedBody)) : Prop :=
  HashChain.Chain (fun t => t.2.post) (fun _ u t => t.1.pre = u) 0 v ts

/-- The store `S` is what the finalized intents of the journal `J`, each applied once, make
of an empty store. -/
structure ExactlyOnce (P : Platform) (J : List Record) (S : Store) : Prop where
  applied_iff : ∀ id, (∃ row ∈ S.applied, row.intentId = id) ↔
    ∃ r ∈ J, r.intentId = id ∧ r.kind = .finalized
  once : ∀ id, (∃ row ∈ S.applied, row.intentId = id) →
    ((forIntent J id).map fun r => r.kind).count .finalized = 1
  aborted : ∀ r ∈ J, r.kind = .aborted → ¬∃ row ∈ S.applied, row.intentId = r.intentId
  complete : (transitions J).length = (J.map fun r => r.kind).count .finalized
  kv : S.kv = applyAll (transitions J)
  generation : S.generation = (J.map fun r => r.kind).count .finalized
  linked : ∃ empty, (Store.create S.ns S.storeId).snapshot P = some empty ∧
    Linked empty.view (transitions J)

variable {P : Platform} {C : Coordinator P}

/-! ## Transitions -/

section

variable {J more : List Record} (h : ∀ r ∈ J, r.kind = .finalized → binding more r.intentId = [])

include h

/-- Records of other intents do not change the transitions. -/
lemma transitions_append :
    transitions (J ++ more) = transitions J ++ (more.filter fun r => r.kind = .finalized).filterMap
        fun r => transition? (J ++ more) r.intentId := by
  rw [transitions, filter_append, filterMap_append, transitions]
  congr 1
  refine filterMap_congr fun r hr => ?_
  obtain ⟨hr, hk⟩ := mem_filter.mp hr
  rw [transition?, transition?, binding_append, h r hr (by simpa using hk), append_nil]

lemma transitions_append_of_ne
    (hne : ∀ r ∈ more, r.kind ≠ .finalized) : transitions (J ++ more) = transitions J := by
  rw [transitions_append h, filter_eq_nil_iff.mpr fun r hr => by simpa using hne r hr,
    filterMap_nil, append_nil]

end

section Attempt

variable {J rs : List Record} {S S' : Store} {n : ℕ} {a : Attempt} {st : Stage}

/-- A finalized attempt adds one transition, from the state it was prepared on to the state
its COMMITTED record read. -/
lemma Block.transitions_eq (hblock : Block C S a st rs S') (hb : Begins C n J S a)
    (hst : st.closed = true) (hstored : st.isStored = true) :
    ∃ cb, transitions (J ++ rs) = transitions J ++ [(a.body, cb)] ∧ Confirms P S' a.id cb := by
  obtain ⟨u, rfl⟩ : ∃ u, st = .finalized u :=
    (Stage.finalized_mem_kinds st).mp ((finalized_mem_kinds_iff st hst).mpr hstored)
  obtain ⟨r, cb, hrecs, hr, hcb⟩ := hblock.exists_finalityRecords (by cases u <;> decide)
  obtain ⟨f, hf⟩ := hblock.exists_filter_finalized
  have hfid : f.intentId = a.id := by
    have hmem : f ∈ rs.filter fun r => decide (r.kind = .finalized) :=
      hf ▸ mem_singleton_self f
    exact (hblock.same f (mem_filter.mp hmem).1).1
  refine ⟨cb, ?_, hblock.committed r hr cb hcb⟩
  rw [transitions_append fun r hr hk => hblock.binding_of_finalized hb hr hk, hf,
    filterMap_cons, hfid, transition?, binding_append, hb.fresh, hblock.binding_self,
    nil_append, hrecs]
  rfl

lemma Block.transitions_eq_of_not_stored (hblock : Block C S a st rs S')
    (hb : Begins C n J S a) (hst : st.closed = true) (hstored : ¬st.isStored = true) :
    transitions (J ++ rs) = transitions J := by
  refine transitions_append_of_ne (fun r hr hk => hblock.binding_of_finalized hb hr hk)
    fun r hr hk => hstored ?_
  exact (finalized_mem_kinds_iff st hst).mp (hk ▸ hblock.kind_mem hr)

end Attempt

/-! ## Settled homes -/

/-- The store is the fold of the transitions, which lead from the empty store to it. -/
structure Folded (P : Platform) (J : List Record) (S : Store) : Prop where
  complete : (transitions J).length = (J.map fun r => r.kind).count .finalized
  kv : S.kv = applyAll (transitions J)
  path : ∃ empty last, (Store.create S.ns S.storeId).snapshot P = some empty ∧
    S.snapshot P = some last ∧ Linked empty.view (transitions J) ∧
    HashChain.head (fun t => t.2.post) empty.view (transitions J) = last.view

variable {J : List Record} {S : Store}

/-- Records that finalize nothing and are of no finalized intent keep the fold. -/
theorem Folded.append {more : List Record} (h : Folded P J S)
    (htrans : transitions (J ++ more) = transitions J) (hne : ∀ r ∈ more, r.kind ≠ .finalized) :
    Folded P (J ++ more) S := by
  have hzero : (more.map fun r => r.kind).count .finalized = 0 := by
    refine count_eq_zero_of_not_mem fun hmem => ?_
    obtain ⟨r, hr, hk⟩ := mem_map.mp hmem
    exact hne r hr hk
  refine ⟨?_, by rw [htrans]; exact h.kv, by rw [htrans]; exact h.path⟩
  rw [htrans, h.complete, map_append, count_append, hzero, Nat.add_zero]

/-- A finalized attempt takes the fold one transition on. -/
theorem Folded.commits {n : ℕ} {rs : List Record} {S' : Store} {a : Attempt} {st : Stage}
    (h : Folded P J S) (hb : Begins C n J S a) (hblock : Block C S a st rs S')
    (hst : st.closed = true) (hstored : st.isStored = true) : Folded P (J ++ rs) S' := by
  obtain ⟨cb, htrans, snap, row, recovered, hsnap, -, rfl⟩ := hblock.transitions_eq hb hst hstored
  have hcommits := hblock.store
  rw [if_pos hstored] at hcommits
  obtain ⟨post, -, rfl⟩ := hcommits
  obtain ⟨empty, last, hempty, hlast, hlinked, hhead⟩ := h.path
  have hcount : (rs.map fun r => r.kind).count .finalized = 1 := by
    rw [hblock.kinds, count_finalized_kinds st hst, if_pos hstored]
  refine ⟨?_, ?_, empty, snap, hempty, hsnap, ?_, ?_⟩
  · rw [htrans, length_append, h.complete, map_append, count_append, hcount]
    rfl
  · rw [htrans, applyAll, foldl_append, ← applyAll, ← h.kv]
    rfl
  · -- the attempt was prepared on the store as it was read
    obtain rfl := Option.mem_unique hlast hb.pre
    rw [htrans]
    refine HashChain.chain_append.mpr ⟨hlinked, ?_, trivial⟩
    rw [hhead]
    rfl
  · rw [htrans, HashChain.head_concat]
    rfl

/-- The store is the fold of the finalized intents. -/
lemma Settled.folded (h : Settled C J S) : Folded P J S := by
  induction h with
  | @fresh ns storeId hns hid =>
    obtain ⟨empty, hempty⟩ := Store.exists_snapshot (P := P) (s := Store.create ns storeId) hns
      (by simp [Store.create]) (by simp [Store.create, Json.maxSafe])
    exact ⟨rfl, rfl, empty, empty, hempty, hempty, trivial, rfl⟩
  | @rejected J S r h hr ih =>
    have hne : ∀ x ∈ [r], x.kind ≠ .finalized := fun x hx hk => by
      rw [← mem_singleton.mp hx, hk] at hr
      simp [Kind.binding] at hr
    refine ih.append (transitions_append_of_ne (fun x _ _ => ?_) hne) hne
    simp [binding, forIntent, filter_filter, hr]
  | @closed J S n a st rs S' h hb hblock hst ih =>
    by_cases hstored : st.isStored = true
    · exact ih.commits hb hblock hst hstored
    · have hS := hblock.store
      rw [if_neg hstored] at hS
      subst hS
      exact ih.append (hblock.transitions_eq_of_not_stored hb hst hstored) fun r hr hk =>
        hstored ((finalized_mem_kinds_iff st hst).mp (hk ▸ hblock.kind_mem hr))

lemma count_finalized_forIntent (J : List Record) (id : PyStr) :
    ((forIntent J id).map fun r => r.kind).count .finalized =
      ((binding J id).map fun r => r.kind).count .finalized := by
  simp only [binding, List.count, countP_map, countP_filter]
  refine countP_congr fun r _ => ?_
  cases hk : r.kind <;> simp [hk, Kind.binding]

/-- A closed attempt is finalized once or aborted, not both. -/
lemma Stage.finalized_or_aborted {st : Stage} (h : st.closed = true)
    (hf : .finalized ∈ st.kinds) : st.kinds.count .finalized = 1 ∧ .aborted ∉ st.kinds := by
  decide +revert

/-- The binding records of a finalized intent of a settled home. -/
lemma Settled.of_finalized (h : Settled C J S) {id : PyStr}
    (hf : ∃ r ∈ J, r.intentId = id ∧ r.kind = .finalized) :
    ((binding J id).map fun r => r.kind).count .finalized = 1 ∧
      .aborted ∉ (binding J id).map fun r => r.kind := by
  obtain ⟨r, hr, hid, hk⟩ := hf
  have hmem : r ∈ binding J id := mem_binding.mpr ⟨hr, hid, by rw [hk]; rfl⟩
  rcases h.binding_cases id with hnil | ⟨J0, S0, n, a, st, rs, S1, -, hblock, hst, -, hrs⟩
  · simp [hnil] at hmem
  · rw [hrs] at hmem ⊢
    rw [hblock.kinds]
    exact Stage.finalized_or_aborted hst (hk ▸ hblock.kind_mem hmem)

/-- The store of a settled home is the fold of its finalized intents. -/
theorem Settled.exactlyOnce (h : Settled C J S) :
    ExactlyOnce P J S := by
  have hfacts := h.storeFacts
  obtain ⟨hcomplete, hkv, empty, last, hempty, -, hlinked, -⟩ := h.folded
  refine ⟨hfacts.applied_iff, fun id hrow => ?_, fun r hr hk hrow => ?_, hcomplete, hkv,
    hfacts.generation, empty, hempty, hlinked⟩
  · rw [count_finalized_forIntent]
    exact (h.of_finalized ((hfacts.applied_iff id).mp hrow)).1
  · refine (h.of_finalized ((hfacts.applied_iff r.intentId).mp hrow)).2 ?_
    rw [← hk]
    exact mem_map_of_mem (mem_binding.mpr ⟨hr, rfl, by rw [hk]; rfl⟩)

/-- After any sequence of calls, each of them killed at any point, a `recover` that returns
leaves a store in which every finalized intent, and no other, was applied, exactly once and
in journal order. -/
theorem recover_exactlyOnce (C : Coordinator P) (ns storeId : { s : PyStr // s.encodable = true })
    (tick : ℕ) (calls : List (Call × Option ℕ)) (budget : Option ℕ) (report : List Report)
    (s : Machine World)
    (h : C.recover ⟨run C (freshHome ns storeId tick) calls, budget⟩ = (.ok report, s)) :
    ExactlyOnce P s.world.journal s.world.store := by
  have hinv := invariant_run (invariant_freshHome (C := C) ns storeId tick) calls
  have hrec := Proc.ok_of_wp (wp_recover hinv.home) h
  exact hrec.1.settled.exactlyOnce

/-- A home on which an intent was finalized. -/
theorem recover_exactlyOnce_finalized : ∃ signed report s,
    stoppedCoordinator.recover
      ⟨run stoppedCoordinator referenceHome [(.submit signed, none)], none⟩ =
        (.ok report, s) ∧
      (∃ r ∈ s.world.journal, r.kind = .finalized) ∧
      ExactlyOnce Platform.reference s.world.journal s.world.store := by
  obtain ⟨signed, out, s, a, hrun, -, hb, -, -, hat⟩ := reference_finalizes (fun _ => 0)
    (fun _ => fromtimestamp_zero) le_rfl (by norm_num)
  obtain ⟨rs, hj, hblock⟩ := hat.block
  have hsettled : Settled stoppedCoordinator s.world.journal s.world.store := by
    rw [hj]
    exact .closed (reference_settled _) hb hblock rfl
  have hrecover := recover_settled (s := ⟨s.world, none⟩) hat.chained hsettled
  refine ⟨signed, [], ⟨s.world, none⟩, by rw [run_submit hrun, hrecover], ?_, ?_⟩
  · obtain ⟨r, hr, hk⟩ := hblock.exists_of_kind_mem (k := .finalized) (by decide)
    exact ⟨r, hj ▸ hr, hk⟩
  · refine recover_exactlyOnce stoppedCoordinator ⟨"n", PyStr.encodable_ofString _⟩
      ⟨"s", PyStr.encodable_ofString _⟩ 0 [(.submit signed, none)] none [] ⟨s.world, none⟩ ?_
    rw [← referenceHome, run_submit hrun, hrecover]

end VdbC1
