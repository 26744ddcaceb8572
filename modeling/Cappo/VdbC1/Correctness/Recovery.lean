import Cappo.VdbC1.Correctness.Steps

/-!
# Recovery settles a home

Recovery goes through the intents that have a PREPARED record. On a settled home all of them
are closed and it does nothing. On a home with an open attempt it closes this one, the way
the store decides: an attempt whose transaction is stored is finalized, any other is
aborted.

## Main results

* `wp_recoverOne`: an open attempt is closed;
* `wp_recoverLocked`: recovery turns any home into a settled one and never touches the store.
-/

namespace VdbC1

open Coordinator List Option

open Proc

variable {P : Platform} {C : Coordinator P}

/-! ## One attempt -/

section Attempt

variable {J0 : List Record} {S0 : Store} {n : ℕ} {a : Attempt} {st : Stage} {s : Machine World}

/-- The attempt is at some stage, closed or not, with its transaction stored or not. -/
def Reached (C : Coordinator P) (J0 : List Record) (S0 : Store) (a : Attempt)
    (closed stored : Bool) (w : World) : Prop :=
  ∃ st : Stage, st.closed = closed ∧ st.isStored = stored ∧ At C J0 S0 a st w

/-- An open attempt whose transaction is not stored, with its COMMITTING record uncertain, is
aborted. -/
lemma wp_abortLate (hb : Begins C n J0 S0 a) (hat : At C J0 S0 a .uncertain s.world) :
    Leads C (C.append a.id ⟨some a.hash, .aborted .storageCommitNotDurable⟩)
      (Reached C J0 S0 a true false) (Reached C J0 S0 a false false) s :=
  wp_mono (wp_advance_plain hb hat .abortedLate (.inr (.inr ⟨_, rfl⟩)) rfl rfl)
    (fun _ _ h => ⟨⟨_, rfl, rfl, h.1⟩, h.2⟩) fun _ _ h => ⟨⟨_, rfl, rfl, h.1⟩, h.2⟩

section

variable (hs : StoreFacts J0 S0) (hb : Begins C n J0 S0 a)

include hs hb

/-- A stored attempt is finalized by recovery. -/
lemma wp_confirmRecovered (hat : At C J0 S0 a (.storedAs u) s.world) :
    Leads C (C.confirmCommit a.id true) (Reached C J0 S0 a true true)
      (Reached C J0 S0 a false true) s := by
  refine wp_mono (wp_confirmCommit hs hb hat) (fun _ s' h => ?_) fun e s' h => ?_
  · exact ⟨⟨_, rfl, rfl, h.1⟩, h.2⟩
  · rcases h.1 with hat' | hat'
    · exact ⟨⟨_, by cases u <;> rfl, by cases u <;> rfl, hat'⟩, h.2⟩
    · exact ⟨⟨_, rfl, rfl, hat'⟩, h.2⟩

lemma At.appliedRow (hat : At C J0 S0 a st s.world) :
    (s.world.store.appliedRow a.id).isSome = st.isStored := by
  obtain ⟨rs, -, hblock⟩ := hat.block
  have hstore := hblock.store
  cases hst : st.isStored with
  | false =>
    rw [hst, if_neg Bool.false_ne_true] at hstore
    rw [hstore, hb.appliedRow_eq_none hs, isSome_none]
  | true =>
    rw [hst, if_pos rfl] at hstore
    obtain ⟨post, -, hrow, -⟩ := hstore.fresh_read hs hb
    rw [hrow, isSome_some]

/-- Recovery closes an open attempt, as the store decides. -/
theorem wp_recoverOne (hat : At C J0 S0 a st s.world) (hopen : st.closed = false) :
    Leads C (C.recoverOne a.id st.kinds) (Reached C J0 S0 a true st.isStored)
      (Reached C J0 S0 a false st.isStored) s := by
  obtain ⟨rs, hj, hblock⟩ := hat.block
  have hhead : (binding s.world.journal a.id).head? = some a.record := by
    rw [hb.binding_eq hj hblock, hblock.head]
  have hhash : a.record.body.intentHash = some a.hash := by rw [a.body_eq]
  have hrow := hat.appliedRow hs hb
  have hnone : (s.world.store.appliedRow a.id).isNone = !st.isStored := by
    rw [← not_isSome, hrow]
  simp only [recoverOne, wp_bind, wp_read, hhead, wp_ofOption_some, hhash]
  -- one case for each stage: the last kind selects the branch, the applied row the outcome
  rcases st with _ | _ | _ | _ | _ | u | u | _ | _
  case prepared =>
    simp only [Stage.kinds, List.getLast?_singleton, wp_ofOption_some, hrow, Stage.isStored,
      if_false, Bool.false_eq_true]
    exact wp_mono (wp_advance_plain hb hat .abortedEarly (.inr (.inr ⟨_, rfl⟩)) rfl rfl)
      (fun _ _ h => ⟨⟨_, rfl, rfl, h.1⟩, h.2⟩) fun _ _ h => ⟨⟨_, rfl, rfl, h.1⟩, h.2⟩
  case committing =>
    simp only [Stage.kinds, List.getLast?_cons_cons, List.getLast?_singleton, wp_ofOption_some,
      wp_bind, if_true, hnone, Stage.isStored, Bool.not_false]
    refine wp_mono (wp_advance_plain hb hat .uncertain (.inr (.inl ⟨_, rfl⟩))
      rfl rfl) (fun _ s' h => ?_) fun _ _ h => ⟨⟨_, rfl, rfl, h.1⟩, h.2⟩
    refine wp_mono (wp_abortLate hb h.1) (fun _ s'' h' => ?_) fun e s'' h' => ?_
    · exact ⟨h'.1, h.2.1.trans h'.2.1, h'.2.2.trans h.2.2⟩
    · exact ⟨h'.1, h.2.1.trans h'.2.1, h.2.1.excused h'.2.2⟩
  case stored =>
    simp only [Stage.kinds, List.getLast?_cons_cons, List.getLast?_singleton, wp_ofOption_some,
      wp_bind, if_true, hnone, Stage.isStored, Bool.not_true, Bool.false_eq_true, if_false,
      wp_pure]
    refine wp_mono (wp_advance_plain hb hat .uncertainStored
      (.inr (.inl ⟨_, rfl⟩)) rfl rfl) (fun _ s' h => ?_) fun _ _ h => ⟨⟨_, rfl, rfl, h.1⟩, h.2⟩
    refine wp_mono (wp_confirmRecovered hs hb (u := true) h.1) (fun _ s'' h' => ?_)
      fun e s'' h' => ?_
    · exact ⟨h'.1, h.2.1.trans h'.2.1, h'.2.2.trans h.2.2⟩
    · exact ⟨h'.1, h.2.1.trans h'.2.1, h.2.1.excused h'.2.2⟩
  case uncertain =>
    simp only [Stage.kinds, List.getLast?_cons_cons, List.getLast?_singleton, wp_ofOption_some,
      reduceCtorEq, if_false, hnone, Stage.isStored, Bool.not_false, if_true]
    exact wp_abortLate hb hat
  case uncertainStored =>
    simp only [Stage.kinds, List.getLast?_cons_cons, List.getLast?_singleton, wp_ofOption_some,
      wp_bind, reduceCtorEq, if_false, wp_pure, hnone, Stage.isStored, Bool.not_true,
      Bool.false_eq_true]
    exact wp_confirmRecovered hs hb (u := true) hat
  case confirmed =>
    have hlast : (Stage.confirmed u).kinds.getLast? = some .committed := by cases u <;> rfl
    simp only [hlast, wp_ofOption_some]
    exact wp_mono (wp_finalize hb hat) (fun _ _ h => ⟨⟨.finalized u, rfl, rfl, h.1⟩, h.2⟩)
      fun _ _ h => ⟨⟨.confirmed u, rfl, rfl, h.1⟩, h.2⟩
  all_goals simp [Stage.closed] at hopen

end

end Attempt

/-! ## The intents recovery goes through -/

/-- The step of `seenIntents`. -/
private def seenStep (seen : List PyStr) (r : Record) : List PyStr :=
  if r.kind = .prepared ∧ r.intentId ∉ seen then seen ++ [r.intentId] else seen

private lemma seenIntents_eq (J : List Record) : seenIntents J = J.foldl seenStep [] := rfl

variable {id : PyStr}

/-- Recovery only looks at intents with a PREPARED record. -/
lemma exists_prepared_of_seen (h : id ∈ seenIntents J) :
    ∃ r ∈ J, r.kind = .prepared ∧ r.intentId = id := by
  have hgen : ∀ (J : List Record) (acc : List PyStr), id ∈ J.foldl seenStep acc →
      id ∈ acc ∨ ∃ r ∈ J, r.kind = .prepared ∧ r.intentId = id := by
    intro J
    induction J with
    | nil => exact fun acc h => .inl h
    | cons r J ih =>
      intro acc h
      rcases ih _ h with h | ⟨x, hx, hk, hid⟩
      · unfold seenStep at h
        split_ifs at h with hr
        · rcases mem_append.mp h with h | h
          · exact .inl h
          · exact .inr ⟨r, mem_cons_self, hr.1, (mem_singleton.mp h).symm⟩
        · exact .inl h
      · exact .inr ⟨x, mem_cons_of_mem _ hx, hk, hid⟩
  rcases hgen J [] h with h | h
  · simp at h
  · exact h

variable {rs : List Record}

/-- Records that are not PREPARED add no intent. -/
private lemma foldl_seenStep_of_ne (h : ∀ r ∈ rs, r.kind ≠ .prepared) (acc : List PyStr) :
    rs.foldl seenStep acc = acc := by
  induction rs generalizing acc with
  | nil => rfl
  | cons r rs ih =>
    rw [foldl_cons, seenStep, if_neg fun hr => h r mem_cons_self hr.1]
    exact ih (fun x hx => h x (mem_cons_of_mem _ hx)) acc

lemma Stage.tail_kinds_ne (st : Stage) : ∀ k ∈ st.kinds.tail, k ≠ .prepared := by
  decide +revert

variable {s : Machine World} {st : Stage}

/-- The intent of an open attempt is the last one recovery looks at. -/
lemma seenIntents_append {J0 : List Record} {S0 S : Store} {n : ℕ} {a : Attempt}
    (hb : Begins C n J0 S0 a) (hblock : Block C S0 a st rs S) :
    seenIntents (J0 ++ rs) = seenIntents J0 ++ [a.id] := by
  have hnew : a.id ∉ seenIntents J0 := fun h => by
    obtain ⟨r, hr, hk, hid⟩ := exists_prepared_of_seen h
    have : r ∈ binding J0 a.id := mem_binding.mpr ⟨hr, hid, by rw [hk]; rfl⟩
    simp [hb.fresh] at this
  obtain ⟨rest, rfl⟩ : ∃ rest, rs = a.record :: rest := by
    have hhead := hblock.head
    cases rs with
    | nil => simp at hhead
    | cons r rest => exact ⟨rest, by rw [some.inj hhead]⟩
  have hrest : ∀ r ∈ rest, r.kind ≠ .prepared := fun r hr => by
    refine st.tail_kinds_ne _ ?_
    rw [← hblock.kinds]
    exact mem_map_of_mem hr
  rw [seenIntents_eq, foldl_append, foldl_cons, foldl_seenStep_of_ne hrest,
    ← seenIntents_eq, seenStep, if_pos ⟨a.kind_record, hnew⟩]

/-! ## The loop -/

variable {bad : Fault → Machine World → Prop}

/-- Recovery passes over a closed intent. -/
lemma wp_recoverNext_closed
    (hkinds : (binding s.world.journal id).map (fun r => r.kind) = st.kinds)
    (hst : st.closed = true) (h : ok report s) : (C.recoverNext report id).wp ok bad s := by
  simp only [recoverNext, wp_bind, wp_read, hkinds, Stage.stateAfter_kinds,
    wp_ofOption_some, Stage.terminal_state, hst, if_true, wp_pure]
  exact h

/-- An intent with a PREPARED record on a settled home is closed. -/
lemma Settled.closed_of_seen (h : Settled C J S) (hid : id ∈ seenIntents J) :
    ∃ st : Stage, (binding J id).map (fun r => r.kind) = st.kinds ∧ st.closed = true := by
  obtain ⟨r, hr, hk, hrid⟩ := exists_prepared_of_seen hid
  rcases h.binding_cases id with hnil | ⟨J0, S0, n, a, st, rs, S1, -, hblock, hst, -, hrs⟩
  · have : r ∈ binding J id := mem_binding.mpr ⟨hr, hrid, by rw [hk]; rfl⟩
    simp [hnil] at this
  · exact ⟨st, by rw [hrs, hblock.kinds], hst⟩

/-- Recovery of a settled home does nothing. -/
lemma wp_recoverLocked_settled (h : Settled C s.world.journal s.world.store) :
    C.recoverLocked.wp (fun report s' => report = [] ∧ s' = s) (fun _ _ => False) s := by
  simp only [recoverLocked, wp_bind, wp_read]
  refine wp_foldlM (fun id hid report s' hI => ?_) ⟨rfl, rfl⟩
  obtain ⟨rfl, rfl⟩ := hI
  obtain ⟨st, hkinds, hst⟩ := h.closed_of_seen hid
  exact wp_recoverNext_closed hkinds hst ⟨rfl, rfl⟩

/-- Recovery of a home with an open attempt closes it. -/
lemma wp_recoverLocked_open {J0 : List Record} {S0 : Store} {n : ℕ}
    {a : Attempt} (hsettled : Settled C J0 S0) (hb : Begins C n J0 S0 a)
    (hat : At C J0 S0 a st s.world) (hopen : st.closed = false) :
    Leads C C.recoverLocked (Reached C J0 S0 a true st.isStored)
      (Reached C J0 S0 a false st.isStored) s := by
  obtain ⟨rs, hj, hblock⟩ := hat.block
  have hbinding := hb.binding_eq hj hblock
  simp only [recoverLocked, wp_bind, wp_read, hj, seenIntents_append hb hblock,
    foldlM_append, foldlM_cons, foldlM_nil]
  -- the intents of the settled part are passed over
  have hpassed : ((seenIntents J0).foldlM C.recoverNext []).wp (fun _ s' => s' = s)
      (fun _ _ => False) s := by
    refine wp_foldlM (fun id hid report s' hI => ?_) rfl
    subst hI
    obtain ⟨st', hkinds, hst'⟩ := hsettled.closed_of_seen hid
    have hne : id ≠ a.id := fun heq => by
      obtain ⟨r, hr, hk, hrid⟩ := exists_prepared_of_seen hid
      have : r ∈ binding J0 a.id := mem_binding.mpr ⟨hr, hrid.trans heq, by rw [hk]; rfl⟩
      simp [hb.fresh] at this
    have hkinds' : (binding s'.world.journal id).map (fun r => r.kind) = st'.kinds := by
      rw [hj, binding_append, hblock.binding_of_ne hne, append_nil, hkinds]
    exact wp_recoverNext_closed hkinds' hst' rfl
  refine wp_mono hpassed (fun report s' hI => ?_) fun _ _ h => h.elim
  -- the open attempt is recovered, and its state replayed for the report
  subst hI
  simp only [recoverNext, wp_bind, wp_read, hbinding, hblock.kinds,
    Stage.stateAfter_kinds, wp_ofOption_some, Stage.terminal_state, hopen,
    Bool.false_eq_true, if_false]
  refine wp_mono (wp_recoverOne hsettled.storeFacts hb hat hopen) (fun _ s'' h => ?_) fun _ _ h => h
  obtain ⟨st', hclosed, hstored, hat'⟩ := h.1
  obtain ⟨rs', hj', hblock'⟩ := hat'.block
  simp only [hb.binding_eq hj' hblock', hblock'.kinds, Stage.stateAfter_kinds,
    wp_ofOption_some, wp_pure]
  exact ⟨⟨st', hclosed, hstored, hat'⟩, h.2⟩

/-! ## Homes -/

/-- The journal and the store of a home, at any moment. -/
structure Home (C : Coordinator P) (w : World) : Prop where
  chained : Chained P w.journal
  shape : Settled C w.journal w.store ∨ Open C w.journal w.store

variable {w : World}

section

variable {J0 : List Record} {S0 : Store} {n : ℕ} {a : Attempt} (hsettled : Settled C J0 S0)
  (hb : Begins C n J0 S0 a)

include hsettled hb

lemma Reached.settled (h : Reached C J0 S0 a true stored w) : Settled C w.journal w.store := by
  obtain ⟨st, hclosed, -, -, rs, hj, hblock⟩ := h
  rw [hj]
  exact .closed hsettled hb hblock hclosed

lemma Reached.home (h : Reached C J0 S0 a closed stored w) : Home C w := by
  cases closed with
  | true => exact ⟨h.choose_spec.2.2.chained, .inl (h.settled hsettled hb)⟩
  | false =>
    obtain ⟨st, hopen, -, hchain, rs, hj, hblock⟩ := h
    exact ⟨hchain, .inr ⟨J0, S0, n, a, st, rs, hsettled, hb, hblock, hopen, hj⟩⟩

end

/-- At most five records and one generation were added. -/
def Grown (w w' : World) : Prop :=
  w'.journal.length ≤ w.journal.length + 5 ∧ w'.store.generation ≤ w.store.generation + 1

variable {J0 : List Record} {a : Attempt} {st : Stage} {S0 : Store}

lemma Block.generation (h : Block C S a st rs S') :
    S.generation ≤ S'.generation ∧ S'.generation ≤ S.generation + 1 := by
  have hstore := h.store
  split_ifs at hstore
  · obtain ⟨post, -, rfl⟩ := hstore
    exact ⟨Nat.le_succ _, le_rfl⟩
  · rw [hstore]
    exact ⟨le_rfl, Nat.le_succ _⟩

/-- Wherever an attempt on a part of the home has got to, the home has not grown by more. -/
lemma At.grown
    (h : At C J0 S0 a st w') (hj : J0.length ≤ w.journal.length)
    (hs : S0.generation ≤ w.store.generation) : Grown w w' := by
  obtain ⟨-, rs, hj', hblock⟩ := h
  have hlen := st.length_kinds_le
  rw [← hblock.length_eq] at hlen
  have hgen := hblock.generation.2
  refine ⟨?_, by omega⟩
  rw [hj', length_append]
  omega

/-- `w'` is the home `w` after a recovery that returned: it is settled, the store is as it
was, and records were added only for an intent in flight. -/
structure Recovered (C : Coordinator P) (w w' : World) : Prop where
  chained : Chained P w'.journal
  settled : Settled C w'.journal w'.store
  store : w'.store = w.store
  grown : Grown w w'
  others : ∀ id, ¬InFlight w.journal id → forIntent w'.journal id = forIntent w.journal id

/-- An open attempt is in flight. -/
lemma At.inFlight {n : ℕ}
    (hb : Begins C n J0 S0 a) (h : At C J0 S0 a st w) (hst : st.closed = false) :
    InFlight w.journal a.id := by
  obtain ⟨-, rs, hj, hblock⟩ := h
  refine ⟨?_, fun state hstate => ?_⟩
  · rw [hb.binding_eq hj hblock]
    exact ne_nil_of_mem hblock.record_mem
  · rw [hb.binding_eq hj hblock, hblock.kinds, Stage.stateAfter_kinds] at hstate
    rw [← some.inj hstate, Stage.terminal_state, hst]

/-- The records of other intents are those from before the attempt. -/
lemma At.forIntent_of_ne
    (h : At C J0 S0 a st w) (hid : id ≠ a.id) :
    forIntent w.journal id = forIntent J0 id := by
  obtain ⟨-, rs, hj, hblock⟩ := h
  have happend : forIntent (J0 ++ rs) id = forIntent J0 id ++ forIntent rs id :=
    filter_append ..
  rw [hj, happend, hblock.forIntent_of_ne hid, append_nil]

/-- `recover` settles a home; where it stops, it leaves a home. -/
theorem wp_recoverLocked {s : Machine World} (h : Home C s.world) : C.recoverLocked.wp
      (fun _ s' => Recovered C s.world s'.world ∧ Kept s s')
      (fun e s' => Home C s'.world ∧ Kept s s' ∧ Grown s.world s'.world ∧
        Excused C s e s'.world) s := by
  obtain ⟨hchain, hsettled | hopen⟩ := h
  · have hrefl : Grown s.world s.world := ⟨Nat.le_add_right _ _, Nat.le_add_right _ _⟩
    refine wp_mono (wp_recoverLocked_settled hsettled) ?_ fun _ _ h => h.elim
    rintro _ s' ⟨-, rfl⟩
    exact ⟨⟨hchain, hsettled, rfl, hrefl, fun _ _ => rfl⟩, Kept.refl _⟩
  · obtain ⟨J0, S0, n, a, st, rs, hsettled, hb, hblock, hst, hj⟩ := hopen
    have hat : At C J0 S0 a st s.world := ⟨hchain, rs, hj, hblock⟩
    have hgrown : ∀ {closed : Bool} {w' : World}, Reached C J0 S0 a closed st.isStored w' →
        Grown s.world w' := fun ⟨_, _, _, hat'⟩ =>
      hat'.grown (by rw [hj, length_append]; exact Nat.le_add_right _ _) hblock.generation.1
    refine wp_mono (wp_recoverLocked_open hsettled hb hat hst) (fun _ s' h => ⟨?_, h.2.1⟩)
      fun e s' h => ⟨h.1.home hsettled hb, h.2.1, hgrown h.1, h.2.2⟩
    obtain ⟨st', -, -, hat'⟩ := h.1
    refine ⟨hat'.chained, h.1.settled hsettled hb, h.2.2, hgrown h.1, fun id hid => ?_⟩
    have hne : id ≠ a.id := fun heq => hid (heq ▸ hat.inFlight hb hst)
    rw [hat'.forIntent_of_ne hne, hat.forIntent_of_ne hne]

lemma wp_load {s : Machine World} (h : Chained P s.world.journal) (hok : ok () s) :
    (load (P := P)).wp ok bad s := by
  simp only [load, wp_bind, wp_read, h, decide_true, wp_ensure]
  exact ⟨fun _ => hok, fun h => by simp at h⟩

end VdbC1
