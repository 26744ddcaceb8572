import Cappo.VdbC1.Correctness.Acceptance

/-!
# Finalized histories of the coordinator and of the verifier

The coordinator replays the kinds recorded for an intent (`state_after`), the verifier compares
them with a list of two paths (`LEGAL_FINAL_PATHS`). The replay lets COMMIT_UNCERTAIN be repeated,
and lets it stand between COMMITTED and FINALIZED; the verifier's paths allow neither, and the
protocol says that only FINALIZED may follow COMMITTED.

## Main results

* `stateAfter_eq_finalized_iff`: the histories that the replay takes to FINALIZED;
* `checkPath_eq_ok_iff`: the histories that the verifier accepts;
* `same_finalized_iff`: where the two agree.
-/

namespace VdbC1

/-! ## The replay -/

/-- From the state `s`, the kinds lead to FINALIZED. -/
def Finalizes (s : State × Bool) (kinds : List Kind) : Prop :=
  ∃ seen, kinds.foldlM replay s = some (.finalized, seen)

variable {kinds : List Kind}

lemma stateAfter_eq_finalized :
    stateAfter kinds = some .finalized ↔ Finalizes (.received, false) kinds := by
  simp [stateAfter, Finalizes]

variable {s : State × Bool}

lemma finalizes_nil : Finalizes s [] ↔ s.1 = .finalized := by
  simp [Finalizes, Prod.ext_iff]

variable {k : Kind}

lemma finalizes_cons :
    Finalizes s (k :: kinds) ↔ ∃ s', replay s k = some s' ∧ Finalizes s' kinds := by
  simp only [Finalizes, List.foldlM_cons, Option.bind_eq_bind, Option.bind_eq_some_iff]
  exact ⟨fun ⟨seen, s', hs', h⟩ => ⟨s', hs', seen, h⟩, fun ⟨s', hs', seen, h⟩ => ⟨seen, s', hs', h⟩⟩

/-- COMMIT_UNCERTAIN `b` times, and then FINALIZED. -/
def afterCommitted (b : ℕ) : List Kind := List.replicate b .commitUncertain ++ [.finalized]

/-- COMMIT_UNCERTAIN `a` times, then COMMITTED, and so on. -/
def afterCommitting (a b : ℕ) : List Kind :=
  List.replicate a .commitUncertain ++ .committed :: afterCommitted b

/-- Nothing leads on from a terminal state. -/
lemma finalizes_terminal (hs : s.1.terminal = true) :
    Finalizes s kinds ↔ s.1 = .finalized ∧ kinds = [] := by
  cases kinds with
  | nil => simp [finalizes_nil]
  | cons k kinds => simp [finalizes_cons, replay_terminal hs k]

/-- The states in which the outcome of the storage transaction is awaited. -/
def State.awaiting (s : State) : Prop := s = .committing ∨ s = .commitUncertain

variable {t : State × Bool}

lemma replay_seen_iff {s : State} (hs : s.awaiting) : replay (s, true) k = some t ↔
      (k = .commitUncertain ∧ t = (.commitUncertain, true)) ∨
      (k = .finalized ∧ t = (.finalized, true)) := by
  rcases hs with rfl | rfl <;> cases k <;>
    simp [replay, State.check, State.transitions, eq_comm]

lemma replay_unseen_iff {s : State} (hs : s.awaiting) : replay (s, false) k = some t ↔
      (k = .commitUncertain ∧ t = (.commitUncertain, false)) ∨
      (k = .committed ∧ t = (s, true)) ∨
      (k = .aborted ∧ s = .commitUncertain ∧ t = (.aborted, false)) := by
  rcases hs with rfl | rfl <;> cases k <;>
    simp [replay, State.check, State.transitions, eq_comm]

/-- After COMMITTED, only COMMIT_UNCERTAIN can come before FINALIZED. -/
lemma finalizes_seen_iff {s : State} (hs : s.awaiting) :
    Finalizes (s, true) kinds ↔ ∃ b, kinds = afterCommitted b := by
  induction kinds generalizing s with
  | nil =>
    rcases hs with rfl | rfl <;> simp [finalizes_nil, afterCommitted]
  | cons k kinds ih =>
    simp only [finalizes_cons, replay_seen_iff hs]
    constructor
    · rintro ⟨t, ⟨rfl, rfl⟩ | ⟨rfl, rfl⟩, hrest⟩
      · obtain ⟨b, rfl⟩ := (ih (.inr rfl)).mp hrest
        exact ⟨b + 1, rfl⟩
      · obtain ⟨-, rfl⟩ := (finalizes_terminal rfl).mp hrest
        exact ⟨0, rfl⟩
    · rintro ⟨_ | b, hb⟩
      · cases hb
        exact ⟨_, .inr ⟨rfl, rfl⟩, (finalizes_terminal rfl).mpr ⟨rfl, rfl⟩⟩
      · cases hb
        exact ⟨_, .inl ⟨rfl, rfl⟩, (ih (.inr rfl)).mpr ⟨b, rfl⟩⟩

/-- After COMMITTING, COMMIT_UNCERTAIN can come any number of times before COMMITTED. -/
lemma finalizes_unseen_iff {s : State} (hs : s.awaiting) :
    Finalizes (s, false) kinds ↔ ∃ a b, kinds = afterCommitting a b := by
  induction kinds generalizing s with
  | nil =>
    rcases hs with rfl | rfl <;> simp [finalizes_nil, afterCommitting]
  | cons k kinds ih =>
    simp only [finalizes_cons, replay_unseen_iff hs]
    constructor
    · rintro ⟨t, ⟨rfl, rfl⟩ | ⟨rfl, rfl⟩ | ⟨rfl, -, rfl⟩, hrest⟩
      · obtain ⟨a, b, rfl⟩ := (ih (.inr rfl)).mp hrest
        exact ⟨a + 1, b, rfl⟩
      · obtain ⟨b, rfl⟩ := (finalizes_seen_iff hs).mp hrest
        exact ⟨0, b, rfl⟩
      · exact absurd ((finalizes_terminal rfl).mp hrest).1 (by decide)
    · rintro ⟨_ | a, b, hab⟩
      · cases hab
        exact ⟨_, .inr (.inl ⟨rfl, rfl⟩), (finalizes_seen_iff hs).mpr ⟨b, rfl⟩⟩
      · cases hab
        exact ⟨_, .inl ⟨rfl, rfl⟩, (ih (.inr rfl)).mpr ⟨a, b, rfl⟩⟩

/-- A history with COMMIT_UNCERTAIN `a` times before COMMITTED and `b` times after it. -/
def finalHistory (a b : ℕ) : List Kind := .prepared :: .committing :: afterCommitting a b

lemma replay_received_iff : replay (.received, false) k = some t ↔
      (k = .prepared ∧ t = (.prepared, false)) ∨
      (k = .admissionRejected ∧ t = (.admissionRejected, false)) := by
  cases k <;> simp [replay, State.check, State.transitions, eq_comm]

lemma replay_prepared_iff : replay (.prepared, false) k = some t ↔
      (k = .committing ∧ t = (.committing, false)) ∨ (k = .aborted ∧ t = (.aborted, false)) := by
  cases k <;> simp [replay, State.check, State.transitions, eq_comm]

lemma finalizes_prepared_iff :
    Finalizes (.prepared, false) kinds ↔ ∃ a b, kinds = .committing :: afterCommitting a b := by
  cases kinds with
  | nil => simp [finalizes_nil]
  | cons k kinds =>
    simp only [finalizes_cons, replay_prepared_iff]
    constructor
    · rintro ⟨t, ⟨rfl, rfl⟩ | ⟨rfl, rfl⟩, hrest⟩
      · obtain ⟨a, b, rfl⟩ := (finalizes_unseen_iff (.inl rfl)).mp hrest
        exact ⟨a, b, rfl⟩
      · exact absurd ((finalizes_terminal rfl).mp hrest).1 (by decide)
    · rintro ⟨a, b, hab⟩
      cases hab
      exact ⟨_, .inl ⟨rfl, rfl⟩, (finalizes_unseen_iff (.inl rfl)).mpr ⟨a, b, rfl⟩⟩

/-- The histories that the replay takes to FINALIZED. -/
theorem stateAfter_eq_finalized_iff :
    stateAfter kinds = some .finalized ↔ ∃ a b, kinds = finalHistory a b := by
  rw [stateAfter_eq_finalized]
  cases kinds with
  | nil => simp [finalizes_nil, finalHistory]
  | cons k kinds =>
    simp only [finalizes_cons, replay_received_iff]
    constructor
    · rintro ⟨t, ⟨rfl, rfl⟩ | ⟨rfl, rfl⟩, hrest⟩
      · obtain ⟨a, b, rfl⟩ := finalizes_prepared_iff.mp hrest
        exact ⟨a, b, rfl⟩
      · exact absurd ((finalizes_terminal rfl).mp hrest).1 (by decide)
    · rintro ⟨a, b, hab⟩
      cases hab
      exact ⟨_, .inl ⟨rfl, rfl⟩, finalizes_prepared_iff.mpr ⟨a, b, rfl⟩⟩

/-! ## The verifier -/

/-- The kinds as they stand in the records. -/
def kindTexts (kinds : List Kind) : List Json := kinds.map fun k => .str k.text

/-- The histories that the verifier accepts: COMMIT_UNCERTAIN at most once, before COMMITTED. -/
theorem checkPath_eq_ok_iff : Verify.checkPath (kindTexts kinds) = .ok () ↔
      kinds = finalHistory 0 0 ∨ kinds = finalHistory 1 0 := by
  have hinj : Function.Injective kindTexts :=
    List.map_injective_iff.mpr fun a b h => Kind.text_injective (by simpa using h)
  have hpaths : Verify.legalFinalPaths =
      [kindTexts (finalHistory 0 0), kindTexts (finalHistory 1 0)] := by decide
  rw [Verify.checkPath_eq_ok, hpaths]
  simp [hinj.eq_iff]

/-! ## Where they agree -/

lemma afterCommitting_inj (h : afterCommitting a b = afterCommitting a' b') : a = a' ∧ b = b' := by
  induction a generalizing a' with
  | zero =>
    cases a' with
    | zero => exact ⟨rfl, by simpa [afterCommitting, afterCommitted] using congrArg List.length h⟩
    | succ a' => exact absurd (List.cons.inj h).1 (by decide)
  | succ a ih =>
    cases a' with
    | zero => exact absurd (List.cons.inj h).1 (by decide)
    | succ a' =>
      obtain ⟨rfl, rfl⟩ := ih (List.cons.inj h).2
      exact ⟨rfl, rfl⟩

lemma finalHistory_inj : finalHistory a b = finalHistory a' b' ↔ a = a' ∧ b = b' := by
  refine ⟨fun h => afterCommitting_inj ?_, fun ⟨ha, hb⟩ => by rw [ha, hb]⟩
  simpa [finalHistory] using h

/-- The replay and the verifier agree on every history but those with COMMIT_UNCERTAIN more than
once before COMMITTED, or after it. -/
theorem same_finalized_iff (kinds : List Kind) :
    (stateAfter kinds = some .finalized ↔ Verify.checkPath (kindTexts kinds) = .ok ()) ↔
      ¬∃ a b, (1 < a ∨ 0 < b) ∧ kinds = finalHistory a b := by
  rw [stateAfter_eq_finalized_iff, checkPath_eq_ok_iff]
  constructor
  · rintro hsame ⟨a, b, hab, rfl⟩
    rcases hsame.mp ⟨a, b, rfl⟩ with heq | heq <;>
    · obtain ⟨rfl, rfl⟩ := finalHistory_inj.mp heq
      simp at hab
  · intro hnone
    constructor
    · rintro ⟨a, b, rfl⟩
      -- neither count is past what a legal path has
      have hab : ¬(1 < a ∨ 0 < b) := fun h => hnone ⟨a, b, h, rfl⟩
      rw [finalHistory_inj, finalHistory_inj]
      omega
    · rintro (rfl | rfl)
      · exact ⟨0, 0, rfl⟩
      · exact ⟨1, 0, rfl⟩

/-- The replay takes COMMIT_UNCERTAIN after COMMITTED, and a second time before it; the verifier
rejects both histories. -/
theorem not_same_finalized :
    stateAfter [.prepared, .committing, .committed, .commitUncertain, .finalized] =
      some .finalized ∧
    Verify.checkPath (kindTexts
      [.prepared, .committing, .committed, .commitUncertain, .finalized]) =
        .error ⟨.journalInconsistent, "state_machine"⟩ ∧
    stateAfter [.prepared, .committing, .commitUncertain, .commitUncertain, .committed,
      .finalized] = some .finalized ∧
    Verify.checkPath (kindTexts [.prepared, .committing, .commitUncertain, .commitUncertain,
      .committed, .finalized]) = .error ⟨.journalInconsistent, "state_machine"⟩ := by
  decide

end VdbC1
