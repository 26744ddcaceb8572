import Cappo.Lib.AuditLog
import Cappo.Payment.Gate

/-!
# The slots of a node

The node's counter is to be the number of requests that were admitted and have not finished. A
check takes its slot in the middle: a layer after it that refuses, and a command that fails after
the slot was taken, leave the slot taken for a request that never runs. A request that finishes
gives its slot back by one command whose failure is ignored.

## Main results

* `World.conserved_apply_iff`: what one event has to meet;
* `run_conserved_iff`: the counter is right at every moment exactly if every event meets it.
-/

namespace Payment

open VdbC1 (PyStr)

variable {S : Settings} {w : World} {env : Env} {store : Store} {workspaceId : PyStr}
  {costCents : ℤ}

namespace Settings

lemma concurrentRuns_countRun :
    (countRun env store workspaceId).2.concurrentRuns = store.concurrentRuns := by
  unfold countRun
  dsimp only
  split
  · rfl
  · rfl
  · split <;> rfl

lemma countRun_eq_ok_iff : (countRun env store workspaceId).1 = .ok () ↔
    env.incrRuns = .answered ∧ env.expire = .answered := by
  unfold countRun
  dsimp only
  split
  · next h => exact ⟨nofun, fun h' => absurd (h.symm.trans h'.1) nofun⟩
  · next h => exact ⟨nofun, fun h' => absurd (h.symm.trans h'.1) nofun⟩
  · next h =>
    split
    · next h' => exact ⟨fun _ => ⟨h, h'⟩, fun _ => rfl⟩
    · next h' => exact ⟨nofun, fun h'' => absurd h''.2 h'⟩

lemma tables_countRun : (countRun env store workspaceId).2.quotas = store.quotas ∧
    (countRun env store workspaceId).2.budgets = store.budgets := by
  unfold countRun
  dsimp only
  split
  · exact ⟨rfl, rfl⟩
  · exact ⟨rfl, rfl⟩
  · split <;> exact ⟨rfl, rfl⟩

lemma checkBudget_of_eq (hbudgets : store'.budgets = store.budgets) :
    checkBudget env store' workspaceId costCents = checkBudget env store workspaceId costCents := by
  unfold checkBudget
  rw [hbudgets]

/-- The layers after the node's limit look at the tables only. -/
lemma checkRest_of_eq (hquotas : store'.quotas = store.quotas)
    (hbudgets : store'.budgets = store.budgets) :
    (checkRest env store' workspaceId costCents).1 =
      (checkRest env store workspaceId costCents).1 := by
  unfold checkRest
  rw [hquotas, checkBudget_of_eq hbudgets]
  split <;> rfl

lemma concurrentRuns_checkRest :
    (checkRest env store workspaceId costCents).2.concurrentRuns = store.concurrentRuns := by
  unfold checkRest
  split <;> rfl

end Settings

namespace World

/-- The counter is the number of requests that were admitted and have not finished. -/
def Conserved (w : World) : Prop := w.store.concurrentRuns = w.admitted

instance : Decidable w.Conserved := inferInstanceAs (Decidable (_ = _))

/-- The commands and layers after the one that takes the slot. -/
def SlotKept (S : Settings) (env : Env) (store : Store) (workspaceId : PyStr) (costCents : ℤ) :
    Prop :=
  match env.incr with
  | .failed => True
  | .lost => False
  | .answered =>
    if store.concurrentRuns + 1 > S.maxNodeConcurrentRuns then env.decr.applied = true
    else env.incrRuns = .answered ∧ env.expire = .answered ∧
      (Settings.checkRest env store workspaceId costCents).1 = .ok ()

/-- What an event has to meet. A check that gets as far as to take a slot: the increment is not
lost, a slot that is one too many is given back, and with a slot that is kept nothing after it
refuses or fails. Without Redis: nobody is admitted. A request that finishes: the decrement has its
effect. -/
def Balanced (S : Settings) (w : World) : Event → Prop
  | .check env workspaceId costCents =>
    Settings.checkKillSwitch env w.store workspaceId = .ok () →
      if S.redis then S.checkHourly env w.store workspaceId = .ok () →
        SlotKept S env w.store workspaceId costCents
      else S.isProduction = true ∨ (Settings.checkRest env w.store workspaceId costCents).1 ≠ .ok ()
  | .finish decr => w.admitted ≠ 0 → S.redis = true ∧ decr.applied = true
  | .environment _ => True

lemma conserved_error (hw : w.Conserved) :
    (w.checked (.error e, store)).Conserved ↔ store.concurrentRuns = w.store.concurrentRuns := by
  rw [hw]
  exact Iff.rfl

/-- After the slot was taken, nothing may refuse or fail. -/
lemma conserved_taken_iff (hw : w.Conserved)
    (hstore : result.2.concurrentRuns = w.store.concurrentRuns + 1) :
    (w.checked result).Conserved ↔ result.1 = .ok () := by
  rcases result with ⟨e | u, store⟩
  · rw [conserved_error hw, hstore]
    exact ⟨fun h => absurd h (by omega), nofun⟩
  · refine ⟨fun _ => rfl, fun _ => ?_⟩
    show store.concurrentRuns = ((w.admitted + 1 : ℕ) : ℤ)
    rw [hstore, hw]
    push_cast
    rfl

lemma conserved_checkSlotted_iff (hw : w.Conserved)
    (hslot : store.concurrentRuns = w.store.concurrentRuns + 1)
    (hquotas : store.quotas = w.store.quotas) (hbudgets : store.budgets = w.store.budgets) :
    (w.checked (Settings.checkSlotted env store workspaceId costCents)).Conserved ↔
      env.incrRuns = .answered ∧ env.expire = .answered ∧
        (Settings.checkRest env w.store workspaceId costCents).1 = .ok () := by
  have hcounter := @Settings.concurrentRuns_countRun env store workspaceId
  obtain ⟨hquotas', hbudgets'⟩ := @Settings.tables_countRun env store workspaceId
  rw [← and_assoc, ← @Settings.countRun_eq_ok_iff env store workspaceId]
  unfold Settings.checkSlotted
  generalize Settings.countRun env store workspaceId = result at hcounter hquotas' hbudgets' ⊢
  rcases result with ⟨e | u, counted⟩
  · exact (conserved_taken_iff hw (hcounter.trans hslot)).trans
      (iff_of_false nofun fun h => absurd h.1 nofun)
  · rw [and_iff_right rfl, ← Settings.checkRest_of_eq (hquotas'.trans hquotas)
      (hbudgets'.trans hbudgets)]
    exact conserved_taken_iff hw (Settings.concurrentRuns_checkRest.trans (hcounter.trans hslot))

/-- A check from the node's limit on. -/
lemma conserved_checkNode_iff (hw : w.Conserved) :
    (w.checked (S.checkNode env w.store workspaceId costCents)).Conserved ↔
      SlotKept S env w.store workspaceId costCents := by
  unfold Settings.checkNode Settings.takeSlot SlotKept
  dsimp only
  cases env.incr with
  | failed => exact (conserved_error hw).trans (iff_of_true rfl trivial)
  | lost =>
    refine (conserved_error hw).trans (iff_of_false ?_ id)
    exact fun h => absurd h (by simp)
  | answered =>
    dsimp only
    by_cases hlimit : w.store.concurrentRuns + 1 > S.maxNodeConcurrentRuns
    · -- one too many
      rw [if_pos hlimit, if_pos hlimit]
      cases env.decr with
      | failed =>
        refine (conserved_error hw).trans (iff_of_false ?_ (by decide))
        exact fun h => absurd h (by simp)
      | lost | answered => exact (conserved_error hw).trans (iff_of_true rfl rfl)
    · rw [if_neg hlimit, if_neg hlimit]
      exact conserved_checkSlotted_iff hw rfl rfl rfl

/-- One event keeps the counter right exactly if it meets its condition. -/
theorem conserved_apply_iff (hw : w.Conserved) (e : Event) :
    (w.apply S e).Conserved ↔ w.Balanced S e := by
  cases e with
  | check env workspaceId costCents =>
    show (w.checked (S.check env w.store workspaceId costCents)).Conserved ↔ (_ → _)
    unfold Settings.check
    cases Settings.checkKillSwitch env w.store workspaceId with
    | error e => exact (conserved_error hw).trans (iff_of_true rfl nofun)
    | ok u =>
      dsimp only
      rw [forall_prop_of_true rfl]
      split
      · cases S.checkHourly env w.store workspaceId with
        | error e => exact (conserved_error hw).trans (iff_of_true rfl nofun)
        | ok u =>
          dsimp only
          rw [forall_prop_of_true rfl]
          exact conserved_checkNode_iff hw
      · split
        · next hproduction =>
          exact (conserved_error hw).trans (iff_of_true rfl (.inl hproduction))
        · next hproduction =>
          rw [or_iff_right hproduction]
          -- who is admitted without Redis takes no slot
          have hcounter := @Settings.concurrentRuns_checkRest env w.store workspaceId costCents
          generalize Settings.checkRest env w.store workspaceId costCents = result at hcounter ⊢
          rcases result with ⟨e | u, store⟩
          · exact (conserved_error hw).trans (iff_of_true hcounter nofun)
          · refine iff_of_false (fun h => ?_) fun h => h rfl
            change store.concurrentRuns = ((w.admitted + 1 : ℕ) : ℤ) at h
            change store.concurrentRuns = _ at hcounter
            rw [hcounter, hw] at h
            push_cast at h
            omega
  | finish decr =>
    obtain ⟨store, admitted⟩ := w
    cases admitted with
    | zero => exact iff_of_true hw fun h => absurd rfl h
    | succ n =>
      change store.concurrentRuns = ((n + 1 : ℕ) : ℤ) at hw
      show (S.decrementConcurrent decr store).concurrentRuns = (n : ℤ) ↔ (n + 1 ≠ 0 → _)
      rw [forall_prop_of_true n.succ_ne_zero, ← Bool.and_eq_true]
      unfold Settings.decrementConcurrent
      split
      · next h =>
        refine iff_of_true ?_ h
        show store.concurrentRuns - 1 = n
        rw [hw]
        push_cast
        omega
      · next h =>
        refine iff_of_false (fun heq => ?_) h
        rw [hw] at heq
        push_cast at heq
        omega
  | environment store => exact iff_of_true hw trivial

lemma run_concat (events : List Event) (e : Event) :
    w.run S (events ++ [e]) = (w.run S events).apply S e := by
  unfold run
  rw [List.foldl_append]
  rfl

end World

/-- The counter is the number of admitted and unfinished requests at every moment of a run exactly
if every event meets its condition. -/
theorem run_conserved_iff (S : Settings) (events : List Event) :
    (∀ moment, moment <+: events → (World.init.run S moment).Conserved) ↔
      AuditLog.Audited (fun pre e => (World.init.run S pre).Balanced S e) events := by
  refine AuditLog.audited_iff (P := fun events => ∀ moment, moment <+: events →
    (World.init.run S moment).Conserved) ?_ ?_ events
  · rintro moment hmoment
    rw [List.prefix_nil.mp hmoment]
    exact rfl
  · intro pre e
    have hmoments : (∀ moment, moment <+: pre ++ [e] → (World.init.run S moment).Conserved) ↔
        (∀ moment, moment <+: pre → (World.init.run S moment).Conserved) ∧
          (World.init.run S (pre ++ [e])).Conserved := by
      simp only [List.prefix_concat_iff, or_imp, forall_and, forall_eq]
      exact and_comm
    rw [hmoments, World.run_concat]
    exact and_congr_right fun h => World.conserved_apply_iff (h pre (List.prefix_refl pre)) e

namespace Sample

def settings : Settings where
  maxRunsPerHour := 100
  maxTokensPerHour := 100000
  maxNodeConcurrentRuns := 50
  isProduction := true
  redis := true

/-- Nothing fails. -/
def calm : Env where
  time := 0
  now := 0
  existsKillSwitch := .answered
  getRuns := .answered
  getTokens := .answered
  incr := .answered
  decr := .answered
  incrRuns := .answered
  expire := .answered
  redisError := []
  killSwitchRead := true
  quotaRead := true
  resetFlush := true
  quotaFlush := true
  budgetRead := true

def workspace : PyStr := "w"

/-- The free run of a workspace, carried out. -/
def freeRun : List Event := [.check calm workspace 0, .finish .answered]

end Sample

/-- The second request of the day is refused for its quota, after its slot was taken: the check
raises, nobody runs, and the counter stays at one. -/
theorem run_slot_leaked :
    (World.init.run Sample.settings Sample.freeRun).Conserved ∧
      (Sample.settings.check Sample.calm (World.init.run Sample.settings Sample.freeRun).store
        Sample.workspace 0).1 = .error (paymentRequired (PyStr.ofString
          "free run quota exhausted for workspace w. Pay via x402 (USDC on Base) to continue.")
          "quota_exhausted") ∧
      (World.init.run Sample.settings
        (Sample.freeRun ++ [.check Sample.calm Sample.workspace 0])).admitted = 0 ∧
      (World.init.run Sample.settings
        (Sample.freeRun ++ [.check Sample.calm Sample.workspace 0])).store.concurrentRuns = 1 := by
  decide +kernel

end Payment
