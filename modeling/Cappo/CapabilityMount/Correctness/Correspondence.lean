import Cappo.CapabilityMount.Correctness.History

/-!
# Correspondence with the TLA+ model

`formal/p5_correspondence.py`: `PYTHON_TO_TLA` maps a step of an operation's record, labelled with
the site that wrote it, to an action of `P5_ConsequenceTruth.tla`, and `verify_trace` accepts the
steps that it maps to an action which is not hostile.

The fence of `begin_consequence` is a site that the table does not know, and a report of a failure
can reach an operation that is only authorized. Every other step of the mount service is mapped.

## Main results

* `run_corresponds`: which of the steps that the mount service takes are accepted;
* `fence_unmapped`: a run with a step that is not.
-/

namespace CapabilityMount

open VdbC1 (PyStr)

/-! ## The table -/

/-- `KNOWN_MUTATION_SITES`. -/
inductive ActorClass where
  | cappoEvaluator
  | beginConsequence
  | completionReporter
  | directOrmBypass
  deriving DecidableEq

/-- The actions that the table has. -/
inductive TlaAction where
  | authorize
  | start
  | completeSucceeded
  | completeFailed
  | enterUnknown
  | reconcileSucceeded
  | reconcileFailed
  | forgeState
  deriving DecidableEq

/-- `_HOSTILE_TLA_ACTIONS`. -/
def TlaAction.hostile : TlaAction → Bool
  | forgeState => true
  | _ => false

/-- `PYTHON_TO_TLA`; the state before the first event is `none`. -/
def pythonToTla : Option ConsequenceState → ConsequenceState → ActorClass → Option TlaAction
  | none, .authorized, .cappoEvaluator => some .authorize
  | some .authorized, .started, .beginConsequence => some .start
  | some .started, .succeeded, .completionReporter => some .completeSucceeded
  | some .started, .failed, .completionReporter => some .completeFailed
  | some .started, .outcomeUnknown, .completionReporter => some .enterUnknown
  | some .outcomeUnknown, .outcomeUnknown, .completionReporter => some .enterUnknown
  | some .outcomeUnknown, .reconciledSucceeded, .completionReporter => some .reconcileSucceeded
  | some .outcomeUnknown, .reconciledFailed, .completionReporter => some .reconcileFailed
  | some .started, .succeeded, .directOrmBypass => some .forgeState
  | some .authorized, .succeeded, .directOrmBypass => some .forgeState
  | some .outcomeUnknown, .succeeded, .directOrmBypass => some .forgeState
  | some .outcomeUnknown, .reconciledSucceeded, .directOrmBypass => some .forgeState
  | _, _, _ => none

/-- The name that a site has in the registry, if it is registered. -/
def Site.actorClass? : Site → Option ActorClass
  | cappoEvaluator => some .cappoEvaluator
  | beginConsequence => some .beginConsequence
  | completionReporter => some .completionReporter
  | beginConsequenceFence | recorderBegin | recorderComplete | reconciler => none

/-- The sites of `service.py`. -/
def Site.ofMountService : Site → Bool
  | cappoEvaluator | beginConsequence | beginConsequenceFence | completionReporter => true
  | recorderBegin | recorderComplete | reconciler => false

/-- `verify_trace` on one step; it raises where there is no value. -/
def verifyTrace (previous : Option ConsequenceState) (next : ConsequenceState) (site : Site) :
    Option TlaAction := do
  let actor ← site.actorClass?
  let action ← pythonToTla previous next actor
  if action.hostile then none else some action

/-! ## The steps of the mount service -/

variable {D : Deployment}

/-- The first event of an operation that the mount service writes is the authorization. -/
lemma Log.first_of_mountService {log : Log} (hlog : log.Audited D) {e : Event}
    (he : e ∈ log.db.events) (hsite : e.site.ofMountService = true) (hversion : e.version = 0) :
    e.state = .authorized ∧ e.site = .cappoEvaluator := by
  obtain ⟨_, _, _, _, _, -, -, hmem, happended⟩ := Log.appended_of_event hlog he
  cases happended.role hmem with
  | authorized _ state site => exact ⟨state, site⟩
  | claimed continues | continued continues =>
    exact absurd (hversion.symm.trans continues.version) (Nat.zero_ne_add_one _)
  | recorder _ site =>
    rw [site] at hsite
    exact absurd hsite Bool.false_ne_true

/-- The states that occur in the record of an operation. -/
lemma WellRecorded.state_cases {es : List Event} (h : WellRecorded es) {e : Event}
    (he : e ∈ es) : e.state ∈ ConsequenceState.authorized :: .started ::
      Site.completionReporter.nextStates := by
  by_cases hversion : e.version = 0
  · rw [(h.authorized e he).mp hversion]
    exact List.mem_cons_self
  · obtain ⟨_, -, hc⟩ := h.continues e he hversion
    have hall : ∀ site : Site, site.nextStates ⊆ ConsequenceState.authorized :: .started ::
        Site.completionReporter.nextStates := by
      intro site
      cases site <;> decide
    exact hall _ hc.written

/-- The steps that a report takes, from the states that occur. -/
lemma verifyTrace_report : ∀ s ∈ ConsequenceState.authorized :: .started ::
    Site.completionReporter.nextStates, ∀ s' ∈ Site.completionReporter.nextStates,
    s' ∈ s.transitions ∨ s = .outcomeUnknown ∧ s' = .outcomeUnknown →
      ((verifyTrace (some s) s' .completionReporter).isSome = true ↔ s ≠ .authorized) := by
  decide

/-- A step of the mount service is accepted unless the fence took it, or it reports a failure of
an operation that was not started. -/
lemma Event.Continues.verifyTrace_iff {latest e : Event} (h : latest.Continues e)
    (hlatest : latest.state ∈ ConsequenceState.authorized :: .started ::
      Site.completionReporter.nextStates) (hsite : e.site.ofMountService = true) :
    (verifyTrace (some latest.state) e.state e.site).isSome = true ↔
      e.site ≠ .beginConsequenceFence ∧
        ¬(e.site = .completionReporter ∧ latest.state = .authorized) := by
  have hwritten := h.written
  have hsteps := h.steps
  rw [Event.Steps] at hsteps
  cases hs : e.site with
  | cappoEvaluator => simp [hs, Site.nextStates] at hwritten
  | beginConsequenceFence => simp [verifyTrace, Site.actorClass?]
  | beginConsequence =>
    simp only [hs, Site.nextStates, List.mem_singleton] at hwritten
    rw [hwritten, h.authorized hwritten]
    decide
  | completionReporter =>
    rw [hs] at hwritten hsteps
    rw [verifyTrace_report _ hlatest _ hwritten hsteps]
    simp
  | _ => simp [hs, Site.ofMountService] at hsite

/-- After any schedule, the steps of an operation that the mount service took are mapped to actions
of the model, except those of the fence and the reports of a failure before the start. -/
theorem run_corresponds {es : Schedule}
    {c : Config} (hrun : D.run es = some c) :
    ∀ e ∈ c.shared.db.events, e.site.ofMountService = true →
      (e.version = 0 → (verifyTrace none e.state e.site).isSome = true) ∧
      ∀ latest ∈ c.shared.db.events, latest.operationId = e.operationId →
        e.version = latest.version + 1 →
        ((verifyTrace (some latest.state) e.state e.site).isSome = true ↔
          e.site ≠ .beginConsequenceFence ∧
            ¬(e.site = .completionReporter ∧ latest.state = .authorized)) := by
  intro e he hsite
  have hrecorded : WellRecorded c.shared.db.events := Log.wellRecorded (run_audited hrun)
  constructor
  · intro hversion
    obtain ⟨hstate, hevaluator⟩ := Log.first_of_mountService (run_audited hrun) he hsite hversion
    rw [hstate, hevaluator]
    decide
  · intro latest hlatest hoperation hversion
    obtain ⟨latest', hlatest', hc⟩ := hrecorded.continues e he (by omega)
    obtain rfl := hrecorded.eq_of_version hlatest' hlatest
      (hc.operationId.symm.trans hoperation.symm)
      (Nat.add_right_cancel (hc.version.symm.trans hversion))
    exact hc.verifyTrace_iff (hrecorded.state_cases hlatest) hsite

/-- An operation that succeeds: its steps are all accepted. -/
theorem run_corresponds_executed : ∃ c e latest, Sample.deployment.run
      (Sample.mounted ++ Sample.executed 2 "o") = some c ∧
    e ∈ c.shared.db.events ∧ latest ∈ c.shared.db.events ∧
    e.site = .completionReporter ∧ latest.state = .started ∧
    (verifyTrace (some latest.state) e.state e.site).isSome = true := by
  obtain ⟨c, hrun, e, he, latest, hlatest, hoperation, hversion, hsite, hstate⟩ :=
    Sample.exists_run (Sample.mounted ++ Sample.executed 2 "o")
      (fun c => ∃ e ∈ c.shared.db.events, ∃ latest ∈ c.shared.db.events,
        latest.operationId = e.operationId ∧ e.version = latest.version + 1 ∧
        e.site = .completionReporter ∧ latest.state = .started) (by decide +kernel)
  have haccepted := (run_corresponds hrun e he (by rw [hsite]; rfl)).2 latest hlatest hoperation
    hversion
  exact ⟨c, e, latest, hrun, he, hlatest, hsite, hstate, haccepted.mpr
    ⟨by rw [hsite]; exact nofun, fun h => absurd (hstate.symm.trans h.2) nofun⟩⟩

/-- The mount is terminated after an operation was authorized: the fence records that it failed,
and that step is mapped to no action. -/
theorem fence_unmapped : ∃ c e latest, Sample.deployment.run (Sample.mounted ++
      Sample.allowed 2 "o" ++ Sample.steps 2 (Sample.oks 2) ++
      Sample.terminated 3 ++ Sample.steps 2 (Sample.oks 4)) = some c ∧
    e ∈ c.shared.db.events ∧ latest ∈ c.shared.db.events ∧
    latest.operationId = e.operationId ∧ e.version = latest.version + 1 ∧
    e.site.ofMountService = true ∧ verifyTrace (some latest.state) e.state e.site = none := by
  obtain ⟨c, hrun, e, he, latest, hlatest, h⟩ := Sample.exists_run (Sample.mounted ++
      Sample.allowed 2 "o" ++ Sample.steps 2 (Sample.oks 2) ++
      Sample.terminated 3 ++ Sample.steps 2 (Sample.oks 4))
    (fun c => ∃ e ∈ c.shared.db.events, ∃ latest ∈ c.shared.db.events,
      latest.operationId = e.operationId ∧ e.version = latest.version + 1 ∧
      e.site.ofMountService = true ∧ verifyTrace (some latest.state) e.state e.site = none)
    (by decide +kernel)
  exact ⟨c, e, latest, hrun, he, hlatest, h⟩

end CapabilityMount
