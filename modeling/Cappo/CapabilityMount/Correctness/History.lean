import Cappo.CapabilityMount.Correctness.Serving

/-!
# The record of every operation

Five writers append to the event log of an operation: the mount service at three places, the
lifecycle recorder, and the reconciler. None of them holds a lock that covers what it read, so
that only the uniqueness of operation and version keeps them from overwriting each other. Whatever
the schedule, the record of each operation is one sequence.

The second part is a small deployment with one package, one target and one mount, on which runs
are evaluated.

## Main results

* `run_history`: the record of an operation after any schedule;
* `run_transitions`: which of its steps are in the transition table.
-/

namespace CapabilityMount

open VdbC1 (PyStr)

variable {D : Deployment}

/-- After any schedule, the events of an operation have the versions 0, 1, 2, and so on; the first
is the authorization, all have one intent, at most one is the claim, and none follows an event
that ends the operation. -/
theorem run_history {es : Schedule}
    {c : Config} (hrun : D.run es = some c)
    (operationId : PyStr) :
    let events := history c.shared.db.events operationId
    events.map Event.version = List.range events.length ∧
    (∀ e ∈ events, e.version = 0 → e.state = .authorized) ∧
    (∀ e ∈ events, ∀ e' ∈ events, e.intentHash = e'.intentHash) ∧
    (events.filter fun e => e.state = .started).length ≤ 1 ∧
    ∀ earlier e later, events = earlier ++ e :: later →
      e.state ∈ [.succeeded, .failed, .reconciledSucceeded, .reconciledFailed] → later = [] := by
  intro events
  have hrecorded : WellRecorded c.shared.db.events := Log.wellRecorded (run_audited hrun)
  refine ⟨hrecorded.versions operationId, fun e he hv => ?_, fun e he e' he' => ?_,
    hrecorded.started_unique operationId, fun earlier e later hsplit hstate => ?_⟩
  · exact (hrecorded.authorized e (mem_history.mp he).1).mp hv
  · obtain ⟨hmem, ho⟩ := mem_history.mp he
    obtain ⟨hmem', ho'⟩ := mem_history.mp he'
    exact (hrecorded.same hmem hmem' (ho.trans ho'.symm)).1
  · have hterminal : e.state.terminal = true := by
      simp only [List.mem_cons, List.not_mem_nil, or_false] at hstate
      rcases hstate with h | h | h | h <;> rw [h] <;> rfl
    exact hrecorded.terminal_last hsplit hterminal

/-- A step of the reconciler from a started operation is not in the table; every other step is. -/
lemma Event.Continues.permits_iff {latest e : Event} (h : latest.Continues e) :
    latest.state.Permits e.state ↔ ¬(e.site = .reconciler ∧ latest.state = .started) := by
  have hsteps := h.steps
  unfold Event.Steps at hsteps
  split at hsteps
  · next hsite =>
    obtain ⟨hlatest, hstate⟩ := hsteps
    rcases Bool.or_eq_true_iff.mp hlatest with hunknown | hstarted
    · rw [of_decide_eq_true hunknown, hstate]
      exact ⟨fun _ hand => absurd hand.2 nofun, fun _ => .inl List.mem_cons_self⟩
    · rw [of_decide_eq_true hstarted, hstate]
      exact ⟨fun hpermits => absurd hpermits (by simp [ConsequenceState.Permits,
        ConsequenceState.transitions]), fun hnot => absurd ⟨hsite, rfl⟩ hnot⟩
  · next hsite => exact ⟨fun _ hand => hsite hand.1, fun _ => hsteps⟩

/-- After any schedule, two consecutive events of an operation are a transition of the table, or
repeat that the outcome is unknown, unless the second is the reconciler's and the first is
started. -/
theorem run_transitions {es : Schedule}
    {c : Config} (hrun : D.run es = some c) :
    ∀ e ∈ c.shared.db.events, ∀ e' ∈ c.shared.db.events, e'.operationId = e.operationId →
      e'.version = e.version + 1 →
      (e'.state ∈ e.state.transitions ∨ e.state = .outcomeUnknown ∧ e'.state = .outcomeUnknown ↔
        ¬(e'.site = .reconciler ∧ e.state = .started)) := by
  intro e he e' he' hoperation hversion
  have hrecorded : WellRecorded c.shared.db.events := Log.wellRecorded (run_audited hrun)
  obtain ⟨latest, hlatest, hc⟩ := hrecorded.continues e' he' (by omega)
  have hsame : latest.version = e.version := Nat.add_right_cancel (hc.version.symm.trans hversion)
  obtain rfl := hrecorded.eq_of_version hlatest he (hc.operationId.symm.trans hoperation) hsame
  exact hc.permits_iff

/-! ## A deployment -/

/-- A run that is evaluated. -/
lemma Deployment.exists_run (D : Deployment) (es : Schedule) (P : Config → Prop) [DecidablePred P]
    (h : (D.run es).any (fun c => decide (P c)) = true) : ∃ c, D.run es = some c ∧ P c := by
  cases hrun : D.run es with
  | none =>
    rw [hrun] at h
    exact absurd h Bool.false_ne_true
  | some c =>
    rw [hrun] at h
    exact ⟨c, rfl, of_decide_eq_true h⟩

/-- A run that is evaluated in two parts. -/
lemma Deployment.exists_served (D : Deployment) (es es' : Schedule)
    (P : Config → Prop) [DecidablePred P]
    (h : (D.run es).any (fun c => (c.run (machine D) D.serve es').any (fun c' => decide (P c'))) =
      true) :
    ∃ c c', D.run es = some c ∧ c.run (machine D) D.serve es' = some c' ∧ P c' := by
  obtain ⟨c, hrun, hc⟩ := (Option.any_eq_true ..).mp h
  obtain ⟨c', hserve, hc'⟩ := (Option.any_eq_true ..).mp hc
  exact ⟨c, c', hrun, hserve, of_decide_eq_true hc'⟩

namespace Sample

/-- The one operation that the mount is for. -/
def operation : BoundOperation where
  targetRef := "mail"
  action := "send"
  resource := "r"
  arguments := .obj [("to", .int 7)]

def package : CapabilityPackage where
  id := "crm@v1"
  writes := ["send"]
  targetRef := some "mail"
  uniqueActions := by decide
  classifiedActions := by decide

/-- Hashes are the identity, and a Biscuit is the envelope digest that it signs. -/
def deployment : Deployment where
  process _ := 0
  packages p := if p = package.id then some package else none
  targetAdapters t :=
    if t = operation.targetRef then
      some { actions := package.writes, redeemPublicKeyHex := some "key" }
    else none
  permitKey := some []
  authorityContext _ := some {
    allowedActions := package.writes
    allowedResources := [operation.resource]
    executorSpiffeId := "agent"
    subjectSpiffeId := "agent"
    expiresAt := none
    delegationDepth := 0
    maxDelegationDepth := 0
    authorityEpoch := 0 }
  allowedEnvelopes biscuit := some [biscuit]
  mintBiscuit token _ _ := token.grants.envelopeDigest.getD []
  evidencePayload _ _ := .ok none
  parseTime _ := .ok none
  sha256Json _ := []
  str _ := []
  reprFloat := JsonText.fractionText
  floatTexts := JsonText.floatTexts_fractionText
  sha256Text := some
  hmacText _ := some
  signatureValid _ _ _ := true
  signedReceiptCose _ := [1]
  timestamp _ := []
  pglAdapter := false

def owner : Owner := ⟨"agent", some "w"⟩

def mountId : PyStr := "m"

variable (i : ℕ)

/-- The next calls of a session, with what the environment answers. -/
def steps (answers : List Answer) : Schedule := answers.map (.step i)

/-- Calls at which there is nothing to choose. -/
def oks (n : ℕ) : List Answer := List.replicate n .ok

def confirmed : Answer := .anchored { status := .confirmed }

/-- Session 0 seeds the leaf sequence; session 1 mounts the package for the operation. -/
def mounted : Schedule :=
  .start 0 .seedSequence :: steps 0 (oks 3) ++
  .start 1 (.requestMount {
    packageRef := package.id
    scope := { workspace := "w", project := "p", operation := some operation }
    ttlSeconds := 1
    ownerPrincipal := owner.principal }) ::
  steps 1 ([mountId, "x", "t", "n"].map .identifier ++ .ok :: confirmed :: oks 3)

def executeArgs (operationId : PyStr) : ExecuteArgs where
  mountId := mountId
  tokenId := "t"
  nonce := "n"
  owner := owner
  call := {
    action := operation.action
    resource := operation.resource
    arguments := operation.arguments
    targetRef := operation.targetRef }
  operationId := some operationId

/-- A request for the operation, up to the committed ALLOW. -/
def allowed (operationId : PyStr) : Schedule :=
  .start i (.execute (executeArgs operationId)) ::
  steps i (.identifier [] :: oks 17 ++ confirmed :: oks 7)

/-- The AUTHORIZED event, and the claim. -/
def claimed : Schedule := steps i (oks 2 ++ oks 4)

/-- The target is called, and asks a permit for one payload. -/
def dispatched (payloadSha256 : PyStr) : Schedule :=
  steps i (oks 2 ++ [.outcome (.ok .null) [payloadSha256]])

/-- The report of the outcome. -/
def reported : Schedule := steps i (oks 3 ++ confirmed :: oks 2)

/-- The end of the request: the mount is terminated. -/
def finished : Schedule := steps i (oks 2 ++ confirmed :: oks 8)

/-- A request that is carried out without interruption. -/
def executed (operationId : PyStr) : Schedule :=
  allowed i operationId ++ claimed i ++ dispatched i [] ++ reported i ++ finished i

/-- A termination that is confirmed, from its start to its answer. -/
def terminated : Schedule :=
  .start i (.terminate { mountId, reason := .explicitTerminate, owner }) ::
  steps i (.ok :: confirmed :: oks 8)

/-- A run of this deployment that is evaluated. -/
lemma exists_run (es : Schedule) (P : Config → Prop) [DecidablePred P]
    (h : (deployment.run es).any (fun c => decide (P c)) = true) :
    ∃ c, deployment.run es = some c ∧ P c :=
  deployment.exists_run es P h

end Sample

/-- An operation that succeeds: three events. -/
theorem run_history_executed : ∃ c, Sample.deployment.run
      (Sample.mounted ++ Sample.executed 2 "o") = some c ∧
    (history c.shared.db.events "o").map Event.state =
      [.authorized, .started, .succeeded] ∧
    (history c.shared.db.events "o").map Event.version = List.range 3 := by
  obtain ⟨c, hrun, hstates⟩ := Sample.exists_run
    (Sample.mounted ++ Sample.executed 2 "o")
    (fun c => (history c.shared.db.events "o").map Event.state =
      [.authorized, .started, .succeeded]) (by decide +kernel)
  refine ⟨c, hrun, hstates, ?_⟩
  have hlength := congrArg List.length hstates
  rw [List.length_map] at hlength
  exact (run_history hrun "o").1.trans (congrArg List.range hlength)

namespace Sample

/-- The claim of the sample operation. -/
def startedEvent (operationId : PyStr) : Event where
  operationId := operationId
  intentHash := []
  state := .started
  version := 1
  authorityEpoch := some 1
  receiptId := some "rcpt_"
  mountId := mountId
  executionId := "x"
  principal := owner.principal
  action := operation.action
  resource := some operation.resource
  completionProofType := some .optimisticClaim
  site := .beginConsequence

/-- A reconciliation on the evidence that the connector has of an operation. -/
def reconciled (i : ℕ) (latest : Event) (named : PyStr) : Schedule :=
  .start i (.reconcile latest.executionId) ::
  steps i (.event latest :: .connector (.evidence (.obj [("receipt",
    .obj [("operation_id", .str named)])])) :: oks 3)

end Sample

theorem run_transitions_executed : ∃ c e e', Sample.deployment.run
      (Sample.mounted ++ Sample.executed 2 "o") = some c ∧
    e ∈ c.shared.db.events ∧ e' ∈ c.shared.db.events ∧ e'.operationId = e.operationId ∧
    e'.version = e.version + 1 ∧ e'.site ≠ .reconciler ∧
    (e'.state ∈ e.state.transitions ∨
      e.state = .outcomeUnknown ∧ e'.state = .outcomeUnknown) := by
  obtain ⟨c, hrun, e, he, e', he', hoperation, hversion, hsite⟩ := Sample.exists_run
    (Sample.mounted ++ Sample.executed 2 "o")
    (fun c => ∃ e ∈ c.shared.db.events, ∃ e' ∈ c.shared.db.events,
      e'.operationId = e.operationId ∧ e'.version = e.version + 1 ∧ e'.site ≠ .reconciler)
    (by decide +kernel)
  exact ⟨c, e, e', hrun, he, he', hoperation, hversion, hsite,
    (run_transitions hrun e he e' he' hoperation hversion).mpr fun h => hsite h.1⟩

/-- An operation that is still carried out is reconciled: its record goes from started to
reconciled, which the table does not allow. -/
theorem transitions_skipped : ∃ c e e', Sample.deployment.run (Sample.mounted ++
      Sample.allowed 2 "o" ++ Sample.claimed 2 ++
      Sample.reconciled 3 (Sample.startedEvent "o") "o") =
        some c ∧
    e ∈ c.shared.db.events ∧ e' ∈ c.shared.db.events ∧ e'.operationId = e.operationId ∧
    e'.version = e.version + 1 ∧ e'.state ∉ e.state.transitions ∧
    ¬(e.state = .outcomeUnknown ∧ e'.state = .outcomeUnknown) := by
  obtain ⟨c, hrun, e, he, e', he', h⟩ := Sample.exists_run (Sample.mounted ++
      Sample.allowed 2 "o" ++ Sample.claimed 2 ++
      Sample.reconciled 3 (Sample.startedEvent "o") "o")
    (fun c => ∃ e ∈ c.shared.db.events, ∃ e' ∈ c.shared.db.events,
      e'.operationId = e.operationId ∧ e'.version = e.version + 1 ∧
      e'.state ∉ e.state.transitions ∧
      ¬(e.state = .outcomeUnknown ∧ e'.state = .outcomeUnknown)) (by decide +kernel)
  exact ⟨c, e, e', hrun, he, he', h⟩

end CapabilityMount
