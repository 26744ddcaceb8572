import Cappo.CapabilityMount.Correctness.SingleUse
import Cappo.Lib.Solo

/-!
# What the reconciler binds

`reconcile_execution` takes the last event of an execution, asks the connector for evidence of the
execution, and marks the operation of that event. The operation that the connector's receipt names
is stored, but not compared.

## Main results

* `reconcileExecution_appends`: the one event that a reconciliation can append;
* `reconcileExecution_binds_iff`: when it is appended to the operation that the receipt names,
  by the event that the query selected.
-/

namespace CapabilityMount

open VdbC1 (PyStr)

open Sessions.Program
open Option

variable {D : Deployment} {i : ℕ} {oracle : Op → Answer} {w w' : World}

/-- The operation that the connector's receipt names. -/
def Answer.named : Answer → Option PyStr
  | connector (.evidence body) => proofSubject body
  | _ => none

/-- What a reconciliation of an operation has to rest on: the receipt names the operation, and the
operation's own latest state is one that can be reconciled. -/
structure Db.Binds (db : Db) (named : Option PyStr) (operationId : PyStr) : Prop where
  named : named = some operationId
  own : ∃ latest, db.latestEvent operationId = some latest ∧ latest.state.reconcilable = true

/-- What a commit that appends one event adds to the table, if it adds anything. -/
lemma Deployment.commit_events (hwrites : w.writes i = [.insertEvents [e]])
    (h : Deployment.commit i a w = some (r, w')) :
    w'.db.events = w.db.events ∨ w'.db.events = w.db.events ++ [e] := by
  have hcommitted : (w.committed i).db.events = w.db.events ++ [e] := by
    show (Log.db (w.log ++ [.commit i (w.writes i)])).events = _
    rw [hwrites, Log.db_concat]
    rfl
  rcases commit_cases h with ⟨-, rfl⟩ | ⟨-, -, rfl⟩
  · exact .inl rfl
  · exact .inr hcommitted

variable {executionId : PyStr}

/-- The event that is taken: one of the execution, with the highest version. -/
lemma World.lastOfExecution_eq_some (h : w.lastOfExecution executionId a = some (some latest)) :
    a = .event latest ∧ latest ∈ w.db.events ∧ latest.executionId = executionId ∧
      ∀ e ∈ w.db.events, e.executionId = executionId → e.version ≤ latest.version := by
  cases a with
  | event e =>
    obtain ⟨⟨hmem, hmax⟩, heq⟩ := ite_none_right_eq_some.mp h
    obtain rfl := some.inj (some.inj heq)
    obtain ⟨hmem, hexecution⟩ := List.mem_filter.mp hmem
    refine ⟨rfl, hmem, of_decide_eq_true hexecution, fun e' he' hx => hmax e' ?_⟩
    exact List.mem_filter.mpr ⟨he', decide_eq_true hx⟩
  | _ => exact absurd (ite_none_right_eq_some.mp h).2 nofun

/-- The event that a reconciliation can append continues the last event of the execution, and the
receipt names some operation. -/
theorem reconcileExecution_appends {r : Except Exn Reconciliation} (hidle : w.writes i = [])
    (hrun : (reconcileExecution executionId).alone (machine D) i oracle w = some (r, w'))
    {e : Event} (he : e ∈ w'.db.events) (hnew : e ∉ w.db.events) :
    ∃ latest ∈ w.db.events, oracle (.latestOfExecution executionId) = .event latest ∧
      latest.executionId = executionId ∧
      (∀ e' ∈ w.db.events, e'.executionId = executionId → e'.version ≤ latest.version) ∧
      latest.state.reconcilable = true ∧ e = reconciledEvent latest := by
  -- the answers that append nothing leave the table as it is
  have hkept : ∀ {r0 : Except Exn Reconciliation} {w0 : World}, some (r0, w0) = some (r, w') →
      w0.db.events = w.db.events → False := by
    intro r0 w0 hdone heq
    cases hdone
    exact hnew (heq ▸ he)
  rw [reconcileExecution, alone_bind, alone_perform] at hrun
  obtain ⟨⟨r1, w1⟩, hread, hrun⟩ := bind_eq_some_iff.mp hrun
  rcases chosen_cases hread with ⟨rfl, rfl⟩ | ⟨selected, rfl, hselected, hw⟩
  · exact (hkept hrun rfl).elim
  obtain rfl := hw.symm
  cases selected with
  | none => exact (hkept hrun rfl).elim
  | some latest =>
    obtain ⟨hanswer, hmem, hexecution, hmax⟩ := World.lastOfExecution_eq_some hselected
    refine ⟨latest, hmem, hanswer, hexecution, hmax, ?_⟩
    dsimp only at hrun
    split at hrun
    · exact (hkept hrun rfl).elim
    next hstate =>
    refine ⟨by simpa using hstate, ?_⟩
    rw [alone_bind, alone_perform] at hrun
    obtain ⟨⟨r2, w2⟩, hasked, hrun⟩ := bind_eq_some_iff.mp hrun
    rcases chosen_cases hasked with ⟨rfl, rfl⟩ | ⟨answer, rfl, -, hw⟩
    · exact (hkept hrun rfl).elim
    obtain rfl := hw.symm
    cases answer with
    | missing | failed => exact (hkept hrun rfl).elim
    | evidence body =>
      dsimp only at hrun
      split at hrun
      · exact (hkept hrun rfl).elim
      · rw [alone_bind, alone_perform] at hrun
        obtain ⟨⟨r3, w3⟩, hwrote, hrun⟩ := bind_eq_some_iff.mp hrun
        cases hwrote
        dsimp only at hrun
        rw [alone_bind, alone_perform] at hrun
        obtain ⟨⟨r4, w4⟩, hcommit, hrun⟩ := bind_eq_some_iff.mp hrun
        have hw' : w4 = w' := by
          cases r4 <;> exact (Prod.mk.inj (some.inj hrun)).2
        subst hw'
        have hwrites : (w.wrote i (.insertEvents [reconciledEvent latest])).writes i =
            [.insertEvents [reconciledEvent latest]] := by
          rw [World.writes_wrote_self, hidle, List.nil_append]
        rcases Deployment.commit_events hwrites hcommit with heq | heq
        · exact absurd (heq ▸ he) hnew
        · rw [heq] at he
          exact List.mem_singleton.mp ((List.mem_append.mp he).resolve_left hnew)

/-- With unique keys, an operation whose latest event belongs to the execution was selected by
that event. -/
lemma latestEvent_eq_selected {db : Db} (hkeys : (db.events.map Event.key).Nodup)
    {selected own : Event} (hselected : selected ∈ db.events)
    (hmax : ∀ e ∈ db.events, e.executionId = executionId → e.version ≤ selected.version)
    (hown : db.latestEvent selected.operationId = some own)
    (hexecution : own.executionId = executionId) : own = selected := by
  obtain ⟨hmem, ho⟩ := Db.mem_of_latestEvent hown
  have hversion : own.version = selected.version :=
    le_antisymm (hmax own hmem hexecution) (Db.le_of_latestEvent hown hselected rfl)
  exact List.inj_on_of_nodup_map hkeys hmem hselected (Prod.ext ho hversion)

/-- A reconciliation binds the operation that it marks exactly if the receipt names the operation of
the event that was selected, and the latest event of that operation belongs to the execution or can
be reconciled itself. In the tables of the service an operation belongs to one execution, so it is
the name alone. -/
theorem reconcileExecution_binds_iff {executionId : PyStr} {r : Except Exn Reconciliation}
    (hkeys : (w.db.events.map Event.key).Nodup) (hidle : w.writes i = [])
    (hrun : (reconcileExecution executionId).alone (machine D) i oracle w = some (r, w'))
    {selected : Event} (hselected : oracle (.latestOfExecution executionId) = .event selected)
    {e : Event} (he : e ∈ w'.db.events) (hnew : e ∉ w.db.events) :
    (w.db.Binds (oracle (.connectorEvidence executionId)).named e.operationId ↔
      (oracle (.connectorEvidence executionId)).named = some selected.operationId ∧
        ∀ own, w.db.latestEvent selected.operationId = some own →
          own.executionId = executionId ∨ own.state.reconcilable = true) ∧
    ((∃ es c, D.run es = some c ∧ c.shared = w) →
      (w.db.Binds (oracle (.connectorEvidence executionId)).named e.operationId ↔
        (oracle (.connectorEvidence executionId)).named = some selected.operationId)) := by
  obtain ⟨latest, hmem, hanswer, hexecution, hmax, hstate, rfl⟩ :=
    reconcileExecution_appends hidle hrun he hnew
  obtain rfl : latest = selected := Answer.event.inj (hanswer.symm.trans hselected)
  have hlatest : ∃ own, w.db.latestEvent latest.operationId = some own := by
    rw [← isSome_iff_exists, isSome_iff_ne_none]
    exact fun hnone => Db.latestEvent_eq_none hnone hmem rfl
  have hiff : w.db.Binds (oracle (.connectorEvidence executionId)).named latest.operationId ↔
      (oracle (.connectorEvidence executionId)).named = some latest.operationId ∧
        ∀ own, w.db.latestEvent latest.operationId = some own →
          own.executionId = executionId ∨ own.state.reconcilable = true := by
    constructor
    · rintro ⟨hnamed, last, hlast, hreconcilable⟩
      refine ⟨hnamed, fun own hown => .inr ?_⟩
      obtain rfl := mem_unique hlast hown
      exact hreconcilable
    · rintro ⟨hnamed, hcond⟩
      obtain ⟨own, hown⟩ := hlatest
      refine ⟨hnamed, own, hown, (hcond own hown).elim (fun hx => ?_) id⟩
      rw [latestEvent_eq_selected hkeys hmem hmax hown hx]
      exact hstate
  refine ⟨hiff, fun ⟨es, c, hreach, hshared⟩ => hiff.trans (and_iff_left fun own hown => .inl ?_)⟩
  -- along a run the events of an operation carry one execution id
  subst hshared
  obtain ⟨hownmem, ho⟩ := Db.mem_of_latestEvent hown
  have hrecorded := Log.wellRecorded (run_audited hreach)
  exact (hrecorded.same hownmem hmem ho).2.2.trans hexecution

namespace Sample

/-- An executor that holds the receipt of the sample mount records an operation. -/
def begun (i : ℕ) (operationId : PyStr) : Schedule :=
  .start i (.recorderBegin {
    receiptId := "rcpt_1"
    operationId
    intentHash := [] }) :: steps i (oks 5)

/-- The claim of such an operation. -/
def begunEvent (operationId : PyStr) : Event :=
  { startedEvent operationId with
    receiptId := some "rcpt_1"
    completionProofType := none
    site := .recorderBegin }

/-- Two operations under one receipt, and so in one execution. -/
def twoBegun : Schedule :=
  mounted ++ evaluated 2 "t" "n" "1" ++
  begun 3 "a" ++ begun 4 "b"

/-- The last event of the execution is `latest`, and the connector's receipt names an operation. -/
def evidenceOf (latest : Event) (named : PyStr) : Op → Answer
  | .latestOfExecution _ => .event latest
  | .connectorEvidence _ => .connector (.evidence (.obj [("receipt",
      .obj [("operation_id", .str named)])]))
  | _ => .ok

/-- A reconciliation that is evaluated at the end of a run. -/
lemma exists_reconciled (es : Schedule) (latest : Event) (named : PyStr)
    (h : (deployment.run es).any (fun c =>
      ((reconcileExecution latest.executionId).alone (machine deployment) 5
        (evidenceOf latest named) c.shared).any fun (_, w') =>
          decide ((c.shared.db.events.map Event.key).Nodup ∧ c.shared.writes 5 = [] ∧
            reconciledEvent latest ∈ w'.db.events ∧
            reconciledEvent latest ∉ c.shared.db.events)) = true) :
    ∃ c r w', deployment.run es = some c ∧
      (reconcileExecution latest.executionId).alone (machine deployment) 5
        (evidenceOf latest named) c.shared = some (r, w') ∧
      (c.shared.db.events.map Event.key).Nodup ∧ c.shared.writes 5 = [] ∧
      reconciledEvent latest ∈ w'.db.events ∧ reconciledEvent latest ∉ c.shared.db.events := by
  cases hrun : deployment.run es with
  | none => nomatch hrun ▸ h
  | some c =>
    rw [hrun, any_some] at h
    cases halone : (reconcileExecution latest.executionId).alone (machine deployment) 5
        (evidenceOf latest named) c.shared with
    | none => nomatch halone ▸ h
    | some p =>
      rw [halone, any_some] at h
      exact ⟨c, p.1, p.2, rfl, halone, of_decide_eq_true h⟩

end Sample

/-- The receipt names the operation that is marked. -/
theorem reconcileExecution_binds_named : ∃ c r w' e, Sample.deployment.run Sample.twoBegun =
      some c ∧ (reconcileExecution "x").alone (machine Sample.deployment) 5
        (Sample.evidenceOf (Sample.begunEvent "b") "b")
        c.shared = some (r, w') ∧
    e ∈ w'.db.events ∧ e ∉ c.shared.db.events ∧
    c.shared.db.Binds (some "b") e.operationId := by
  obtain ⟨c, r, w', hrun, halone, hkeys, hidle, he, hnew⟩ := Sample.exists_reconciled
    Sample.twoBegun (Sample.begunEvent "b") "b"
    (by decide +kernel)
  exact ⟨c, r, w', _, hrun, halone, he, hnew,
    ((reconcileExecution_binds_iff hkeys hidle halone rfl he hnew).2 ⟨_, c, hrun, rfl⟩).mpr rfl⟩

/-- The receipt names one operation of the execution, and the other one is marked. -/
theorem reconcileExecution_marks_other : ∃ c r w' e, Sample.deployment.run Sample.twoBegun =
      some c ∧ (reconcileExecution (PyStr.ofString "x")).alone (machine Sample.deployment) 5
        (Sample.evidenceOf (Sample.begunEvent (PyStr.ofString "b")) (PyStr.ofString "a"))
        c.shared = some (r, w') ∧
    e ∈ w'.db.events ∧ e ∉ c.shared.db.events ∧ e.state = .reconciledSucceeded ∧
    e.operationId = PyStr.ofString "b" ∧
    (Sample.evidenceOf (Sample.begunEvent (PyStr.ofString "b")) (PyStr.ofString "a")
      (.connectorEvidence (PyStr.ofString "x"))).named = some (PyStr.ofString "a") := by
  obtain ⟨c, r, w', hrun, halone, -, -, he, hnew⟩ := Sample.exists_reconciled
    Sample.twoBegun (Sample.begunEvent (PyStr.ofString "b")) (PyStr.ofString "a")
    (by decide +kernel)
  exact ⟨c, r, w', _, hrun, halone, he, hnew, rfl, rfl, rfl⟩

end CapabilityMount
