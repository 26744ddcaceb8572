import Cappo.VdbC1.Correctness.Progress

/-!
# Rejections

A value that is not admitted, or whose precondition fails, is recorded in one rejection
record and has no other effect. The record names the intent id of the value, so `submit`
fails with nothing recorded when that id is a text RFC 8785 does not encode, and only then.

## Main results

* `submit_total_iff`: `submit` returns, with rejections recorded once and without effect,
  exactly for the values whose intent id can be encoded;
* `submit_raises`: a JSON value for which it fails.
-/

namespace VdbC1

open Coordinator

variable {P : Platform} {C : Coordinator P}

/-- One rejection was recorded after the records of `J`, and the rest of the home is as in
`w`. -/
def RejectionRecorded (J : List Record) (w w' : World) : Prop :=
  (∃ r, w'.journal = J ++ [r] ∧ (r.kind = .admissionRejected ∨ r.kind = .preconditionRejected)) ∧
    w'.store = w.store ∧ w'.executions = w.executions

/-- A submission that is rejected records it once and has no other effect. -/
lemma Submitted.rejectionRecorded (hstore : s1.world.store = w.store)
    (hexec : s1.world.executions = w.executions) (h : Submitted C signed s1 out s')
    (hv : C.verdict s1.world signed = some v) (hrejects : v.rejects = true) :
    RejectionRecorded s1.world.journal w s'.world := by
  obtain ⟨v', hv', hc, -⟩ := h
  obtain rfl := Option.mem_unique hv' hv
  cases v' with
  | replay | attempt => simp [Verdict.rejects] at hrejects
  | refuse reason =>
    obtain ⟨⟨r, hr, -, hbody⟩, -⟩ := hc
    exact ⟨⟨r, hr.journal, .inl (by rw [Draft.kind, hbody]; rfl)⟩, hr.store.trans hstore,
      hr.executions.trans hexec⟩
  | precondition si pre reason =>
    obtain ⟨⟨r, hr, -, hbody⟩, -⟩ := hc
    exact ⟨⟨r, hr.journal, .inr (by rw [Draft.kind, hbody]; rfl)⟩, hr.store.trans hstore,
      hr.executions.trans hexec⟩

/-- A submission that returns has an intent id that can be encoded. -/
lemma encodable_of_submit (h : Home C w) (hrun : C.submit signed ⟨w, budget⟩ = (.ok out, s')) :
    (intentIdOf signed).encodable = true := by
  obtain ⟨report, s1, -, hrec, -, hsub⟩ := Proc.ok_of_wp (wp_submit h) hrun
  exact hsub.encodable_id hrec.chained

/-- In every reachable state `submit` returns, and records a value that is not admitted or
whose precondition fails in exactly one rejection after its own recovery's records, exactly
if the intent id of the value can be encoded. -/
theorem submit_total_iff (C : Coordinator P) (w : World) (h : Reachable C w) (hclear : Clear C w)
    (signed : Json) :
    (∃ report s₁ out s', C.recover ⟨w, none⟩ = (.ok report, s₁) ∧
      C.submit signed ⟨w, none⟩ = (.ok out, s') ∧
      ∀ v, C.verdict s₁.world signed = some v → v.rejects = true →
        RejectionRecorded s₁.world.journal w s'.world) ↔
    (intentIdOf signed).encodable = true := by
  have hhome := h.invariant.home
  constructor
  · rintro ⟨_, _, _, _, -, hrun, -⟩
    exact encodable_of_submit hhome hrun
  · intro hid
    obtain ⟨out, s', hrun, report, s₁, hrecover, hrec, hkept, hsub⟩ :=
      submit_returns hhome hclear signed hid
    exact ⟨report, s₁, out, s', hrecover, hrun, fun v hv hrejects =>
      hsub.rejectionRecorded hrec.store hkept.executions hv hrejects⟩

/-- JSON `null` is rejected by a fresh home of the reference platform. -/
theorem submit_total_null : ∃ report s₁ out s',
    stoppedCoordinator.recover ⟨referenceHome, none⟩ = (.ok report, s₁) ∧
    stoppedCoordinator.submit .null ⟨referenceHome, none⟩ = (.ok out, s') ∧
    ∀ v, stoppedCoordinator.verdict s₁.world .null = some v → v.rejects = true →
      RejectionRecorded s₁.world.journal referenceHome s'.world :=
  (submit_total_iff _ referenceHome ⟨_, _, _, [], rfl⟩
    (reference_clear _ fun _ => fromtimestamp_zero) .null).mpr (by decide)

/-- A value whose intent id is a lone surrogate, as `json.loads` makes it of `"\ud800"`, makes
`submit` fail on a fresh home. -/
theorem submit_raises : ∃ e s', stoppedCoordinator.submit
    (.obj [("payload", .obj [("intent_id", .str [0xD800])])]) ⟨referenceHome, none⟩ =
      (.error e, s') := by
  rcases hrun : stoppedCoordinator.submit
    (.obj [("payload", .obj [("intent_id", .str [0xD800])])]) ⟨referenceHome, none⟩ with
    ⟨e | out, s'⟩
  · exact ⟨e, s', rfl⟩
  · have henc := encodable_of_submit (reference_home fun _ => 0) hrun
    exact absurd henc (by decide)

end VdbC1
