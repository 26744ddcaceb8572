import Cappo.VdbC1.Correctness.Submission

/-!
# Runs of a home

What holds of a home after any sequence of calls, each of which may return, raise or be
killed before any durable write. `Invariant` is kept by one call and so by every run.

## Main results

* `wp_submit`, `wp_recover`: what one call does to a home;
* `invariant_run`: the invariant holds after every run from a fresh home.
-/

namespace VdbC1

open Coordinator

variable {P : Platform} {C : Coordinator P}

/-- Storage transactions were started only for intents with a PREPARED record of the same
hash. -/
def Executed (w : World) : Prop :=
  ∀ e ∈ w.executions, ∃ r ∈ w.journal, r.kind = .prepared ∧ r.intentId = e.1 ∧
    r.body.intentHash = e.2

/-- What holds of a home between calls. -/
structure Invariant (C : Coordinator P) (w : World) : Prop where
  home : Home C w
  executed : Executed w

variable {w : World}

lemma Executed.mono (h : Executed w) (hj : w.journal <+: w'.journal)
    (he : ∀ e ∈ w'.executions, e ∈ w.executions ∨ ∃ r ∈ w'.journal, r.kind = .prepared ∧
      r.intentId = e.1 ∧ r.body.intentHash = e.2) :
    Executed w' := by
  intro e hmem
  rcases he e hmem with hold | hnew
  · obtain ⟨r, hr, hk, hid, hh⟩ := h e hold
    exact ⟨r, hj.subset hr, hk, hid, hh⟩
  · exact hnew

variable {signed : Json}

lemma StepFacts.invariant (h : StepFacts C signed w w') (hw : Executed w) : Invariant C w' :=
  ⟨h.home, hw.mono h.journal h.executions⟩

variable {s : Machine World}

/-- A submission that returned satisfies what every submission does. -/
lemma Submitted.stepFacts
    (hsettled : Settled C s.world.journal s.world.store) (h : Submitted C signed s out s') :
    StepFacts C signed s.world s'.world := by
  obtain ⟨v, hv, hc, hhome⟩ := h
  have hrejected : ∀ r : Record, RejectedWith s.world s'.world r → r.kind.binding = false →
      StepFacts C signed s.world s'.world := by
    intro r hr hk
    refine ⟨hhome, ⟨?_, ?_⟩, hr.journal ▸ List.prefix_append _ _,
      fun e he => .inl (hr.executions ▸ he), fun x hx hxk => ?_⟩
    · rw [hr.journal, List.length_append, List.length_singleton]
      omega
    · rw [hr.store]
      exact Nat.le_add_right _ _
    rw [hr.journal] at hx
    rcases List.mem_append.mp hx with hx | hx
    · exact .inl hx
    · obtain rfl := List.mem_singleton.mp hx
      simp [hxk, Kind.binding] at hk
  cases v with
  | replay =>
    obtain ⟨hj, hs, he, -⟩ := hc
    refine ⟨hhome, ⟨?_, ?_⟩, hj ▸ List.prefix_rfl, fun e hmem => .inl (he ▸ hmem),
      fun r hr _ => .inl (hj ▸ hr)⟩
    · rw [hj]
      exact Nat.le_add_right _ _
    · rw [hs]
      exact Nat.le_add_right _ _
  | refuse | precondition =>
    obtain ⟨⟨r, hr, -, hbody⟩, -⟩ := hc
    exact hrejected r hr (by rw [Draft.kind, hbody]; rfl)
  | attempt si pre =>
    obtain ⟨a, hb, hsi, hshape, -, hat, hexec, -⟩ := hc
    exact hat.stepFacts hsettled hb (hsi ▸ hshape) (.inr hexec)

/-! ## One call -/

/-- `recover` on a home. -/
theorem wp_recover (h : Home C s.world) :
    C.recover.wp (fun _ s' => Recovered C s.world s'.world ∧ Kept s s')
      (fun e s' => Home C s'.world ∧ Kept s s' ∧ Grown s.world s'.world ∧
        Excused C s e s'.world) s := by
  rw [recover, Proc.wp_bind]
  exact wp_load h.chained (wp_recoverLocked h)

/-- `submit` on a home: it recovers first, and then submits to the settled home. -/
theorem wp_submit (h : Home C s.world) : (C.submit signed).wp
      (fun out s' => ∃ report s1, C.recover s = (.ok report, s1) ∧
        Recovered C s.world s1.world ∧ Kept s s1 ∧ Submitted C signed s1 out s')
      (fun e s' =>
        (C.recover s = (.error e, s') ∧ Home C s'.world ∧ Kept s s' ∧ Grown s.world s'.world ∧
          Excused C s e s'.world) ∨
        ∃ report s1, C.recover s = (.ok report, s1) ∧ Recovered C s.world s1.world ∧ Kept s s1 ∧
          Stopped C signed s1 e s') s := by
  have hsplit : C.submit signed = (do let _ ← C.recover; C.submitLocked signed) := by
    simp only [submit, recover, bind_assoc]
  rw [hsplit, Proc.wp_bind]
  refine Proc.wp_mono (Proc.wp_run (wp_recover h)) (fun report s1 hr => ?_) fun e s' hr => .inl hr
  obtain ⟨hrun, hrec, hkept⟩ := hr
  exact Proc.wp_mono (wp_submitLocked hrec.chained hrec.settled)
    (fun out s' hs => ⟨report, s1, hrun, hrec, hkept, hs⟩)
    fun e s' hs => .inr ⟨report, s1, hrun, hrec, hkept, hs⟩

lemma Kept.executed (h : Kept s s') (hw : Executed s.world) : Executed s'.world :=
  hw.mono h.journal fun _ he => .inl (h.executions ▸ he)

/-- Every call keeps the invariant, however it ends. -/
lemma invariant_call (h : Invariant C w) (call : Call × Option ℕ) :
    Invariant C (Call.run C w call) := by
  obtain ⟨call, budget⟩ := call
  refine Proc.state_of_wp (fun s' => Invariant C s'.world) ?_
  cases call with
  | recover =>
    simp only [Call.proc, Proc.wp_bind, Proc.wp_pure]
    refine Proc.wp_mono (wp_recover (s := ⟨w, budget⟩) h.home) (fun _ s' hr => ?_) fun e s' hr => ?_
    · exact ⟨⟨hr.1.chained, .inl hr.1.settled⟩, hr.2.executed h.executed⟩
    · exact ⟨hr.1, hr.2.1.executed h.executed⟩
  | submit signed =>
    simp only [Call.proc, Proc.wp_bind, Proc.wp_pure]
    refine Proc.wp_mono (wp_submit (s := ⟨w, budget⟩) h.home) (fun out s' hs => ?_)
      fun e s' hs => ?_
    · obtain ⟨_, s1, -, hrec, hkept, hsub⟩ := hs
      exact (hsub.stepFacts hrec.settled).invariant (hkept.executed h.executed)
    · rcases hs with ⟨-, hhome, hkept, -⟩ | ⟨_, s1, -, hrec, hkept, hstop⟩
      · exact ⟨hhome, hkept.executed h.executed⟩
      · exact hstop.1.invariant (hkept.executed h.executed)

/-! ## All runs -/

lemma invariant_freshHome (ns storeId : { s : PyStr // s.encodable = true }) (tick : ℕ) :
    Invariant C (freshHome ns storeId tick) :=
  ⟨⟨trivial, .inl (.fresh ns.2 storeId.2)⟩, by simp [Executed, freshHome]⟩

/-- The invariant holds after every run. -/
theorem invariant_run (h : Invariant C w) (calls : List (Call × Option ℕ)) :
    Invariant C (run C w calls) := by
  induction calls generalizing w with
  | nil => exact h
  | cons call calls ih => exact ih (invariant_call h call)

/-- The home can be reached from a fresh one. -/
def Reachable (C : Coordinator P) (w : World) : Prop :=
  ∃ ns storeId tick calls, run C (freshHome ns storeId tick) calls = w

lemma Reachable.invariant (h : Reachable C w) : Invariant C w := by
  obtain ⟨ns, storeId, tick, calls, rfl⟩ := h
  exact invariant_run (invariant_freshHome ns storeId tick) calls

end VdbC1
