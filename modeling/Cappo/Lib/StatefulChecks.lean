import Mathlib.Logic.Basic

/-!
# Checks that change a state

A procedure (`Op`) reads and changes a state, and returns a value or stops with a fault; what it
changed before a fault stays. The lemmas say what it takes for a composed procedure to return, and
how a relation between the states before and after is put together from the steps.

## Main results

* `StatefulChecks.bind_eq_ok`, `StatefulChecks.lift_eq_ok`: when a procedure returns;
* `StatefulChecks.Along.bind`: a transitive relation that holds along every step holds along all
  of them.
-/

namespace StatefulChecks

/-- A procedure over the state `σ` with faults `ε`. -/
abbrev Op (σ ε α : Type) := ExceptT ε (StateM σ) α

variable {σ ε α β : Type} {x : Op σ ε α} {f : α → Op σ ε β} {s s' : σ}

/-- A check that does not look at the state. -/
def lift (x : Except ε α) : Op σ ε α := fun s => (x, s)

lemma bind_run (x : Op σ ε α) (f : α → Op σ ε β) (s : σ) : (x >>= f) s = match x s with
    | (.ok a, t) => f a t
    | (.error e, t) => (.error e, t) := by
  show (ExceptT.bindCont f <| (x s).1) (x s).2 = _
  rcases x s with ⟨_ | a, t⟩ <;> rfl

/-- A sequence returns when each of its parts does. -/
theorem bind_eq_ok {b : β} :
    (x >>= f) s = (.ok b, s') ↔ ∃ a t, x s = (.ok a, t) ∧ f a t = (.ok b, s') := by
  rw [bind_run]
  constructor
  · intro h
    rcases hx : x s with ⟨e | a, t⟩ <;> rw [hx] at h
    · nomatch h
    · exact ⟨a, t, rfl, h⟩
  · rintro ⟨a, t, hx, hf⟩
    rw [hx]
    exact hf

lemma pure_eq_ok {a b : α} : (pure a : Op σ ε α) s = (.ok b, s') ↔ a = b ∧ s = s' := by
  show ((.ok a, s) : Except ε α × σ) = (.ok b, s') ↔ _
  rw [Prod.mk.injEq, Except.ok.injEq]

lemma lift_eq_ok {c : Except ε α} {a : α} :
    (lift c : Op σ ε α) s = (.ok a, s') ↔ c = .ok a ∧ s = s' := by
  rw [lift, Prod.mk.injEq]

/-- The states before and after the procedure are related, however it ends. -/
def Along (R : σ → σ → Prop) (x : Op σ ε α) : Prop := ∀ s, R s (x s).2

variable {R : σ → σ → Prop}

lemma Along.lift (hrefl : ∀ s, R s s) (c : Except ε α) : Along R (lift c : Op σ ε α) :=
  fun s => hrefl s

lemma Along.pure (hrefl : ∀ s, R s s) (a : α) : Along R (Pure.pure a : Op σ ε α) :=
  fun s => hrefl s

lemma Along.bind (htrans : ∀ s t u, R s t → R t u → R s u) (hx : Along R x)
    (hf : ∀ a, Along R (f a)) : Along R (x >>= f) := by
  intro s
  have hfirst := hx s
  rw [bind_run]
  rcases hrun : x s with ⟨e | a, t⟩ <;> rw [hrun] at hfirst
  · exact hfirst
  · exact htrans s t _ hfirst (hf a t)

end StatefulChecks
