import Mathlib.Data.List.Basic

/-!
# Checks that stop at the first failure

A check returns a value or a failure (`Except`); the first failure ends the whole. The
lemmas say what it takes for a composed check to return, construct by construct: `simp` with
them turns a check into the conjunction of its conditions.

## Main results

* `Checks.bind_eq_ok`, `Checks.require_eq_ok`, `Checks.ofOption_eq_ok`: when a check returns;
* `Checks.forEach_eq_ok`, `Checks.filter_eq_ok`: the same for loops over a list.
-/

namespace Checks

variable {ε α β : Type}

/-- A value, or the given failure. -/
def ofOption (e : ε) : Option α → Except ε α
  | some a => .ok a
  | none => .error e

/-- Fail unless the condition holds. -/
def require (e : ε) (c : Bool) : Except ε Unit := if c then .ok () else .error e

/-- The elements for which the test answers yes, asked in order. -/
def filter (p : α → Except ε Bool) : List α → Except ε (List α)
  | [] => .ok []
  | x :: xs => do
    let keep ← p x
    let rest ← filter p xs
    return if keep then x :: rest else rest

/-- Check the elements in order. -/
def forEach (p : α → Except ε Unit) : List α → Except ε Unit
  | [] => .ok ()
  | x :: xs => do
    p x
    forEach p xs

/-- The test answers yes. -/
def yes : Except ε Bool → Bool
  | .ok b => b
  | .error _ => false

lemma ok_bind (a : α) (f : α → Except ε β) : (Except.ok a >>= f) = f a := rfl

lemma error_bind (e : ε) (f : α → Except ε β) : (Except.error e >>= f) = .error e := rfl

@[simp]
lemma bind_eq_ok {x : Except ε α} {f : α → Except ε β} {b : β} :
    (x >>= f) = .ok b ↔ ∃ a, x = .ok a ∧ f a = .ok b := by
  rcases x with e | a
  · exact ⟨fun h => (nomatch h), fun ⟨_, h, _⟩ => (nomatch h)⟩
  · exact ⟨fun h => ⟨a, rfl, h⟩, fun ⟨_, ha, h⟩ => Except.ok.inj ha ▸ h⟩

@[simp]
lemma pure_eq_ok {a b : α} : (pure a : Except ε α) = .ok b ↔ a = b :=
  ⟨Except.ok.inj, congrArg _⟩

@[simp]
lemma ofOption_eq_ok {e : ε} {o : Option α} {a : α} : ofOption e o = .ok a ↔ o = some a := by
  cases o <;> simp [ofOption]

@[simp]
lemma require_eq_ok {e : ε} {c : Bool} {u : Unit} : require e c = .ok u ↔ c = true := by
  cases c <;> simp [require]

@[simp]
lemma forEach_eq_ok {p : α → Except ε Unit} {xs : List α} {u : Unit} :
    forEach p xs = .ok u ↔ ∀ x ∈ xs, p x = .ok () := by
  induction xs with
  | nil => simp [forEach]
  | cons x xs ih =>
    rw [forEach, bind_eq_ok, List.forall_mem_cons, ← ih]
    exact ⟨fun ⟨_, hx, hxs⟩ => ⟨hx, hxs⟩, fun ⟨hx, hxs⟩ => ⟨(), hx, hxs⟩⟩

/-- The test must answer for every element. -/
theorem filter_eq_ok {p : α → Except ε Bool} {xs ys : List α} : filter p xs = .ok ys ↔
      (∀ x ∈ xs, ∃ b, p x = .ok b) ∧ ys = xs.filter fun x => yes (p x) := by
  induction xs generalizing ys with
  | nil => simp [filter, eq_comm]
  | cons x xs ih =>
    simp only [filter, bind_eq_ok, ih, pure_eq_ok, List.forall_mem_cons]
    constructor
    · rintro ⟨keep, hx, rest, ⟨hxs, rfl⟩, rfl⟩
      refine ⟨⟨⟨keep, hx⟩, hxs⟩, ?_⟩
      cases keep <;> simp [hx, yes]
    · rintro ⟨⟨⟨keep, hx⟩, hxs⟩, rfl⟩
      refine ⟨keep, hx, _, ⟨hxs, rfl⟩, ?_⟩
      cases keep <;> simp [hx, yes]

end Checks
