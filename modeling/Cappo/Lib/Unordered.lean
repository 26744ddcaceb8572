import Mathlib.Order.WithBot
import Mathlib.Data.List.Basic

/-!
# Numbers of which some are not comparable

Values with a place in a linear order, and values without one, as a floating-point NaN is. A
comparison with a value of the second kind is false. The greatest of a list is found as a program
finds it, by keeping the greater of two from left to right, so that what it finds depends on
where in the list the values without a place are.

## Main results

* `foldl_keepMax_le_iff`: what a bound on the greatest says of the values;
* `maxOf_dominates_iff`: when meeting the greatest means meeting every value.
-/

namespace Unordered

variable {α β : Type*} [LinearOrder β] (rank : α → Option β)

/-- `a < b`. -/
def lt (a b : α) : Bool :=
  match rank a, rank b with
  | some x, some y => x < y
  | _, _ => false

/-- `a ≤ b`. -/
def le (a b : α) : Bool :=
  match rank a, rank b with
  | some x, some y => x ≤ y
  | _, _ => false

/-- The greater of two values, the first one where the second is not greater. -/
def keepMax (a b : α) : α := if lt rank a b then b else a

/-- The greatest of a list. -/
def maxOf : List α → Option α
  | [] => none
  | a :: as => some (as.foldl (keepMax rank) a)

variable {rank} {a b c : α} {as : List α}

lemma le_iff : le rank a b = true ↔ ∃ x y, rank a = some x ∧ rank b = some y ∧ x ≤ y := by
  rw [le]
  cases rank a <;> cases rank b <;> simp

lemma lt_iff : lt rank a b = true ↔ ∃ x y, rank a = some x ∧ rank b = some y ∧ x < y := by
  rw [lt]
  cases rank a <;> cases rank b <;> simp

lemma le_self_iff : le rank a a = true ↔ rank a ≠ none := by
  rw [le_iff]
  cases rank a <;> simp

lemma le_trans (hab : le rank a b = true) (hbc : le rank b c = true) : le rank a c = true := by
  obtain ⟨x, y, hx, hy, hxy⟩ := le_iff.mp hab
  obtain ⟨y', z, hy', hz, hyz⟩ := le_iff.mp hbc
  obtain rfl : y = y' := Option.mem_unique hy hy'
  exact le_iff.mpr ⟨x, z, hx, hz, hxy.trans hyz⟩

/-- Between two comparable values one of the comparisons holds. -/
theorem le_iff_not_lt (ha : rank a ≠ none) (hb : rank b ≠ none) :
    le rank a b = true ↔ lt rank b a = false := by
  obtain ⟨x, hx⟩ := Option.ne_none_iff_exists'.mp ha
  obtain ⟨y, hy⟩ := Option.ne_none_iff_exists'.mp hb
  simp [le, lt, hx, hy]

lemma rank_keepMax (ha : rank a ≠ none) : rank (keepMax rank a b) ≠ none := by
  rw [keepMax]
  split
  · next hlt =>
    obtain ⟨x, y, -, hy, -⟩ := lt_iff.mp hlt
    simp [hy]
  · exact ha

lemma le_keepMax_left (ha : rank a ≠ none) : le rank a (keepMax rank a b) = true := by
  rw [keepMax]
  split
  · next hlt =>
    obtain ⟨x, y, hx, hy, hxy⟩ := lt_iff.mp hlt
    exact le_iff.mpr ⟨x, y, hx, hy, hxy.le⟩
  · exact le_self_iff.mpr ha

lemma le_keepMax_right (ha : rank a ≠ none) (hb : rank b ≠ none) :
    le rank b (keepMax rank a b) = true := by
  rw [keepMax]
  split
  · exact le_self_iff.mpr hb
  · next hlt => exact (le_iff_not_lt hb ha).mpr (by simpa using hlt)

/-- Nothing replaces a value that is not comparable. -/
theorem foldl_keepMax_of_none (ha : rank a = none) : as.foldl (keepMax rank) a = a := by
  induction as with
  | nil => rfl
  | cons b as ih =>
    have hkeep : keepMax rank a b = a := by simp [keepMax, lt, ha]
    rw [List.foldl_cons, hkeep, ih]

lemma foldl_keepMax_mem (a : α) (as : List α) : as.foldl (keepMax rank) a ∈ a :: as := by
  induction as generalizing a with
  | nil => simp
  | cons b as ih =>
    rw [List.foldl_cons]
    rcases List.mem_cons.mp (ih (keepMax rank a b)) with heq | hmem
    · rw [heq, keepMax]
      split <;> simp
    · simp [hmem]

/-- The greatest is above the value it started from. -/
theorem le_foldl_keepMax (as : List α) (ha : rank a ≠ none) :
    le rank a (as.foldl (keepMax rank) a) = true := by
  induction as generalizing a with
  | nil => exact le_self_iff.mpr ha
  | cons b as ih => exact le_trans (le_keepMax_left ha) (ih (rank_keepMax ha))

/-- The greatest is above every comparable value. -/
theorem le_foldl_keepMax_of_mem (ha : rank a ≠ none) (hb : rank b ≠ none) (hmem : b ∈ as) :
    le rank b (as.foldl (keepMax rank) a) = true := by
  induction as generalizing a with
  | nil => nomatch hmem
  | cons c as ih =>
    rw [List.foldl_cons]
    rcases List.mem_cons.mp hmem with rfl | hmem
    · exact le_trans (le_keepMax_right ha hb) (le_foldl_keepMax as (rank_keepMax ha))
    · exact ih (rank_keepMax ha) hmem

/-- A bound on the greatest of a list that starts below it: no value is above the bound. -/
theorem foldl_keepMax_le_iff (h : le rank a c = true) :
    le rank (as.foldl (keepMax rank) a) c = true ↔ ∀ b ∈ as, lt rank c b = false := by
  obtain ⟨x, z, hx, hz, -⟩ := le_iff.mp h
  have ha : rank a ≠ none := by simp [hx]
  have hc : rank c ≠ none := by simp [hz]
  constructor
  · intro hle b hmem
    by_cases hb : rank b = none
    · simp [lt, hz, hb]
    · exact (le_iff_not_lt hb hc).mp (le_trans (le_foldl_keepMax_of_mem ha hb hmem) hle)
  · intro hall
    have hmem : as.foldl (keepMax rank) a ∈ a :: as := foldl_keepMax_mem a as
    rcases List.mem_cons.mp hmem with heq | hmem
    · rwa [heq]
    · -- the greatest is comparable, because it is above the first value
      obtain ⟨-, y, -, hy, -⟩ := le_iff.mp (le_foldl_keepMax as ha)
      exact (le_iff_not_lt (by simp [hy]) hc).mpr (hall _ hmem)

/-- What meets the greatest of a list meets every value of it exactly where a value that is not
comparable comes first, or nowhere. -/
theorem maxOf_dominates_iff {m : α} (h : maxOf rank as = some m) :
    (∀ b ∈ as, ∀ c, le rank m c = true → le rank b c = true) ↔
      ∀ a, as.head? = some a → rank a ≠ none → ∀ b ∈ as, rank b ≠ none := by
  cases as with
  | nil => simp [maxOf] at h
  | cons a as =>
    obtain rfl : as.foldl (keepMax rank) a = m := Option.some.inj h
    simp only [List.head?_cons, Option.some.injEq, forall_eq']
    constructor
    · intro hall ha b hmem
      -- the greatest itself meets the greatest
      obtain ⟨-, y, -, hy, -⟩ := le_iff.mp (le_foldl_keepMax as ha)
      obtain ⟨x, -, hx, -⟩ := le_iff.mp (hall b hmem _ (le_self_iff.mpr (by simp [hy])))
      simp [hx]
    · intro hranked b hmem c hle
      by_cases ha : rank a = none
      · rw [foldl_keepMax_of_none ha] at hle
        obtain ⟨x, -, hx, -⟩ := le_iff.mp hle
        simp [ha] at hx
      · refine le_trans ?_ hle
        rcases List.mem_cons.mp hmem with rfl | hmem'
        · exact le_foldl_keepMax as ha
        · exact le_foldl_keepMax_of_mem ha (hranked ha b hmem) hmem'

end Unordered
