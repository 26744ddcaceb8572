import Mathlib.Data.List.Basic
import Mathlib.Algebra.GroupWithZero.Nat

/-!
# Fields joined with a delimiter

What a text that joins fields with a delimiter says about the fields. The number of fields is
fixed; a field may contain the delimiter.

## Main results

* `Delimited.eq_of_intercalate_eq`: fields without the delimiter are determined by the text;
* `Delimited.exists_ne_intercalate_eq`: others never are;
* `Delimited.eq_of_append_cons_eq`: the last field is, if it has no delimiter itself.
-/

namespace Delimited

open List

/-- The last field is determined if it does not contain the delimiter. -/
theorem eq_of_append_cons_eq {α : Type*} {a : α} {l l' x x' : List α} (hx : a ∉ x) (hx' : a ∉ x')
    (h : l ++ a :: x = l' ++ a :: x') : l = l' ∧ x = x' := by
  have hcut {m y y' : List α} (hy : a ∉ y) (hm : a :: y = m ++ a :: y') : m = [] := by
    cases m with
    | nil => rfl
    | cons b m =>
      cases hm
      exact absurd (mem_append_right m mem_cons_self) hy
  rcases append_eq_append_iff.mp h with ⟨m, rfl, hm⟩ | ⟨m, rfl, hm⟩
  · obtain rfl := hcut hx hm
    exact ⟨(append_nil _).symm, tail_eq_of_cons_eq hm⟩
  · obtain rfl := hcut hx' hm
    exact ⟨append_nil _, (tail_eq_of_cons_eq hm).symm⟩

/-- The texts of two groups of fields are joined like fields. -/
theorem intercalate_append {α : Type*} {sep : List α} {l l' : List (List α)} (hl : l ≠ [])
    (hl' : l' ≠ []) :
    sep.intercalate (l ++ l') = sep.intercalate l ++ sep ++ sep.intercalate l' := by
  obtain ⟨y, l', rfl⟩ := exists_cons_of_ne_nil hl'
  induction l with
  | nil => exact absurd rfl hl
  | cons x l ih =>
    cases l with
    | nil => rw [intercalate_singleton, singleton_append, intercalate_cons_cons]
    | cons x' l =>
      rw [cons_append, cons_append, intercalate_cons_cons, ← cons_append,
        ih (cons_ne_nil _ _), intercalate_cons_cons, append_assoc, append_assoc,
        append_assoc, append_assoc, append_assoc]

variable {α : Type*} [DecidableEq α] {a : α} {ls ls' : List (List α)}

/-- How often the delimiter occurs in the text. -/
theorem count_intercalate (a : α) (ls : List (List α)) :
    ([a].intercalate ls).count a = (ls.length - 1) + (ls.map (List.count a)).sum := by
  induction ls with
  | nil => rfl
  | cons l ls ih =>
    cases ls with
    | nil => simp
    | cons l' ls =>
      rw [intercalate_cons_cons, count_append, count_append, ih, count_singleton_self]
      simp only [length_cons, map_cons, sum_cons]
      omega

/-- The fields contain no delimiter exactly if it occurs once between any two of them. -/
theorem count_intercalate_eq_iff :
    ([a].intercalate ls).count a = ls.length - 1 ↔ ∀ l ∈ ls, a ∉ l := by
  rw [count_intercalate, Nat.add_eq_left]
  induction ls with
  | nil => simp
  | cons l ls ih =>
    rw [map_cons, sum_cons, Nat.add_eq_zero_iff, forall_mem_cons, ih, count_eq_zero]

/-- Fields without the delimiter are the only ones, in their number, with their text. -/
theorem eq_of_intercalate_eq (hls : ∀ l ∈ ls, a ∉ l) (hlength : ls'.length = ls.length)
    (h : [a].intercalate ls' = [a].intercalate ls) : ls' = ls := by
  have hls' : ∀ l ∈ ls', a ∉ l := by
    rw [← count_intercalate_eq_iff, h, hlength]
    exact count_intercalate_eq_iff.mpr hls
  by_cases hempty : ls = []
  · subst hempty
    exact eq_nil_of_length_eq_zero hlength
  · have hempty' : ls' ≠ [] := by
      rintro rfl
      exact hempty (eq_nil_of_length_eq_zero hlength.symm)
    rw [← splitOn_intercalate a hls hempty, ← h]
    exact (splitOn_intercalate a hls' hempty').symm

omit [DecidableEq α] in
/-- A field with the delimiter can give a part of itself to a neighbour. -/
theorem exists_ne_intercalate_eq {l l' : List α} {rest : List (List α)}
    (h : ∃ x ∈ l :: l' :: rest, a ∈ x) : ∃ ls', ls'.length = (l :: l' :: rest).length ∧
      ls' ≠ l :: l' :: rest ∧ [a].intercalate ls' = [a].intercalate (l :: l' :: rest) := by
  induction rest generalizing l l' with
  | nil =>
    obtain ⟨x, hx, ha⟩ := h
    rcases mem_cons.mp hx with rfl | hx
    · -- the end of the first field goes to the second
      obtain ⟨u, v, rfl⟩ := append_of_mem ha
      refine ⟨[u, v ++ a :: l'], rfl, by simp, by simp [intercalate_cons_cons]⟩
    · obtain rfl := mem_singleton.mp hx
      obtain ⟨u, v, rfl⟩ := append_of_mem ha
      refine ⟨[l ++ a :: u, v], rfl, by simp, by simp [intercalate_cons_cons]⟩
  | cons l'' rest ih =>
    obtain ⟨x, hx, ha⟩ := h
    rcases mem_cons.mp hx with rfl | hx
    · obtain ⟨u, v, rfl⟩ := append_of_mem ha
      refine ⟨u :: (v ++ a :: l') :: l'' :: rest, rfl, by simp, by simp [intercalate_cons_cons]⟩
    · obtain ⟨ls', hlength, hne, heq⟩ := ih ⟨x, hx, ha⟩
      refine ⟨l :: ls', congrArg Nat.succ hlength, fun h => hne (cons.inj h).2, ?_⟩
      obtain ⟨m, ls', rfl⟩ := exists_cons_of_length_eq_add_one hlength
      rw [intercalate_cons_cons, heq, ← intercalate_cons_cons]

end Delimited
