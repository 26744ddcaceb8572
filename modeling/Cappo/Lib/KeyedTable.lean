import Mathlib.Data.List.Sort
import Mathlib.Data.Prod.Lex

/-!
# Tables with a primary key

A table with key column `κ` and value column `ν` is a list of rows. `KeyedTable.upsert` is
the `INSERT ... ON CONFLICT DO UPDATE` of SQL and `KeyedTable.ordered` the rows in key
order, the order in which a table is reported. Rows of other shapes have the column as a
function.

## Main results

* `KeyedTable.filter_eq_singleton`: a query for a value of a unique column returns one row;
* `KeyedTable.keyed_upsert`: an upsert keeps the key unique;
* `KeyedTable.ordered_upsert`: reported in order, a table after an upsert is the old report
  without the key's row, with the new row, put in order.
-/

namespace KeyedTable

open List

variable {κ ν : Type*}

/-- No key has two rows. -/
def Keyed (t : List (κ × ν)) : Prop := (t.map Prod.fst).Nodup

lemma keyed_nil : Keyed ([] : List (κ × ν)) := nodup_nil

/-- The rows with a value that no two rows have in a column. -/
theorem filter_eq_singleton {ρ : Type*} [DecidableEq κ] {f : ρ → κ} {t : List ρ} {r : ρ}
    (hnodup : (t.map f).Nodup) (hr : r ∈ t) : t.filter (fun x => f x = f r) = [r] := by
  induction t with
  | nil => nomatch hr
  | cons x t ih =>
    rw [map_cons, nodup_cons] at hnodup
    rcases mem_cons.mp hr with rfl | hr
    · have : t.filter (fun x => f x = f r) = [] := by
        rw [filter_eq_nil_iff]
        intro z hz heq
        exact hnodup.1 (mem_map.mpr ⟨z, hz, of_decide_eq_true heq⟩)
      rw [filter_cons_of_pos (by simp), this]
    · have : f x ≠ f r := fun h => hnodup.1 (h ▸ mem_map_of_mem hr)
      rw [filter_cons_of_neg (by simpa using this), ih hnodup.2 hr]

variable {k : κ} {t : List (κ × ν)} {v : ν}

section Upsert

variable [DecidableEq κ]

/-- Replace the row of key `k`, or add one at the end. -/
def upsert (k : κ) (v : ν) : List (κ × ν) → List (κ × ν)
  | [] => [(k, v)]
  | r :: t => if r.1 = k then (k, v) :: t else r :: upsert k v t

lemma mem_upsert {r : κ × ν} (h : r ∈ upsert k v t) : r = (k, v) ∨ r ∈ t := by
  induction t with
  | nil => exact .inl (by simpa [upsert] using h)
  | cons a t ih =>
    rw [upsert] at h
    split_ifs at h with hk
    · exact (mem_cons.mp h).imp_right (mem_cons_of_mem a)
    · rcases mem_cons.mp h with rfl | h
      · exact .inr mem_cons_self
      · exact (ih h).imp_right (mem_cons_of_mem a)

lemma keyed_upsert (ht : Keyed t) : Keyed (upsert k v t) := by
  induction t with
  | nil => simp [upsert, Keyed]
  | cons a t ih =>
    obtain ⟨ha, ht'⟩ := nodup_cons.mp ht
    rw [upsert]
    split_ifs with hk
    · exact nodup_cons.mpr ⟨by simpa [hk] using ha, ht'⟩
    · refine nodup_cons.mpr ⟨fun hmem => ?_, ih ht'⟩
      obtain ⟨r, hr, hra⟩ := mem_map.mp hmem
      rcases mem_upsert hr with rfl | hr
      · exact hk hra.symm
      · exact ha (mem_map.mpr ⟨r, hr, hra⟩)

/-- Dropping the rows of an absent key drops nothing. -/
theorem filter_ne_of_notMem (h : k ∉ t.map Prod.fst) : t.filter (fun r => r.1 ≠ k) = t := by
  refine filter_eq_self.mpr fun r hr => ?_
  simpa using fun hk : r.1 = k => h (mem_map.mpr ⟨r, hr, hk⟩)

/-- Up to the order of the rows, an upsert drops the key's row and adds the new one. -/
theorem upsert_perm (ht : Keyed t) :
    (upsert k v t).Perm (t.filter (fun r => r.1 ≠ k) ++ [(k, v)]) := by
  induction t with
  | nil => simp [upsert]
  | cons a t ih =>
    obtain ⟨ha, ht'⟩ := nodup_cons.mp ht
    rw [upsert]
    split_ifs with hk
    · rw [filter_cons_of_neg (by simpa using hk), filter_ne_of_notMem (by simpa [hk] using ha)]
      exact (perm_append_singleton (k, v) t).symm
    · rw [filter_cons_of_pos (by simpa using hk), cons_append]
      exact (ih ht').cons a

end Upsert

section Ordered

variable [LinearOrder κ] [LinearOrder ν]

/-- The rows in the order of their keys, rows of one key in the order of their values. -/
def ordered (t : List (κ × ν)) : List (κ × ν) :=
  t.insertionSort fun a b => toLex a ≤ toLex b

lemma ordered_perm (t : List (κ × ν)) : (ordered t).Perm t :=
  perm_insertionSort _ t

@[simp]
lemma mem_ordered {r : κ × ν} : r ∈ ordered t ↔ r ∈ t :=
  (ordered_perm t).mem_iff

private lemma pairwise_ordered (t : List (κ × ν)) :
    (ordered t).Pairwise fun a b => toLex a ≤ toLex b := by
  have : IsTrans (κ × ν) fun a b => toLex a ≤ toLex b := ⟨fun _ _ _ => le_trans⟩
  have : Std.Total fun a b : κ × ν => toLex a ≤ toLex b := ⟨fun _ _ => le_total _ _⟩
  exact pairwise_insertionSort _ t

/-- The report depends on the rows only, not on the order in which they are kept. -/
theorem ordered_congr {s : List (κ × ν)} (h : s.Perm t) : ordered s = ordered t := by
  refine List.Perm.eq_of_pairwise (fun a b _ _ hab hba => ?_) (pairwise_ordered s)
    (pairwise_ordered t) ((ordered_perm s).trans (h.trans (ordered_perm t).symm))
  exact toLex.injective (le_antisymm hab hba)

lemma ordered_ordered (t : List (κ × ν)) : ordered (ordered t) = ordered t :=
  ordered_congr (ordered_perm t)

/-- The report after an upsert, computed from the report before it. -/
theorem ordered_upsert [DecidableEq κ] (ht : Keyed t) :
    ordered (upsert k v t) = ordered ((ordered t).filter (fun r => r.1 ≠ k) ++ [(k, v)]) :=
  ordered_congr <| (upsert_perm ht).trans <|
    (((ordered_perm t).filter _).append_right [(k, v)]).symm

end Ordered

end KeyedTable
