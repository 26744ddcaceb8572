import Mathlib.Data.List.Sort

/-!
# Finite maps as field lists

A field list `List (κ × ν)` read by first match (`FieldMap.lookup`) denotes a finite map.
`FieldMap.sort` picks one representative of each map, the list with strictly increasing
keys, so that two field lists denote the same map exactly when their sorted forms are
equal.

## Main results

* `FieldMap.lookup_sort`: sorting changes no lookup;
* `FieldMap.sort_eq_iff`: equal sorted forms are equal maps.
-/

namespace FieldMap

open List

variable {κ ν : Type*} [LinearOrder κ]

/-- The value of the first field with key `k`. -/
def lookup (k : κ) : List (κ × ν) → Option ν
  | [] => none
  | f :: l => if k = f.1 then some f.2 else lookup k l

@[simp]
lemma lookup_nil (k : κ) : lookup k ([] : List (κ × ν)) = none := rfl

@[simp]
lemma lookup_cons (k : κ) (f : κ × ν) (l : List (κ × ν)) :
    lookup k (f :: l) = if k = f.1 then some f.2 else lookup k l := rfl

variable {l : List (κ × ν)}

lemma mem_of_lookup {k : κ} {v : ν} (h : lookup k l = some v) : (k, v) ∈ l := by
  induction l with
  | nil => simp at h
  | cons f l ih =>
    rw [lookup_cons] at h
    split_ifs at h with hk
    · have hv : f.2 = v := Option.some.inj h
      subst hk hv
      exact mem_cons_self
    · exact mem_cons_of_mem _ (ih h)

/-- Mapping the values maps the lookups. -/
theorem lookup_map {μ : Type*} (g : ν → μ) (k : κ) (l : List (κ × ν)) :
    lookup k (l.map fun f => (f.1, g f.2)) = (lookup k l).map g := by
  induction l with
  | nil => rfl
  | cons f l ih =>
    rw [map_cons, lookup_cons, lookup_cons, ih]
    split_ifs <;> rfl

/-- The fields of the other keys. -/
def erase (a : κ) (l : List (κ × ν)) : List (κ × ν) := l.filter fun f => f.1 ≠ a

/-- Erasing a key hides that key only. -/
theorem lookup_erase (a k : κ) (l : List (κ × ν)) :
    lookup k (erase a l) = if k = a then none else lookup k l := by
  induction l with
  | nil => simp [erase]
  | cons f l ih =>
    rw [erase] at ih ⊢
    by_cases hf : f.1 = a
    · rw [filter_cons_of_neg (by simpa using hf), ih, lookup_cons]
      by_cases hk : k = a
      · rw [if_pos hk, if_pos hk]
      · rw [if_neg hk, if_neg hk, if_neg fun h => hk (h.trans hf)]
    · rw [filter_cons_of_pos (by simpa using hf), lookup_cons, ih, lookup_cons]
      by_cases hk : k = a
      · rw [if_neg fun h => hf (h.symm.trans hk), if_pos hk, if_pos hk]
      · rw [if_neg hk, if_neg hk]

/-- Put one field into a list with increasing keys; a field already there under the same
key is replaced. -/
def insert (f : κ × ν) : List (κ × ν) → List (κ × ν)
  | [] => [f]
  | g :: l =>
    if f.1 < g.1 then f :: g :: l
    else if f.1 = g.1 then f :: l
    else g :: insert f l

/-- The field list with strictly increasing keys that denotes the same map as `l`. -/
def sort (l : List (κ × ν)) : List (κ × ν) :=
  l.foldr insert []

@[simp]
lemma sort_cons (f : κ × ν) (l : List (κ × ν)) : sort (f :: l) = insert f (sort l) := rfl

/-- Inserting a field sets its key and changes no other. -/
theorem lookup_insert (f : κ × ν) (l : List (κ × ν)) (k : κ) :
    lookup k (insert f l) = if k = f.1 then some f.2 else lookup k l := by
  induction l with
  | nil => simp [insert, lookup_cons]
  | cons g l ih =>
    rw [insert]
    by_cases hlt : f.1 < g.1
    · rw [if_pos hlt, lookup_cons]
    rw [if_neg hlt]
    by_cases hkey : f.1 = g.1
    · rw [if_pos hkey]
      simp only [lookup_cons, ← hkey]
      split_ifs <;> rfl
    · rw [if_neg hkey]
      simp only [lookup_cons, ih]
      by_cases hk : k = f.1
      · rw [if_neg fun h => hkey (hk.symm.trans h), if_pos hk, if_pos hk]
      · rw [if_neg hk, if_neg hk]

/-- Where a field goes depends on its key only. -/
theorem exists_insert (k : κ) (l : List (κ × ν)) :
    ∃ a b, ∀ v, insert (k, v) l = a ++ (k, v) :: b := by
  induction l with
  | nil => exact ⟨[], [], fun _ => rfl⟩
  | cons g l ih =>
    simp only [insert]
    split_ifs
    · exact ⟨[], g :: l, fun _ => rfl⟩
    · exact ⟨[], l, fun _ => rfl⟩
    · obtain ⟨a, b, h⟩ := ih
      exact ⟨g :: a, b, fun v => by rw [h, cons_append]⟩

/-- Sorting changes no lookup. -/
@[simp]
theorem lookup_sort (l : List (κ × ν)) (k : κ) : lookup k (sort l) = lookup k l := by
  induction l with
  | nil => rfl
  | cons f l ih =>
    rw [sort_cons, lookup_insert, ih, lookup_cons]

/-- The keys of a field list increase strictly. -/
def Increasing (l : List (κ × ν)) : Prop := l.Pairwise fun f g => f.1 < g.1

lemma mem_insert {f g : κ × ν} (h : g ∈ insert f l) : g = f ∨ g ∈ l := by
  induction l with
  | nil => simpa [insert] using h
  | cons a l ih =>
    rw [insert] at h
    split_ifs at h
    · simpa using h
    · rcases mem_cons.mp h with h | h
      · exact .inl h
      · exact .inr (mem_cons_of_mem _ h)
    · rcases mem_cons.mp h with h | h
      · exact .inr (h ▸ mem_cons_self)
      · exact (ih h).imp_right (mem_cons_of_mem _)

lemma increasing_insert {f : κ × ν} (hl : Increasing l) : Increasing (insert f l) := by
  induction l with
  | nil => simp [insert, Increasing]
  | cons g l ih =>
    obtain ⟨hg, hl'⟩ := pairwise_cons.mp hl
    rw [insert]
    split_ifs with hlt heq
    · refine pairwise_cons.mpr ⟨fun a ha => ?_, hl⟩
      rcases mem_cons.mp ha with rfl | ha
      · exact hlt
      · exact hlt.trans (hg a ha)
    · exact pairwise_cons.mpr ⟨fun a ha => heq ▸ hg a ha, hl'⟩
    · refine pairwise_cons.mpr ⟨fun a ha => ?_, ih hl'⟩
      rcases mem_insert ha with rfl | ha
      · exact lt_of_le_of_ne (not_lt.mp hlt) (Ne.symm heq)
      · exact hg a ha

lemma increasing_sort (l : List (κ × ν)) : Increasing (sort l) := by
  induction l with
  | nil => exact List.Pairwise.nil
  | cons f l ih => exact increasing_insert ih

/-- A field list with increasing keys has no field below its first one. -/
theorem lookup_eq_none_of_lt {k : κ} (h : ∀ f ∈ l, k < f.1) : lookup k l = none := by
  induction l with
  | nil => rfl
  | cons f l ih =>
    rw [lookup_cons, if_neg (h f mem_cons_self).ne]
    exact ih fun g hg => h g (mem_cons_of_mem _ hg)

/-- A field of an increasing list is found under its key. -/
theorem lookup_of_mem {f : κ × ν} (hl : Increasing l) (h : f ∈ l) : lookup f.1 l = some f.2 := by
  induction l with
  | nil => simp at h
  | cons g l ih =>
    obtain ⟨hg, hl'⟩ := pairwise_cons.mp hl
    rcases mem_cons.mp h with rfl | h
    · rw [lookup_cons, if_pos rfl]
    · rw [lookup_cons, if_neg (hg f h).ne', ih hl' h]

/-- Increasing field lists that denote the same map are equal. -/
theorem Increasing.ext {a b : List (κ × ν)} (ha : Increasing a) (hb : Increasing b)
    (h : ∀ k, lookup k a = lookup k b) : a = b := by
  induction a generalizing b with
  | nil =>
    cases b with
    | nil => rfl
    | cons g b => simpa [lookup_cons] using h g.1
  | cons f a ih =>
    cases b with
    | nil => simpa [lookup_cons] using h f.1
    | cons g b =>
      obtain ⟨hfa, ha'⟩ := pairwise_cons.mp ha
      obtain ⟨hgb, hb'⟩ := pairwise_cons.mp hb
      -- the least key of one list is a key of the other, so the two first keys agree
      have hkey : f.1 = g.1 := by
        rcases lt_trichotomy f.1 g.1 with hlt | heq | hlt
        · have hnone : lookup f.1 (g :: b) = none :=
            lookup_eq_none_of_lt fun x hx => by
              rcases mem_cons.mp hx with rfl | hx
              · exact hlt
              · exact hlt.trans (hgb x hx)
          have := h f.1
          rw [hnone] at this
          simp [lookup_cons] at this
        · exact heq
        · have hnone : lookup g.1 (f :: a) = none :=
            lookup_eq_none_of_lt fun x hx => by
              rcases mem_cons.mp hx with rfl | hx
              · exact hlt
              · exact hlt.trans (hfa x hx)
          have := h g.1
          rw [hnone] at this
          simp [lookup_cons] at this
      have hval : f.2 = g.2 := by
        have := h f.1
        simpa [lookup_cons, hkey] using this
      have hrest : a = b := by
        refine ih ha' hb' fun k => ?_
        by_cases hk : k = f.1
        · subst hk
          rw [lookup_eq_none_of_lt hfa, lookup_eq_none_of_lt (hkey ▸ hgb)]
        · have := h k
          have hk' : k ≠ g.1 := hkey ▸ hk
          simpa [lookup_cons, hk, hk'] using this
      rw [hrest, Prod.ext hkey hval]

/-- Two field lists have one sorted form exactly when they denote one map. -/
theorem sort_eq_iff (a b : List (κ × ν)) : sort a = sort b ↔ ∀ k, lookup k a = lookup k b := by
  constructor
  · intro h k
    rw [← lookup_sort a, h, lookup_sort]
  · intro h
    refine Increasing.ext (increasing_sort a) (increasing_sort b) fun k => ?_
    rw [lookup_sort, lookup_sort, h k]

end FieldMap
