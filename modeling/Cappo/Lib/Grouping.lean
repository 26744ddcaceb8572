import Mathlib.Data.List.Induction

/-!
# Groups by a key

The elements of a list, grouped by a key: groups stand in the order in which their keys first occur,
and each keeps the order of its elements. This is what a loop makes that appends each element to
the entry of its key in a dictionary.

## Main results

* `mem_groups_iff`: the groups are the nonempty sublists of the elements with one key.
-/

namespace Grouping

open List

variable {α κ : Type} [DecidableEq κ] (key : α → κ)

/-- Append an element to the group of its key, or start a new group. -/
def add : List (κ × List α) → α → List (κ × List α)
  | [], a => [(key a, [a])]
  | (k, group) :: rest, a =>
    if k = key a then (k, group ++ [a]) :: rest else (k, group) :: add rest a

/-- The elements grouped by key, in the order in which the keys come up. -/
def groups (xs : List α) : List (κ × List α) := xs.foldl (add key) []

variable {key} {gs : List (κ × List α)} {a : α} {k : κ} {g : List α} {xs : List α}

lemma mem_keys_add : k ∈ (add key gs a).map Prod.fst ↔ k ∈ gs.map Prod.fst ∨ k = key a := by
  induction gs with
  | nil => simp [add]
  | cons entry rest ih =>
    obtain ⟨k', group⟩ := entry
    rw [add]
    split
    · next h =>
      subst h
      simp only [map_cons, mem_cons]
      exact ⟨.inl, fun h => h.elim id .inl⟩
    · simp only [map_cons, mem_cons, ih, or_assoc]

lemma nodup_keys_add (h : (gs.map Prod.fst).Nodup) : ((add key gs a).map Prod.fst).Nodup := by
  induction gs with
  | nil => simp [add]
  | cons entry rest ih =>
    obtain ⟨k', group⟩ := entry
    rw [map_cons, nodup_cons] at h
    rw [add]
    split
    · exact nodup_cons.mpr h
    · next hne =>
      refine nodup_cons.mpr ⟨fun hmem => ?_, ih h.2⟩
      exact (mem_keys_add.mp hmem).elim h.1 hne

/-- What the groups are after one more element. -/
theorem mem_add (hkeys : (gs.map Prod.fst).Nodup) : (k, g) ∈ add key gs a ↔ if k = key a then
        (∃ g', (k, g') ∈ gs ∧ g = g' ++ [a]) ∨ (k ∉ gs.map Prod.fst ∧ g = [a])
      else (k, g) ∈ gs := by
  induction gs with
  | nil =>
    by_cases h : k = key a
    · subst h
      simp [add]
    · simp [add, h]
  | cons entry rest ih =>
    obtain ⟨k', group⟩ := entry
    rw [map_cons, nodup_cons] at hkeys
    have ih := ih hkeys.2
    rw [add]
    by_cases hk : k = key a
    · subst hk
      rw [if_pos rfl] at ih ⊢
      by_cases hk' : k' = key a
      · -- the group of the key is the first one, and there is no other
        subst hk'
        have hrest : ∀ g', (key a, g') ∉ rest := fun g' hmem =>
          hkeys.1 (mem_map.mpr ⟨_, hmem, rfl⟩)
        simp [hrest]
      · have hne : key a ≠ k' := fun h => hk' h.symm
        simp only [if_neg hk', mem_cons, Prod.mk.injEq, hne, false_and, false_or, map_cons, ih]
    · rw [if_neg hk] at ih ⊢
      by_cases hk' : k' = key a
      · have hne : k ≠ k' := fun h => hk (h.trans hk')
        simp [hk', hk]
      · simp only [if_neg hk', mem_cons, ih]

lemma groups_concat : groups key (xs ++ [a]) = add key (groups key xs) a := foldl_append ..

lemma nodup_keys_groups : ((groups key xs).map Prod.fst).Nodup := by
  induction xs using List.reverseRecOn with
  | nil => exact nodup_nil
  | append_singleton xs a ih =>
    rw [groups_concat]
    exact nodup_keys_add ih

lemma mem_keys_groups : k ∈ (groups key xs).map Prod.fst ↔ ∃ a ∈ xs, key a = k := by
  induction xs using List.reverseRecOn with
  | nil => simp [groups]
  | append_singleton xs a ih =>
    rw [groups_concat, mem_keys_add, ih]
    simp only [mem_append, mem_singleton, or_and_right, exists_or, exists_eq_left]
    exact or_congr_right eq_comm

/-- The groups are the nonempty sublists of the elements with one key. -/
theorem mem_groups_iff : (k, g) ∈ groups key xs ↔ g = xs.filter (fun a => key a = k) ∧ g ≠ [] := by
  induction xs using List.reverseRecOn generalizing g with
  | nil => simp [groups]
  | append_singleton xs a ih =>
    rw [groups_concat, mem_add nodup_keys_groups, filter_append]
    by_cases hk : k = key a
    · subst hk
      simp only [if_pos, ih, mem_keys_groups, not_exists, not_and, filter_cons, decide_true,
        filter_nil]
      constructor
      · rintro (⟨g', ⟨rfl, -⟩, rfl⟩ | ⟨hnone, rfl⟩)
        · exact ⟨rfl, by simp⟩
        · have hempty : xs.filter (fun b => key b = key a) = [] :=
            filter_eq_nil_iff.mpr fun b hb => by simpa using hnone b hb
          exact ⟨by rw [hempty]; rfl, by simp⟩
      · rintro ⟨rfl, -⟩
        by_cases hempty : xs.filter (fun b => key b = key a) = []
        · refine .inr ⟨fun b hb heq => ?_, by rw [hempty]; rfl⟩
          exact absurd (filter_eq_nil_iff.mp hempty b hb) (by simpa using heq)
        · exact .inl ⟨_, ⟨rfl, hempty⟩, rfl⟩
    · have hne : key a ≠ k := fun h => hk h.symm
      have hlast : [a].filter (fun b => key b = k) = [] := by simp [hne]
      rw [if_neg hk, ih, hlast, append_nil]

end Grouping
