import Mathlib.Data.List.Nodup

/-!
# Rows with a key

A table is a list of rows no two of which have the same key. `modify` changes the row of a key,
`row?` looks it up.

## Main results

* `row?_save`: the rows after one was saved.
-/

namespace KeyedRows

open List

variable {κ ρ : Type*} [DecidableEq κ] {key : ρ → κ} {k : κ} {g : ρ → ρ} {rows : List ρ} {r : ρ}

/-- The row of a key. -/
def row? (key : ρ → κ) (k : κ) (rows : List ρ) : Option ρ := rows.find? fun r => key r = k

/-- The row of a key is changed. -/
def modify (key : ρ → κ) (k : κ) (g : ρ → ρ) (rows : List ρ) : List ρ :=
  rows.map fun r => if key r = k then g r else r

lemma mem_of_row? (h : row? key k rows = some r) : r ∈ rows ∧ key r = k := by
  rw [row?] at h
  exact ⟨mem_of_find?_eq_some h, by simpa using List.find?_some h⟩

lemma row?_eq_none : row? key k rows = none ↔ k ∉ rows.map key := by
  simp [row?, List.find?_eq_none]

/-- With distinct keys, a row is found under its key. -/
lemma row?_of_mem (hkeys : (rows.map key).Nodup) (hr : r ∈ rows) :
    row? key (key r) rows = some r := by
  cases hrow : row? key (key r) rows with
  | none => exact absurd (mem_map_of_mem hr) (row?_eq_none.mp hrow)
  | some r' =>
    obtain ⟨hr', hkey⟩ := mem_of_row? hrow
    rw [inj_on_of_nodup_map hkeys hr' hr hkey]

/-- A change that keeps the keys is found under the same key. -/
lemma row?_map (hg : ∀ r ∈ rows, key (g r) = key r) :
    row? key k (rows.map g) = (row? key k rows).map g := by
  induction rows with
  | nil => rfl
  | cons r rows ih =>
    rw [forall_mem_cons] at hg
    unfold row? at ih ⊢
    rw [map_cons, List.find?_cons, List.find?_cons, hg.1]
    split
    · rfl
    · exact ih hg.2

lemma mem_modify_of_ne (hr : r ∈ rows) (hkey : key r ≠ k) : r ∈ modify key k g rows := by
  refine mem_map.mpr ⟨r, hr, ?_⟩
  rw [if_neg hkey]

/-- A change of the row of a key keeps the keys. -/
lemma modify_keys (hg : ∀ r, key r = k → key (g r) = k) :
    (modify key k g rows).map key = rows.map key := by
  rw [modify, map_map]
  refine map_congr_left fun r _ => ?_
  show key (if key r = k then g r else r) = key r
  split
  · next hkey => exact (hg r hkey).trans hkey.symm
  · rfl

section Save

/-- The row takes the place of the one with its key, or is added. -/
def save (key : ρ → κ) (row : ρ) (rows : List ρ) : List ρ :=
  match row? key (key row) rows with
  | some _ => modify key (key row) (fun _ => row) rows
  | none => rows ++ [row]

/-- Saving a row whose key is there replaces it. -/
lemma save_of_some {row : ρ} (h : row? key k rows = some r) (hkey : key row = k) :
    save key row rows = modify key k (fun _ => row) rows := by
  rw [save, hkey, h]

/-- Saving a row whose key is new appends it. -/
lemma save_of_none {row : ρ} (h : row? key k rows = none) (hkey : key row = k) :
    save key row rows = rows ++ [row] := by
  rw [save, hkey, h]

/-- A row after a save is the saved one, or one of another key that was there. -/
lemma mem_save {row : ρ} (h : r ∈ save key row rows) : r = row ∨ (r ∈ rows ∧ key r ≠ key row) := by
  rw [save] at h
  split at h
  · rcases mem_map.mp h with ⟨r', hr', heq⟩
    split at heq
    · exact .inl heq.symm
    · next hkey => exact .inr ⟨heq ▸ hr', heq ▸ hkey⟩
  · next hnone =>
    rcases mem_append.mp h with hr | hr
    · exact .inr ⟨hr, fun heq => row?_eq_none.mp hnone (heq ▸ mem_map_of_mem hr)⟩
    · exact .inl (mem_singleton.mp hr)

/-- A save keeps the keys distinct. -/
lemma nodup_save (row : ρ) (h : (rows.map key).Nodup) : ((save key row rows).map key).Nodup := by
  rw [save]
  split
  · rwa [modify_keys fun _ _ => rfl]
  · next hnone =>
    rw [map_append, map_singleton]
    refine nodup_append.mpr ⟨h, by simp, ?_⟩
    intro a ha b hb heq
    exact row?_eq_none.mp hnone (mem_singleton.mp hb ▸ heq ▸ ha)

lemma mem_save_self (row : ρ) (rows : List ρ) : row ∈ save key row rows := by
  rw [save]
  split
  · next r hrow =>
    obtain ⟨hr, hkey⟩ := mem_of_row? hrow
    exact mem_map.mpr ⟨r, hr, by rw [if_pos hkey]⟩
  · simp

/-- A save adds the key of its row. -/
lemma mem_keys_save {row : ρ} :
    k ∈ (save key row rows).map key ↔ k = key row ∨ k ∈ rows.map key := by
  cases hrow : row? key (key row) rows with
  | none =>
    rw [save_of_none hrow rfl, map_append, mem_append, map_singleton, mem_singleton, or_comm]
  | some r =>
    obtain ⟨hr, hkey⟩ := mem_of_row? hrow
    rw [save_of_some hrow rfl, modify_keys fun _ _ => rfl, ← hkey]
    exact (or_iff_right_of_imp fun h => h ▸ mem_map_of_mem hr).symm

/-- A save keeps the rows of other keys. -/
lemma mem_save_of_ne {row : ρ} (hr : r ∈ rows) (hkey : key r ≠ key row) :
    r ∈ save key row rows := by
  rw [save]
  split
  · exact mem_modify_of_ne hr hkey
  · exact mem_append_left _ hr

/-- Saving a row sets its key and changes no other. -/
theorem row?_save (row : ρ) (h : (rows.map key).Nodup) (k : κ) :
    row? key k (save key row rows) = if k = key row then some row else row? key k rows := by
  have hnodup := nodup_save row h
  split
  · next hk =>
    rw [hk]
    exact row?_of_mem hnodup (mem_save_self row rows)
  · next hk =>
    cases hrow : row? key k rows with
    | none =>
      refine row?_eq_none.mpr fun hmem => ?_
      obtain ⟨r, hr, rfl⟩ := mem_map.mp hmem
      rcases mem_save hr with rfl | ⟨hr, -⟩
      · exact hk rfl
      · exact row?_eq_none.mp hrow (mem_map_of_mem hr)
    | some r =>
      obtain ⟨hr, rfl⟩ := mem_of_row? hrow
      exact row?_of_mem hnodup (mem_save_of_ne hr hk)

end Save

end KeyedRows
