import Mathlib.Data.List.DropRight

/-!
# Files of lines

A file written line by line, each line ended by a line feed, and what a reader finds in it after
a write was cut off. The reader knows two line ends, the line feed `lf` and the carriage return
`cr`, and takes `cr` followed by `lf` for one.

## Main results

* `Lines.complete_text_append`: dropping the torn last line leaves the lines before it;
* `Lines.split_text_append`: lines without a line end are read back one by one.
-/

namespace Lines

open List

variable {α : Type*}

/-- The lines as they are written. -/
def text (lf : α) (ls : List (List α)) : List α := ls.flatMap (· ++ [lf])

variable [DecidableEq α]

/-- What is before the torn last line: the text up to its last line feed. -/
def complete (lf : α) (s : List α) : List α := s.rdropWhile fun a => a ≠ lf

/-- The lines of a text of which `line` was read already; `afterCr` says whether a carriage
return ended the line before. -/
def splitFrom (lf cr : α) : Bool → List α → List α → List (List α)
  | _, line, [] => if line = [] then [] else [line]
  | afterCr, line, a :: s =>
    if a = lf then
      -- the second half of a line end that was counted already
      if afterCr then splitFrom lf cr false [] s else line :: splitFrom lf cr false [] s
    else if a = cr then line :: splitFrom lf cr true [] s
    else splitFrom lf cr false (line ++ [a]) s

/-- The lines of a text, without their ends. -/
def split (lf cr : α) (s : List α) : List (List α) := splitFrom lf cr false [] s

variable {lf cr : α}

omit [DecidableEq α] in
@[simp]
lemma text_nil : text lf [] = [] := rfl

omit [DecidableEq α] in
@[simp]
lemma text_cons (l : List α) (ls : List (List α)) : text lf (l :: ls) = l ++ lf :: text lf ls := by
  simp [text]

omit [DecidableEq α] in
@[simp]
lemma text_append (ls ls' : List (List α)) : text lf (ls ++ ls') = text lf ls ++ text lf ls' := by
  simp [text]

omit [DecidableEq α] in
/-- The text of some lines ends in a line feed. -/
theorem text_eq_nil_or_getLast? (lf : α) (ls : List (List α)) :
    text lf ls = [] ∨ (text lf ls).getLast? = some lf := by
  rcases eq_nil_or_concat' ls with rfl | ⟨ls, l, rfl⟩
  · exact .inl rfl
  · refine .inr ?_
    rw [text_append, text_cons, text_nil, ← append_assoc, List.getLast?_concat]

variable {ls : List (List α)}

/-- Dropping the torn last line leaves the lines before it. -/
theorem complete_text_append {tail : List α} (htail : lf ∉ tail) :
    complete lf (text lf ls ++ tail) = text lf ls := by
  induction tail using List.reverseRecOn with
  | nil =>
    rw [append_nil, complete, rdropWhile_eq_self_iff]
    intro hne
    -- the text ends in a line feed, where the dropping stops
    have hlast := (text_eq_nil_or_getLast? lf ls).resolve_left hne
    rw [List.getLast?_eq_some_getLast hne, Option.some.injEq] at hlast
    simp [hlast]
  | append_singleton tail a ih =>
    rw [mem_append, mem_singleton, not_or] at htail
    have hdropped : decide (a ≠ lf) = true := decide_eq_true (Ne.symm htail.2)
    rw [complete, ← append_assoc, rdropWhile_concat, if_pos hdropped]
    exact ih htail.1

/-- Symbols that end no line are added to the line. -/
theorem splitFrom_append {a : List α} (hlf : lf ∉ a) (hcr : cr ∉ a) (line s : List α) :
    splitFrom lf cr false line (a ++ s) = splitFrom lf cr false (line ++ a) s := by
  induction a generalizing line with
  | nil => rw [nil_append, append_nil]
  | cons x a ih =>
    rw [mem_cons, not_or] at hlf hcr
    rw [cons_append, splitFrom, if_neg (Ne.symm hlf.1), if_neg (Ne.symm hcr.1),
      ih hlf.2 hcr.2, append_assoc, singleton_append]

/-- Lines without a line end are read back one by one, and then the torn one. -/
theorem split_text_append (hls : ∀ l ∈ ls, lf ∉ l ∧ cr ∉ l) {tail : List α} (hlf : lf ∉ tail)
    (hcr : cr ∉ tail) :
    split lf cr (text lf ls ++ tail) = ls ++ if tail = [] then [] else [tail] := by
  induction ls with
  | nil =>
    have hread := splitFrom_append hlf hcr [] []
    rw [append_nil, nil_append] at hread
    rw [text_nil, nil_append, nil_append, split, hread, splitFrom]
  | cons l ls ih =>
    rw [forall_mem_cons] at hls
    rw [split, text_cons, append_assoc, splitFrom_append hls.1.1 hls.1.2, nil_append,
      cons_append, splitFrom, if_pos rfl]
    exact congrArg (l :: ·) (ih hls.2)

/-- Lines without a line end are read back. -/
theorem split_text (hls : ∀ l ∈ ls, lf ∉ l ∧ cr ∉ l) : split lf cr (text lf ls) = ls := by
  have h : split lf cr (text lf ls ++ []) = ls ++ if ([] : List α) = [] then [] else [[]] :=
    split_text_append hls (by simp) (by simp)
  rwa [append_nil, if_pos rfl, append_nil] at h

end Lines
