import Mathlib.Data.List.Infix

/-!
# Audited logs

A log each of whose entries is justified by the entries before it. A property of logs that every
justified entry keeps holds of every part of an audited log.

## Main results

* `before_or_after`: a moment is before an entry or after it;
* `Audited.concat`: appending a justified entry;
* `Audited.induction`: what justified entries keep, an audited log has;
* `audited_iff`: what is lost at the first entry that is not justified, exactly the audited logs
  have.
-/

namespace AuditLog

open List

variable {ε : Type*} (Justified : List ε → ε → Prop)

/-- A moment of a log is before a given entry or after it. -/
theorem before_or_after {pre p q : List ε} {x : ε} (h : pre <+: p ++ x :: q) :
    pre <+: p ∨ p ++ [x] <+: pre := by
  have hx : p ++ [x] <+: p ++ x :: q := ⟨q, by rw [append_assoc, singleton_append]⟩
  rcases prefix_or_prefix_of_prefix h hx with hle | hle
  · rcases prefix_concat_iff.mp hle with rfl | hle
    · exact .inr (prefix_refl _)
    · exact .inl hle
  · exact .inr hle

/-- Two entries of a log neither of which is before the other. -/
theorem eq_of_not_before {p p' q q' : List ε} {x x' : ε} (h : p ++ x :: q = p' ++ x' :: q')
    (hne : ¬ p ++ [x] <+: p') (hne' : ¬ p' ++ [x'] <+: p) : p = p' ∧ x = x' := by
  have hle : p' <+: p := (before_or_after (h ▸ prefix_append p' _)).resolve_right hne
  have hle' : p <+: p' := (before_or_after (h ▸ prefix_append p _)).resolve_right hne'
  have hp : p = p' := hle'.eq_of_length (Nat.le_antisymm hle'.length_le hle.length_le)
  subst hp
  exact ⟨rfl, head_eq_of_cons_eq (append_cancel_left h)⟩

/-- Every entry is justified by what is before it. -/
def Audited (log : List ε) : Prop :=
  ∀ pre e post, log = pre ++ e :: post → Justified pre e

variable {Justified}

lemma audited_nil : Audited Justified [] := by
  intro pre e post h
  exact absurd h.symm (append_ne_nil_of_right_ne_nil _ (cons_ne_nil _ _))

variable {log : List ε}

/-- The log before a given moment. -/
theorem Audited.left {log' : List ε} (h : Audited Justified (log ++ log')) :
    Audited Justified log := by
  intro pre e post hsplit
  exact h pre e (post ++ log') (by rw [hsplit, append_assoc, cons_append])

lemma Audited.concat {e : ε} (h : Audited Justified log) (he : Justified log e) :
    Audited Justified (log ++ [e]) := by
  intro pre x post hsplit
  rcases eq_nil_or_concat' post with rfl | ⟨rest, y, rfl⟩
  · obtain ⟨rfl, hx⟩ := append_inj' hsplit rfl
    obtain rfl := singleton_inj.mp hx
    exact he
  · rw [← cons_append, ← append_assoc] at hsplit
    exact h pre x rest (append_inj' hsplit rfl).1

lemma audited_concat_iff {e : ε} :
    Audited Justified (log ++ [e]) ↔ Audited Justified log ∧ Justified log e :=
  ⟨fun h => ⟨h.left, h log e [] rfl⟩, fun h => h.1.concat h.2⟩

/-- The entries of `post` are justified by what is before them, `pre` included. -/
def AuditedFrom (Justified : List ε → ε → Prop) : List ε → List ε → Prop
  | _, [] => True
  | pre, e :: post => Justified pre e ∧ AuditedFrom Justified (pre ++ [e]) post

lemma audited_append_iff {post : List ε} :
    Audited Justified (log ++ post) ↔ Audited Justified log ∧ AuditedFrom Justified log post := by
  induction post generalizing log with
  | nil =>
    rw [append_nil]
    exact (and_iff_left trivial).symm
  | cons e post ih =>
    rw [append_cons, ih, audited_concat_iff, and_assoc]
    exact Iff.rfl

instance AuditedFrom.decidable [∀ pre e, Decidable (Justified pre e)] :
    ∀ pre post, Decidable (AuditedFrom Justified pre post)
  | _, [] => .isTrue trivial
  | pre, e :: post =>
    have := AuditedFrom.decidable (pre ++ [e]) post
    inferInstanceAs (Decidable (_ ∧ _))

instance Audited.decidable [∀ pre e, Decidable (Justified pre e)] (log : List ε) :
    Decidable (Audited Justified log) :=
  decidable_of_iff (AuditedFrom Justified [] log) <| by
    rw [← nil_append log, audited_append_iff, nil_append]
    exact (and_iff_right audited_nil).symm

/-- A property of logs that an entry keeps exactly if it is justified. -/
theorem audited_iff {P : List ε → Prop} (nil : P [])
    (concat : ∀ pre e, P (pre ++ [e]) ↔ P pre ∧ Justified pre e) (log : List ε) :
    P log ↔ Audited Justified log := by
  induction log using List.reverseRecOn with
  | nil => exact iff_of_true nil audited_nil
  | append_singleton pre e ih => rw [concat, ih, audited_concat_iff]

/-- Induction along an audited log: each entry is added to an audited log that justifies it. -/
theorem Audited.induction {motive : List ε → Prop} (h : Audited Justified log) (nil : motive [])
    (concat : ∀ pre e, Audited Justified (pre ++ [e]) → Justified pre e → motive pre → motive (pre
      ++ [e])) : motive log := by
  induction log using List.reverseRecOn with
  | nil => exact nil
  | append_singleton pre e ih =>
    exact concat pre e h (h pre e [] rfl) (ih h.left)

end AuditLog
