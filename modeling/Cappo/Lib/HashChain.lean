import Mathlib.Data.List.Forall2

/-!
# Hash-linked logs

A log is a list of records, each of which is valid at its position after the hash of its
predecessor (`HashChain.Chain`). When a valid record is determined, with its predecessor's
hash, by its own hash, the whole log is determined by its length and the hash of its last
record.

## Main results

* `HashChain.chain_append`: a log is continued after its last hash;
* `HashChain.chain_determined`: equal length and last hash make equal logs;
* `HashChain.chain_take_determined`: two logs that agree on one hash agree up to it;
* `HashChain.continues_of_hash`: a log that holds another one's last hash continues it.
-/

namespace HashChain

open List

variable {ρ η : Type*} (hash : ρ → η) (valid : ℕ → η → ρ → Prop)

/-- Every record is valid at its position (counted from `i`) after its predecessor's hash;
the first one comes after the hash `h`. -/
def Chain : ℕ → η → List ρ → Prop
  | _, _, [] => True
  | i, h, r :: rs => valid i h r ∧ Chain (i + 1) (hash r) rs

instance decidableChain [∀ i h r, Decidable (valid i h r)] :
    ∀ (l : List ρ) (i : ℕ) (h : η), Decidable (Chain hash valid i h l)
  | [], _, _ => isTrue trivial
  | r :: rs, i, _ => @instDecidableAnd _ _ _ (decidableChain rs (i + 1) (hash r))

/-- The hash of the last record; `h` if there is none. -/
def head (h : η) : List ρ → η
  | [] => h
  | r :: rs => head (hash r) rs

variable {hash valid}

@[simp]
lemma chain_nil (i : ℕ) (h : η) : Chain hash valid i h [] := trivial

variable {h : η} {i : ℕ} {r : ρ}

@[simp]
lemma chain_cons {rs : List ρ} :
    Chain hash valid i h (r :: rs) ↔ valid i h r ∧ Chain hash valid (i + 1) (hash r) rs := Iff.rfl

@[simp]
lemma head_nil (h : η) : head hash h [] = h := rfl

@[simp]
lemma head_cons (h : η) (r : ρ) (rs : List ρ) : head hash h (r :: rs) = head hash (hash r) rs :=
  rfl

/-- The head of a chain that was continued. -/
lemma head_append (h : η) (a b : List ρ) : head hash h (a ++ b) = head hash (head hash h a) b := by
  induction a generalizing h with
  | nil => rfl
  | cons r a ih => exact ih (hash r)

lemma head_concat (h : η) (a : List ρ) (r : ρ) : head hash h (a ++ [r]) = hash r := by
  rw [head_append, head_cons, head_nil]

variable {l : List ρ}

/-- The head is the hash of the last record. -/
lemma head_of_getLast? (hr : l.getLast? = some r) : head hash h l = hash r := by
  obtain ⟨a, rfl⟩ := List.getLast?_eq_some_iff.mp hr
  exact head_concat h a r

variable {a b : List ρ} {h' : η} {n : ℕ}

/-- A log is continued after its last hash. -/
theorem chain_append : Chain hash valid i h (a ++ b) ↔
      Chain hash valid i h a ∧ Chain hash valid (i + a.length) (head hash h a) b := by
  induction a generalizing i h with
  | nil => simp
  | cons r a ih =>
    have hlen : i + (r :: a).length = i + 1 + a.length := by
      rw [length_cons]
      omega
    rw [cons_append, chain_cons, chain_cons, ih, hlen, and_assoc, head_cons]

/-- Every record of a log is valid after some hash. -/
theorem valid_of_mem (hl : Chain hash valid i h l) (hr : r ∈ l) : ∃ j h', valid j h' r := by
  obtain ⟨a, b, rfl⟩ := append_of_mem hr
  exact ⟨_, _, (chain_append.mp hl).2.1⟩

/-- The record at a position is valid there. -/
theorem valid_of_getElem? (hl : Chain hash valid i h l) (hr : l[n]? = some r) :
    ∃ h', valid (i + n) h' r := by
  obtain ⟨hn, rfl⟩ := List.getElem?_eq_some_iff.mp hr
  rw [← take_append_drop n l, drop_eq_getElem_cons hn, chain_append,
    length_take_of_le (Nat.le_of_lt hn)] at hl
  exact ⟨_, hl.2.1⟩

variable {R : ρ → ρ → Prop}

/-- Logs of one length with one last hash agree record by record, and start after one
hash. -/
theorem chain_determined
    (hinj : ∀ i h h' r r', valid i h r → valid i h' r' → hash r = hash r' → R r r' ∧ h = h')
    (ha : Chain hash valid i h a) (hb : Chain hash valid i h' b)
    (hlen : a.length = b.length) (hhead : head hash h a = head hash h' b) :
    List.Forall₂ R a b ∧ h = h' := by
  induction a generalizing i h h' b with
  | nil =>
    obtain rfl := length_eq_zero_iff.mp hlen.symm
    exact ⟨.nil, hhead⟩
  | cons r a ih =>
    obtain ⟨r', b, rfl⟩ := exists_cons_of_length_eq_add_one hlen.symm
    -- the tails determine the first records' hashes, and these the first records
    obtain ⟨htail, hr⟩ := ih ha.2 hb.2 (by simpa using hlen) hhead
    obtain ⟨hR, hh⟩ := hinj i h h' r r' ha.1 hb.1 hr
    exact ⟨.cons hR htail, hh⟩

/-- A first part of a chain is a chain. -/
lemma chain_take (hl : Chain hash valid i h l) (n : ℕ) : Chain hash valid i h (l.take n) := by
  rw [← take_append_drop n l] at hl
  exact (chain_append.mp hl).1

lemma head_take_succ (hr : l[n]? = some r) : head hash h (l.take (n + 1)) = hash r := by
  obtain ⟨hn, rfl⟩ := List.getElem?_eq_some_iff.mp hr
  rw [take_succ_eq_append_getElem hn, head_concat]

/-- Logs from one start that agree on the hash at position `n` agree on all records up to
it. -/
theorem chain_take_determined
    (hinj : ∀ i h h' r r', valid i h r → valid i h' r' → hash r = hash r' → R r r' ∧ h = h')
    {s : ρ} (ha : Chain hash valid i h a) (hb : Chain hash valid i h' b) (hr : a[n]? = some r)
    (hs : b[n]? = some s) (heq : hash r = hash s) :
    List.Forall₂ R (a.take (n + 1)) (b.take (n + 1)) := by
  have hna : n < a.length := (List.getElem?_eq_some_iff.mp hr).1
  have hnb : n < b.length := (List.getElem?_eq_some_iff.mp hs).1
  refine (chain_determined hinj (chain_take ha (n + 1)) (chain_take hb (n + 1)) ?_ ?_).1
  · rw [length_take, length_take]
    omega
  · rw [head_take_succ hr, head_take_succ hs, heq]

/-! ## Continued logs -/

/-- The log `b` continues the log `a`: record by record, up to `R`. -/
def Continues (R : ρ → ρ → Prop) (a b : List ρ) : Prop :=
  ∀ (i : ℕ) (r : ρ), a[i]? = some r → ∃ s, b[i]? = some s ∧ R r s

lemma Continues.refl (hR : ∀ r, R r r) (a : List ρ) : Continues R a a :=
  fun _ r hr => ⟨r, hr, hR r⟩

lemma Continues.trans (hR : ∀ x y z, R x y → R y z → R x z) {c : List ρ}
    (hab : Continues R a b) (hbc : Continues R b c) : Continues R a c := by
  intro i r hr
  obtain ⟨s, hs, hrs⟩ := hab i r hr
  obtain ⟨t, ht, hst⟩ := hbc i s hs
  exact ⟨t, ht, hR r s t hrs hst⟩

/-- A log that has the last hash of another one at its position continues it. -/
theorem continues_of_hash
    (hinj : ∀ i h h' r r', valid i h r → valid i h' r' → hash r = hash r' → R r r' ∧ h = h')
    {s : ρ} (ha : Chain hash valid i h a) (hb : Chain hash valid i h' b)
    (hr : a.getLast? = some r) (hs : b[a.length - 1]? = some s) (heq : hash r = hash s) :
    Continues R a b := by
  have hpos : 0 < a.length := length_pos_of_mem (mem_of_getLast? hr)
  have hall := chain_take_determined hinj ha hb (List.getLast?_eq_getElem? ▸ hr) hs heq
  rw [Nat.sub_add_cancel hpos, take_length] at hall
  obtain ⟨hlen, hget⟩ := forall₂_iff_get.mp hall
  intro j x hx
  obtain ⟨hj, rfl⟩ := List.getElem?_eq_some_iff.mp hx
  have hj' : j < b.length := by
    rw [length_take] at hlen
    omega
  refine ⟨b[j], List.getElem?_eq_getElem hj', ?_⟩
  simpa using hget j hj (hlen ▸ hj)

end HashChain
