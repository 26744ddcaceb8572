import Mathlib.Data.List.Basic

/-!
# Memories of used keys

A memory holds the keys that were used, each with an expiry. A key is claimed (`claim`): what has
expired is forgotten, then the key is refused if it is still remembered, and remembered otherwise.
Keys are compared with `same`, which need not be an equivalence; what has expired is up to the
moment of the claim.

## Main results

* `ReplayMemory.claim_eq_true`: a claimed key is remembered;
* `ReplayMemory.keeps_claim`: a claim forgets only what has expired;
* `ReplayMemory.refused_of_mem`: a remembered key is refused.
-/

namespace ReplayMemory

variable {κ ε : Type*} (same : κ → κ → Bool) (expired : ε → Bool)

/-- Forget what has expired. -/
def prune (m : List (κ × ε)) : List (κ × ε) := m.filter fun x => !expired x.2

/-- Whether the key is remembered. -/
def seen (k : κ) (m : List (κ × ε)) : Bool := m.any fun x => same x.1 k

/-- Claim a key: whether it was new, and the memory after that. -/
def claim (k : κ) (e : ε) (m : List (κ × ε)) : Bool × List (κ × ε) :=
  if seen same k (prune expired m) then (false, prune expired m)
  else (true, prune expired m ++ [(k, e)])

/-- What is in one memory and `live` is in the other one. -/
def Keeps (live : ε → Prop) (m m' : List (κ × ε)) : Prop := ∀ k e, (k, e) ∈ m → live e → (k, e) ∈ m'

variable {same expired} {live : ε → Prop} {k k' : κ} {e e' : ε} {m m' m'' : List (κ × ε)}

lemma Keeps.refl : Keeps live m m := fun _ _ h _ => h

lemma Keeps.trans (h : Keeps live m m') (h' : Keeps live m' m'') : Keeps live m m'' :=
  fun k e hmem he => h' k e (h k e hmem he) he

/-- A claim that succeeds remembers the key. -/
theorem claim_eq_true (h : claim same expired k e m = (true, m')) :
    (k, e) ∈ m' ∧ seen same k (prune expired m) = false := by
  unfold claim at h
  split_ifs at h with hseen
  · exact absurd (Prod.mk.inj h).1 (by decide)
  · obtain rfl := (Prod.mk.inj h).2
    exact ⟨List.mem_concat_self, by simpa using hseen⟩

lemma keeps_prune (hlive : ∀ e, live e → expired e = false) : Keeps live m (prune expired m) := by
  intro k e hmem he
  exact List.mem_filter.mpr ⟨hmem, by simp [hlive e he]⟩

/-- A claim forgets only what has expired. -/
theorem keeps_claim (hlive : ∀ e, live e → expired e = false) :
    Keeps live m (claim same expired k e m).2 := by
  refine (keeps_prune hlive).trans fun k' e' hmem _ => ?_
  unfold claim
  split_ifs
  · exact hmem
  · exact List.mem_append_left _ hmem

/-- A key that is remembered, and has not expired, is refused. -/
theorem refused_of_mem (hmem : (k', e') ∈ m) (hlive : expired e' = false)
    (hsame : same k' k = true) : (claim same expired k e m).1 = false := by
  have hseen : seen same k (prune expired m) = true :=
    List.any_eq_true.mpr ⟨(k', e'), List.mem_filter.mpr ⟨hmem, by simp [hlive]⟩, hsame⟩
  rw [claim, if_pos hseen]

end ReplayMemory
