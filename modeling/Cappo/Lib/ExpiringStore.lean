import Mathlib.Order.Lattice
import Mathlib.Data.List.Basic

/-!
# Stores whose entries expire

A store is a list of keys with a time of expiry and a value. `get` returns a value that has not
expired and drops one that has; `getRecent` also makes it the most recent; `put` replaces the entry
of a key; `trim` drops the least recent ones. What the operations keep is said of the entries:
nothing comes out that was not put in.

## Main results

* `mem_of_get`, `mem_of_getRecent`: a value that is returned is in the store and has not expired;
* `mem_put`: the entries after one was put.
-/

namespace ExpiringStore

variable {κ τ ν : Type*} {now exp exp' : τ} {k k' : κ} {v v' : ν} {s s' : List (κ × τ × ν)} {n : ℕ}

/-- The least recent entries are dropped until `n` are left. -/
def trim (n : ℕ) (s : List (κ × τ × ν)) : List (κ × τ × ν) := s.drop (s.length - n)

lemma mem_trim (h : (k, exp, v) ∈ trim n s) : (k, exp, v) ∈ s := List.mem_of_mem_drop h

variable [DecidableEq κ]

/-- The entry of a key. -/
def find (k : κ) (s : List (κ × τ × ν)) : Option (κ × τ × ν) := s.find? fun e => e.1 = k

/-- The store without the entry of a key. -/
def erase (k : κ) (s : List (κ × τ × ν)) : List (κ × τ × ν) := s.filter fun e => e.1 ≠ k

/-- The entry of a key is replaced, and is the most recent. -/
def put (k : κ) (exp : τ) (v : ν) (s : List (κ × τ × ν)) : List (κ × τ × ν) :=
  erase k s ++ [(k, exp, v)]

lemma mem_of_find (h : find k s = some (k', exp, v)) : (k, exp, v) ∈ s := by
  have hkey : k' = k := by simpa using List.find?_some h
  exact hkey ▸ List.mem_of_find?_eq_some h

lemma mem_put (h : (k', exp', v') ∈ put k exp v s) :
    (k' = k ∧ exp' = exp ∧ v' = v) ∨ (k', exp', v') ∈ s := by
  rcases List.mem_append.mp h with hold | hnew
  · exact .inr (List.mem_of_mem_filter hold)
  · simp only [List.mem_singleton, Prod.mk.injEq] at hnew
    exact .inl hnew

variable [LinearOrder τ]

/-- The value of a key, unless it has expired. -/
def get (now : τ) (k : κ) (s : List (κ × τ × ν)) : Option ν × List (κ × τ × ν) :=
  match find k s with
  | none => (none, s)
  | some (_, exp, v) => if exp ≤ now then (none, erase k s) else (some v, s)

/-- The value of a key, which becomes the most recent. -/
def getRecent (now : τ) (k : κ) (s : List (κ × τ × ν)) : Option ν × List (κ × τ × ν) :=
  match find k s with
  | none => (none, s)
  | some (_, exp, v) => if exp ≤ now then (none, erase k s) else (some v, put k exp v s)

/-- A value that is returned has not expired. -/
theorem mem_of_get (h : get now k s = (some v, s')) : ∃ exp, (k, exp, v) ∈ s ∧ now < exp := by
  unfold get at h
  split at h
  · cases h
  · next hfind =>
    split at h
    · cases h
    · next hexp =>
      cases h
      exact ⟨_, mem_of_find hfind, not_le.mp hexp⟩

lemma mem_of_getRecent (h : getRecent now k s = (some v, s')) :
    ∃ exp, (k, exp, v) ∈ s ∧ now < exp := by
  unfold getRecent at h
  split at h
  · cases h
  · next hfind =>
    split at h
    · cases h
    · next hexp =>
      cases h
      exact ⟨_, mem_of_find hfind, not_le.mp hexp⟩

variable {found : Option ν}

/-- Looking a key up adds nothing. -/
theorem mem_get (h : get now k s = (found, s')) (hmem : (k', exp, v) ∈ s') : (k', exp, v) ∈ s := by
  unfold get at h
  split at h
  · cases h
    exact hmem
  · split at h <;> cases h
    · exact List.mem_of_mem_filter hmem
    · exact hmem

lemma mem_getRecent (h : getRecent now k s = (found, s')) (hmem : (k', exp, v) ∈ s') :
    (k', exp, v) ∈ s := by
  unfold getRecent at h
  split at h
  · cases h
    exact hmem
  · next hfind =>
    split at h <;> cases h
    · exact List.mem_of_mem_filter hmem
    · rcases mem_put hmem with ⟨rfl, rfl, rfl⟩ | hold
      · exact mem_of_find hfind
      · exact hold

end ExpiringStore
