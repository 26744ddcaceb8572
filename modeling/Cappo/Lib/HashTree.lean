import Mathlib.Data.List.Basic

/-!
# Hash trees

Binary trees whose root digest commits to their leaves, with the two kinds of proof that such
a tree supports: a path from one leaf to the root, and a list of nodes that connects the root
of the first `m` leaves to the root of all of them.

Proofs are lists of digests consumed from the front, ordered from the bottom of the tree to
its top. A verifier knows the shape of the tree and nothing else of it: `climb` and `rejoin`
take a tree, but read its sizes only.

Nothing says that a proof consists of digests. What a parent hash tells of its two children is
therefore stated relative to a predicate `D`, being a digest (`Separates`): the children are
determined as soon as one of them is known to be one.

## Main results

* `climb_path`, `climb_determined`: a path is accepted, and no other proof for a leaf is;
* `rejoin_subproof`: the proof connecting two roots recomputes both of them;
* `rejoin_eq_truncate`: a proof made of digests that recomputes the root of all leaves
  recomputes the root of the first `m`;
* `rejoin_determined`: the two roots determine the proof that connects them.
-/

namespace HashTree

open List

/-- A binary tree with its data in the leaves. -/
inductive Tree (α : Type*) where
  | leaf (a : α)
  | node (l r : Tree α)

variable {α δ : Type*}

namespace Tree

/-- The number of leaves. -/
def size : Tree α → ℕ
  | leaf _ => 1
  | node l r => l.size + r.size

/-- The leaf with `i` leaves to its left. -/
def leafAt : Tree α → ℕ → α
  | leaf a, _ => a
  | node l r, i => if i < l.size then l.leafAt i else r.leafAt (i - l.size)

/-- The tree of the first `m` leaves: what lies to the right of them is cut off. -/
def truncate : Tree α → ℕ → Tree α
  | leaf a, _ => leaf a
  | node l r, m => if m ≤ l.size then l.truncate m else node l (r.truncate (m - l.size))

/-- The tree of the same shape with other data. -/
def map {β : Type*} (g : α → β) : Tree α → Tree β
  | leaf a => leaf (g a)
  | node l r => node (l.map g) (r.map g)

@[simp]
lemma size_map {β : Type*} (g : α → β) (t : Tree α) : (t.map g).size = t.size := by
  induction t with
  | leaf a => rfl
  | node l r ihl ihr => rw [map, size, size, ihl, ihr]

lemma size_pos (t : Tree α) : 0 < t.size := by
  induction t with
  | leaf a => exact Nat.one_pos
  | node l r ihl ihr => exact Nat.add_pos_left ihl _

/-- The first leaves, if they are all. -/
lemma truncate_size (t : Tree α) : t.truncate t.size = t := by
  induction t with
  | leaf a => rfl
  | node l r ihl ihr =>
    have hr := r.size_pos
    rw [truncate, size, if_neg (by omega), Nat.add_sub_cancel_left, ihr]

end Tree

open HashTree.Tree

section Hashing

variable (hl : α → δ) (hn : δ → δ → δ)

/-- The root digest. -/
def root : Tree α → δ
  | leaf a => hl a
  | node l r => hn (root l) (root r)

/-- The pairs of digests that the inner nodes hash. -/
def pairs : Tree α → List (δ × δ)
  | leaf _ => []
  | node l r => (root hl hn l, root hl hn r) :: (pairs l ++ pairs r)

/-! ## Paths from a leaf to the root -/

/-- The siblings on the way from leaf `i` to the root. -/
def path : Tree α → ℕ → List δ
  | leaf _, _ => []
  | node l r, i =>
    if i < l.size then path l i ++ [root hl hn r] else path r (i - l.size) ++ [root hl hn l]

/-- The root recomputed from the digest of leaf `i` and its siblings, with what is left of the
proof. -/
def climb (h : δ) : Tree α → ℕ → List δ → Option (δ × List δ)
  | leaf _, _, proof => some (h, proof)
  | node l r, i, proof =>
    if i < l.size then
      match climb h l i proof with
      | some (x, s :: rest) => some (hn x s, rest)
      | _ => none
    else
      match climb h r (i - l.size) proof with
      | some (x, s :: rest) => some (hn s x, rest)
      | _ => none

/-- The pairs that `climb` hashes. -/
def climbPairs (h : δ) : Tree α → ℕ → List δ → List (δ × δ)
  | leaf _, _, _ => []
  | node l r, i, proof =>
    if i < l.size then
      match climb hn h l i proof with
      | some (x, s :: _) => (x, s) :: climbPairs h l i proof
      | _ => climbPairs h l i proof
    else
      match climb hn h r (i - l.size) proof with
      | some (x, s :: _) => (s, x) :: climbPairs h r (i - l.size) proof
      | _ => climbPairs h r (i - l.size) proof

/-! ## Proofs that connect two roots -/

/-- The nodes from which the root of `t` and the root of its first `m` leaves can be
recomputed. With `b` set, the verifier is taken to know the latter already. -/
def subproof : Tree α → ℕ → Bool → List δ
  | leaf a, _, b => if b then [] else [hl a]
  | node l r, m, b =>
    if m = (node l r).size then
      if b then [] else [root hl hn (node l r)]
    else if m ≤ l.size then subproof l m b ++ [root hl hn r]
    else subproof r (m - l.size) false ++ [root hl hn l]

/-- What the verifier takes at the subtree that the first `m` leaves fill: the root it knows,
or the next node of the proof. -/
def anchor (first : δ) (b : Bool) (proof : List δ) : Option ((δ × δ) × List δ) :=
  if b then some ((first, first), proof)
  else match proof with
    | [] => none
    | n :: rest => some ((n, n), rest)

/-- The two roots recomputed from the nodes of a proof, with what is left of it. -/
def rejoin (first : δ) : Tree α → ℕ → Bool → List δ → Option ((δ × δ) × List δ)
  | leaf _, _, b, proof => anchor first b proof
  | node l r, m, b, proof =>
    if m = (node l r).size then anchor first b proof
    else if m ≤ l.size then
      match rejoin first l m b proof with
      | some ((f, s), right :: rest) => some ((f, hn s right), rest)
      | _ => none
    else
      match rejoin first r (m - l.size) false proof with
      | some ((f, s), left :: rest) => some ((hn left f, hn left s), rest)
      | _ => none

/-- The pairs that `rejoin` hashes. -/
def rejoinPairs (first : δ) : Tree α → ℕ → Bool → List δ → List (δ × δ)
  | leaf _, _, _, _ => []
  | node l r, m, b, proof =>
    if m = (node l r).size then []
    else if m ≤ l.size then
      match rejoin hn first l m b proof with
      | some ((_, s), right :: _) => (s, right) :: rejoinPairs first l m b proof
      | _ => rejoinPairs first l m b proof
    else
      match rejoin hn first r (m - l.size) false proof with
      | some ((f, s), left :: _) =>
        (left, f) :: (left, s) :: rejoinPairs first r (m - l.size) false proof
      | _ => rejoinPairs first r (m - l.size) false proof

end Hashing

variable {hl : α → δ} {hn : δ → δ → δ} {h first : δ}

/-! The verifiers read the shape of the tree only. -/

section Shape

variable {β : Type*} (g : α → β)

/-- Climbing depends on the shape of the tree alone. -/
lemma climb_map (t : Tree α) (i : ℕ) (proof : List δ) :
    climb hn h (t.map g) i proof = climb hn h t i proof := by
  induction t generalizing i with
  | leaf a => rfl
  | node l r ihl ihr => simp only [Tree.map, climb, size_map, ihl, ihr]

lemma climbPairs_map (t : Tree α) (i : ℕ) (proof : List δ) :
    climbPairs hn h (t.map g) i proof = climbPairs hn h t i proof := by
  induction t generalizing i with
  | leaf a => rfl
  | node l r ihl ihr => simp only [Tree.map, climbPairs, size_map, climb_map, ihl, ihr]

lemma size_node_map (l r : Tree α) : (node (l.map g) (r.map g)).size = (node l r).size :=
  size_map g (node l r)

lemma rejoin_map (t : Tree α) (m : ℕ) (b : Bool) (proof : List δ) :
    rejoin hn first (t.map g) m b proof = rejoin hn first t m b proof := by
  induction t generalizing m b with
  | leaf a => rfl
  | node l r ihl ihr => simp only [Tree.map, rejoin, size_node_map, size_map, ihl, ihr]

/-- Rejoining depends on the shape of the tree alone. -/
lemma rejoinPairs_map (t : Tree α) (m : ℕ) (b : Bool) (proof : List δ) :
    rejoinPairs hn first (t.map g) m b proof = rejoinPairs hn first t m b proof := by
  induction t generalizing m b with
  | leaf a => rfl
  | node l r ihl ihr =>
    simp only [Tree.map, rejoinPairs, size_node_map, size_map, rejoin_map, ihl, ihr]

end Shape

/-- The last step of a climb that ends in the left subtree. -/
theorem climb_left {l r : Tree α} {i : ℕ} (hi : i < l.size) {proof rest : List δ} {x : δ} :
    climb hn h (node l r) i proof = some (x, rest) ↔
      ∃ y s, climb hn h l i proof = some (y, s :: rest) ∧ x = hn y s := by
  rw [climb, if_pos hi]
  rcases climb hn h l i proof with _ | ⟨y, _ | ⟨s, rest'⟩⟩ <;> simp [eq_comm, and_comm]

/-- The last step of a climb that ends in the right subtree. -/
theorem climb_right {l r : Tree α} {i : ℕ} (hi : ¬ i < l.size) {proof rest : List δ} {x : δ} :
    climb hn h (node l r) i proof = some (x, rest) ↔
      ∃ y s, climb hn h r (i - l.size) proof = some (y, s :: rest) ∧ x = hn s y := by
  rw [climb, if_neg hi]
  rcases climb hn h r (i - l.size) proof with _ | ⟨y, _ | ⟨s, rest'⟩⟩ <;>
    simp [eq_comm, and_comm]

/-- The siblings of a leaf lead from its digest to the root. -/
theorem climb_path (hl : α → δ) (hn : δ → δ → δ) (t : Tree α) (i : ℕ) (rest : List δ) :
    climb hn (hl (t.leafAt i)) t i (path hl hn t i ++ rest) = some (root hl hn t, rest) := by
  induction t generalizing i rest with
  | leaf a => rfl
  | node l r ihl ihr =>
    by_cases hi : i < l.size
    · rw [climb_left hi, leafAt, path, if_pos hi, if_pos hi, append_assoc]
      exact ⟨_, _, ihl i _, rfl⟩
    · rw [climb_right hi, leafAt, path, if_neg hi, if_neg hi, append_assoc]
      exact ⟨_, _, ihr _ _, rfl⟩

section Separation

variable {D : δ → Prop}

/-- Between the pairs `used` and the pairs `known`, a parent hash determines both children as
soon as one of them is a digest. -/
def Separates (hn : δ → δ → δ) (D : δ → Prop) (used known : List (δ × δ)) : Prop :=
  ∀ x y a b, (x, y) ∈ used → (a, b) ∈ known → (D x ∨ D y) → hn x y = hn a b → x = a ∧ y = b

/-- Fewer pairs are separated as well. -/
lemma Separates.mono {used used' known known' : List (δ × δ)}
    (hs : Separates hn D used known) (hu : used' ⊆ used) (hk : known' ⊆ known) :
    Separates hn D used' known' :=
  fun x y a b hx ha => hs x y a b (hu hx) (hk ha)

lemma digest_root (hD : ∀ a b, D (hn a b)) (hDl : ∀ a, D (hl a)) (t : Tree α) :
    D (root hl hn t) := by
  cases t with
  | leaf a => exact hDl a
  | node l r => exact hD _ _

/-- Whatever is hashed for an inner node is a digest. -/
lemma digest_of_mem_pairs (hD : ∀ a b, D (hn a b)) (hDl : ∀ a, D (hl a)) {t : Tree α}
    {x y : δ} (hp : (x, y) ∈ pairs hl hn t) : D x ∧ D y := by
  induction t with
  | leaf a => nomatch hp
  | node l r ihl ihr =>
    rw [pairs, mem_cons, mem_append] at hp
    obtain heq | hl' | hr' := hp
    · cases heq
      exact ⟨digest_root hD hDl l, digest_root hD hDl r⟩
    · exact ihl hl'
    · exact ihr hr'

/-- What is recomputed from a digest is a digest. -/
theorem digest_climb (hD : ∀ a b, D (hn a b)) (hh : D h) {t : Tree α} {i : ℕ}
    {proof rest : List δ} {x : δ} (hc : climb hn h t i proof = some (x, rest)) : D x := by
  cases t with
  | leaf a =>
    cases hc
    exact hh
  | node l r =>
    by_cases hi : i < l.size
    · obtain ⟨y, s, -, rfl⟩ := (climb_left hi).mp hc
      exact hD _ _
    · obtain ⟨y, s, -, rfl⟩ := (climb_right hi).mp hc
      exact hD _ _

/-- A proof that leads from a digest to the root starts at the leaf and consists of its
siblings. The siblings need not be digests: the recomputed half of each pair is one, and
pins the other half. -/
theorem climb_determined (hD : ∀ a b, D (hn a b)) (hh : D h) {t : Tree α} {i : ℕ}
    {proof rest : List δ}
    (hs : Separates hn D (climbPairs hn h t i proof) (pairs hl hn t))
    (hc : climb hn h t i proof = some (root hl hn t, rest)) :
    h = hl (t.leafAt i) ∧ proof = path hl hn t i ++ rest := by
  induction t generalizing i rest with
  | leaf a =>
    obtain ⟨hroot, hproof⟩ := Prod.mk.inj (Option.some.inj hc)
    exact ⟨hroot, hproof⟩
  | node l r ihl ihr =>
    by_cases hi : i < l.size
    · obtain ⟨y, s, hy, hroot⟩ := (climb_left hi).mp hc
      rw [climbPairs, if_pos hi, hy] at hs
      obtain ⟨rfl, rfl⟩ := hs y s _ _ (mem_cons_self ..) (mem_cons_self ..)
        (.inl (digest_climb hD hh hy)) hroot.symm
      obtain ⟨hleaf, hproof⟩ := ihl (hs.mono (subset_cons_self _ _)
        fun _ hp => mem_cons_of_mem _ (mem_append_left _ hp)) hy
      rw [leafAt, path, if_pos hi, if_pos hi, append_assoc]
      exact ⟨hleaf, hproof⟩
    · obtain ⟨y, s, hy, hroot⟩ := (climb_right hi).mp hc
      rw [climbPairs, if_neg hi, hy] at hs
      obtain ⟨rfl, rfl⟩ := hs s y _ _ (mem_cons_self ..) (mem_cons_self ..)
        (.inr (digest_climb hD hh hy)) hroot.symm
      obtain ⟨hleaf, hproof⟩ := ihr (hs.mono (subset_cons_self _ _)
        fun _ hp => mem_cons_of_mem _ (mem_append_right _ hp)) hy
      rw [leafAt, path, if_neg hi, if_neg hi, append_assoc]
      exact ⟨hleaf, hproof⟩

end Separation

/-! ## Connecting two roots -/

/-- At the size of the tree nothing is rejoined. -/
lemma rejoin_size {t : Tree α} {b : Bool} {proof : List δ} :
    rejoin hn first t t.size b proof = anchor first b proof := by
  cases t with
  | leaf a => rfl
  | node l r => rw [rejoin, if_pos rfl]

/-- The proof for the whole tree. -/
lemma subproof_size (hl : α → δ) (hn : δ → δ → δ) (t : Tree α) (b : Bool) :
    subproof hl hn t t.size b = if b then [] else [root hl hn t] := by
  cases t with
  | leaf a => rfl
  | node l r => rw [subproof, if_pos rfl]

/-- The anchor is the first root where it is known, and else the next hash of the proof. -/
lemma anchor_eq_some {b : Bool} {proof rest : List δ} {f s : δ} :
    anchor first b proof = some ((f, s), rest) ↔
      s = f ∧ proof = (if b then [] else [f]) ++ rest ∧ (b = true → f = first) := by
  cases b
  · cases proof with
    | nil => simp [anchor]
    | cons n ns =>
      simp only [anchor, Bool.false_eq_true, if_false, Option.some.injEq, Prod.mk.injEq,
        singleton_append, List.cons.injEq, false_implies, and_true]
      constructor
      · rintro ⟨⟨rfl, rfl⟩, rfl⟩
        exact ⟨rfl, rfl, rfl⟩
      · rintro ⟨rfl, rfl, rfl⟩
        exact ⟨⟨rfl, rfl⟩, rfl⟩
  · simp only [anchor, if_true, Option.some.injEq, Prod.mk.injEq, nil_append, true_implies]
    constructor
    · rintro ⟨⟨rfl, rfl⟩, rfl⟩
      exact ⟨rfl, rfl, rfl⟩
    · rintro ⟨rfl, rfl, rfl⟩
      exact ⟨⟨rfl, rfl⟩, rfl⟩

section Inner

variable {l r : Tree α} {m : ℕ} {b : Bool} {proof rest : List δ}

/-- The last step when the first `m` leaves end in the left subtree. -/
theorem rejoin_left (hm : m ≤ l.size) {f x : δ} :
    rejoin hn first (node l r) m b proof = some ((f, x), rest) ↔
      ∃ s right, rejoin hn first l m b proof = some ((f, s), right :: rest) ∧ x = hn s right := by
  have hr := r.size_pos
  rw [rejoin, if_neg (by rw [size]; omega), if_pos hm]
  rcases rejoin hn first l m b proof with _ | ⟨⟨f', s⟩, _ | ⟨right, rest'⟩⟩
  · simp
  · simp
  · simp only [Option.some.injEq, Prod.mk.injEq, List.cons.injEq]
    constructor
    · rintro ⟨⟨rfl, rfl⟩, rfl⟩
      exact ⟨s, right, ⟨⟨rfl, rfl⟩, rfl, rfl⟩, rfl⟩
    · rintro ⟨s', right', ⟨⟨rfl, rfl⟩, rfl, rfl⟩, rfl⟩
      exact ⟨⟨rfl, rfl⟩, rfl⟩

/-- The last step when the first `m` leaves end in the right subtree. -/
theorem rejoin_right (hm : ¬ m ≤ l.size) (hne : m ≠ (node l r).size) {f x : δ} :
    rejoin hn first (node l r) m b proof = some ((f, x), rest) ↔
      ∃ f' s left, rejoin hn first r (m - l.size) false proof = some ((f', s), left :: rest) ∧
        f = hn left f' ∧ x = hn left s := by
  rw [rejoin, if_neg hne, if_neg hm]
  rcases rejoin hn first r (m - l.size) false proof with _ | ⟨⟨f', s⟩, _ | ⟨left, rest'⟩⟩
  · simp
  · simp
  · simp only [Option.some.injEq, Prod.mk.injEq, List.cons.injEq]
    constructor
    · rintro ⟨⟨rfl, rfl⟩, rfl⟩
      exact ⟨f', s, left, ⟨⟨rfl, rfl⟩, rfl, rfl⟩, rfl, rfl⟩
    · rintro ⟨f'', s', left', ⟨⟨rfl, rfl⟩, rfl, rfl⟩, rfl, rfl⟩
      exact ⟨⟨rfl, rfl⟩, rfl⟩

lemma subproof_left (hm : m ≤ l.size) :
    subproof hl hn (node l r) m b = subproof hl hn l m b ++ [root hl hn r] := by
  have hr := r.size_pos
  rw [subproof, if_neg (by rw [size]; omega), if_pos hm]

lemma subproof_right (hm : ¬ m ≤ l.size) (hne : m ≠ (node l r).size) :
    subproof hl hn (node l r) m b = subproof hl hn r (m - l.size) false ++ [root hl hn l] := by
  rw [subproof, if_neg hne, if_neg hm]

lemma truncate_left (hm : m ≤ l.size) : (node l r).truncate m = l.truncate m := by
  rw [truncate, if_pos hm]

lemma truncate_right (hm : ¬ m ≤ l.size) :
    (node l r).truncate m = node l (r.truncate (m - l.size)) := by
  rw [truncate, if_neg hm]

end Inner

/-- The generated proof recomputes both roots. -/
theorem rejoin_subproof (hl : α → δ) (hn : δ → δ → δ) {t : Tree α} {m : ℕ} (h1 : 1 ≤ m)
    (hm : m ≤ t.size) (b : Bool)
    (hfirst : b = true → first = root hl hn (t.truncate m)) (rest : List δ) :
    rejoin hn first t m b (subproof hl hn t m b ++ rest) =
      some ((root hl hn (t.truncate m), root hl hn t), rest) := by
  induction t generalizing m b rest with
  | leaf a =>
    obtain rfl : m = (leaf a).size := by rw [size] at hm ⊢; omega
    rw [rejoin_size, subproof_size, truncate_size, anchor_eq_some]
    exact ⟨rfl, rfl, fun hb => (hfirst hb).symm⟩
  | node l r ihl ihr =>
    by_cases hne : m = (node l r).size
    · subst hne
      rw [truncate_size] at hfirst ⊢
      rw [rejoin_size, subproof_size, anchor_eq_some]
      exact ⟨rfl, rfl, fun hb => (hfirst hb).symm⟩
    by_cases hl' : m ≤ l.size
    · rw [truncate_left hl'] at hfirst ⊢
      rw [rejoin_left hl', subproof_left hl', append_assoc]
      exact ⟨_, _, ihl h1 hl' b hfirst _, rfl⟩
    · rw [truncate_right hl', rejoin_right hl' hne, subproof_right hl' hne, append_assoc]
      -- the flag is cleared: below a right turn the verifier knows nothing yet
      have hm' : m - l.size ≤ r.size := by rw [size] at hm; omega
      exact ⟨_, _, _, ihr (by omega) hm' false nofun _, rfl, rfl⟩

section Separation

variable {D : δ → Prop}

/-- A consistency proof is made of digests. -/
lemma digest_of_mem_subproof (hD : ∀ a b, D (hn a b)) (hDl : ∀ a, D (hl a)) {t : Tree α}
    {m : ℕ} {b : Bool} {x : δ} (hx : x ∈ subproof hl hn t m b) : D x := by
  induction t generalizing m b with
  | leaf a =>
    cases b
    · exact mem_singleton.mp hx ▸ hDl a
    · nomatch hx
  | node l r ihl ihr =>
    rw [subproof] at hx
    split_ifs at hx
    · nomatch hx
    · exact mem_singleton.mp hx ▸ digest_root hD hDl _
    · obtain hx | hx := mem_append.mp hx
      · exact ihl hx
      · exact mem_singleton.mp hx ▸ digest_root hD hDl _
    · obtain hx | hx := mem_append.mp hx
      · exact ihr hx
      · exact mem_singleton.mp hx ▸ digest_root hD hDl _

variable {t : Tree α} {m : ℕ} {b : Bool} {proof rest : List δ} {f s : δ}

/-- The second recomputed root is a digest, unless nothing was hashed. -/
theorem digest_rejoin (hD : ∀ a b, D (hn a b)) (h1 : 1 ≤ m) (hm : m ≤ t.size)
    (hf : m = t.size → D f) (hr : rejoin hn first t m b proof = some ((f, s), rest)) : D s := by
  by_cases hne : m = t.size
  · subst hne
    rw [rejoin_size] at hr
    rw [(anchor_eq_some.mp hr).1]
    exact hf rfl
  · cases t with
    | leaf a =>
      rw [size] at hm hne
      omega
    | node l r =>
      by_cases hl' : m ≤ l.size
      · obtain ⟨s', right, -, rfl⟩ := (rejoin_left hl').mp hr
        exact hD _ _
      · obtain ⟨f', s', left, -, -, rfl⟩ := (rejoin_right hl' hne).mp hr
        exact hD _ _

lemma rejoinPairs_left {l r : Tree α} (hm : m ≤ l.size) {right : δ}
    (hr : rejoin hn first l m b proof = some ((f, s), right :: rest)) :
    rejoinPairs hn first (node l r) m b proof = (s, right) :: rejoinPairs hn first l m b proof := by
  have hpos := r.size_pos
  rw [rejoinPairs, if_neg (by rw [size]; omega), if_pos hm, hr]

lemma rejoinPairs_right {l r : Tree α} (hm : ¬ m ≤ l.size) (hne : m ≠ (node l r).size)
    {left : δ} (hr : rejoin hn first r (m - l.size) false proof = some ((f, s), left :: rest)) :
    rejoinPairs hn first (node l r) m b proof =
      (left, f) :: (left, s) :: rejoinPairs hn first r (m - l.size) false proof := by
  rw [rejoinPairs, if_neg hne, if_neg hm, hr]

/-- What is left of a proof is part of it. -/
lemma rest_subset_of_rejoin (hr : rejoin hn first t m b proof = some ((f, s), rest)) :
    rest ⊆ proof := by
  induction t generalizing m b f s rest with
  | leaf a =>
    rw [(anchor_eq_some.mp hr).2.1]
    exact subset_append_right _ _
  | node l r ihl ihr =>
    by_cases hne : m = (node l r).size
    · subst hne
      rw [rejoin_size] at hr
      rw [(anchor_eq_some.mp hr).2.1]
      exact subset_append_right _ _
    by_cases hl' : m ≤ l.size
    · obtain ⟨s', right, hr', -⟩ := (rejoin_left hl').mp hr
      exact List.Subset.trans (subset_cons_self _ _) (ihl hr')
    · obtain ⟨f', s', left, hr', -, -⟩ := (rejoin_right hl' hne).mp hr
      exact List.Subset.trans (subset_cons_self _ _) (ihr hr')

/-- If the nodes of a proof are digests and it recomputes the root of the tree, then it
recomputes the root of the first `m` leaves as well. -/
theorem rejoin_eq_truncate (h1 : 1 ≤ m) (hm : m ≤ t.size)
    (hs : Separates hn D (rejoinPairs hn first t m b proof) (pairs hl hn t))
    (hproof : ∀ p ∈ proof, D p)
    (hr : rejoin hn first t m b proof = some ((f, root hl hn t), rest)) :
    f = root hl hn (t.truncate m) := by
  generalize hx : root hl hn t = x at hr
  induction t generalizing m b f x rest with
  | leaf a =>
    rw [truncate, hx]
    exact (anchor_eq_some.mp hr).1.symm
  | node l r ihl ihr =>
    by_cases hne : m = (node l r).size
    · subst hne
      rw [rejoin_size] at hr
      rw [truncate_size, hx]
      exact (anchor_eq_some.mp hr).1.symm
    by_cases hl' : m ≤ l.size
    · obtain ⟨s', right, hr', rfl⟩ := (rejoin_left hl').mp hr
      rw [rejoinPairs_left hl' hr'] at hs
      have hright : D right := hproof _ (rest_subset_of_rejoin hr' (mem_cons_self ..))
      obtain ⟨rfl, rfl⟩ := hs _ _ _ _ (mem_cons_self ..) (mem_cons_self ..) (.inr hright) hx.symm
      rw [truncate_left hl']
      exact ihl h1 hl' (hs.mono (subset_cons_self _ _)
        fun _ hp => mem_cons_of_mem _ (mem_append_left _ hp)) _ rfl hr'
    · obtain ⟨f', s', left, hr', rfl, rfl⟩ := (rejoin_right hl' hne).mp hr
      rw [rejoinPairs_right hl' hne hr'] at hs
      have hleft : D left := hproof _ (rest_subset_of_rejoin hr' (mem_cons_self ..))
      obtain ⟨rfl, rfl⟩ := hs _ _ _ _ (mem_cons_of_mem _ (mem_cons_self ..))
        (mem_cons_self ..) (.inl hleft) hx.symm
      have hm' : m - l.size ≤ r.size := by rw [size] at hm; omega
      rw [truncate_right hl', root, ihr (by omega) hm' (hs.mono
        (List.Subset.trans (subset_cons_self _ _) (subset_cons_self _ _))
        fun _ hp => mem_cons_of_mem _ (mem_append_right _ hp)) _ rfl hr']

/-- A proof that recomputes both roots is the generated one. Its nodes need not be digests:
going down the tree, the two roots pin one node after the other. -/
theorem rejoin_determined (hD : ∀ a b, D (hn a b)) (hDl : ∀ a, D (hl a)) (h1 : 1 ≤ m)
    (hm : m ≤ t.size)
    (hs : Separates hn D (rejoinPairs hn first t m b proof)
      (pairs hl hn t ++ pairs hl hn (t.truncate m)))
    (hr : rejoin hn first t m b proof = some ((root hl hn (t.truncate m), root hl hn t), rest)) :
    proof = subproof hl hn t m b ++ rest := by
  generalize hx : root hl hn t = x at hr
  generalize hf : root hl hn (t.truncate m) = f at hr
  have hDf : D f := hf ▸ digest_root hD hDl _
  induction t generalizing m b f x rest with
  | leaf a =>
    obtain ⟨-, hp, -⟩ := anchor_eq_some.mp hr
    rw [hp, subproof, ← hf, truncate, root]
  | node l r ihl ihr =>
    by_cases hne : m = (node l r).size
    · subst hne
      rw [rejoin_size] at hr
      rw [truncate_size] at hf
      rw [(anchor_eq_some.mp hr).2.1, subproof_size, hf]
    by_cases hl' : m ≤ l.size
    · rw [truncate_left hl'] at hf hs
      obtain ⟨s', right, hr', rfl⟩ := (rejoin_left hl').mp hr
      rw [rejoinPairs_left hl' hr'] at hs
      obtain ⟨rfl, rfl⟩ := hs _ _ _ _ (mem_cons_self ..) (mem_append_left _ (mem_cons_self ..))
        (.inl (digest_rejoin hD h1 hl' (fun _ => hDf) hr')) hx.symm
      rw [subproof_left hl', append_assoc]
      refine ihl h1 hl' (hs.mono (subset_cons_self _ _) ?_) _ rfl _ hf hr' hDf
      refine append_subset.mpr ⟨fun _ hp => ?_, subset_append_right _ _⟩
      exact mem_append_left _ (mem_cons_of_mem _ (mem_append_left _ hp))
    · rw [truncate_right hl'] at hf hs
      obtain ⟨f', s', left, hr', rfl, rfl⟩ := (rejoin_right hl' hne).mp hr
      rw [rejoinPairs_right hl' hne hr'] at hs
      have hm' : m - l.size ≤ r.size := by rw [size] at hm; omega
      have hlt : m - l.size ≠ r.size := by rw [size] at hne; omega
      -- the right part was split further, so its second root is a hash and pins `left`
      obtain ⟨rfl, rfl⟩ := hs _ _ _ _ (mem_cons_of_mem _ (mem_cons_self ..))
        (mem_append_left _ (mem_cons_self ..))
        (.inr (digest_rejoin hD (by omega) hm' (fun he => absurd he hlt) hr')) hx.symm
      obtain ⟨-, rfl⟩ := hs _ _ _ _ (mem_cons_self ..) (mem_append_right _ (mem_cons_self ..))
        (.inl (digest_root hD hDl l)) hf.symm
      rw [subproof_right hl' hne, append_assoc]
      refine ihr (by omega) hm' (hs.mono
        (List.Subset.trans (subset_cons_self _ _) (subset_cons_self _ _)) ?_)
        _ rfl _ rfl hr' (digest_root hD hDl _)
      refine append_subset.mpr ⟨fun _ hp => ?_, fun _ hp => ?_⟩
      · exact mem_append_left _ (mem_cons_of_mem _ (mem_append_right _ hp))
      · exact mem_append_right _ (mem_cons_of_mem _ (mem_append_right _ hp))

end Separation

end HashTree
