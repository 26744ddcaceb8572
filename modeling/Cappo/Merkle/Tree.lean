import Cappo.Lib.Checks
import Cappo.Lib.HashTree
import Cappo.VdbC1.Canon

/-!
# The append-only Merkle tree

The functions of `security/merkle.py`, over an arbitrary `sha256`. The tree keeps its leaves in
a list; every subtree is given by its first leaf and its number of leaves, and is split at the
largest power of two below that number. What raises is `none`: reading a leaf that is not
there, and taking a node from an empty proof. Sizes and indices are natural numbers.

The abstract side is `rfcTree`, the tree of RFC 6962 as a `HashTree.Tree`. Each function of
the code computes the corresponding function of the library on it.

## Main results

* `merkleHash_eq`, `path_eq`, `subproof_eq`: what the tree generates;
* `recomputeRoot_eq`, `verifySubproof_eq`: what the verifiers recompute;
* `truncate_rfcTree`: the tree of the first leaves is the truncated tree, because a size above
  the split point has the same split point.
-/

namespace Merkle

open VdbC1 (Bytes)

section Model

variable (sha256 : Bytes → Bytes)

/-- `hash_leaf`. -/
def hashLeaf (data : Bytes) : Bytes := sha256 (0 :: data)

/-- `hash_children`. -/
def hashChildren (left right : Bytes) : Bytes := sha256 (1 :: (left ++ right))

/-- The loop of `_largest_power_of_2_less_than`: `k` is doubled while it is below `n`. -/
def doubledUpTo (n k : ℕ) (hk : 0 < k) : ℕ :=
  if k < n then doubledUpTo n (k <<< 1) (by rw [Nat.shiftLeft_eq]; omega) else k
termination_by n - k
decreasing_by rw [Nat.shiftLeft_eq]; omega

/-- `_largest_power_of_2_less_than`, for `n` at least 2. -/
def largestPowerOf2LessThan (n : ℕ) : ℕ := doubledUpTo n 1 Nat.one_pos >>> 1

/-- The loop stops at the first power of two that is large enough. -/
lemma doubledUpTo_spec (n k : ℕ) (hk : 0 < k) :
    ∃ j, doubledUpTo n k hk = k * 2 ^ j ∧ n ≤ k * 2 ^ j ∧ (j ≠ 0 → k * 2 ^ (j - 1) < n) := by
  induction k, hk using doubledUpTo.induct n with
  | case1 k hk hlt ih =>
    obtain ⟨j, heq, hle, hpred⟩ := ih
    have hdouble : ∀ e, (k <<< 1) * 2 ^ e = k * 2 ^ (e + 1) := by
      intro e
      rw [Nat.shiftLeft_eq, pow_one, Nat.mul_assoc, ← Nat.pow_succ']
    rw [doubledUpTo, if_pos hlt]
    refine ⟨j + 1, by rw [heq, hdouble], by rwa [← hdouble], fun _ => ?_⟩
    rcases j with _ | j
    · simpa using hlt
    · have := hpred (Nat.succ_ne_zero j)
      rwa [hdouble] at this
  | case2 k hk hlt =>
    rw [doubledUpTo, if_neg hlt]
    exact ⟨0, by simp, by simpa using Nat.le_of_not_lt hlt, fun h => absurd rfl h⟩

variable {n : ℕ}

/-- The split point is the power of two `k` with `k < n ≤ 2 * k`. -/
lemma largestPowerOf2LessThan_spec (hn : 2 ≤ n) :
    ∃ e, largestPowerOf2LessThan n = 2 ^ e ∧ 2 ^ e < n ∧ n ≤ 2 ^ (e + 1) := by
  obtain ⟨j, heq, hle, hpred⟩ := doubledUpTo_spec n 1 Nat.one_pos
  rw [Nat.one_mul] at heq hle
  rcases j with _ | e
  · rw [pow_zero] at hle
    omega
  · refine ⟨e, ?_, by simpa using hpred (Nat.succ_ne_zero e), hle⟩
    rw [largestPowerOf2LessThan, heq, Nat.shiftRight_eq_div_pow, pow_one, Nat.pow_succ,
      Nat.mul_div_cancel _ Nat.two_pos]

lemma largestPowerOf2LessThan_lt (hn : 2 ≤ n) : largestPowerOf2LessThan n < n := by
  obtain ⟨e, heq, hlt, -⟩ := largestPowerOf2LessThan_spec hn
  rwa [heq]

lemma largestPowerOf2LessThan_pos (hn : 2 ≤ n) : 0 < largestPowerOf2LessThan n := by
  obtain ⟨e, heq, -, -⟩ := largestPowerOf2LessThan_spec hn
  rw [heq]
  exact Nat.two_pow_pos e

lemma sub_largestPowerOf2LessThan_lt (hn : 2 ≤ n) : n - largestPowerOf2LessThan n < n :=
  Nat.sub_lt (by omega) (largestPowerOf2LessThan_pos hn)

/-- A size above the split point of `n` is split where `n` is. -/
lemma largestPowerOf2LessThan_eq (hm : largestPowerOf2LessThan n < m) (hn : m ≤ n)
    (h2 : 2 ≤ n) : largestPowerOf2LessThan m = largestPowerOf2LessThan n := by
  have hpos := largestPowerOf2LessThan_pos h2
  obtain ⟨e, he, hlt, hle⟩ := largestPowerOf2LessThan_spec h2
  obtain ⟨d, hd, hlt', hle'⟩ := largestPowerOf2LessThan_spec (n := m) (by omega)
  rw [he] at hm
  have h1 : e < d + 1 := (Nat.pow_lt_pow_iff_right Nat.one_lt_two).mp (hm.trans_le hle')
  have h2 : d < e + 1 := (Nat.pow_lt_pow_iff_right Nat.one_lt_two).mp (hlt'.trans_le (hn.trans hle))
  rw [he, hd, show d = e by omega]

/-- The exceptions these functions raise: a leaf or a proof node that is not there, a size out
of range, and the assertion of `_largest_power_of_2_less_than`. -/
inductive Raised where
  | indexError
  | valueError
  | assertionError
  deriving DecidableEq

/-- `_merkle_hash`. -/
def merkleHash (leaves : List Bytes) (start length : ℕ) : Except Raised Bytes :=
  if length = 0 then .ok (sha256 [])
  else if length = 1 then do
    let data ← Checks.ofOption .indexError leaves[start]?
    return hashLeaf sha256 data
  else do
    let k := largestPowerOf2LessThan length
    let left ← merkleHash leaves start k
    let right ← merkleHash leaves (start + k) (length - k)
    return hashChildren sha256 left right
termination_by length
decreasing_by
  · exact largestPowerOf2LessThan_lt (by omega)
  · exact sub_largestPowerOf2LessThan_lt (by omega)

/-- `AppendOnlyMerkleTree.root`. -/
def root (leaves : List Bytes) (n : ℕ) : Except Raised Bytes := merkleHash sha256 leaves 0 n

/-- `_path`. -/
def path (leaves : List Bytes) (m start length : ℕ) : Except Raised (List Bytes) :=
  if length = 1 then .ok []
  else if length < 2 then .error .assertionError
  else
    let k := largestPowerOf2LessThan length
    if m < start + k then do
      let path ← path leaves m start k
      return path ++ [← merkleHash sha256 leaves (start + k) (length - k)]
    else do
      let path ← path leaves m (start + k) (length - k)
      return path ++ [← merkleHash sha256 leaves start k]
termination_by length
decreasing_by
  · exact largestPowerOf2LessThan_lt (by omega)
  · exact sub_largestPowerOf2LessThan_lt (by omega)

/-- `AppendOnlyMerkleTree.inclusion_proof`. -/
def inclusionProof (leaves : List Bytes) (m n : ℕ) : Except Raised (List Bytes) :=
  if m < n then path sha256 leaves m 0 n else .error .valueError

/-- `_subproof`. -/
def subproof (leaves : List Bytes) (m start length : ℕ) (b : Bool) : Except Raised (List Bytes) :=
  if m = length then
    if b then .ok []
    else do return [← merkleHash sha256 leaves start length]
  else if length < 2 then .error .assertionError
  else
    let k := largestPowerOf2LessThan length
    if m ≤ k then do
      let path ← subproof leaves m start k b
      return path ++ [← merkleHash sha256 leaves (start + k) (length - k)]
    else do
      let path ← subproof leaves (m - k) (start + k) (length - k) false
      return path ++ [← merkleHash sha256 leaves start k]
termination_by length
decreasing_by
  · exact largestPowerOf2LessThan_lt (by omega)
  · exact sub_largestPowerOf2LessThan_lt (by omega)

/-- `AppendOnlyMerkleTree.consistency_proof`. -/
def consistencyProof (leaves : List Bytes) (first second : ℕ) : Except Raised (List Bytes) :=
  if first ≤ second ∧ second ≤ leaves.length then
    if first = 0 ∨ first = second then .ok []
    else subproof sha256 leaves first 0 second true
  else .error .valueError

/-- `proof.pop(0)`. -/
def pop : List Bytes → Except Raised (Bytes × List Bytes)
  | [] => .error .indexError
  | node :: rest => .ok (node, rest)

/-- `_recompute_root`: the root, and the proof without the nodes it took. -/
def recomputeRoot (h : Bytes) (m start length : ℕ) (proof : List Bytes) :
    Except Raised (Bytes × List Bytes) :=
  if length = 1 then .ok (h, proof)
  else if length < 2 then .error .assertionError
  else
    let k := largestPowerOf2LessThan length
    if m < start + k then do
      let (left, rest) ← recomputeRoot h m start k proof
      let (sibling, rest) ← pop rest
      return (hashChildren sha256 left sibling, rest)
    else do
      let (right, rest) ← recomputeRoot h m (start + k) (length - k) proof
      let (sibling, rest) ← pop rest
      return (hashChildren sha256 sibling right, rest)
termination_by length
decreasing_by
  · exact largestPowerOf2LessThan_lt (by omega)
  · exact sub_largestPowerOf2LessThan_lt (by omega)

/-- `except (IndexError, ValueError): return False`. -/
def caught : Except Raised Bool → Except Raised Bool
  | .error .indexError | .error .valueError => .ok false
  | r => r

/-- `verify_inclusion_proof`. -/
def verifyInclusionProof (leafHash : Bytes) (m n : ℕ) (proof : List Bytes) (root : Bytes) :
    Except Raised Bool :=
  if m < n then caught do
    let (computed, rest) ← recomputeRoot sha256 leafHash m 0 n proof
    return computed = root && rest.isEmpty
  else .ok false

/-- `_verify_subproof`: the two roots, and the proof without the nodes it took. -/
def verifySubproof (m start length : ℕ) (b : Bool) (proof : List Bytes) (firstRoot : Bytes) :
    Except Raised ((Bytes × Bytes) × List Bytes) :=
  if m = length then
    if b then .ok ((firstRoot, firstRoot), proof)
    else do
      let (node, rest) ← pop proof
      return ((node, node), rest)
  else if length < 2 then .error .assertionError
  else
    let k := largestPowerOf2LessThan length
    if m ≤ k then do
      let ((fl, sl), rest) ← verifySubproof m start k b proof firstRoot
      let (right, rest) ← pop rest
      return ((fl, hashChildren sha256 sl right), rest)
    else do
      let ((fl, sl), rest) ← verifySubproof (m - k) (start + k) (length - k) false proof firstRoot
      let (left, rest) ← pop rest
      return ((hashChildren sha256 left fl, hashChildren sha256 left sl), rest)
termination_by length
decreasing_by
  · exact largestPowerOf2LessThan_lt (by omega)
  · exact sub_largestPowerOf2LessThan_lt (by omega)

/-- `verify_consistency_proof`. -/
def verifyConsistencyProof (first second : ℕ) (firstRoot secondRoot : Bytes)
    (proof : List Bytes) : Except Raised Bool :=
  if first = second then .ok (firstRoot = secondRoot && proof.isEmpty)
  else if first = 0 ∨ first > second then .ok false
  else caught do
    let ((fr, sr), rest) ← verifySubproof sha256 first 0 second true proof firstRoot
    return fr = firstRoot && sr = secondRoot && rest.isEmpty

end Model

/-! ## The tree of RFC 6962 -/

/-- The tree over the leaves `leafOf start`, `leafOf (start + 1)`, … -/
def rfcTree {α : Type*} (leafOf : ℕ → α) (start length : ℕ) : HashTree.Tree α :=
  if length ≤ 1 then .leaf (leafOf start)
  else
    .node (rfcTree leafOf start (largestPowerOf2LessThan length))
      (rfcTree leafOf (start + largestPowerOf2LessThan length)
        (length - largestPowerOf2LessThan length))
termination_by length
decreasing_by
  · exact largestPowerOf2LessThan_lt (by omega)
  · exact sub_largestPowerOf2LessThan_lt (by omega)

/-- Induction along the split: the two subtrees are smaller, and not empty. -/
@[elab_as_elim]
lemma split_induction {motive : (n : ℕ) → 1 ≤ n → Prop} (one : motive 1 le_rfl)
    (split : ∀ n (h2 : 2 ≤ n) (hpos : 0 < largestPowerOf2LessThan n)
      (hlt : largestPowerOf2LessThan n < n), motive (largestPowerOf2LessThan n) hpos →
      motive (n - largestPowerOf2LessThan n) (Nat.sub_pos_of_lt hlt) →
      motive n (Nat.one_le_of_lt h2)) (n : ℕ) (hn : 1 ≤ n) : motive n hn := by
  induction n using Nat.strong_induction_on with
  | _ n ih =>
    rcases Nat.lt_or_ge n 2 with h2 | h2
    · obtain rfl : n = 1 := by omega
      exact one
    · have hlt := largestPowerOf2LessThan_lt h2
      exact split n h2 (largestPowerOf2LessThan_pos h2) hlt (ih _ hlt _)
        (ih _ (sub_largestPowerOf2LessThan_lt h2) _)

section Refinement

variable {α : Type*} {leafOf : ℕ → α}

lemma rfcTree_one (start : ℕ) : rfcTree leafOf start 1 = .leaf (leafOf start) := by
  rw [rfcTree, if_pos le_rfl]

lemma rfcTree_split (hn : 2 ≤ n) (start : ℕ) :
    rfcTree leafOf start n = .node (rfcTree leafOf start (largestPowerOf2LessThan n))
      (rfcTree leafOf (start + largestPowerOf2LessThan n) (n - largestPowerOf2LessThan n)) := by
  rw [rfcTree, if_neg (by omega)]

@[simp]
lemma size_rfcTree (hn : 1 ≤ n) (start : ℕ) : (rfcTree leafOf start n).size = n := by
  induction n, hn using split_induction generalizing start with
  | one => rw [rfcTree_one, HashTree.Tree.size]
  | split n h2 _ hlt ihl ihr =>
    rw [rfcTree_split h2, HashTree.Tree.size, ihl, ihr]
    omega

lemma leafAt_rfcTree (hn : 1 ≤ n) (start i : ℕ) (hi : i < n) :
    (rfcTree leafOf start n).leafAt i = leafOf (start + i) := by
  induction n, hn using split_induction generalizing start i with
  | one =>
    obtain rfl : i = 0 := by omega
    rw [rfcTree_one, HashTree.Tree.leafAt, Nat.add_zero]
  | split n h2 hpos _ ihl ihr =>
    rw [rfcTree_split h2, HashTree.Tree.leafAt, size_rfcTree hpos]
    split
    · next hlt => exact ihl start i hlt
    · next hge =>
      rw [ihr _ _ (by omega)]
      congr 1
      omega

lemma rfcTree_congr (hn : 1 ≤ n) (start : ℕ)
    (h : ∀ i < n, f (start + i) = g (start + i)) : rfcTree f start n = rfcTree g start n := by
  induction n, hn using split_induction generalizing start with
  | one => rw [rfcTree_one, rfcTree_one, ← Nat.add_zero start, h 0 Nat.one_pos]
  | split n h2 _ hlt ihl ihr =>
    rw [rfcTree_split h2, rfcTree_split h2, ihl _ fun i hi => h i (by omega), ihr _ fun i hi => ?_]
    rw [Nat.add_assoc]
    exact h _ (by omega)

lemma map_rfcTree {β : Type*} (g : α → β) (hn : 1 ≤ n) (start : ℕ) :
    (rfcTree leafOf start n).map g = rfcTree (g ∘ leafOf) start n := by
  induction n, hn using split_induction generalizing start with
  | one =>
    rw [rfcTree_one, rfcTree_one]
    rfl
  | split n h2 _ _ ihl ihr =>
    rw [rfcTree_split h2, rfcTree_split h2, HashTree.Tree.map, ihl, ihr]

/-- The tree of the first `m` leaves is what remains of the tree when the others are cut off. -/
theorem truncate_rfcTree (leafOf : ℕ → α) (hn : 1 ≤ n) (start m : ℕ) (h1 : 1 ≤ m) (hm : m ≤ n) :
    (rfcTree leafOf start n).truncate m = rfcTree leafOf start m := by
  induction n, hn using split_induction generalizing start m with
  | one =>
    obtain rfl : m = 1 := by omega
    rw [rfcTree_one, HashTree.Tree.truncate]
  | split n h2 hpos _ ihl ihr =>
    rw [rfcTree_split h2, HashTree.Tree.truncate, size_rfcTree hpos]
    split
    · next hle => exact ihl start m h1 hle
    · next hgt =>
      -- both trees have the same left subtree
      have hk := largestPowerOf2LessThan_eq (by omega) hm h2
      rw [ihr _ _ (by omega) (by omega), rfcTree_split (n := m) (by omega), hk]

end Refinement

section Refinement

variable (sha256 : Bytes → Bytes)

/-- The leaf at an index, for the abstract tree of a leaf list. -/
def leafOf (leaves : List Bytes) (i : ℕ) : Bytes := leaves.getD i []

/-- `_merkle_hash` is the root of the tree. -/
lemma merkleHash_eq (leaves : List Bytes) (hn : 1 ≤ n) (start : ℕ)
    (hsize : start + n ≤ leaves.length) :
    merkleHash sha256 leaves start n = .ok (HashTree.root (hashLeaf sha256)
      (hashChildren sha256) (rfcTree (leafOf leaves) start n)) := by
  induction n, hn using split_induction generalizing start with
  | one =>
    rw [merkleHash, if_neg Nat.one_ne_zero, if_pos rfl, rfcTree_one, HashTree.root, leafOf,
      List.getD_eq_getElem?_getD, List.getElem?_eq_getElem (by omega), Checks.ofOption]
    rfl
  | split n h2 _ hlt ihl ihr =>
    rw [merkleHash, if_neg (by omega), if_neg (by omega), rfcTree_split h2, HashTree.root]
    simp only [ihl start (by omega), ihr (start + largestPowerOf2LessThan n) (by omega)]
    rfl

/-- `_path` is the path in the tree. -/
lemma path_eq (leaves : List Bytes) (hn : 1 ≤ n) (start i : ℕ) (hsize : start + n ≤ leaves.length) :
    path sha256 leaves (start + i) start n = .ok (HashTree.path (hashLeaf sha256)
      (hashChildren sha256) (rfcTree (leafOf leaves) start n) i) := by
  induction n, hn using split_induction generalizing start i with
  | one => rw [path, if_pos rfl, rfcTree_one, HashTree.path]
  | split n h2 hpos hlt ihl ihr =>
    rw [path, if_neg (by omega), if_neg (by omega), rfcTree_split h2, HashTree.path,
      size_rfcTree hpos]
    by_cases hi : i < largestPowerOf2LessThan n
    · simp only [Nat.add_lt_add_iff_left, hi, if_true]
      rw [ihl _ _ (by omega), merkleHash_eq sha256 leaves (by omega) _ (by omega)]
      rfl
    · simp only [Nat.add_lt_add_iff_left, hi, if_false]
      have hshift : start + i =
          start + largestPowerOf2LessThan n + (i - largestPowerOf2LessThan n) := by omega
      rw [hshift, ihr _ _ (by omega), merkleHash_eq sha256 leaves hpos _ (by omega)]
      rfl

/-- `_subproof` is the subproof of the tree. -/
lemma subproof_eq (leaves : List Bytes) (hn : 1 ≤ n) (start m : ℕ) (b : Bool) (h1 : 1 ≤ m)
    (hm : m ≤ n) (hsize : start + n ≤ leaves.length) :
    subproof sha256 leaves m start n b = .ok (HashTree.subproof (hashLeaf sha256)
      (hashChildren sha256) (rfcTree (leafOf leaves) start n) m b) := by
  induction n, hn using split_induction generalizing start m b with
  | one =>
    obtain rfl : m = 1 := by omega
    rw [subproof, if_pos rfl, merkleHash_eq sha256 leaves le_rfl _ hsize, rfcTree_one]
    cases b <;> rfl
  | split n h2 hpos hlt ihl ihr =>
    rw [subproof]
    by_cases hmn : m = n
    · have hfull := HashTree.subproof_size (hashLeaf sha256) (hashChildren sha256)
        (rfcTree (leafOf leaves) start n) b
      rw [size_rfcTree (by omega)] at hfull
      rw [if_pos hmn, hmn, hfull, merkleHash_eq sha256 leaves (by omega) _ hsize]
      cases b <;> rfl
    · rw [if_neg hmn, if_neg (by omega), rfcTree_split h2, HashTree.subproof, HashTree.Tree.size,
        size_rfcTree hpos, size_rfcTree (by omega : 1 ≤ n - largestPowerOf2LessThan n),
        Nat.add_sub_cancel' hlt.le, if_neg hmn]
      by_cases hmk : m ≤ largestPowerOf2LessThan n
      · simp only [hmk, if_true]
        rw [ihl _ _ _ h1 hmk (by omega), merkleHash_eq sha256 leaves (by omega) _ (by omega)]
        rfl
      · simp only [hmk, if_false]
        rw [ihr _ _ _ (by omega) (by omega) (by omega),
          merkleHash_eq sha256 leaves hpos _ (by omega)]
        rfl

/-- `_recompute_root` climbs the tree. -/
lemma recomputeRoot_eq {α : Type*} (f : ℕ → α) (hn : 1 ≤ n) (h : Bytes) (start i : ℕ)
    (proof : List Bytes) :
    recomputeRoot sha256 h (start + i) start n proof = Checks.ofOption .indexError
      (HashTree.climb (hashChildren sha256) h (rfcTree f start n) i proof) := by
  induction n, hn using split_induction generalizing start i with
  | one =>
    rw [recomputeRoot, if_pos rfl, rfcTree_one]
    rfl
  | split n h2 hpos _ ihl ihr =>
    rw [recomputeRoot, if_neg (by omega), if_neg (by omega), rfcTree_split h2, HashTree.climb,
      size_rfcTree hpos]
    by_cases hi : i < largestPowerOf2LessThan n
    · simp only [Nat.add_lt_add_iff_left, hi, if_true]
      rw [ihl]
      rcases HashTree.climb _ h _ i proof with _ | ⟨x, _ | ⟨s, rest⟩⟩ <;> rfl
    · simp only [Nat.add_lt_add_iff_left, hi, if_false]
      have hshift : start + i =
          start + largestPowerOf2LessThan n + (i - largestPowerOf2LessThan n) := by omega
      rw [hshift, ihr]
      rcases HashTree.climb _ h _ _ proof with _ | ⟨x, _ | ⟨s, rest⟩⟩ <;> rfl

/-- `_verify_subproof` rejoins the tree. -/
lemma verifySubproof_eq {α : Type*} (f : ℕ → α) (hn : 1 ≤ n) (start m : ℕ) (b : Bool)
    (h1 : 1 ≤ m) (hm : m ≤ n) (proof : List Bytes) (firstRoot : Bytes) :
    verifySubproof sha256 m start n b proof firstRoot = Checks.ofOption .indexError
      (HashTree.rejoin (hashChildren sha256) firstRoot (rfcTree f start n) m b proof) := by
  induction n, hn using split_induction generalizing start m b with
  | one =>
    obtain rfl : m = 1 := by omega
    rw [verifySubproof, if_pos rfl, rfcTree_one, HashTree.rejoin]
    cases b <;> cases proof <;> rfl
  | split n h2 hpos hlt ihl ihr =>
    rw [verifySubproof, rfcTree_split h2, HashTree.rejoin, HashTree.Tree.size, size_rfcTree hpos,
      size_rfcTree (by omega : 1 ≤ n - largestPowerOf2LessThan n),
      Nat.add_sub_cancel' hlt.le]
    by_cases hmn : m = n
    · rw [if_pos hmn, if_pos hmn]
      cases b <;> cases proof <;> rfl
    · rw [if_neg hmn, if_neg hmn, if_neg (by omega)]
      by_cases hmk : m ≤ largestPowerOf2LessThan n
      · simp only [hmk, if_true]
        rw [ihl _ _ _ h1 hmk]
        rcases HashTree.rejoin _ firstRoot _ m b proof with _ | ⟨⟨f, s⟩, _ | ⟨right, rest⟩⟩ <;>
          rfl
      · simp only [hmk, if_false]
        rw [ihr _ _ _ (by omega) (by omega)]
        rcases HashTree.rejoin _ firstRoot _ _ false proof with
          _ | ⟨⟨f, s⟩, _ | ⟨left, rest⟩⟩ <;> rfl

end Refinement

end Merkle
