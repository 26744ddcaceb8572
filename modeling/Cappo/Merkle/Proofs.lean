import Cappo.Merkle.Tree

/-!
# What the Merkle verifiers accept

The exact verdicts of `verify_inclusion_proof` and `verify_consistency_proof` on the roots of
one leaf list, for proofs of arbitrary byte strings.

A hash with 32-byte output has collisions, so nothing is assumed of all byte strings:
`CollisionFree` speaks of the strings that the tree and the verifier hash, and each result
names them.

Neither verifier checks the length of a node. For inclusion this does not matter: one half of
each pair is recomputed, has 32 bytes, and fixes where the other half begins. A consistency
proof can move that boundary where it supplies both halves.

## Main results

* `verifyInclusionProof_iff`: exactly the generated path of the leaf's own data is accepted;
* `verifyConsistencyProof_complete`: the generated proof is accepted;
* `verifyConsistencyProof_sound_iff`: an accepted proof is sound exactly when its nodes have
  32 bytes.
-/

namespace Merkle

open VdbC1 (Bytes)
open HashTree
open List

/-- No two of the strings have one hash. -/
def CollisionFree (sha256 : Bytes → Bytes) (hashed : List Bytes) : Prop :=
  ∀ x ∈ hashed, ∀ y ∈ hashed, sha256 x = sha256 y → x = y

instance (sha256 : Bytes → Bytes) (hashed : List Bytes) :
    Decidable (CollisionFree sha256 hashed) := by
  unfold CollisionFree
  infer_instance

/-- A byte string of the length of a SHA-256 digest. -/
def IsDigest (b : Bytes) : Prop := b.length = 32

section Hashed

variable (sha256 : Bytes → Bytes)

/-- The strings hashed for the parents of the given pairs. -/
def parents (pairs : List (Bytes × Bytes)) : List Bytes :=
  pairs.map fun p => 1 :: (p.1 ++ p.2)

/-- The shape of the tree of `n` leaves, which is all that a verifier knows of it. -/
def shape (n : ℕ) : HashTree.Tree Unit := rfcTree (fun _ => ()) 0 n

/-- The strings hashed for the root of the first `n` leaves. -/
def hashedByTree (leaves : List Bytes) (n : ℕ) : List Bytes :=
  (leaves.take n).map (0 :: ·) ++ parents (pairs (hashLeaf sha256)
    (hashChildren sha256) (rfcTree (leafOf leaves) 0 n))

/-- The strings hashed by `hash_leaf` and `verify_inclusion_proof` together. -/
def hashedByInclusion (data : Bytes) (m n : ℕ) (proof : List Bytes) : List Bytes :=
  (0 :: data) ::
    parents (climbPairs (hashChildren sha256) (hashLeaf sha256 data) (shape n) m proof)

/-- The strings hashed by `verify_consistency_proof`. -/
def hashedByConsistency (first second : ℕ) (firstRoot : Bytes) (proof : List Bytes) : List Bytes :=
  parents (rejoinPairs (hashChildren sha256) firstRoot (shape second) first true proof)

end Hashed

variable {sha256 : Bytes → Bytes} {leaves : List Bytes}

lemma caught_eq_ok_true : caught r = .ok true ↔ r = .ok true := by
  rcases r with (_ | _ | _) | b <;> simp [caught]

lemma map_rfcTree_unit {α : Type*} (f : ℕ → α) (hn : 1 ≤ n) :
    (rfcTree f 0 n).map (fun _ => ()) = shape n :=
  map_rfcTree _ hn 0

/-- Where no two hashed strings collide, a parent hash determines its children as soon as one
of them has the length of a digest. -/
lemma separates_of_collisionFree (hfree : CollisionFree sha256 hashed)
    (used known : List (Bytes × Bytes)) (hused : parents used ⊆ hashed)
    (hknown : parents known ⊆ hashed)
    (hdigest : ∀ a b, (a, b) ∈ known → IsDigest a ∧ IsDigest b) :
    HashTree.Separates (hashChildren sha256) IsDigest used known := by
  intro x y a b hxy hab hlen heq
  have hbytes : (1 : Fin 256) :: (x ++ y) = 1 :: (a ++ b) :=
    hfree _ (hused (mem_map_of_mem hxy)) _ (hknown (mem_map_of_mem hab)) heq
  obtain ⟨ha, hb⟩ := hdigest a b hab
  have happend := (List.cons.inj hbytes).2
  rcases hlen with hx | hy
  · exact append_inj happend (hx.trans ha.symm)
  · exact append_inj' happend (hy.trans hb.symm)

section Length

variable (hlen : ∀ b, (sha256 b).length = 32)

include hlen

lemma isDigest_hashChildren (a b : Bytes) : IsDigest (hashChildren sha256 a b) := hlen _

lemma isDigest_hashLeaf (a : Bytes) : IsDigest (hashLeaf sha256 a) := hlen _

lemma isDigest_of_mem_pairs (a b : Bytes)
    (h : (a, b) ∈ pairs (hashLeaf sha256) (hashChildren sha256) t) :
    IsDigest a ∧ IsDigest b :=
  digest_of_mem_pairs (isDigest_hashChildren hlen) (isDigest_hashLeaf hlen) h

end Length

/-! ## Inclusion -/

/-- The verdict in terms of the recomputed root. -/
lemma verifyInclusionProof_eq_true (leaves : List Bytes) (hm : m < n) :
    verifyInclusionProof sha256 h m n proof r = .ok true ↔
      climb (hashChildren sha256) h (rfcTree (leafOf leaves) 0 n) m proof =
        some (r, []) := by
  have hrec := recomputeRoot_eq sha256 (leafOf leaves) (Nat.one_le_of_lt hm) h 0 m proof
  rw [Nat.zero_add] at hrec
  rw [verifyInclusionProof, if_pos hm, caught_eq_ok_true, hrec]
  simp only [Checks.bind_eq_ok, Checks.ofOption_eq_ok, Checks.pure_eq_ok, Prod.exists,
    Bool.and_eq_true, decide_eq_true_eq, List.isEmpty_iff]
  constructor
  · rintro ⟨x, rest, hc, rfl, rfl⟩
    exact hc
  · exact fun hc => ⟨r, [], hc, rfl, rfl⟩

lemma inclusionProof_eq (hm : m < n) (hn : n ≤ leaves.length) :
    inclusionProof sha256 leaves m n = .ok (HashTree.path (hashLeaf sha256)
      (hashChildren sha256) (rfcTree (leafOf leaves) 0 n) m) := by
  have hpath := path_eq sha256 leaves (Nat.one_le_of_lt hm) 0 m (by omega)
  rw [Nat.zero_add] at hpath
  rw [inclusionProof, if_pos hm, hpath]

lemma root_eq (h1 : 1 ≤ n) (hn : n ≤ leaves.length) :
    root sha256 leaves n = .ok (HashTree.root (hashLeaf sha256) (hashChildren sha256)
      (rfcTree (leafOf leaves) 0 n)) :=
  merkleHash_eq sha256 leaves h1 0 (by omega)

lemma leafOf_eq (hm : m < leaves.length) : leafOf leaves m = leaves[m] := by
  rw [leafOf, getD_eq_getElem?_getD, getElem?_eq_getElem hm, Option.getD_some]

/-- Inclusion is exact: the verifier accepts a proof for `data` at position `m` exactly when
`data` is leaf `m` and the proof is the generated one. -/
theorem verifyInclusionProof_iff (sha256 : Bytes → Bytes) (leaves : List Bytes) (m n : ℕ)
    (hm : m < n) (hn : n ≤ leaves.length) (data : Bytes) (proof : List Bytes)
    (hlen : ∀ b, (sha256 b).length = 32)
    (hfree : CollisionFree sha256
      (hashedByTree sha256 leaves n ++ hashedByInclusion sha256 data m n proof)) :
    ∃ r, root sha256 leaves n = .ok r ∧
      (verifyInclusionProof sha256 (hashLeaf sha256 data) m n proof r = .ok true ↔
        leaves[m]? = some data ∧ inclusionProof sha256 leaves m n = .ok proof) := by
  have h1 : 1 ≤ n := Nat.one_le_of_lt hm
  have hleaf : (rfcTree (leafOf leaves) 0 n).leafAt m = leaves[m] := by
    rw [leafAt_rfcTree h1 0 m hm, Nat.zero_add, leafOf_eq]
  refine ⟨_, root_eq h1 hn, ?_⟩
  rw [verifyInclusionProof_eq_true leaves hm, inclusionProof_eq hm hn,
    getElem?_eq_getElem (by omega), Option.some.injEq, Except.ok.injEq]
  constructor
  · intro hc
    have hsep := separates_of_collisionFree hfree (HashTree.climbPairs
        (hashChildren sha256) (hashLeaf sha256 data) (rfcTree (leafOf leaves) 0 n) m proof)
      (HashTree.pairs (hashLeaf sha256) (hashChildren sha256) (rfcTree (leafOf leaves) 0 n))
      (by
        rw [← HashTree.climbPairs_map (fun _ => ()), map_rfcTree_unit _ h1]
        exact fun _ hx => mem_append_right _ (mem_cons_of_mem _ hx))
      (fun _ hx => mem_append_left _ (mem_append_right _ hx))
      (isDigest_of_mem_pairs hlen)
    obtain ⟨hdata, hproof⟩ := HashTree.climb_determined (isDigest_hashChildren hlen)
      (isDigest_hashLeaf hlen data) hsep hc
    rw [hleaf] at hdata
    -- the leaf hashes agree, so the leaves do
    have hmem : (0 : Fin 256) :: leaves[m] ∈ hashedByTree sha256 leaves n :=
      mem_append_left _ (mem_map_of_mem
        (mem_take_iff_getElem.mpr ⟨m, by omega, rfl⟩))
    have hcons := hfree _ (mem_append_right _ (mem_cons_self ..)) _
      (mem_append_left _ hmem) hdata
    rw [append_nil] at hproof
    exact ⟨(List.cons.inj hcons).2.symm, hproof.symm⟩
  · rintro ⟨rfl, rfl⟩
    have hc := HashTree.climb_path (hashLeaf sha256) (hashChildren sha256)
      (rfcTree (leafOf leaves) 0 n) m []
    rwa [hleaf, append_nil] at hc

/-- A hash with 32-byte output: the first 32 bytes, padded with zeros. -/
def padded (b : Bytes) : Bytes := (b ++ replicate 32 0).take 32

lemma length_padded (b : Bytes) : (padded b).length = 32 := by
  simp [padded]

theorem verifyInclusionProof_iff_three : ∃ r, root padded [[1], [2], [3]] 3 = .ok r ∧
    verifyInclusionProof padded (hashLeaf padded [2]) 1 3 [padded [0, 1], padded [0, 3]] r =
      .ok true := by
  obtain ⟨r, hr, hiff⟩ := verifyInclusionProof_iff padded [[1], [2], [3]] 1 3
    (by decide) (by decide) [2] [padded [0, 1], padded [0, 3]] length_padded (by decide +kernel)
  exact ⟨r, hr, hiff.mpr ⟨rfl, by decide +kernel⟩⟩

/-! ## Consistency -/

/-- The verdict for two different sizes in terms of the recomputed roots. -/
lemma verifyConsistencyProof_eq_true (leaves : List Bytes) (h1 : 1 ≤ first) (hlt : first < second) :
    verifyConsistencyProof sha256 first second firstRoot secondRoot proof = .ok true ↔
      rejoin (hashChildren sha256) firstRoot (rfcTree (leafOf leaves) 0 second) first
        true proof = some ((firstRoot, secondRoot), []) := by
  rw [verifyConsistencyProof, if_neg (by omega), if_neg (by omega), caught_eq_ok_true,
    verifySubproof_eq sha256 (leafOf leaves) (by omega) 0 first true h1 hlt.le]
  simp only [Checks.bind_eq_ok, Checks.ofOption_eq_ok, Checks.pure_eq_ok, Prod.exists,
    Bool.and_eq_true, decide_eq_true_eq, List.isEmpty_iff]
  constructor
  · rintro ⟨fr, sr, rest, hr, ⟨rfl, rfl⟩, rfl⟩
    exact hr
  · exact fun hr => ⟨firstRoot, secondRoot, [], hr, ⟨rfl, rfl⟩, rfl⟩

lemma verifyConsistencyProof_self :
    verifyConsistencyProof sha256 n n firstRoot secondRoot proof = .ok true ↔
      firstRoot = secondRoot ∧ proof = [] := by
  rw [verifyConsistencyProof, if_pos rfl]
  simp

/-- The generated proof is accepted for the roots of the two sizes, and the older root is the
one of the tree that holds only the older leaves. -/
theorem verifyConsistencyProof_complete (sha256 : Bytes → Bytes) (leaves : List Bytes)
    (first second : ℕ) (h1 : 1 ≤ first) (hle : first ≤ second) (hsize : second ≤ leaves.length) :
    ∃ firstRoot secondRoot proof,
      root sha256 leaves first = .ok firstRoot ∧
      root sha256 (leaves.take first) (leaves.take first).length = .ok firstRoot ∧
      root sha256 leaves second = .ok secondRoot ∧
      consistencyProof sha256 leaves first second = .ok proof ∧
      verifyConsistencyProof sha256 first second firstRoot secondRoot proof = .ok true := by
  have hlen : (leaves.take first).length = first := by
    rw [length_take]
    omega
  have holder : rfcTree (leafOf (leaves.take first)) 0 first =
      rfcTree (leafOf leaves) 0 first := by
    refine rfcTree_congr h1 0 fun i hi => ?_
    rw [Nat.zero_add, leafOf, leafOf, getD_eq_getElem?_getD, getD_eq_getElem?_getD,
      getElem?_take_of_lt hi]
  rw [hlen, root_eq h1 (hle.trans hsize), root_eq h1 hlen.ge, holder,
    root_eq (h1.trans hle) hsize, consistencyProof, if_pos ⟨hle, hsize⟩]
  rcases Nat.eq_or_lt_of_le hle with rfl | hlt
  · exact ⟨_, _, [], rfl, rfl, rfl, if_pos (.inr rfl),
      verifyConsistencyProof_self.mpr ⟨rfl, rfl⟩⟩
  · rw [if_neg (by omega), subproof_eq sha256 leaves (h1.trans hle) 0 first true h1 hle (by omega)]
    refine ⟨_, _, _, rfl, rfl, rfl, rfl, ?_⟩
    · rw [verifyConsistencyProof_eq_true leaves h1 hlt]
      have hr := rejoin_subproof (hashLeaf sha256) (hashChildren sha256)
        (t := rfcTree (leafOf leaves) 0 second) h1
        (by rwa [size_rfcTree (h1.trans hle)]) true (fun _ => rfl) []
      rwa [truncate_rfcTree (leafOf leaves) (h1.trans hle) 0 first h1 hle, append_nil] at hr

theorem verifyConsistencyProof_complete_three : ∃ firstRoot secondRoot proof,
    root padded [[1], [2], [3]] 2 = .ok firstRoot ∧
    root padded [[1], [2]] 2 = .ok firstRoot ∧
    root padded [[1], [2], [3]] 3 = .ok secondRoot ∧
    consistencyProof padded [[1], [2], [3]] 2 3 = .ok proof ∧
    verifyConsistencyProof padded 2 3 firstRoot secondRoot proof = .ok true :=
  verifyConsistencyProof_complete padded [[1], [2], [3]] 2 3 (by decide)
    (by decide) (by decide)

/-- For an accepted proof, the older root is the root of the older leaves exactly when every
node of the proof has the length of a digest. -/
theorem verifyConsistencyProof_sound_iff (sha256 : Bytes → Bytes) (leaves : List Bytes)
    (first second : ℕ) (h1 : 1 ≤ first) (hle : first ≤ second) (hsize : second ≤ leaves.length)
    (firstRoot secondRoot : Bytes) (proof : List Bytes) (hlen : ∀ b, (sha256 b).length = 32)
    (hfree : CollisionFree sha256 (hashedByTree sha256 leaves first ++
      hashedByTree sha256 leaves second ++
      hashedByConsistency sha256 first second firstRoot proof))
    (hroot : root sha256 leaves second = .ok secondRoot)
    (haccept : verifyConsistencyProof sha256 first second firstRoot secondRoot proof =
      .ok true) :
    root sha256 leaves first = .ok firstRoot ↔ ∀ node ∈ proof, node.length = 32 := by
  rcases Nat.eq_or_lt_of_le hle with rfl | hlt
  · obtain ⟨rfl, rfl⟩ := verifyConsistencyProof_self.mp haccept
    exact ⟨fun _ => nofun, fun _ => hroot⟩
  have h2 := h1.trans hle
  have hm : first ≤ (rfcTree (leafOf leaves) 0 second).size := by rwa [size_rfcTree h2]
  have htrunc := truncate_rfcTree (leafOf leaves) h2 0 first h1 hle
  rw [verifyConsistencyProof_eq_true leaves h1 hlt] at haccept
  rw [root_eq h2 hsize, Except.ok.injEq] at hroot
  subst hroot
  rw [root_eq h1 (hle.trans hsize), Except.ok.injEq, ← htrunc]
  -- the verifier's strings against those of both trees
  have hsep := separates_of_collisionFree hfree
    (rejoinPairs (hashChildren sha256) firstRoot
      (rfcTree (leafOf leaves) 0 second) first true proof)
    (pairs (hashLeaf sha256) (hashChildren sha256)
        (rfcTree (leafOf leaves) 0 second) ++
      pairs (hashLeaf sha256) (hashChildren sha256)
        ((rfcTree (leafOf leaves) 0 second).truncate first))
    (by
      rw [← rejoinPairs_map (fun _ => ()), map_rfcTree_unit _ h2]
      exact subset_append_right _ _)
    (by
      rw [parents, map_append, htrunc]
      refine append_subset.mpr ⟨fun _ hx => ?_, fun _ hx => ?_⟩
      · exact mem_append_left _ (mem_append_right _ (mem_append_right _ hx))
      · exact mem_append_left _ (mem_append_left _ (mem_append_right _ hx)))
    (fun a b hab => (mem_append.mp hab).elim (isDigest_of_mem_pairs hlen a b)
      (isDigest_of_mem_pairs hlen a b))
  constructor
  · rintro rfl node hnode
    rw [rejoin_determined (isDigest_hashChildren hlen) (isDigest_hashLeaf hlen) h1 hm
      hsep haccept, append_nil] at hnode
    exact digest_of_mem_subproof (isDigest_hashChildren hlen) (isDigest_hashLeaf hlen)
      hnode
  · intro hnodes
    exact (rejoin_eq_truncate h1 hm
      (hsep.mono (List.Subset.refl _) (subset_append_left _ _)) hnodes haccept).symm

theorem verifyConsistencyProof_sound_iff_two :
    root padded [[1], [2]] 1 = .ok (padded [0, 1]) ↔
      ∀ node ∈ [padded [0, 2]], node.length = 32 :=
  verifyConsistencyProof_sound_iff padded [[1], [2]] 1 2
    (by decide) (by decide) (by decide) (padded [0, 1])
    (hashChildren padded (padded [0, 1]) (padded [0, 2])) [padded [0, 2]] length_padded
    (by decide +kernel) (by decide +kernel) (by decide +kernel)

/-- A forged older root: the empty string is accepted for the tree of the first leaf, with one
node that holds both leaf hashes. -/
theorem verifyConsistencyProof_forged :
    root padded [[1], [2]] 2 = .ok (hashChildren padded (padded [0, 1]) (padded [0, 2])) ∧
    (∀ b, (padded b).length = 32) ∧
    CollisionFree padded (hashedByTree padded [[1], [2]] 1 ++
      hashedByTree padded [[1], [2]] 2 ++
      hashedByConsistency padded 1 2 [] [padded [0, 1] ++ padded [0, 2]]) ∧
    verifyConsistencyProof padded 1 2 [] (hashChildren padded (padded [0, 1]) (padded [0, 2]))
      [padded [0, 1] ++ padded [0, 2]] = .ok true ∧
    root padded [[1], [2]] 1 ≠ .ok [] :=
  ⟨by decide +kernel, length_padded, by decide +kernel, by decide +kernel, by decide +kernel⟩

end Merkle
