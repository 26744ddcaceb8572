import Cappo.CapabilityMount.Correctness.Authority

/-!
# The records of an HTTP target

Authority is checked on the text of a resource, and `HttpTargetAdapter` sends the number that the
text stands for: `"7"` and `"007"` are two grants and one record.

## Main results

* `map_val_of_recordId`: a resource is the decimal text of its record, after leading zeros;
* `run_recordIds`: when the records that two mounts send are different.
-/

namespace CapabilityMount

open VdbC1
open List

variable {D : Deployment}

/-- The value of a character of which `str.isdigit` is true and that `int` reads; `other` has the
characters beyond ASCII. -/
def digit (other : CodePoint → Option ℕ) (c : CodePoint) : Option ℕ :=
  if c.val < 128 then if 48 ≤ c.val ∧ c.val ≤ 57 then some (c.val - 48) else none
  else other c

/-- `HttpTargetAdapter._record_id`, which raises a `ValueError` for `none`. -/
def recordId (other : CodePoint → Option ℕ) (resource : PyStr) : Option ℕ := do
  let digits ← resource.mapM (digit other)
  let n := Nat.ofDigits 10 digits.reverse
  if 0 < n ∧ n < 10 ^ 9 then some n else none

section RecordId

variable {other : CodePoint → Option ℕ} {r s : PyStr} {n : ℕ}

lemma digit_eq_some (hc : isResourceChar c = true)
    (h : digit other c = some d) : d < 10 ∧ c.val = 48 + d := by
  have hascii : c.val < 128 := by
    by_contra hlarge
    have h46 : c ≠ 46 := fun h => hlarge (h ▸ by decide)
    have h95 : c ≠ 95 := fun h => hlarge (h ▸ by decide)
    have h45 : c ≠ 45 := fun h => hlarge (h ▸ by decide)
    simp [isResourceChar, h46, h95, h45] at hc
    omega
  rw [digit, if_pos hascii] at h
  split_ifs at h with hdigit
  cases h
  omega

/-- A resource as the number it is sent as reads: without leading zeros. -/
def significant (resource : PyStr) : PyStr := resource.dropWhile (· = 48)

/-- Without its leading zeros, a text of digits is the decimal text of its number. -/
lemma map_val_significant (hr : ∀ c ∈ r, isResourceChar c = true)
    (h : r.mapM (digit other) = some ds) :
    ((∀ d ∈ ds, d < 10) ∧ r.map Fin.val = ds.map (48 + ·)) ∧ (significant r).map Fin.val =
      (Nat.digits 10 (Nat.ofDigits 10 ds.reverse)).reverse.map (48 + ·) := by
  induction r generalizing ds with
  | nil =>
    cases h
    exact ⟨⟨forall_mem_nil _, rfl⟩, rfl⟩
  | cons c r ih =>
    obtain ⟨hc, hr⟩ := forall_mem_cons.mp hr
    simp only [mapM_cons, Option.bind_eq_bind, Option.bind_eq_some_iff] at h
    obtain ⟨d, hd, ds, hds, h⟩ := h
    cases h
    obtain ⟨hlt, hval⟩ := digit_eq_some hc hd
    obtain ⟨⟨hall, hmap⟩, hrest⟩ := ih hr hds
    have hdigits : ∀ x ∈ d :: ds, x < 10 := forall_mem_cons.mpr ⟨hlt, hall⟩
    have htext : (c :: r).map Fin.val = (d :: ds).map (48 + ·) := by
      rw [map_cons, map_cons, hval, hmap]
    refine ⟨⟨hdigits, htext⟩, ?_⟩
    by_cases hzero : d = 0
    · -- a leading zero adds nothing to the number
      obtain rfl : c = 48 := Fin.ext (hval.trans (by rw [hzero]; rfl))
      rw [hzero, reverse_cons, Nat.ofDigits_append, Nat.ofDigits_singleton, mul_zero, add_zero,
        ← hrest]
      exact congrArg _ (dropWhile_cons_of_pos (by decide))
    · have hne : c ≠ 48 := by
        rintro rfl
        exact hzero (Nat.add_left_cancel (hval.symm.trans rfl : 48 + d = 48 + 0))
      rw [significant, dropWhile_cons_of_neg (by simpa using hne), Nat.digits_ofDigits 10
        (by norm_num) _ (fun x hx => hdigits x (mem_reverse.mp hx)) (fun _ => by simpa using hzero),
        reverse_reverse, htext]

/-- Without its leading zeros, a resource is the decimal text of its record. -/
theorem map_val_of_recordId (hr : validResource r = true) (h : recordId other r = some n) :
    (significant r).map Fin.val = (Nat.digits 10 n).reverse.map (48 + ·) := by
  obtain ⟨ds, hds, h⟩ := Option.bind_eq_some_iff.mp h
  dsimp only at h
  split_ifs at h
  cases h
  exact (map_val_significant (all_eq_true.mp (Bool.and_eq_true_iff.mp hr).2) hds).2

lemma recordId_eq_iff (hr : validResource r = true) (hs : validResource s = true)
    (h : recordId other r = some n) (h' : recordId other s = some n') :
    n = n' ↔ significant r = significant s := by
  rw [← (map_injective_iff.mpr Fin.val_injective).eq_iff, map_val_of_recordId hr h,
    map_val_of_recordId hs h', (map_injective_iff.mpr (add_right_injective 48)).eq_iff,
    reverse_inj, Nat.digits_inj_iff]

end RecordId

/-- `execute_consequence` dispatched a request of the mount for the resource to the target. -/
def Log.Sends (log : Log) (mountId targetRef resource : PyStr) : Prop :=
  ∃ i operationId packageRef action arguments, .dispatched i
    (.execute operationId mountId packageRef targetRef action resource arguments) ∈ log

/-- A request that was dispatched is for a resource that the mount was inserted with. -/
lemma Log.Sends.mem_resources {log : Log} (hlog : log.Audited D) {row : MountRow} {lease : Lease}
    (hinsert : .insertMount row lease ∈ log.writes) (hgrants : row.token.grants.resources ≠ [])
    {targetRef resource : PyStr} (h : log.Sends row.mountId targetRef resource) :
    resource ∈ row.token.grants.resources ∧ validResource resource = true := by
  obtain ⟨i, operationId, packageRef, action, arguments, h⟩ := h
  obtain ⟨pre, post, hsplit⟩ := append_of_mem h
  obtain ⟨-, -, hvalid, row1, hrow1, -, hcovers, -⟩ := hlog pre _ post hsplit
  have hsame := (Log.inserted_of_prefix hlog hinsert (hsplit ▸ prefix_append ..) hrow1).2.2
  rw [hsame, Grants.coversResource] at hcovers
  simpa [hgrants, hvalid] using hcovers

/-- After any schedule: of two mounts that share no granted resource, a request of each that was
dispatched to a target is for another resource, and for another record exactly if the resources
still differ without their leading zeros. -/
theorem run_recordIds {es : Schedule} {c : Config}
    (hrun : D.run es = some c) {row row' : MountRow} {lease lease' : Lease}
    (hinsert : .insertMount row lease ∈ c.shared.log.writes)
    (hinsert' : .insertMount row' lease' ∈ c.shared.log.writes)
    (hgrants : row.token.grants.resources ≠ []) (hgrants' : row'.token.grants.resources ≠ [])
    (hdisjoint : row.token.grants.resources.Disjoint row'.token.grants.resources)
    {targetRef r r' : PyStr} (h : c.shared.log.Sends row.mountId targetRef r)
    (h' : c.shared.log.Sends row'.mountId targetRef r') {other : CodePoint → Option ℕ} {n n' : ℕ}
    (hn : recordId other r = some n) (hn' : recordId other r' = some n') :
    r ≠ r' ∧ (n ≠ n' ↔ significant r ≠ significant r') := by
  obtain ⟨hmem, hvalid⟩ := h.mem_resources (run_audited hrun) hinsert hgrants
  obtain ⟨hmem', hvalid'⟩ := h'.mem_resources (run_audited hrun) hinsert' hgrants'
  refine ⟨?_, not_congr (recordId_eq_iff hvalid hvalid' hn hn')⟩
  rintro rfl
  exact hdisjoint hmem hmem'

namespace Sample

/-- The deployment, with a Biscuit for these resources. -/
def arena (resources : List PyStr) : Deployment :=
  { deployment with
    authorityContext := fun biscuit => (deployment.authorityContext biscuit).map fun context =>
      { context with allowedResources := resources } }

/-- Session `i` mounts the package for a resource, and session `i + 1` executes the operation up to
the call of the target. -/
def dispatchedOn (i : ℕ) (m resource : PyStr) : Schedule :=
  .start i (.requestMount {
    packageRef := package.id
    scope := { workspace := "w", project := "p", operation := some { operation with resource } }
    ttlSeconds := 1
    ownerPrincipal := owner.principal }) ::
  steps i ([m, m, m, m].map .identifier ++ .ok :: confirmed :: oks 3) ++
  .start (i + 1) (.execute { executeArgs m with
    mountId := m
    tokenId := m
    nonce := m
    call := { (executeArgs m).call with resource } }) ::
  steps (i + 1) (.identifier [] :: oks 17 ++
    .anchored { status := .confirmed, anchorId := some m } :: oks 7) ++
  claimed (i + 1) ++ dispatched (i + 1) []

/-- Two mounts, each with a dispatched request. -/
def twoRecords (r s : PyStr) : Schedule :=
  .start 0 .seedSequence :: steps 0 (oks 3) ++ dispatchedOn 1 "a" r ++ dispatchedOn 3 "b" s

/-- What is dispatched. -/
def request (m resource : PyStr) : Dispatch :=
  .execute m m package.id operation.targetRef operation.action resource operation.arguments

/-- Mounts for two resources, and their requests. -/
abbrev Sent (r s : PyStr) (c : Config) : Prop :=
  (∃ x ∈ insertions c.shared.log, ∃ y ∈ insertions c.shared.log, x.1.mountId = "a" ∧
    y.1.mountId = "b" ∧ x.1.token.grants.resources = [r] ∧ y.1.token.grants.resources = [s]) ∧
  .dispatched 2 (request "a" r) ∈ c.shared.log ∧ .dispatched 4 (request "b" s) ∈ c.shared.log

end Sample

/-- Two mounts with one grant each, and one record. -/
theorem recordIds_leading_zero : ∃ c, (Sample.arena ["7", "007"]).run
      (Sample.twoRecords "7" "007") = some c ∧ Sample.Sent "7" "007" c ∧
    recordId (fun _ => none) "7" = some 7 ∧ recordId (fun _ => none) "007" = some 7 := by
  obtain ⟨c, hrun, hsent⟩ := Deployment.exists_run (Sample.arena ["7", "007"])
    (Sample.twoRecords "7" "007") (Sample.Sent "7" "007") (by decide +kernel)
  exact ⟨c, hrun, hsent, by decide +kernel, by decide +kernel⟩

/-- Two grants of which one has leading zeros, and two records. -/
theorem run_recordIds_apart : ∃ c, (Sample.arena ["007", "8"]).run (Sample.twoRecords "007" "8") =
    some c ∧ Sample.Sent "007" "8" c ∧ ∀ other n n', recordId other "007" = some n →
      recordId other "8" = some n' → n ≠ n' := by
  obtain ⟨c, hrun, hsent⟩ := Deployment.exists_run (Sample.arena ["007", "8"])
    (Sample.twoRecords "007" "8") (Sample.Sent "007" "8") (by decide +kernel)
  refine ⟨c, hrun, hsent, fun other n n' hn hn' => ?_⟩
  obtain ⟨⟨⟨row, lease⟩, hx, ⟨row', lease'⟩, hy, ha, hb, hr, hs⟩, hd, hd'⟩ := hsent
  dsimp only at ha hb hr hs
  refine (run_recordIds hrun (Sample.mem_insertions hx) (Sample.mem_insertions hy) (by simp [hr])
    (by simp [hs]) ?_ ⟨2, _, _, _, _, ha ▸ hd⟩ ⟨4, _, _, _, _, hb ▸ hd'⟩ hn hn').2.mpr (by decide)
  rw [hr, hs, singleton_disjoint]
  decide

end CapabilityMount
