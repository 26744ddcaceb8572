import Cappo.CapabilityMount.Correctness.History

/-!
# Mounts attenuate, and leases do not come back

A mount grants what its package and the requested scope have in common. A list that a scope does
not give stands for everything, and a bound operation stands for its one action and its one
resource; so a scope that narrows another one leads to a mount that allows less.

The counters of a lease only grow, whatever is done to it in whatever order, and a lease that was
revoked or has expired stays so.

## Main results

* `Deployment.mount_attenuates`: what a mount grants, and that narrower scopes grant less;
* `Lease.lifecycle`: what any sequence of steps keeps of a lease.
-/

namespace CapabilityMount

open VdbC1 (PyStr)

open Checks

/-! ## Scopes -/

/-- Each gate of the first policy is at least as strict as that of the second. -/
def MountPolicy.AsStrictAs (p q : MountPolicy) : Prop :=
  q.requireHumanApprovalForExternalSend ≤ p.requireHumanApprovalForExternalSend ∧
    q.requireSuppressionCheck ≤ p.requireSuppressionCheck ∧
    p.persistentMemoryAllowed ≤ q.persistentMemoryAllowed

/-- A list that is not given stands for everything. -/
def Within (xs ys : Option (List PyStr)) : Prop := ∀ y ∈ ys, ∃ x ∈ xs, x ⊆ y

variable {a : PyStr}

lemma Within.mem (h : Within xs ys) (ha : ∀ x ∈ xs, a ∈ x) : ∀ y ∈ ys, a ∈ y := by
  intro y hy
  obtain ⟨x, hx, hle⟩ := h y hy
  exact hle (ha x hx)

namespace MountScope

variable (s t : MountScope)

/-- The writes that a scope asks for. -/
def asksWrites : Option (List PyStr) :=
  match s.operation with
  | some o => some [o.action]
  | none => s.writes

/-- The resources that a scope asks for. -/
def asksResources : Option (List PyStr) :=
  match s.operation with
  | some o => some [o.resource]
  | none => s.resources

/-- The first scope narrows the second. -/
structure Narrows : Prop where
  reads : Within s.reads t.reads
  writes : Within s.asksWrites t.asksWrites
  resources : Within s.asksResources t.asksResources
  blocked : t.blocked ⊆ s.blocked

end MountScope

namespace Deployment

variable {D : Deployment} {package : CapabilityPackage} {requested : MountPolicy}
  {scope : MountScope} {token : Token}

namespace Confers

variable (h : D.Confers package requested scope token)

include h

lemma mem_reads_iff : a ∈ token.grants.reads ↔ a ∈ package.reads ∧ ∀ rs ∈ scope.reads, a ∈ rs := by
  rw [h.reads, List.mem_filter, Option.all_eq_true]
  simp

/-- The granted writes are those that the package has and the scope asks for, and none beyond the
list of the scope. -/
lemma mem_writes_iff :
    (a ∈ token.grants.writes ↔ a ∈ package.writes ∧ ∀ ws ∈ scope.asksWrites, a ∈ ws) ∧
      (a ∈ token.grants.writes → ∀ ws ∈ scope.writes, a ∈ ws) := by
  have hgranted := h.granted
  rw [grantedScope] at hgranted
  cases ho : scope.operation with
  | none =>
    simp only [ho, pure_eq_ok, Prod.mk.injEq] at hgranted
    rw [← hgranted.1, List.mem_filter, Option.all_eq_true, MountScope.asksWrites, ho]
    simp only [decide_eq_true_eq]
    exact ⟨Iff.rfl, fun ha => ha.2⟩
  | some o =>
    simp only [ho, checkOperation, bind_eq_ok, require_eq_ok, pure_eq_ok,
      Prod.mk.injEq, decide_eq_true_eq, List.mem_filter, Option.all_eq_true] at hgranted
    -- the action of the operation is one that the package and the list of the scope have
    obtain ⟨_, ⟨_, -, _, ⟨hpackage, hscope⟩, -⟩, -, -, hwrites, -⟩ := hgranted
    rw [← hwrites, List.mem_singleton, MountScope.asksWrites, ho]
    refine ⟨⟨?_, ?_⟩, ?_⟩
    · rintro rfl
      exact ⟨hpackage, by simp⟩
    · rintro ⟨-, ha⟩
      exact List.mem_singleton.mp (ha _ rfl)
    · rintro rfl
      exact hscope

lemma resources_eq : token.grants.resources = scope.asksResources.getD [] := by
  cases ho : scope.operation with
  | none =>
    have hgranted := h.granted
    simp only [grantedScope, ho, pure_eq_ok, Prod.mk.injEq] at hgranted
    rw [← hgranted.2.1, MountScope.asksResources, ho]
  | some o => rw [(h.operation ho).2.1, MountScope.asksResources, ho, Option.getD_some]

lemma coversResource_iff (hnamed : scope.resources ≠ some []) :
    token.grants.coversResource resource = true ↔
      ∀ rs ∈ scope.asksResources, ∃ r ∈ resource, r ∈ rs := by
  have hasks : scope.asksResources ≠ some [] := by
    rw [MountScope.asksResources]
    split
    · exact nofun
    · exact hnamed
  rw [Grants.coversResource, h.resources_eq, Bool.or_eq_true, List.isEmpty_iff, Option.any_eq_true]
  cases hrs : scope.asksResources with
  | none => simp
  | some rs =>
    have hne : rs ≠ [] := fun heq => hasks (hrs.trans (congrArg some heq))
    simp [hne]

lemma allows_iff : token.grants.allows a = true ↔ a ∉ package.blocked ∧ a ∉ scope.blocked ∧
      (a ∈ token.grants.reads ∨ a ∈ token.grants.writes) := by
  rw [Grants.allows, h.blocked]
  split_ifs with hblocked
  · refine ⟨nofun, fun hallowed => absurd (List.mem_append.mp hblocked) ?_⟩
    exact not_or.mpr ⟨hallowed.1, hallowed.2.1⟩
  · rw [List.mem_append, not_or] at hblocked
    simp [hblocked]

end Confers

lemma asStrictAs_effectivePolicy (package : CapabilityPackage) (requested : MountPolicy) :
    (effectivePolicy package requested).AsStrictAs package.policyDefaults ∧
      (effectivePolicy package requested).AsStrictAs requested :=
  ⟨⟨Bool.left_le_or _ _, Bool.left_le_or _ _, Bool.and_le_left _ _⟩,
    Bool.right_le_or _ _, Bool.right_le_or _ _, Bool.and_le_right _ _⟩

/-- The checks that a mount has passed. -/
lemma checked_of_mount {q : MountArgs} {ids : MountIds} {now : ℤ} {mount : Mount}
    (h : D.mount package q ids now = .ok (mount, token)) :
    mount.scope = q.scope ∧ q.scope.resources ≠ some [] ∧
      1 ≤ q.ttlSeconds ∧ q.ttlSeconds ≤ 600 ∧ token.expiresAt = now + q.ttlSeconds * 1000000 := by
  simp only [Deployment.mount, bind_eq_ok, require_eq_ok, pure_eq_ok,
    Bool.and_eq_true, decide_eq_true_eq, Prod.mk.injEq] at h
  obtain ⟨_, ⟨hlo, hhi⟩, _, -, _, hresources, ⟨_, _, _⟩, -, rfl, rfl⟩ := h
  refine ⟨rfl, fun hnil => ?_, hlo, hhi, rfl⟩
  simp [checkResources, hnil] at hresources

/-- A mount grants no read and no write beyond the package or the scope, refuses what either
blocks, has gates as strict as the package's and the caller's, and lasts from one second to ten
minutes. For a scope that narrows it the profile allows no more. -/
theorem mount_attenuates {q q' : MountArgs} {ids ids' : MountIds} {now now' : ℤ}
    {mount mount' : Mount} {token token' : Token}
    (h : D.mount package q ids now = .ok (mount, token)) :
    (∀ a ∈ token.grants.reads, a ∈ package.reads ∧ ∀ rs ∈ q.scope.reads, a ∈ rs) ∧
    (∀ a ∈ token.grants.writes, a ∈ package.writes ∧ ∀ ws ∈ q.scope.writes, a ∈ ws) ∧
    (∀ a, a ∈ package.blocked ∨ a ∈ q.scope.blocked → token.grants.allows a = false) ∧
    token.policy.AsStrictAs package.policyDefaults ∧ token.policy.AsStrictAs q.policy ∧
    (1 * 1000000 ≤ token.expiresAt - now ∧ token.expiresAt - now ≤ 600 * 1000000) ∧
    (D.mount package q' ids' now' = .ok (mount', token') → q'.scope.Narrows q.scope →
      (∀ a, token'.grants.allows a = true → token.grants.allows a = true) ∧
      ∀ resource, token'.grants.coversResource resource = true →
        token.grants.coversResource resource = true) := by
  obtain ⟨hscope, hnamed, hlo, hhi, hexpires⟩ := checked_of_mount h
  obtain ⟨-, hc⟩ := mount_eq_ok h
  rw [hscope] at hc
  refine ⟨fun a ha => hc.mem_reads_iff.mp ha,
    fun a ha => ⟨(hc.mem_writes_iff.1.mp ha).1, hc.mem_writes_iff.2 ha⟩, fun a ha => ?_,
    hc.policy ▸ (asStrictAs_effectivePolicy package q.policy).1,
    hc.policy ▸ (asStrictAs_effectivePolicy package q.policy).2, by omega, fun h' hnarrows => ?_⟩
  · rw [Bool.eq_false_iff, ne_eq, hc.allows_iff]
    rintro ⟨hp, hs, -⟩
    exact ha.elim hp hs
  · obtain ⟨hscope', hnamed', -⟩ := checked_of_mount h'
    obtain ⟨-, hc'⟩ := mount_eq_ok h'
    rw [hscope'] at hc'
    constructor
    · intro a ha
      rw [hc'.allows_iff, hc'.mem_reads_iff, hc'.mem_writes_iff.1] at ha
      rw [hc.allows_iff, hc.mem_reads_iff, hc.mem_writes_iff.1]
      exact ⟨ha.1, fun hblocked => ha.2.1 (hnarrows.blocked hblocked),
        ha.2.2.imp (And.imp_right hnarrows.reads.mem) (And.imp_right hnarrows.writes.mem)⟩
    · intro resource hr
      rw [hc'.coversResource_iff hnamed'] at hr
      rw [hc.coversResource_iff hnamed]
      intro rs hrs
      obtain ⟨rs', hrs', hle⟩ := hnarrows.resources rs hrs
      obtain ⟨r, hmem, hin⟩ := hr rs' hrs'
      exact ⟨r, hmem, hle hin⟩

/-- A mount for two resources, and a narrower one for one of them. -/
theorem mount_attenuates_sample :
    let q : MountArgs := {
      packageRef := Sample.package.id
      scope := { workspace := "w", project := "p", resources := some ["a", "b"] }
      ttlSeconds := 1
      ownerPrincipal := [] }
    let q' : MountArgs := { q with scope.resources := some ["a"] }
    ∃ mount token mount' token',
      Sample.deployment.mount Sample.package q ⟨[], [], [], []⟩ 0 = .ok (mount, token) ∧
      Sample.deployment.mount Sample.package q' ⟨[], [], [], []⟩ 0 = .ok (mount', token') ∧
      q'.scope.Narrows q.scope ∧
      ∀ resource, token'.grants.coversResource resource = true →
        token.grants.coversResource resource = true := by
  intro q q'
  have hnarrows : q'.scope.Narrows q.scope := by
    refine ⟨nofun, nofun, ?_, List.Subset.refl _⟩
    rintro _ ⟨⟩
    exact ⟨_, rfl, List.cons_subset_cons _ (List.nil_subset _)⟩
  obtain ⟨⟨mount, token⟩, h⟩ : ∃ r, Sample.deployment.mount Sample.package q
      ⟨[], [], [], []⟩ 0 = .ok r := ⟨_, rfl⟩
  obtain ⟨⟨mount', token'⟩, h'⟩ : ∃ r, Sample.deployment.mount Sample.package q'
      ⟨[], [], [], []⟩ 0 = .ok r := ⟨_, rfl⟩
  obtain ⟨-, -, -, -, -, -, hle⟩ := mount_attenuates h
  exact ⟨mount, token, mount', token', h, h', hnarrows, (hle h' hnarrows).2⟩

end Deployment

/-! ## Leases -/

namespace Lease

/-- What can be done to a lease. The lease of a mount whose epoch was advanced follows it to
`newEpoch`, and the lease of a mount that is terminated is revoked. -/
inductive Step where
  | transitionState (newState : LeaseState) (currentEpoch : ℤ)
  | attenuate (actions resources : List PyStr) (currentEpoch : ℤ)
  | advance (newEpoch : ℤ)
  | terminate

variable (lease : Lease)

/-- The lease follows the epoch of its mount. -/
def align (newEpoch : ℤ) : Lease :=
  if lease.authorityEpoch < newEpoch then { lease with authorityEpoch := newEpoch } else lease

/-- The transition inside `terminate`. -/
def revoke : Except Violation Lease :=
  if lease.leaseState = .issued ∨ lease.leaseState = .active then
    lease.transitionState .revoked (max (lease.revocationEpoch + 1) lease.authorityEpoch)
  else .ok lease

def attempt : Step → Except Violation Lease
  | .transitionState newState currentEpoch => lease.transitionState newState currentEpoch
  | .attenuate actions resources currentEpoch => lease.attenuate actions resources currentEpoch
  | .advance newEpoch => .ok (lease.align newEpoch)
  | .terminate => lease.revoke

/-- The lease after a step. All checks come before the first assignment, so that a step that
raises changes nothing. -/
def after (step : Step) : Lease :=
  match lease.attempt step with
  | .ok next => next
  | .error _ => lease

def afterAll (steps : List Step) : Lease := steps.foldl after lease

/-- What no step takes back. -/
structure Follows (next lease : Lease) : Prop where
  authorityEpoch : lease.authorityEpoch ≤ next.authorityEpoch
  revocationEpoch : lease.revocationEpoch ≤ next.revocationEpoch
  leaseStateVersion : lease.leaseStateVersion ≤ next.leaseStateVersion
  revoked : lease.leaseState = .revoked → next.leaseState = .revoked
  expired : lease.leaseState = .expired → next.leaseState = .expired

variable {lease} {next : Lease}

lemma Follows.refl (lease : Lease) : lease.Follows lease :=
  ⟨le_rfl, le_rfl, le_rfl, id, id⟩

lemma Follows.trans {last : Lease} (h : last.Follows next) (h' : next.Follows lease) :
    last.Follows lease :=
  ⟨h'.authorityEpoch.trans h.authorityEpoch, h'.revocationEpoch.trans h.revocationEpoch,
    h'.leaseStateVersion.trans h.leaseStateVersion, h.revoked ∘ h'.revoked,
    h.expired ∘ h'.expired⟩

variable {currentEpoch : ℤ}

lemma follows_of_transitionState
    (h : lease.transitionState newState currentEpoch = .ok next) : next.Follows lease := by
  simp only [transitionState, bind_eq_ok, require_eq_ok] at h
  obtain ⟨_, hrevoked, _, hexpired, _, hepoch, h⟩ := h
  have hepoch : lease.authorityEpoch ≤ currentEpoch := of_decide_eq_true hepoch
  split_ifs at h with hnew
  · simp only [bind_eq_ok, require_eq_ok, pure_eq_ok] at h
    obtain ⟨_, hrevocation, rfl⟩ := h
    refine ⟨hepoch, of_decide_eq_true hrevocation, (Int.lt_succ _).le, fun _ => hnew, ?_⟩
    intro hstate
    simp [hstate, hnew] at hexpired
  · obtain rfl := pure_eq_ok.mp h
    refine ⟨hepoch, le_rfl, (Int.lt_succ _).le, fun hstate => ?_, fun hstate => ?_⟩
    · simp [hstate, hnew] at hrevoked
    · simpa [hstate] using hexpired

lemma follows_of_attenuate
    (h : lease.attenuate actions resources currentEpoch = .ok next) : next.Follows lease := by
  simp only [attenuate, bind_eq_ok, require_eq_ok, pure_eq_ok] at h
  obtain ⟨_, -, _, -, _, hepoch, rfl⟩ := h
  exact ⟨le_rfl, of_decide_eq_true hepoch, (Int.lt_succ _).le, id, id⟩

lemma follows_align (newEpoch : ℤ) : (lease.align newEpoch).Follows lease := by
  unfold align
  split_ifs with hlt
  · exact ⟨hlt.le, le_rfl, le_rfl, id, id⟩
  · exact .refl lease

/-- A step that raises keeps the lease as it is, and the others do not take anything back. -/
lemma follows_after (step : Step) : (lease.after step).Follows lease := by
  unfold after
  split
  · next next hok =>
    cases step with
    | transitionState newState currentEpoch => exact follows_of_transitionState hok
    | attenuate actions resources currentEpoch => exact follows_of_attenuate hok
    | advance newEpoch => exact Except.ok.inj hok ▸ follows_align newEpoch
    | terminate =>
      rw [attempt, revoke] at hok
      split_ifs at hok
      · exact follows_of_transitionState hok
      · exact Except.ok.inj hok ▸ .refl lease
  · exact .refl lease

lemma follows_afterAll (steps : List Step) : (lease.afterAll steps).Follows lease := by
  induction steps generalizing lease with
  | nil => exact .refl lease
  | cons step steps ih => exact ih.trans (follows_after step)

/-- The epoch that a termination revokes with is above both counters, so that no check fails. -/
lemma exists_revoke (lease : Lease) : ∃ next, lease.revoke = .ok next := by
  unfold revoke
  split_ifs with hstate
  · have hnot : lease.leaseState ≠ .revoked ∧ lease.leaseState ≠ .expired := by
      rcases hstate with hstate | hstate <;> simp [hstate]
    have hle : lease.revocationEpoch ≤ max (lease.revocationEpoch + 1) lease.authorityEpoch :=
      (Int.lt_succ _).le.trans (le_max_left _ _)
    simp [transitionState, hnot, hle, require]
  · exact ⟨lease, rfl⟩

/-- A lease that cannot authorize does not. -/
lemma evaluateAuthority_ne_ok (h : lease.leaseState = .revoked ∨ lease.leaseState = .expired)
    (biscuit package effective : AuthorityContext) (connectivity : ConnectivityState) (now : ℤ) :
    lease.evaluateAuthority biscuit package connectivity now ≠ .ok effective := by
  intro hok
  simp only [evaluateAuthority, checkAuthority, bind_eq_ok, require_eq_ok] at hok
  obtain ⟨_, ⟨_, hstate, -⟩, -⟩ := hok
  rcases h with h | h <;> simp [h] at hstate

/-- Whatever is done to a lease, in whatever order and whether or not it raises: the counters do
not decrease, a revoked or expired lease stays so and has no authority any more, and a termination
can revoke. -/
theorem lifecycle (lease : Lease) (before steps : List Step) :
    ((lease.afterAll (before ++ steps)).Follows (lease.afterAll before)) ∧
    ((lease.afterAll before).leaseState = .revoked ∨
        (lease.afterAll before).leaseState = .expired →
      ∀ biscuit package effective connectivity now,
        (lease.afterAll (before ++ steps)).evaluateAuthority biscuit package connectivity now ≠
          .ok effective) ∧
    ∃ next, (lease.afterAll before).attempt .terminate = .ok next := by
  have hfollows : (lease.afterAll (before ++ steps)).Follows (lease.afterAll before) := by
    rw [afterAll, List.foldl_append]
    exact follows_afterAll steps
  exact ⟨hfollows, fun hended => evaluateAuthority_ne_ok (hended.imp hfollows.revoked
    hfollows.expired), exists_revoke _⟩

end Lease

/-- `advance_epoch` and `handover_incarnation` make an `advance` of the lease. -/
lemma alignLease_eq (mountId : PyStr) (epoch : ℕ) : alignLease mountId epoch =
    perform (.lease mountId) >>= fun
      | none => return ()
      | some lease =>
        if lease.authorityEpoch < epoch then
          perform (.write (.updateLease mountId ((lease.after (.advance epoch)).changes lease)))
        else return () := by
  rw [alignLease]
  congr
  ext (_ | lease)
  · rfl
  · dsimp only
    split_ifs with hlt
    · rw [Lease.after, Lease.attempt, Lease.align, if_pos hlt]
    · rfl

/-- `terminate` makes a `terminate` of the lease, and does not raise. -/
lemma revokeLease_eq (mountId : PyStr) : revokeLease mountId = perform (.lease mountId) >>= fun
      | none => return ()
      | some lease =>
        if lease.leaseState = .issued ∨ lease.leaseState = .active then
          perform (.write (.updateLease mountId ((lease.after .terminate).changes lease)))
        else return () := by
  rw [revokeLease]
  congr
  ext (_ | lease)
  · rfl
  · dsimp only
    split_ifs with hstate
    · obtain ⟨next, hnext⟩ := lease.exists_revoke
      rw [Lease.after, Lease.attempt, hnext]
      rw [Lease.revoke, if_pos hstate] at hnext
      rw [hnext]
    · rfl

end CapabilityMount
