import Cappo.CapabilityMount.Resources
import Cappo.Lib.Checks

/-!
# Capability leases

The lease of a mount and the authority it has together with the signed token and the package:
`CapabilityLease.evaluate_authority` and `transition_state`. Times are microseconds after the
epoch; sets are lists.

## Main results

* `Lease.mem_actions_of_evaluateAuthority`, `Lease.resourceIn_evaluateAuthority`: effective
  authority is what the lease, the signed token and the package have in common;
* `attenuation_narrows_iff`: when the subset test keeps an attenuation from widening.
-/

namespace CapabilityMount

open VdbC1 (PyStr)

open Checks

/-- `LeaseState`. -/
inductive LeaseState where
  | issued
  | active
  | expired
  | revoked
  | suspended
  deriving DecidableEq

/-- `ConnectivityState`; offline, a lease has bounds of its own. -/
inductive ConnectivityState where
  | online
  | offline
  deriving DecidableEq

/-- The messages of `InvariantViolationError`. -/
inductive Violation where
  | leaseCannotAuthorize (state : LeaseState)
  | leaseCanWidenAction
  | leaseCanWidenResource
  | leaseCanChangeExecutor
  | leaseCanChangeSubject
  | leaseCanExtendExpiry
  | leaseCanIncreaseDelegation
  | leaseCanRollbackAuthorityEpoch
  | leaseCanRollbackRevocationEpoch
  | offlineModeCanCreateNewAuthority
  | offlineDurationExceeded
  | reconciliationRequiredBlocksOffline
  | revokedLeaseCanResurrect
  | expiredLeaseCanResurrect
  | childLeaseCannotWidenActions
  | childLeaseCannotWidenResources
  | actionNotEffective
  | resourceBoundNotSigned
  | resourceNotGranted
  deriving DecidableEq

/-- What a signed token or a package allows. -/
structure AuthorityContext where
  allowedActions : List PyStr
  allowedResources : List PyStr
  executorSpiffeId : PyStr
  subjectSpiffeId : PyStr
  expiresAt : Option ℤ
  delegationDepth : ℤ
  maxDelegationDepth : ℤ
  authorityEpoch : ℤ
  deriving DecidableEq

/-- A row of `capability_leases`. -/
structure Lease where
  leaseId : PyStr
  mountId : PyStr
  subjectSpiffeId : PyStr
  executorSpiffeId : PyStr
  expiresAt : ℤ
  leaseState : LeaseState
  leaseStateVersion : ℤ := 1
  authorityEpoch : ℤ := 0
  revocationEpoch : ℤ := 0
  delegationDepth : ℤ := 0
  maxDelegationDepth : ℤ := 0
  allowedActions : List PyStr
  allowedResources : List PyStr
  offlineEnabled : Bool := false
  maximumOfflineDuration : ℤ := 0
  offlineBudget : ℤ := 0
  offlineSideEffectLimit : ℤ := 0
  reconciliationRequired : Bool := false
  updatedAt : ℤ
  deriving DecidableEq

namespace Lease

variable (lease : Lease)

/-- The checks `evaluate_authority` makes only when offline. -/
def checkOffline (now : ℤ) : Except Violation Unit := do
  require .offlineModeCanCreateNewAuthority lease.offlineEnabled
  require .offlineDurationExceeded (lease.maximumOfflineDuration ≤ 0 ||
      now - lease.updatedAt ≤ lease.maximumOfflineDuration * 1000000)
  require .reconciliationRequiredBlocksOffline !lease.reconciliationRequired

/-- The subset invariants of `evaluate_authority`. -/
def checkAuthority (biscuit : AuthorityContext) : Except Violation Unit := do
  require (.leaseCannotAuthorize lease.leaseState)
    (lease.leaseState = .issued || lease.leaseState = .active)
  require .leaseCanWidenAction (lease.allowedActions.all fun a => a ∈ biscuit.allowedActions)
  require .leaseCanWidenResource (resourceIssubset lease.allowedResources biscuit.allowedResources)
  require .leaseCanChangeExecutor (lease.executorSpiffeId = biscuit.executorSpiffeId)
  require .leaseCanChangeSubject (lease.subjectSpiffeId = biscuit.subjectSpiffeId)
  -- both times are cut to whole seconds
  require .leaseCanExtendExpiry
    (biscuit.expiresAt.all fun t => lease.expiresAt / 1000000 ≤ t / 1000000)
  require .leaseCanIncreaseDelegation (lease.delegationDepth ≤ biscuit.maxDelegationDepth)
  require .leaseCanRollbackAuthorityEpoch (biscuit.authorityEpoch ≤ lease.authorityEpoch)

/-- `evaluate_authority`, at a given time. -/
def evaluateAuthority (biscuit package : AuthorityContext) (connectivity : ConnectivityState)
    (now : ℤ) : Except Violation AuthorityContext := do
  lease.checkAuthority biscuit
  if connectivity = .offline then lease.checkOffline now
  return {
    allowedActions := lease.allowedActions.filter fun a =>
      a ∈ biscuit.allowedActions && a ∈ package.allowedActions
    allowedResources := resourceIntersection
      (resourceIntersection lease.allowedResources biscuit.allowedResources)
      package.allowedResources
    executorSpiffeId := lease.executorSpiffeId
    subjectSpiffeId := lease.subjectSpiffeId
    expiresAt := some lease.expiresAt
    delegationDepth := lease.delegationDepth
    maxDelegationDepth := lease.maxDelegationDepth
    authorityEpoch := lease.authorityEpoch }

/-- `transition_state`. -/
def transitionState (newState : LeaseState) (currentEpoch : ℤ) : Except Violation Lease := do
  require .revokedLeaseCanResurrect (!(lease.leaseState = .revoked && newState ≠ .revoked))
  require .expiredLeaseCanResurrect (!(lease.leaseState = .expired && newState ≠ .expired))
  require .leaseCanRollbackAuthorityEpoch (lease.authorityEpoch ≤ currentEpoch)
  let moved : Lease := { lease with
    leaseState := newState
    authorityEpoch := currentEpoch
    leaseStateVersion := lease.leaseStateVersion + 1 }
  if newState = .revoked then
    require .leaseCanRollbackRevocationEpoch (lease.revocationEpoch ≤ currentEpoch)
    return { moved with revocationEpoch := currentEpoch }
  else return moved

/-- `attenuate`. -/
def attenuate (newActions newResources : List PyStr) (currentEpoch : ℤ) :
    Except Violation Lease := do
  require .childLeaseCannotWidenActions (newActions.all fun a => a ∈ lease.allowedActions)
  require .childLeaseCannotWidenResources (resourceIssubset newResources lease.allowedResources)
  require .leaseCanRollbackRevocationEpoch (lease.revocationEpoch ≤ currentEpoch)
  return { lease with
    allowedActions := newActions
    allowedResources := newResources
    revocationEpoch := currentEpoch
    leaseStateVersion := lease.leaseStateVersion + 1 }

variable {lease}

variable {connectivity : ConnectivityState} {now : ℤ}

lemma evaluateAuthority_eq_ok
    (h : lease.evaluateAuthority biscuit package connectivity now = .ok effective) :
    effective.allowedActions = lease.allowedActions.filter (fun a =>
      a ∈ biscuit.allowedActions && a ∈ package.allowedActions) ∧
    effective.allowedResources = resourceIntersection
      (resourceIntersection lease.allowedResources biscuit.allowedResources)
      package.allowedResources := by
  rw [evaluateAuthority, bind_eq_ok] at h
  obtain ⟨_, -, h⟩ := h
  split at h
  · rw [bind_eq_ok] at h
    obtain ⟨_, -, h⟩ := h
    obtain rfl := pure_eq_ok.mp h
    exact ⟨rfl, rfl⟩
  · obtain rfl := pure_eq_ok.mp h
    exact ⟨rfl, rfl⟩

variable {action : PyStr}

/-- An effective action is an action of the lease, of the signed token and of the package. -/
theorem mem_actions_of_evaluateAuthority {biscuit package effective : AuthorityContext}
    (h : lease.evaluateAuthority biscuit package connectivity now = .ok effective)
    (ha : action ∈ effective.allowedActions) :
    action ∈ lease.allowedActions ∧ action ∈ biscuit.allowedActions ∧
      action ∈ package.allowedActions := by
  rw [(evaluateAuthority_eq_ok h).1, List.mem_filter] at ha
  simpa using ha

variable {resource : Option PyStr}

/-- An effective resource is one that the lease, the signed token and the package cover. -/
theorem resourceIn_evaluateAuthority {biscuit package effective : AuthorityContext}
    (h : lease.evaluateAuthority biscuit package connectivity now = .ok effective) :
    resourceIn resource effective.allowedResources = true ↔
      (resourceIn resource lease.allowedResources = true ∧
        resourceIn resource biscuit.allowedResources = true) ∧
      resourceIn resource package.allowedResources = true := by
  rw [(evaluateAuthority_eq_ok h).2, resourceIn_intersection, resourceIn_intersection]

/-! ## Attenuation -/

/-- What a lease covers: an action of it on a resource within its bounds. -/
def covers (lease : Lease) (action : PyStr) (resource : Option PyStr) : Bool :=
  action ∈ lease.allowedActions && resourceIn resource lease.allowedResources

variable {child : Lease} {currentEpoch : ℤ}

lemma attenuate_eq_ok (h : lease.attenuate newActions newResources currentEpoch = .ok child) :
    newActions ⊆ lease.allowedActions ∧
      resourceIssubset newResources lease.allowedResources = true ∧
      child.allowedActions = newActions ∧ child.allowedResources = newResources := by
  simp only [attenuate, bind_eq_ok, require_eq_ok, pure_eq_ok] at h
  obtain ⟨_, hactions, _, hresources, _, -, rfl⟩ := h
  refine ⟨fun a ha => ?_, hresources, rfl, rfl⟩
  exact of_decide_eq_true (List.all_eq_true.mp hactions a ha)

/-- The arguments of one call of `attenuate`. -/
structure Attenuation where
  actions : List PyStr
  resources : List PyStr
  currentEpoch : ℤ

/-- A sequence of calls, none of which raises. -/
def attenuateAll (lease : Lease) (calls : List Attenuation) : Except Violation Lease :=
  calls.foldlM (fun lease a => lease.attenuate a.actions a.resources a.currentEpoch) lease

/-- No call names a bound that the subset test admits only as the bare name of a directory of the
lease as it is then. -/
def NarrowedBy : Lease → List Attenuation → Prop
  | _, [] => True
  | lease, a :: calls => (∀ b ∈ a.resources, ¬ OnlyBareName lease.allowedResources b) ∧
      ∀ child, lease.attenuate a.actions a.resources a.currentEpoch = .ok child →
        child.NarrowedBy calls

/-- One such call. -/
lemma covers_of_attenuate (h : lease.attenuate newActions newResources currentEpoch = .ok child)
    (hnames : ∀ b ∈ newResources, ¬ OnlyBareName lease.allowedResources b)
    (hc : child.covers action resource = true) :
    lease.covers action resource = true := by
  obtain ⟨hactions, hresources, ha, hr⟩ := attenuate_eq_ok h
  simp only [covers, ha, hr, Bool.and_eq_true, decide_eq_true_eq] at hc ⊢
  exact ⟨hactions hc.1, ((allBelow_iff hresources).mpr hnames).resourceIn hc.2⟩

/-- Any number of such calls. -/
lemma covers_of_attenuateAll
    (h : lease.attenuateAll calls = .ok child) (hnarrowed : lease.NarrowedBy calls)
    (hc : child.covers action resource = true) :
    lease.covers action resource = true := by
  induction calls generalizing lease with
  | nil =>
    cases h
    exact hc
  | cons a calls ih =>
    rw [attenuateAll, List.foldlM_cons, bind_eq_ok] at h
    obtain ⟨next, hnext, hrest⟩ := h
    exact covers_of_attenuate hnext hnarrowed.1 (ih hrest (hnarrowed.2 next hnext))

/-- Where the subset test passes, the superset covers all that the subset covers exactly if no bound
passed only as the bare name of a directory. A lease that is attenuated, any number of times and
never to such a name, covers no more than before. -/
theorem attenuation_narrows_iff (subset superset : List PyStr) (lease : Lease)
    (calls : List Attenuation) :
    (resourceIssubset subset superset = true →
      ((∀ resource, resourceIn resource subset = true → resourceIn resource superset = true) ↔
        ∀ b ∈ subset, ¬ OnlyBareName superset b)) ∧
    (lease.NarrowedBy calls → ∀ child, lease.attenuateAll calls = .ok child →
      ∀ action resource, child.covers action resource = true →
        lease.covers action resource = true) :=
  ⟨fun htest => resourceIn_subset_iff.trans (allBelow_iff htest), fun hnarrowed _ h _ _ hc =>
    covers_of_attenuateAll h hnarrowed hc⟩

/-- A lease on a directory, attenuated to one file of it. -/
theorem attenuation_narrows_docs :
    let lease : Lease := {
      leaseId := []
      mountId := []
      subjectSpiffeId := []
      executorSpiffeId := []
      expiresAt := 0
      leaseState := .active
      allowedActions := ["read"]
      allowedResources := ["docs/*"]
      updatedAt := 0 }
    (∀ resource, resourceIn resource ["docs/a"] = true →
      resourceIn resource lease.allowedResources = true) ∧
    ∃ child, lease.attenuateAll [⟨["read"], ["docs/a"], 0⟩] = .ok child ∧
      ∀ action resource, child.covers action resource = true →
        lease.covers action resource = true := by
  intro lease
  have hnames : ∀ b ∈ [PyStr.ofString "docs/a"], ¬ OnlyBareName lease.allowedResources b := by
    intro b hb hbare
    obtain rfl := List.mem_singleton.mp hb
    exact absurd hbare.2.1 (by decide)
  have hok : lease.attenuateAll [⟨["read"], ["docs/a"], 0⟩] =
      .ok { lease with
        allowedResources := ["docs/a"]
        leaseStateVersion := lease.leaseStateVersion + 1 } := rfl
  obtain ⟨hsets, hleases⟩ := attenuation_narrows_iff ["docs/a"] lease.allowedResources lease
    [⟨["read"], ["docs/a"], 0⟩]
  exact ⟨(hsets (by decide)).mpr hnames, _, hok, hleases ⟨hnames, fun _ _ => trivial⟩ _ hok⟩

/-- A lease on the contents of every directory named `"*"` is attenuated to `"*"`, and then covers
every resource, and also the request that names none. -/
theorem attenuation_widens :
    let lease : Lease := {
      leaseId := []
      mountId := []
      subjectSpiffeId := []
      executorSpiffeId := []
      expiresAt := 0
      leaseState := .active
      allowedActions := ["read"]
      allowedResources := ["*/*"]
      updatedAt := 0 }
    resourceIssubset [star] lease.allowedResources = true ∧
    ∃ child, lease.attenuate ["read"] [star] 0 = .ok child ∧
      child.covers "read" none = true ∧
      lease.covers "read" none = false :=
  ⟨by decide, _, rfl, by decide, by decide⟩

end Lease

end CapabilityMount
