import Mathlib.Data.List.Induction
import Cappo.Execution.Revocations

/-!
# What a revocation outlives

The policy of a scope is the one of the last `revoke` that succeeded for it, so that a cancellation
takes the place of a revocation. A check answers with whichever policy comes first, so that a
cancellation of any scope can hide a revocation of another. Without cancellations a revocation is
final.
-/

namespace Execution

open VdbC1 (PyStr)
open KeyedRows
open List

namespace Tables

variable {t : Tables} {calls : List Change}

/-- No scope and no lease has two rows. -/
structure Keyed (t : Tables) : Prop where
  policies : (t.policies.map RevocationPolicy.scope).Nodup
  leaseStates : (t.leaseStates.map LeaseStateRecord.leaseId).Nodup

lemma Keyed.saveLease (h : t.Keyed) (leaseId : PyStr) (state : LeaseState) :
    (t.saveLease leaseId state).Keyed :=
  ⟨h.policies, nodup_save _ h.leaseStates⟩

lemma Keyed.after (h : t.Keyed) (call : Change) : (t.after call).Keyed := by
  cases call with
  | setLeaseState leaseId state fault =>
    cases fault with
    | none => exact h.saveLease leaseId state
    | some _ => exact h
  | revoke p fault =>
    cases fault with
    | none =>
      have hsaved : Keyed
          { t with policies := save RevocationPolicy.scope p t.policies } :=
        ⟨nodup_save _ h.policies, h.leaseStates⟩
      simp only [Tables.after, revoke]
      split
      · exact hsaved.saveLease _ _
      · exact hsaved
    | some _ => exact h

/-- The policies after a call: a `revoke` that succeeds saves its own, nothing else changes any. -/
lemma policies_after (call : Change) : (t.after call).policies = match call with
      | .revoke p none => save RevocationPolicy.scope p t.policies
      | _ => t.policies := by
  cases call with
  | setLeaseState leaseId state fault => cases fault <;> rfl
  | revoke p fault =>
    cases fault with
    | none =>
      simp only [Tables.after, revoke]
      split <;> rfl
    | some _ => rfl

/-- The policy of a scope. -/
def policy? (t : Tables) (scope : Scope) : Option RevocationPolicy :=
  row? RevocationPolicy.scope scope t.policies

variable {p : RevocationPolicy}

lemma Keyed.mem_matching (h : t.Keyed) :
    p ∈ t.matching a ↔ t.policy? p.scope = some p ∧ a.fallsIn p.scope = true := by
  rw [matching, mem_filter]
  refine and_congr_left fun _ => ?_
  constructor
  · exact row?_of_mem h.policies
  · exact fun hrow => (mem_of_row? hrow).1

end Tables

/-! ## The last revocation of a scope -/

/-- What a call makes of the policy in force for a scope. -/
def Change.inForce (scope : Scope) (current : Option RevocationPolicy) :
    Change → Option RevocationPolicy
  | .revoke p none => if scope = p.scope then some p else current
  | _ => current

/-- The last policy that was recorded for a scope. -/
def lastRevoke (scope : Scope) (calls : List Change) : Option RevocationPolicy :=
  calls.foldl (Change.inForce scope) none

lemma scope_of_lastRevoke {calls : List Change}
    (h : lastRevoke scope calls = some p) : p.scope = scope := by
  induction calls using List.reverseRecOn with
  | nil => simp [lastRevoke] at h
  | append_singleton calls call ih =>
    rw [lastRevoke, foldl_append, foldl_cons, foldl_nil] at h
    unfold Change.inForce at h
    split at h
    · split at h
      · next hscope =>
        cases h
        exact hscope.symm
      · exact ih h
    · exact ih h

/-- A scope that was revoked once has a policy. -/
lemma exists_lastRevoke {calls : List Change} (h : Change.revoke p none ∈ calls) :
    ∃ p', lastRevoke p.scope calls = some p' := by
  induction calls using List.reverseRecOn with
  | nil => nomatch h
  | append_singleton calls call ih =>
    rw [lastRevoke, foldl_append, foldl_cons, foldl_nil]
    unfold Change.inForce
    split
    · next p' =>
      split
      · exact ⟨p', rfl⟩
      · next hscope =>
        rcases mem_append.mp h with hold | hnew
        · exact ih hold
        · obtain ⟨rfl, -⟩ := Change.revoke.inj (mem_singleton.mp hnew)
          exact absurd rfl hscope
    · next hother =>
      rcases mem_append.mp h with hold | hnew
      · exact ih hold
      · exact absurd (mem_singleton.mp hnew).symm (hother p)

namespace Tables

lemma Keyed.afterAll {t : Tables} (h : t.Keyed) (calls : List Change) :
    (t.afterAll calls).Keyed := by
  induction calls generalizing t with
  | nil => exact h
  | cons call calls ih => exact ih (h.after call)

/-- From any tables, the policy of a scope is the last one recorded for it. -/
lemma Keyed.policy?_afterAll {t : Tables} (h : t.Keyed) (scope : Scope) (calls : List Change) :
    (t.afterAll calls).policy? scope = calls.foldl (Change.inForce scope) (t.policy? scope) := by
  induction calls generalizing t with
  | nil => rfl
  | cons call calls ih =>
    refine (ih (h.after call)).trans ?_
    rw [foldl_cons]
    congr 1
    rw [policy?, policies_after]
    unfold Change.inForce
    split
    · exact row?_save _ h.policies scope
    · rfl

lemma keyed_empty : ({} : Tables).Keyed := ⟨nodup_nil, nodup_nil⟩

end Tables

/-! ## Checks -/

variable (R : RevocationRegistry)

/-- The outcome a revoked authority has to have: `REVOKED`, or an exception when failing closed. -/
def RevocationRegistry.Refuses : Except PyStr LeaseState → Prop
  | .ok state => state = .revoked
  | .error _ => R.failClosed = true

variable {leaseState : Except PyStr (Option LeaseStateRecord)}

/-- An answer with policies decides by the first of them. -/
lemma RevocationRegistry.refuses_cons :
    R.Refuses (R.checkAuthority ⟨.ok (p :: rest), leaseState⟩) ↔ p.isCancel = false := by
  show (if p.isCancel then LeaseState.cancelling else .revoked) = .revoked ↔ _
  cases p.isCancel <;> simp

/-- A query for the policies that fails is refused when failing closed. -/
lemma RevocationRegistry.refuses_error :
    R.Refuses (R.checkAuthority ⟨.error e, leaseState⟩) ↔ R.failClosed = true := by
  show R.Refuses (if R.failClosed then .error _ else .ok .active) ↔ _
  cases h : R.failClosed <;> simp [Refuses, h]

/-- Whatever comes first is refused where no policy is a cancellation. -/
lemma RevocationRegistry.refuses_all_orders_iff (h : policies ≠ []) :
    (∀ order, order.Perm policies → ∀ leaseState,
      R.Refuses (R.checkAuthority ⟨.ok order, leaseState⟩)) ↔
    ∀ p ∈ policies, p.isCancel = false := by
  constructor
  · intro hall p hp
    -- the order that begins with this policy
    have hperm := perm_cons_erase hp
    exact R.refuses_cons.mp (hall _ hperm.symm (.ok none))
  · intro hall order hperm leaseState
    cases order with
    | nil => exact absurd hperm.nil_eq.symm h
    | cons p rest => exact R.refuses_cons.mpr (hall p (hperm.mem_iff.mp mem_cons_self))

/-- After a `revoke` that succeeded, a check of an authority that falls in its scope refuses in
every order of the policies exactly where no scope of the authority has a cancellation as its last
policy, and the check fails closed if the database does not answer. -/
theorem revoked_absorbing_iff (R : RevocationRegistry) {calls : List Change}
    {p : RevocationPolicy} (hrevoke : Change.revoke p none ∈ calls) {a : Authority}
    (hscope : a.fallsIn p.scope = true) (fault : Option PyStr) :
    (∀ order, order.Perm ((({} : Tables).afterAll calls).matching a) → ∀ leaseState,
      R.Refuses (R.checkAuthority ⟨fault.elim (.ok order) .error, leaseState⟩)) ↔
    (fault = none → ∀ scope p', a.fallsIn scope = true → lastRevoke scope calls = some p' →
      p'.isCancel = false) ∧
    (fault ≠ none → R.failClosed = true) := by
  have hkeyed := Tables.keyed_empty.afterAll calls
  cases fault with
  | some e =>
    constructor
    · intro h
      refine ⟨nofun, fun _ => R.refuses_error.mp (h _ (List.Perm.refl _) (.ok none))⟩
    · intro h order _ leaseState
      exact R.refuses_error.mpr (h.2 (by simp))
  | none =>
    have hmem : ∀ p', p' ∈ (({} : Tables).afterAll calls).matching a ↔
        lastRevoke p'.scope calls = some p' ∧ a.fallsIn p'.scope = true := by
      intro p'
      rw [hkeyed.mem_matching, Tables.keyed_empty.policy?_afterAll]
      rfl
    have hnonempty : (({} : Tables).afterAll calls).matching a ≠ [] := by
      obtain ⟨p', hp'⟩ := exists_lastRevoke hrevoke
      have hscope' := scope_of_lastRevoke hp'
      exact ne_nil_of_mem ((hmem p').mpr ⟨hscope' ▸ hp', hscope' ▸ hscope⟩)
    refine (R.refuses_all_orders_iff hnonempty).trans ?_
    simp only [ne_eq, not_true_eq_false, false_imp_iff, and_true, forall_const]
    constructor
    · intro h scope p' hin hlast
      obtain rfl := scope_of_lastRevoke hlast
      exact h p' ((hmem p').mpr ⟨hlast, hin⟩)
    · intro h p' hp'
      obtain ⟨hlast, hin⟩ := (hmem p').mp hp'
      exact h _ p' hin hlast

section Sample

private def policyOf (scopeType scopeValue : String) (isCancel : Bool) : RevocationPolicy :=
  ⟨⟨PyStr.ofString scopeType, PyStr.ofString scopeValue⟩, isCancel, [], [], []⟩

private def sampleAuthority : Authority :=
  ⟨"k", "s", "l", "e"⟩

/-- Only revocations. -/
theorem revoked_absorbing_kid_lease :
    sampleAuthority.fallsIn (policyOf "KID" "k" false).scope = true ∧
    ∀ order, order.Perm ((({} : Tables).afterAll
        [.revoke (policyOf "KID" "k" false) none,
          .revoke (policyOf "LEASE" "l" false) none]).matching sampleAuthority) → ∀ leaseState,
      ({} : RevocationRegistry).Refuses
        (({} : RevocationRegistry).checkAuthority ⟨.ok order, leaseState⟩) := by
  refine ⟨by decide +kernel, ?_⟩
  refine (revoked_absorbing_iff {} (p := policyOf "KID" "k" false) (by decide +kernel)
    (by decide +kernel) none).mpr ⟨fun _ scope p' _ hlast => ?_, by simp⟩
  simp only [lastRevoke, foldl_cons, foldl_nil, Change.inForce] at hlast
  split at hlast
  · cases hlast
    rfl
  · split at hlast
    · cases hlast
      rfl
    · exact absurd hlast (by simp)

/-- A cancellation of the same scope takes the place of the revocation; one of another scope comes
first in some order; and a database that does not answer is passed over when failing open. -/
theorem not_revoked_absorbing :
    let same : Tables := ({} : Tables).afterAll
      [.revoke (policyOf "EXECUTION" "e" false) none, .revoke (policyOf "EXECUTION" "e" true) none]
    let other : Tables := ({} : Tables).afterAll
      [.revoke (policyOf "SUBJECT" "s" true) none, .revoke (policyOf "KID" "k" false) none]
    ({} : RevocationRegistry).checkAuthority
      ⟨.ok (same.matching sampleAuthority), .ok none⟩ = .ok .cancelling ∧
    ({} : RevocationRegistry).checkAuthority
      ⟨.ok (other.matching sampleAuthority), .ok none⟩ = .ok .cancelling ∧
    ({ failClosed := false } : RevocationRegistry).checkAuthority
      ⟨.error "timeout", .ok none⟩ = .ok .active := by
  decide +kernel

end Sample

end Execution
