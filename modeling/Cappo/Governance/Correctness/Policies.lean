import Cappo.Governance.Policies

/-!
# How strict a composed policy is

A merged policy is as strict as each of its layers in its rate limit, approval and tier, whatever
they state. In its trust it is so unless a NaN comes after a number, and in its maturity unless a
layer states more than one that takes precedence over it. A caller that may execute meets every
layer where it also has a known tier: an unknown one passes the check.

An assessment reports the trust that its time windows require, and checks the trust before them.
-/

namespace Governance

open VdbC1
open List Option

/-- The empty text comes first. -/
lemma nil_le_str (v : PyStr) : [] ≤ v :=
  not_lt.mp (not_lt_nil v)

lemma le_nil_str {v : PyStr} : v ≤ [] ↔ v = [] :=
  ⟨fun h => le_antisymm h (nil_le_str v), fun h => h.le⟩

/-! ## What the layers require -/

/-- A policy obliges to at least as much as a layer does. -/
structure AsStrict (eff : EffectivePolicy) (p : Policy) : Prop where
  rateLimit : ∀ r, p.rateLimit = some r → ∃ m, eff.rateLimit = some m ∧ m ≤ r
  trust : ∀ t, p.trustRequired = some t →
    ∀ current, le eff.trustRequired current = true → le t current = true
  approval : p.requiresApproval = true → eff.requiresApproval = true
  tier : ∀ v, p.verificationTier = some v → ∃ m, eff.verificationTier = some m ∧ v ≤ m
  maturity : ∀ s, p.maturityRequired = some s →
    ∃ m, eff.maturityRequired = some m ∧ s.value ≤ m.value

/-- A caller meets what a layer states. -/
structure Caller.Meets (c : Caller) (p : Policy) : Prop where
  trust : ∀ t, p.trustRequired = some t → le t c.trustCurrent = true
  tier : ∀ v, p.verificationTier = some v →
    ∃ current, c.verificationTierCurrent = some current ∧ v ≤ current
  maturity : ∀ s, p.maturityRequired = some s →
    ∃ current, c.maturityCurrent = some current ∧ s.value ≤ current.value

namespace Layers

variable (L : Layers) (c : Caller)

/-- The maturities that the layers state, in the order of their precedence. -/
def statedMaturities : List MaturityState :=
  [L.systemPolicy, L.ownerPolicy, L.runtimePolicy].filterMap fun p => p.bind Policy.maturityRequired

/-- The first layer that states a maturity states the highest. -/
def HighestFirst : Prop :=
  ∀ m, L.statedMaturities.head? = some m → ∀ s ∈ L.statedMaturities, s.value ≤ m.value

/-- A trust that is not a number is stated first, or not at all. -/
def NanFirst : Prop :=
  ∀ t, (L.present.filterMap Policy.trustRequired).head? = some t → rank t ≠ none →
    ∀ t' ∈ L.present.filterMap Policy.trustRequired, rank t' ≠ none

/-- Where a tier is stated the caller's is known, and not the empty text below one that is not. -/
def TierKnown : Prop :=
  (∃ p ∈ L.present, p.verificationTier ≠ none) →
    ∃ current, c.verificationTierCurrent = some current ∧
      (current = [] → ∀ p ∈ L.present, ∀ v, p.verificationTier = some v → v = [])

/-- The rules, the trust and the maturity do not stand against the caller. -/
structure Eligible : Prop where
  allowed : ∃ p ∈ L.present, p.hasRule .allow = true
  undenied : ∀ p ∈ L.present, p.hasRule .deny = false
  trust : ∀ p ∈ L.present, ∀ t, p.trustRequired = some t → le t c.trustCurrent = true
  someTrust : (∀ p ∈ L.present, p.trustRequired = none) → le (.finite 0) c.trustCurrent = true
  maturity : ∀ p ∈ L.present, ∀ s, p.maturityRequired = some s →
    ∃ current, c.maturityCurrent = some current ∧ s.value ≤ current.value

variable {L c}

/-! ## The merged policy -/

variable {p : Policy}

lemma mem_present : p ∈ L.present ↔
    L.runtimePolicy = some p ∨ L.ownerPolicy = some p ∨ L.systemPolicy = some p := by
  simp [present]

lemma mem_statedMaturities :
    s ∈ L.statedMaturities ↔ ∃ p ∈ L.present, p.maturityRequired = some s := by
  simp only [statedMaturities, mem_filterMap, mem_cons, not_mem_nil, or_false,
    mem_present, bind_eq_some_iff]
  constructor
  · rintro ⟨_, rfl | rfl | rfl, p, hp, hs⟩
    · exact ⟨p, .inr (.inr hp), hs⟩
    · exact ⟨p, .inr (.inl hp), hs⟩
    · exact ⟨p, .inl hp, hs⟩
  · rintro ⟨p, hp | hp | hp, hs⟩
    · exact ⟨_, .inr (.inr rfl), p, hp, hs⟩
    · exact ⟨_, .inr (.inl rfl), p, hp, hs⟩
    · exact ⟨_, .inl rfl, p, hp, hs⟩

/-- The maturity of the merged policy is the first that is stated. -/
lemma maturityRequired_merge : L.merge.maturityRequired = L.statedMaturities.head? := by
  simp only [merge, statedMaturities, filterMap_cons, filterMap_nil]
  cases L.systemPolicy.bind Policy.maturityRequired <;>
    cases L.ownerPolicy.bind Policy.maturityRequired <;>
    cases L.runtimePolicy.bind Policy.maturityRequired <;> rfl

/-- The lowest rate limit of a layer is the merged one. -/
lemma rateLimit_merge (hp : p ∈ L.present) (hr : p.rateLimit = some r) :
    ∃ m, L.merge.rateLimit = some m ∧ m ≤ r := by
  have hmem : r ∈ L.present.filterMap Policy.rateLimit := mem_filterMap.mpr ⟨p, hp, hr⟩
  cases hmin : (L.present.filterMap Policy.rateLimit).min? with
  | none =>
    rw [List.min?_eq_none_iff.mp hmin] at hmem
    nomatch hmem
  | some m => exact ⟨m, hmin, (List.min?_eq_some_iff.mp hmin).2 r hmem⟩

/-- The highest tier of a layer is the merged one. -/
lemma verificationTier_merge (hp : p ∈ L.present) {v : PyStr} (hv : p.verificationTier = some v) :
    ∃ m, L.merge.verificationTier = some m ∧ v ≤ m := by
  have hmem : v ∈ L.present.filterMap Policy.verificationTier := mem_filterMap.mpr ⟨p, hp, hv⟩
  cases hmax : (L.present.filterMap Policy.verificationTier).max? with
  | none =>
    rw [List.max?_eq_none_iff.mp hmax] at hmem
    nomatch hmem
  | some m => exact ⟨m, hmax, (List.max?_eq_some_iff.mp hmax).2 v hmem⟩

/-- The trust of the merged policy, where some layer states one. -/
lemma trustRequired_merge
    (h : Unordered.maxOf rank (L.present.filterMap Policy.trustRequired) = some t) :
    L.merge.trustRequired = t := by
  simp [merge, h]

/-- A trust that meets every layer meets the merged policy. -/
lemma le_trustRequired_merge
    (hlayers : ∀ p ∈ L.present, ∀ t, p.trustRequired = some t → le t current = true)
    (hnone : (∀ p ∈ L.present, p.trustRequired = none) → le (.finite 0) current = true) :
    le L.merge.trustRequired current = true := by
  cases hstated : L.present.filterMap Policy.trustRequired with
  | nil =>
    have hdefault : L.merge.trustRequired = .finite 0 := by
      simp [merge, hstated, Unordered.maxOf]
    rw [hdefault]
    exact hnone (filterMap_eq_nil_iff.mp hstated)
  | cons t ts =>
    have hmax : Unordered.maxOf rank (L.present.filterMap Policy.trustRequired) =
        some (ts.foldl (Unordered.keepMax rank) t) := by
      rw [hstated]
      rfl
    rw [trustRequired_merge hmax]
    have hmem : ts.foldl (Unordered.keepMax rank) t ∈ L.present.filterMap Policy.trustRequired := by
      rw [hstated]
      exact Unordered.foldl_keepMax_mem t ts
    obtain ⟨p, hp, ht⟩ := mem_filterMap.mp hmem
    exact hlayers p hp _ ht

/-- What meets the merged trust meets every layer's, where a NaN is stated first or not at all. -/
lemma trust_merge_iff : (∀ p ∈ L.present, ∀ t, p.trustRequired = some t →
      ∀ current, le L.merge.trustRequired current = true → le t current = true) ↔ L.NanFirst := by
  cases hmax : Unordered.maxOf rank (L.present.filterMap Policy.trustRequired) with
  | none =>
    have hnil : L.present.filterMap Policy.trustRequired = [] := by
      cases hstated : L.present.filterMap Policy.trustRequired with
      | nil => rfl
      | cons t ts => simp [hstated, Unordered.maxOf] at hmax
    have hnone := filterMap_eq_nil_iff.mp hnil
    refine iff_of_true (fun p hp t ht => ?_) ?_
    · exact absurd ((hnone p hp).symm.trans ht) (by simp)
    · simp [NanFirst, hnil]
  | some m =>
    rw [trustRequired_merge hmax, NanFirst, ← Unordered.maxOf_dominates_iff hmax]
    constructor
    · intro h t ht
      obtain ⟨p, hp, hstated⟩ := mem_filterMap.mp ht
      exact h p hp t hstated
    · intro h p hp t ht
      exact h t (mem_filterMap.mpr ⟨p, hp, ht⟩)

/-- The merged maturity is every layer's, where the first that is stated is the highest. -/
lemma maturity_merge_iff : (∀ p ∈ L.present, ∀ s, p.maturityRequired = some s →
      ∃ m, L.merge.maturityRequired = some m ∧ s.value ≤ m.value) ↔ L.HighestFirst := by
  rw [maturityRequired_merge]
  constructor
  · intro h m hm s hs
    obtain ⟨p, hp, hstated⟩ := mem_statedMaturities.mp hs
    obtain ⟨m', hm', hle⟩ := h p hp s hstated
    obtain rfl : m' = m := mem_unique hm' hm
    exact hle
  · intro h p hp s hs
    have hmem := mem_statedMaturities.mpr ⟨p, hp, hs⟩
    cases hfirst : L.statedMaturities.head? with
    | none =>
      rw [List.head?_eq_none_iff.mp hfirst] at hmem
      nomatch hmem
    | some m => exact ⟨m, rfl, h m hfirst s hmem⟩

/-- The merged policy is as strict as every layer where the stated trusts and maturities allow
it. -/
lemma merge_asStrict_iff : (∀ p ∈ L.present, AsStrict L.merge p) ↔ L.NanFirst ∧ L.HighestFirst := by
  rw [← trust_merge_iff, ← maturity_merge_iff]
  constructor
  · intro h
    exact ⟨fun p hp => (h p hp).trust, fun p hp => (h p hp).maturity⟩
  · rintro ⟨htrust, hmaturity⟩ p hp
    refine ⟨fun r hr => rateLimit_merge hp hr, htrust p hp, fun happroval => ?_,
      fun v hv => verificationTier_merge hp hv, hmaturity p hp⟩
    exact any_eq_true.mpr ⟨p, hp, happroval⟩

/-! ## The decision -/

/-- No conflict is critical, so that every composition is valid. -/
lemma isValid_compose (sha256Json : Json → PyStr) (agentId capabilityId : PyStr) :
    (compose sha256Json agentId capabilityId L).isValid = true := by
  have hnone : ∀ conflict ∈ L.detectConflicts, conflict.severity ≠ .critical := by
    intro conflict hmem
    rw [detectConflicts] at hmem
    split at hmem
    · rcases mem_append.mp hmem with h | h
      · split at h <;> simp_all
      · split at h
        · split at h <;> simp_all
        · simp at h
    · simp at hmem
  simpa [compose] using hnone

lemma allow_merge : L.merge.allow = true ↔
    (∃ p ∈ L.present, p.hasRule .allow = true) ∧ ∀ p ∈ L.present, p.hasRule .deny = false := by
  simp [merge]

lemma canExecute_iff (sha256Json : Json → PyStr) (agentId capabilityId : PyStr) :
    (effectivePermissions sha256Json (compose sha256Json agentId capabilityId L) c).canExecute =
      true ↔
    (L.merge.allow = true ∧ le L.merge.trustRequired c.trustCurrent = true ∧
      c.meetsMaturity L.merge.maturityRequired = true) ∧
    c.meetsTier L.merge.verificationTier = true := by
  simp only [effectivePermissions, isValid_compose, Bool.true_and, Bool.and_eq_true]
  simp only [compose]
  tauto

/-- A maturity is met where the caller's is known and high enough. -/
lemma meetsMaturity_iff : c.meetsMaturity required = true ↔ ∀ s, required = some s →
      ∃ current, c.maturityCurrent = some current ∧ s.value ≤ current.value := by
  cases required <;> cases hcurrent : c.maturityCurrent <;>
    simp [Caller.meetsMaturity, hcurrent]

/-- The other checks pass exactly for the eligible callers, where the merged policy is as strict as
every layer. -/
lemma eligible_iff (h : ∀ p ∈ L.present, AsStrict L.merge p) :
    (L.merge.allow = true ∧ le L.merge.trustRequired c.trustCurrent = true ∧
      c.meetsMaturity L.merge.maturityRequired = true) ↔ L.Eligible c := by
  rw [allow_merge, meetsMaturity_iff]
  constructor
  · rintro ⟨⟨hallow, hdeny⟩, htrust, hmaturity⟩
    refine ⟨hallow, hdeny, fun p hp t ht => (h p hp).trust t ht _ htrust, ?_, ?_⟩
    · intro hnone
      have hstated : L.present.filterMap Policy.trustRequired = [] :=
        filterMap_eq_nil_iff.mpr hnone
      simpa [merge, hstated, Unordered.maxOf] using htrust
    · intro p hp s hs
      obtain ⟨m, hm, hle⟩ := (h p hp).maturity s hs
      obtain ⟨current, hcurrent, hle'⟩ := hmaturity m hm
      exact ⟨current, hcurrent, hle.trans hle'⟩
  · intro he
    refine ⟨⟨he.allowed, he.undenied⟩, le_trustRequired_merge he.trust he.someTrust, ?_⟩
    intro s hs
    rw [maturityRequired_merge] at hs
    obtain ⟨p, hp, hstated⟩ := mem_statedMaturities.mp (mem_of_head? hs)
    exact he.maturity p hp s hstated

/-- The check of the tier answers as the layers require where the caller's tier is known. -/
lemma meetsTier_iff : (c.meetsTier L.merge.verificationTier = true →
      ∀ p ∈ L.present, ∀ v, p.verificationTier = some v →
        ∃ current, c.verificationTierCurrent = some current ∧ v ≤ current) ↔ L.TierKnown c := by
  cases hmerge : L.merge.verificationTier with
  | none =>
    -- no layer states a tier
    have hnone : ∀ p ∈ L.present, ∀ v, p.verificationTier ≠ some v := by
      intro p hp v hv
      obtain ⟨m, hm, -⟩ := verificationTier_merge hp hv
      exact absurd (hmerge.symm.trans hm) (by simp)
    refine iff_of_true (fun _ p hp v hv => absurd hv (hnone p hp v)) ?_
    rintro ⟨p, hp, hne⟩
    obtain ⟨v, hv⟩ := ne_none_iff_exists'.mp hne
    exact absurd hv (hnone p hp v)
  | some m =>
    have hle : ∀ p ∈ L.present, ∀ v, p.verificationTier = some v → v ≤ m := by
      intro p hp v hv
      obtain ⟨m', hm', hle⟩ := verificationTier_merge hp hv
      obtain rfl : m' = m := mem_unique hm' hmerge
      exact hle
    obtain ⟨p0, hp0, hm0⟩ := mem_filterMap.mp (List.max?_eq_some_iff.mp hmerge).1
    cases hcurrent : c.verificationTierCurrent with
    | none =>
      refine iff_of_false (fun h => ?_) (fun h => ?_)
      · obtain ⟨current, hsome, -⟩ := h (by simp [Caller.meetsTier, hcurrent]) p0 hp0 m hm0
        simp at hsome
      · obtain ⟨current, hsome, -⟩ := h ⟨p0, hp0, by simp [hm0]⟩
        simp [hcurrent] at hsome
    | some current =>
      have hstated : ∃ p ∈ L.present, p.verificationTier ≠ none := ⟨p0, hp0, by simp [hm0]⟩
      simp only [Option.some.injEq, exists_eq_left', TierKnown, hcurrent, hstated, true_imp_iff,
        Caller.meetsTier]
      by_cases hempty : current = []
      · -- an empty tier passes the check, and meets only the empty one
        simp [hempty, le_nil_str]
      · refine iff_of_true (fun hcheck p hp v hv => ?_) (fun h => absurd h hempty)
        by_cases hm : m = []
        · have hv : v = [] := le_nil_str.mp (hm ▸ hle p hp v hv)
          rw [hv]
          exact nil_le_str current
        · exact (hle p hp v hv).trans (by simpa [hm, hempty] using hcheck)

/-- The merged policy is as strict as every layer, and a caller that may execute meets every layer,
exactly where a NaN trust is stated first or not at all, the maturity that takes precedence is the
highest, and the caller's tier is known if nothing else stands against the execution. -/
theorem merge_restrictive_iff (sha256Json : Json → PyStr) (agentId capabilityId : PyStr)
    (L : Layers) (c : Caller) :
    ((∀ p ∈ L.present, AsStrict L.merge p) ∧
      ((effectivePermissions sha256Json (compose sha256Json agentId capabilityId L) c).canExecute =
        true → ∀ p ∈ L.present, c.Meets p)) ↔
    (L.NanFirst ∧ L.HighestFirst) ∧ (L.Eligible c → L.TierKnown c) := by
  rw [merge_asStrict_iff]
  refine and_congr_right fun h => ?_
  rw [canExecute_iff, eligible_iff (merge_asStrict_iff.mpr h), ← meetsTier_iff, and_imp]
  refine forall_congr' fun heligible => forall_congr' fun _ => ?_
  constructor
  · intro hmeets p hp
    exact (hmeets p hp).tier
  · intro htier p hp
    exact ⟨heligible.trust p hp, htier p hp, heligible.maturity p hp⟩

section Sample

private def allowing (p : Policy) : Policy := { p with rules := [⟨.allow⟩] }

/-- The owner asks for more maturity than the system, the runtime for a tier. -/
private def sampleLayers : Layers where
  systemPolicy := some (allowing { policyId := "sys", maturityRequired := some .designIntent })
  ownerPolicy := some (allowing
    { policyId := "own", maturityRequired := some .authorizedForProduction })
  runtimePolicy := some (allowing { policyId := "run", verificationTier := some "Tier3" })

/-- A caller without a tier may execute under a policy that states one, and the merged policy is
less strict than the owner's. -/
theorem merge_not_restrictive :
    let c : Caller := { trustCurrent := .finite 50, maturityCurrent := some .designIntent }
    (effectivePermissions (fun _ => []) (compose (fun _ => []) [] [] sampleLayers) c).canExecute =
      true ∧
    (∃ p ∈ sampleLayers.present, ¬ AsStrict sampleLayers.merge p) ∧
    ∃ p ∈ sampleLayers.present, p.verificationTier = some (PyStr.ofString "Tier3") ∧
      c.verificationTierCurrent = none ∧ ¬ c.Meets p := by
  have howner := Layers.mem_present (L := sampleLayers).mpr (.inr (.inl rfl))
  have hruntime := Layers.mem_present (L := sampleLayers).mpr (.inl rfl)
  refine ⟨by decide +kernel, ⟨_, howner, fun h => ?_⟩, _, hruntime, rfl, rfl, fun h => ?_⟩
  · obtain ⟨m, hm, hle⟩ := h.maturity .authorizedForProduction rfl
    obtain rfl : MaturityState.designIntent = m := some.inj hm
    exact absurd hle (by decide)
  · obtain ⟨current, hcurrent, -⟩ := h.tier (PyStr.ofString "Tier3") rfl
    exact absurd hcurrent (by simp)

end Sample

end Layers

/-! ## The assessment -/

/-- The trusts that the windows of an hour require, in the order of the windows. -/
def windowTrusts (windows : List TimeWindow) (hour : ℤ) : List PyFloat :=
  (windows.filter fun w => w.contains hour).filterMap TimeWindow.trustRequired

/-- The adjusted trust is the greatest of the policy's own and the windows'. -/
lemma trustRequired_resolve (windows : List TimeWindow) (base : EffectivePolicy) (instant : ℤ) :
    (resolve windows base instant).trustRequired =
      (windowTrusts windows (utcHour instant)).foldl (Unordered.keepMax rank)
        base.trustRequired := by
  induction windows generalizing base with
  | nil => rfl
  | cons w windows ih =>
    refine (ih _).trans ?_
    simp only [windowTrusts, TimeWindow.adjust]
    by_cases hin : w.contains (utcHour instant) = true
    · rw [if_pos hin, filter_cons, if_pos hin, filterMap_cons]
      cases w.trustRequired <;> rfl
    · rw [if_neg hin, filter_cons, if_neg hin]

namespace MCPv2Stack

variable {S : MCPv2Stack} {sha256Json : Json → PyStr} {q : Assessment} {e : AssessmentEvidence}
  {queue : RequestQuarantineService}

/-- The reported trust is the one after the time windows. -/
lemma trustRequired_of_assessment (h : S.preExecutionAssessment sha256Json q = some (e, queue)) :
    e.trustRequired = (resolve S.temporal q.layers.merge q.instant).trustRequired := by
  obtain ⟨phase, -, hresult⟩ := bind_eq_some_iff.mp h
  cases hresult
  rfl

/-- An allowed assessment with a policy met the trust of the composed policy. -/
lemma le_trust_of_allow (h : S.preExecutionAssessment sha256Json q = some (e, queue))
    (hlayers : q.layers.present ≠ []) (hallow : e.allow = true) :
    le q.layers.merge.trustRequired (S.trustOf q) = true := by
  obtain ⟨phase, -, hresult⟩ := bind_eq_some_iff.mp h
  cases hresult
  have hperms := (Bool.and_eq_true_iff.mp hallow).2
  rw [if_neg hlayers] at hperms
  exact (Layers.canExecute_iff _ _ _).mp hperms |>.1.2.1

/-- The trust of an allowed assessment is at least the one it reports exactly where no time window
of the hour requires more. -/
theorem le_trustRequired_iff (h : S.preExecutionAssessment sha256Json q = some (e, queue))
    (hlayers : q.layers.present ≠ []) (hallow : e.allow = true) :
    le e.trustRequired (S.trustOf q) = true ↔
      ∀ w ∈ S.temporal, w.contains (utcHour q.instant) = true →
        ∀ t, w.trustRequired = some t → lt (S.trustOf q) t = false := by
  rw [trustRequired_of_assessment h, trustRequired_resolve,
    Unordered.foldl_keepMax_le_iff (le_trust_of_allow h hlayers hallow)]
  simp only [windowTrusts, mem_filterMap, mem_filter]
  constructor
  · intro hall w hw hin t ht
    exact hall t ⟨w, ⟨hw, hin⟩, ht⟩
  · rintro hall t ⟨w, ⟨hw, hin⟩, ht⟩
    exact hall w hw hin t ht

section Sample

/-- A stack without delegations. -/
private def sampleStack : MCPv2Stack where
  delegation := ⟨fun _ => [], fun a _ => a⟩

/-- A request under a policy that requires a trust of 70, some hours after midnight. -/
private def sampleAssessment (hours : ℤ) : Assessment where
  agentId := "agent-7"
  request := []
  anomalies := []
  trustScore := .finite 80
  layers := { systemPolicy := some {
    policyId := "sys"
    rules := [⟨.allow⟩]
    trustRequired := some (.finite 70) } }
  instant := hours * 3600000000
  quarantineId := []
  timestamp := 0
  now := 0

private def sampleEvidence (trustRequired : PyFloat) (requiresApproval : Bool) :
    AssessmentEvidence where
  agentId := "agent-7"
  allow := true
  anomalies := []
  recommendedAction := .log
  quarantineId := none
  policyAllows := true
  requiresApproval
  trustRequired
  conflicts := []
  isValid := true

/-- In business hours no window is in force. -/
theorem le_trustRequired_at_noon :
    le (sampleEvidence (.finite 70) false).trustRequired
      (sampleStack.trustOf (sampleAssessment 12)) = true := by
  have h : sampleStack.preExecutionAssessment (fun _ => []) (sampleAssessment 12) =
      some (sampleEvidence (.finite 70) false, {}) := by decide +kernel
  exact (le_trustRequired_iff h (by decide +kernel) rfl).mpr (by decide +kernel)

/-- In the evening a trust of 80 is allowed, and 90 is reported as required. -/
theorem not_le_trustRequired_in_the_evening :
    sampleStack.preExecutionAssessment (fun _ => []) (sampleAssessment 20) =
      some (sampleEvidence (.finite 90) true, {}) ∧
    le (sampleEvidence (.finite 90) true).trustRequired
      (sampleStack.trustOf (sampleAssessment 20)) = false := by
  decide +kernel

end Sample

end MCPv2Stack

end Governance
