import Cappo.Governance.Quarantine

/-!
# The composition of policies

`services/governance.py`: a system, an owner and a runtime policy are merged into one effective
policy, time windows adjust it, a delegation chain lowers the trust of the caller, and
`effective_permissions` decides. `MCPv2Stack.pre_execution_assessment` of `services/mcp_v2.py` runs
these phases for one request.

The digests of the evidence are a parameter. The arithmetic on floats is one too: `round(a * b, 6)`.
-/

namespace Governance

open VdbC1

/-! ## Policies -/

/-- The effect of a rule. -/
inductive Effect where
  | allow
  | deny
  deriving DecidableEq

/-- `MaturityState` of `services/promotion_compiler.py`. -/
inductive MaturityState where
  | designIntent
  | implementedUnverified
  | locallyVerified
  | integrationVerified
  | productionCandidate
  | authorizedForProduction
  deriving DecidableEq

namespace MaturityState

def value : MaturityState → ℤ
  | .designIntent => 0
  | .implementedUnverified => 1
  | .locallyVerified => 2
  | .integrationVerified => 3
  | .productionCandidate => 4
  | .authorizedForProduction => 5

def name : MaturityState → PyStr
  | .designIntent => "DESIGN_INTENT"
  | .implementedUnverified => "IMPLEMENTED_UNVERIFIED"
  | .locallyVerified => "LOCALLY_VERIFIED"
  | .integrationVerified => "INTEGRATION_VERIFIED"
  | .productionCandidate => "PRODUCTION_CANDIDATE"
  | .authorizedForProduction => "AUTHORIZED_FOR_PRODUCTION"

end MaturityState

/-- `PolicyRule`; the composition looks at its effect only. -/
structure PolicyRule where
  effect : Effect
  deriving DecidableEq

/-- `Policy`: a field that is `none` says nothing. -/
structure Policy where
  policyId : PyStr
  rules : List PolicyRule := []
  rateLimit : Option ℤ := none
  trustRequired : Option PyFloat := none
  requiresApproval : Bool := false
  verificationTier : Option PyStr := none
  maturityRequired : Option MaturityState := none
  deriving DecidableEq

namespace Policy

variable (p : Policy)

/-- Some rule of the policy has this effect. -/
def hasRule (e : Effect) : Bool := p.rules.any fun r => r.effect = e

/-- `allows`. -/
def allows : Bool := p.hasRule .allow && !p.hasRule .deny

end Policy

/-- The conflicts that `_detect_conflicts` reports. -/
inductive ConflictType where
  | allowDeny
  | rateLimitMismatch
  deriving DecidableEq

/-- `PolicyConflict`. -/
structure PolicyConflict where
  conflictType : ConflictType
  source1 : PyStr
  source2 : PyStr
  conflictingField : PyStr
  value1 : Json
  value2 : Json
  severity : Severity
  resolution : PyStr
  requiresAdminReview : Bool
  deriving DecidableEq

/-- `EffectivePolicy`: what several policies come to. -/
structure EffectivePolicy where
  allow : Bool
  rateLimit : Option ℤ
  trustRequired : PyFloat
  requiresApproval : Bool
  immutable : Bool
  verificationTier : Option PyStr
  maturityRequired : Option MaturityState
  deriving DecidableEq

/-- `PolicyComposition`. -/
structure PolicyComposition where
  agentId : PyStr
  capabilityId : PyStr
  effectivePolicy : EffectivePolicy
  conflictsDetected : List PolicyConflict
  resolutionMethod : PyStr
  isValid : Bool
  evidenceHash : PyStr
  deriving DecidableEq

/-- The policies of the three layers. -/
structure Layers where
  systemPolicy : Option Policy := none
  ownerPolicy : Option Policy := none
  runtimePolicy : Option Policy := none
  deriving DecidableEq

namespace Layers

variable (L : Layers)

/-- The layers that are present, in the order in which `_merge` lists them. -/
def present : List Policy :=
  L.runtimePolicy.toList ++ L.ownerPolicy.toList ++ L.systemPolicy.toList

/-- `_detect_conflicts`. -/
def detectConflicts : List PolicyConflict :=
  match L.systemPolicy, L.ownerPolicy with
  | some system, some owner =>
    (if system.allows ∧ ¬ owner.allows then
      [{ conflictType := .allowDeny
         source1 := system.policyId
         source2 := owner.policyId
         conflictingField := "effect"
         value1 := .str "allow"
         value2 := .str "deny"
         severity := .high
         resolution := "System policy takes precedence"
         requiresAdminReview := true }]
    else []) ++
    match system.rateLimit, owner.rateLimit with
    | some a, some b =>
      if a < b then
        [{ conflictType := .rateLimitMismatch
           source1 := system.policyId
           source2 := owner.policyId
           conflictingField := "rate_limit"
           value1 := .int a
           value2 := .int b
           severity := .medium
           resolution := "Use most restrictive (system)"
           requiresAdminReview := false }]
      else []
    | _, _ => []
  | _, _ => []

/-- `_merge`. A deny of any layer wins; the maturity is that of the first of the system's, the
owner's and the runtime's policy that states one. -/
def merge : EffectivePolicy :=
  let layers := L.present
  let anyDeny := layers.any fun p => p.hasRule .deny
  let anyAllow := layers.any fun p => p.hasRule .allow
  { allow := anyAllow && !anyDeny
    rateLimit := (layers.filterMap Policy.rateLimit).min?
    trustRequired :=
      (Unordered.maxOf rank (layers.filterMap Policy.trustRequired)).getD (.finite 0)
    requiresApproval := layers.any Policy.requiresApproval
    immutable := L.systemPolicy.isSome
    verificationTier := (layers.filterMap Policy.verificationTier).max?
    maturityRequired :=
      (L.systemPolicy.bind Policy.maturityRequired).or
        ((L.ownerPolicy.bind Policy.maturityRequired).or
          (L.runtimePolicy.bind Policy.maturityRequired)) }

end Layers

/-- A value or `null`. -/
def orNull {α : Type} (f : α → Json) (x : Option α) : Json := (x.map f).getD .null

/-- `compose`. -/
def compose (sha256Json : Json → PyStr) (agentId capabilityId : PyStr) (L : Layers) :
    PolicyComposition :=
  let conflicts := L.detectConflicts
  let effective := L.merge
  { agentId
    capabilityId
    effectivePolicy := effective
    conflictsDetected := conflicts
    resolutionMethod := "most-restrictive"
    isValid := !(conflicts.any fun c => c.severity = .critical)
    evidenceHash := sha256Json (.obj [("allow", .bool effective.allow),
      ("rate_limit", orNull .int effective.rateLimit),
      ("trust_required", .float effective.trustRequired),
      ("requires_approval", .bool effective.requiresApproval),
      ("verification_tier", orNull .str effective.verificationTier),
      ("maturity_required",
        orNull (fun m => .str (MaturityState.name m)) effective.maturityRequired)]) }

/-! ## Time windows -/

/-- `TimeWindow`: what changes between two hours of the day. -/
structure TimeWindow where
  name : PyStr
  startHour : ℤ
  endHour : ℤ
  rateLimit : Option ℤ := none
  trustRequired : Option PyFloat := none
  requiresApproval : Bool := false
  deriving DecidableEq

namespace TimeWindow

variable (w : TimeWindow)

/-- `contains`. A window may go over midnight. -/
def contains (hour : ℤ) : Bool :=
  if w.startHour ≤ w.endHour then w.startHour ≤ hour && hour < w.endHour
  else w.startHour ≤ hour || hour < w.endHour

/-- What one window of the loop of `resolve` does. -/
def adjust (hour : ℤ) (base : EffectivePolicy) : EffectivePolicy :=
  if w.contains hour then
    { base with
      rateLimit := match w.rateLimit with
        | none => base.rateLimit
        | some limit => some (match base.rateLimit with
          | none => limit
          | some current => min current limit)
      trustRequired := match w.trustRequired with
        | none => base.trustRequired
        | some trust => Unordered.keepMax rank base.trustRequired trust
      requiresApproval := base.requiresApproval || w.requiresApproval }
  else base

end TimeWindow

/-- `at.astimezone(timezone.utc).hour` of an instant in microseconds. -/
def utcHour (instant : ℤ) : ℤ := instant / 3600000000 % 24

/-- `TemporalPolicyResolver.resolve`. -/
def resolve (windows : List TimeWindow) (base : EffectivePolicy) (instant : ℤ) : EffectivePolicy :=
  windows.foldl (fun policy w => w.adjust (utcHour instant) policy) base

/-- `business_hours`, with its defaults. -/
def businessHours (startHour endHour : ℤ) (offHoursTrust : PyFloat) : List TimeWindow :=
  [{ name := "off-hours"
     startHour := endHour
     endHour := startHour
     trustRequired := some offHoursTrust
     requiresApproval := true }]

/-! ## Delegation -/

/-- `DelegationHop`: trust is multiplied along the chain. -/
structure DelegationHop where
  trustMultiplier : PyFloat
  deriving DecidableEq

/-- `DelegationChainTracker`, with the chain of each capability and `round(a * b, 6)`. -/
structure DelegationChainTracker where
  chains : PyStr → List DelegationHop
  mulRound : PyFloat → PyFloat → PyFloat

/-- `effective_trust`. -/
def DelegationChainTracker.effectiveTrust (D : DelegationChainTracker) (capabilityId : PyStr)
    (baseTrust : PyFloat) : PyFloat :=
  match (D.chains capabilityId).getLast? with
  | none => baseTrust
  | some hop => D.mulRound baseTrust hop.trustMultiplier

/-! ## Permissions -/

/-- `EffectivePermissions`. -/
structure EffectivePermissions where
  agentId : PyStr
  capabilityId : PyStr
  canExecute : Bool
  requiresApproval : Bool
  rateLimit : Option ℤ
  trustRequired : PyFloat
  trustCurrent : PyFloat
  delegationDepth : ℤ
  evidenceHash : PyStr
  verificationTierRequired : Option PyStr
  verificationTierCurrent : Option PyStr
  maturityRequired : Option MaturityState
  maturityCurrent : Option MaturityState
  deriving DecidableEq

/-- What is known of the caller. -/
structure Caller where
  trustCurrent : PyFloat
  delegationDepth : ℤ := 0
  verificationTierCurrent : Option PyStr := none
  maturityCurrent : Option MaturityState := none
  deriving DecidableEq

namespace Caller

variable (c : Caller)

/-- The check of the tier, made only where both tiers are there and not empty. -/
def meetsTier (required : Option PyStr) : Bool :=
  match required, c.verificationTierCurrent with
  | some tier, some current => if tier ≠ [] ∧ current ≠ [] then tier ≤ current else true
  | _, _ => true

/-- The check of the maturity. -/
def meetsMaturity (required : Option MaturityState) : Bool :=
  match required, c.maturityCurrent with
  | some maturity, some current => maturity.value ≤ current.value
  | some _, none => false
  | none, _ => true

end Caller

/-- `effective_permissions`. -/
def effectivePermissions (sha256Json : Json → PyStr) (composition : PolicyComposition)
    (c : Caller) : EffectivePermissions :=
  let eff := composition.effectivePolicy
  let meetsTrust := le eff.trustRequired c.trustCurrent
  let meetsTier := c.meetsTier eff.verificationTier
  let meetsMaturity := c.meetsMaturity eff.maturityRequired
  let canExecute := composition.isValid && eff.allow && meetsTrust && meetsTier && meetsMaturity
  { agentId := composition.agentId
    capabilityId := composition.capabilityId
    canExecute
    requiresApproval := eff.requiresApproval
    rateLimit := eff.rateLimit
    trustRequired := eff.trustRequired
    trustCurrent := c.trustCurrent
    delegationDepth := c.delegationDepth
    evidenceHash := sha256Json (.obj [("agent", .str composition.agentId),
      ("cap", .str composition.capabilityId),
      ("can_execute", .bool canExecute),
      ("trust", .float c.trustCurrent),
      ("tier", orNull .str c.verificationTierCurrent),
      ("maturity", orNull (fun m => .str (MaturityState.name m)) c.maturityCurrent)])
    verificationTierRequired := eff.verificationTier
    verificationTierCurrent := c.verificationTierCurrent
    maturityRequired := eff.maturityRequired
    maturityCurrent := c.maturityCurrent }

/-! ## The assessment of a request -/

/-- The worst action that the anomalies recommend; a block ends the search. -/
def worstAction : RecommendedAction → List AnomalyDetection → RecommendedAction
  | worst, [] => worst
  | worst, a :: anomalies =>
    match a.recommendedAction with
    | .block => .block
    | .quarantine => worstAction .quarantine anomalies
    | _ => worstAction worst anomalies

/-- The services that an assessment uses. -/
structure MCPv2Stack where
  quarantine : RequestQuarantineService := {}
  delegation : DelegationChainTracker
  temporal : List TimeWindow := businessHours 9 17 (.finite 90)

/-- A request to assess, with the anomalies that were detected in it, the moment it is assessed at,
and the identifier and the readings of the clock of a quarantine. -/
structure Assessment where
  agentId : PyStr
  request : List (PyStr × Json)
  anomalies : List AnomalyDetection
  trustScore : PyFloat
  capabilityId : PyStr := "exec"
  layers : Layers := {}
  instant : ℤ
  quarantineId : PyStr
  timestamp : ℤ
  now : ℤ

/-- What an assessment reports of its safety and governance phases. -/
structure AssessmentEvidence where
  agentId : PyStr
  allow : Bool
  anomalies : List AnomalyType
  recommendedAction : RecommendedAction
  quarantineId : Option PyStr
  policyAllows : Bool
  requiresApproval : Bool
  trustRequired : PyFloat
  conflicts : List ConflictType
  isValid : Bool
  deriving DecidableEq

namespace MCPv2Stack

variable (S : MCPv2Stack) (sha256Json : Json → PyStr)

/-- The safety phase puts a request with a bad anomaly into quarantine. -/
def safetyPhase (q : Assessment) : Option (Option PyStr × RequestQuarantineService) :=
  match worstAction .log q.anomalies with
  | .block | .quarantine =>
    (S.quarantine.quarantine q.quarantineId q.timestamp q.now q.request q.anomalies none).map
      fun result => (some result.1.quarantineId, result.2)
  | _ => some (none, S.quarantine)

/-- The trust of the caller that the governance phase checks. -/
def trustOf (q : Assessment) : PyFloat := S.delegation.effectiveTrust q.capabilityId q.trustScore

/-- `pre_execution_assessment`, without a result where the deadline of a quarantine is not a
date. -/
def preExecutionAssessment (q : Assessment) :
    Option (AssessmentEvidence × RequestQuarantineService) := do
  let worst := worstAction .log q.anomalies
  let (quarantineId, queue) ← S.safetyPhase q
  let composition := compose sha256Json q.agentId q.capabilityId q.layers
  let effective := resolve S.temporal composition.effectivePolicy q.instant
  -- The permissions are those of the composed policy, before the time windows.
  let perms := effectivePermissions sha256Json composition { trustCurrent := S.trustOf q }
  let policyAllows := if q.layers.present = [] then true else perms.canExecute
  let allow := worst ≠ .block && quarantineId = none && policyAllows
  return ({
    agentId := q.agentId
    allow
    anomalies := q.anomalies.map AnomalyDetection.anomalyType
    recommendedAction := worst
    quarantineId
    policyAllows
    requiresApproval := effective.requiresApproval
    trustRequired := effective.trustRequired
    conflicts := composition.conflictsDetected.map PolicyConflict.conflictType
    isValid := composition.isValid }, queue)

end MCPv2Stack

end Governance
