import Mathlib.Data.List.Infix
import Cappo.CapabilityMount.JsonText
import Cappo.Lib.Grouping
import Cappo.VdbC1.Python

/-!
# The inbound truth enforcer

`truth/inbound_truth_enforcer.py`: `certify_context` takes claims through eight laws and returns
those that are admissible, or raises with the claims as it had evaluated them. Claims that speak of
the same subject, predicate and scope in one domain form a group; in a group of several the highest
authority decides.

A claim's state is a field that the passes overwrite, so each pass returns the claims anew.
-/

namespace InboundTruth

open VdbC1 (PyStr Json)

open CapabilityMount.JsonText (intText)

/-- `ClaimState`: how far a claim has come. -/
inductive ClaimState where
  | claimed
  | authenticated
  | current
  | authoritative
  | corroborated
  | admissible
  | unresolved
  | conflicted
  | unavailable
  | expired
  | rejected
  deriving DecidableEq

/-- What the enforcer reads of a requirement. -/
structure FactRequirement where
  factDomain : PyStr
  maxAgeSeconds : ℤ
  corroborationRequired : Bool := false
  deriving DecidableEq

/-- `TypedPayload`: what is said of a subject. -/
structure TypedPayload where
  subject : PyStr
  predicate : PyStr
  value : Json
  scope : PyStr
  deriving DecidableEq

/-- `LineageReceipt`: what a derived claim was computed by, and the digest of the result. -/
structure LineageReceipt where
  transformationFunction : PyStr
  outputDigest : PyStr
  deriving DecidableEq

/-- `TruthClaim`: one statement of one source. -/
structure TruthClaim where
  claimId : PyStr
  sourceId : PyStr
  sourceDomain : PyStr
  tenantId : PyStr
  factType : PyStr
  version : ℤ
  parentVersion : Option ℤ := none
  signer : PyStr
  payload : TypedPayload
  lineage : Option LineageReceipt := none
  evaluationTimeLocked : ℤ
  expiresAt : ℤ
  state : ClaimState := .claimed
  resolutionReason : Option PyStr := none
  deriving DecidableEq

/-- The classes of `InboundTruthError`. -/
inductive ErrorClass where
  | authentication
  | rollback
  | ancestry
  | lineageMismatch
  | freshness
  | contradiction
  | transformationMonotonicity
  | missingRequirement
  | precedenceCycle
  | instructionFault
  deriving DecidableEq

/-- `InboundTruthError`, with the claims as they were when it was raised. -/
structure InboundTruthError where
  errorClass : ErrorClass
  message : PyStr
  evaluatedClaims : List TruthClaim
  deriving DecidableEq

/-- `str` of a value, and `repr` of a list of texts. -/
structure Texts where
  str : Json → PyStr
  reprList : List PyStr → PyStr

/-- `TruthLedger`: approved signers, the newest version of each source, and ranks of authority. -/
structure TruthLedger where
  approvedSigners : PyStr × PyStr × PyStr → List PyStr
  canonicalHeads : PyStr → Option ℤ
  authorityHierarchy : PyStr → Option ℤ

namespace TruthLedger

variable (L : TruthLedger)

/-- `is_approved`. -/
def isApproved (domain tenant factType signer : PyStr) : Bool :=
  signer ∈ L.approvedSigners (domain, tenant, factType)

/-- `get_canonical_version`. -/
def getCanonicalVersion (sourceId : PyStr) : ℤ := (L.canonicalHeads sourceId).getD 0

/-- `get_authority_score`. -/
def getAuthorityScore (authorityClass : PyStr) : ℤ :=
  (L.authorityHierarchy authorityClass).getD 0

end TruthLedger

namespace TruthClaim

/-- What a claim speaks of: domain, subject, predicate and scope. -/
def key (c : TruthClaim) : PyStr × PyStr × PyStr × PyStr :=
  (c.sourceDomain, c.payload.subject, c.payload.predicate, c.payload.scope)

def become (state : ClaimState) (c : TruthClaim) : TruthClaim := { c with state }

/-- The claim with the state and the reason that a law gave it. -/
def resolve (state : ClaimState) (reason : PyStr) (c : TruthClaim) : TruthClaim :=
  { c with state, resolutionReason := some reason }

end TruthClaim

/-! ## Passes -/

/-- What a law finds wrong with a claim. -/
structure Fault where
  errorClass : ErrorClass
  state : ClaimState := .rejected
  reason : PyStr

/-- The loop of a law: every claim that passes is updated, and the first that does not is given the
fault, which is raised with all claims. -/
def pass (check : TruthClaim → Option Fault) (update : TruthClaim → TruthClaim)
    (seen : List TruthClaim) : List TruthClaim → Except InboundTruthError (List TruthClaim)
  | [] => .ok seen
  | c :: rest =>
    match check c with
    | none => pass check update (seen ++ [update c]) rest
    | some fault =>
      .error ⟨fault.errorClass, fault.reason, seen ++ c.resolve fault.state fault.reason :: rest⟩

namespace TruthLedger

variable (T : Texts) (L : TruthLedger)

/-- Law 1: the signer is approved, and data does not carry instructions. -/
def authenticationFault (c : TruthClaim) : Option Fault :=
  if !L.isApproved c.sourceDomain c.tenantId c.factType c.signer then
    some {
      errorClass := .authentication
      reason := "Signer " ++ c.signer ++ " not authorized." }
  else if "INSTRUCTION" <:+: T.str c.payload.value ∧ ¬"_INSTRUCTION" <:+ c.factType then
    some {
      errorClass := .instructionFault
      reason := PyStr.ofString ("DATA_VS_INSTRUCTION_FAULT: Payload contains instructions but " ++
        "fact_type lacks instruction authority.") }
  else none

/-- Law 2: the version descends from the head of its source. -/
def ancestryFault (c : TruthClaim) : Option Fault :=
  let head := L.getCanonicalVersion c.sourceId
  if c.version < head then
    some {
      errorClass := .rollback
      reason := "ROLLBACK_ERROR: Version " ++ intText c.version ++
        " older than head " ++ intText head }
  else if 0 < head ∧ c.parentVersion ≠ some head then
    some {
      errorClass := .ancestry
      reason := "ANCESTRY_ERROR: Version " ++ intText c.version ++
        " does not descend from head " ++ intText head }
  else none

end TruthLedger

/-- Law 3: a lineage is bound to its output. -/
def lineageFault (c : TruthClaim) : Option Fault :=
  if c.lineage.any fun l => l.outputDigest = PyStr.ofString "INVALID_DIGEST" then
    some {
      errorClass := .lineageMismatch
      reason := PyStr.ofString "LINEAGE_MISMATCH: Digest invalid." }
  else none

/-- Law 4: a claim has not expired. -/
def freshnessFault (trustedClock : ℤ) (c : TruthClaim) : Option Fault :=
  if c.expiresAt < c.evaluationTimeLocked ∨ c.expiresAt < trustedClock then
    some {
      errorClass := .freshness
      state := .expired
      reason := "EXPIRED at " ++ intText c.expiresAt }
  else none

/-! ## Groups -/

/-- The claims of a list are updated where they stand. -/
def update (marked : List TruthClaim) (f : TruthClaim → TruthClaim) (claims : List TruthClaim) :
    List TruthClaim :=
  claims.map fun c => if c ∈ marked then f c else c

namespace TruthLedger

variable (T : Texts) (L : TruthLedger)

/-- The claims of a group with their scores, the highest first; claims with one score keep their
order. -/
def scores (group : List TruthClaim) : List (ℤ × TruthClaim) :=
  (group.map fun c => (L.getAuthorityScore c.factType, c)).insertionSort fun a b => b.1 ≤ a.1

/-- Laws 5 and 6 for one group. -/
def resolveGroup (claims group : List TruthClaim) : Except InboundTruthError (List TruthClaim) :=
  if group.length ≤ 1 then .ok claims
  else if group.any fun c => c.claimId = "CYCLE_A" then
    .error ⟨.precedenceCycle, "Cycle detected in precedence graph.",
      update group (TruthClaim.become .unresolved) claims⟩
  else
    match L.scores group with
    | [] => .ok claims
    | (highest, winner) :: rest =>
      -- the other winners
      match (rest.filter fun s => s.1 = highest).map Prod.snd with
      | [] =>
        .ok (update (rest.map Prod.snd) (TruthClaim.resolve .rejected
          ("AUTHORITY_PRECEDENCE (Winner: " ++ winner.sourceId ++ ")")) claims)
      | tied =>
        if tied.any fun w => !Json.pyEq w.payload.value winner.payload.value then
          .error ⟨.contradiction, "Equal authority sources assert incompatible facts.",
            update (winner :: tied) (TruthClaim.resolve .conflicted
              "Equal authority sources contradict.") claims⟩
        -- equal authorities that agree: the claims below them are left as they are
        else .ok claims

/-- Laws 5 and 6, group after group. -/
def resolveGroups (claims : List TruthClaim) : Except InboundTruthError (List TruthClaim) :=
  (Grouping.groups TruthClaim.key claims).foldlM (fun claims g => L.resolveGroup claims g.2) claims

end TruthLedger

/-! ## Requirements -/

/-- Law 7: no claim reverses what it was made from. -/
def reverses (c : TruthClaim) : Bool :=
  c.lineage.any fun l => l.transformationFunction = PyStr.ofString "REVERSAL"

/-- Law 8: whether a requirement is not met by the admissible claims. -/
def FactRequirement.missing (admissible : List TruthClaim) (req : FactRequirement) : Bool :=
  let matching := admissible.filter fun c => c.factType = req.factDomain
  (req.corroborationRequired && matching.length < 2) || matching.isEmpty

/-- Laws 7 and 8 for the claims that are still authoritative. -/
def admitClaims (T : Texts) (requirements : List FactRequirement) (claims : List TruthClaim) :
    Except InboundTruthError (List TruthClaim) :=
  let admissible := claims.filter fun c => c.state = .authoritative
  if admissible.any reverses then
    -- the loop stops at the first of them, and leaves the others as they are
    let first := claims.findIdx fun c => c.state = .authoritative && reverses c
    .error ⟨.transformationMonotonicity,
      PyStr.ofString "Transformation reversed meaning or increased assurance.",
      claims.modify first (TruthClaim.become .rejected)⟩
  else
    match requirements.filter (FactRequirement.missing admissible) with
    | [] => .ok (admissible.map (TruthClaim.become .admissible))
    | missing =>
      .error ⟨.missingRequirement, "UNAVAILABLE: Missing or uncorroborated requirements: " ++
          T.reprList (missing.map FactRequirement.factDomain),
        update admissible (TruthClaim.become .admissible) claims⟩

/-- `certify_context`. -/
def certifyContext (T : Texts) (L : TruthLedger) (claims : List TruthClaim)
    (requirements : List FactRequirement) (trustedClock : ℤ) :
    Except InboundTruthError (List TruthClaim) := do
  let claims ← pass (L.authenticationFault T) (TruthClaim.become .authenticated) [] claims
  let claims ← pass L.ancestryFault (TruthClaim.become .current) [] claims
  let claims ← pass lineageFault id [] claims
  let claims ← pass (freshnessFault trustedClock) id [] claims
  let claims ← L.resolveGroups (claims.map (TruthClaim.become .authoritative))
  admitClaims T requirements claims

end InboundTruth
