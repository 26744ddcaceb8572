import Cappo.Lib.KeyedRows
import Cappo.Lib.Unordered
import Cappo.VdbC1.Json

/-!
# The quarantine queue

`RequestQuarantineService` of `services/safety.py`: a suspicious request is held until enough
approvers have approved it, until somebody denies it, or until its deadline has passed. The queue is
a dictionary by quarantine identifier, here the list of its values in insertion order.

An instant is counted in microseconds. `uuid4` and the clock are read by the caller of each method.
-/

namespace Governance

open VdbC1

/-! ## Floats -/

/-- The place of a float among the comparable ones. -/
def rank : PyFloat → Option (WithBot (WithTop ℚ))
  | .finite q => some ((q : WithTop ℚ) : WithBot (WithTop ℚ))
  | .inf negative => some (if negative then ⊥ else ⊤)
  | .nan => none

/-- `a < b` of floats. -/
abbrev lt (a b : PyFloat) : Bool := Unordered.lt rank a b

/-- `a <= b` of floats. -/
abbrev le (a b : PyFloat) : Bool := Unordered.le rank a b

/-! ## Anomalies -/

/-- `Severity`. -/
inductive Severity where
  | low
  | medium
  | high
  | critical
  deriving DecidableEq

/-- `RecommendedAction`: what a detector wants done. -/
inductive RecommendedAction where
  | log
  | alert
  | quarantine
  | block
  deriving DecidableEq

/-- `QuarantineStatus`. -/
inductive QuarantineStatus where
  | quarantined
  | approved
  | denied
  | autoReleased
  deriving DecidableEq

/-- `AnomalyType`. -/
inductive AnomalyType where
  | requestSpike
  | failureSpike
  | newCapabilityAccess
  | offHoursActivity
  | unusualPattern
  | capabilityMutation
  | delegationChainExploit
  deriving DecidableEq

def AnomalyType.text : AnomalyType → PyStr
  | .requestSpike => "request_spike"
  | .failureSpike => "failure_spike"
  | .newCapabilityAccess => "new_capability_access"
  | .offHoursActivity => "off_hours_activity"
  | .unusualPattern => "unusual_pattern"
  | .capabilityMutation => "capability_mutation"
  | .delegationChainExploit => "delegation_chain_exploit"

/-- `AnomalyDetection`. -/
structure AnomalyDetection where
  anomalyType : AnomalyType
  severity : Severity
  recommendedAction : RecommendedAction
  deriving DecidableEq

/-! ## Requests in quarantine -/

/-- `DEFAULT_APPROVERS_REQUIRED`. -/
def defaultApproversRequired : ℤ := 2

/-- `QUARANTINE_HOLD_SECONDS`. -/
def quarantineHoldSeconds : ℤ := 3600

/-- `QuarantinedRequest`: a request that is held until approved, denied or released. -/
structure QuarantinedRequest where
  quarantineId : PyStr
  originalRequest : List (PyStr × Json)
  originalTimestamp : ℤ
  quarantineReason : PyStr
  anomaliesDetected : List AnomalyDetection
  approvalRequired : Bool
  approversRequired : ℤ
  approvalDeadline : ℤ
  approvalsReceived : List PyStr := []
  trustSuppressionApplied : Bool := false
  suppressedTrustScore : PyFloat := .finite 0
  status : QuarantineStatus := .quarantined
  resolutionTimestamp : Option ℤ := none
  resolutionReason : Option PyStr := none
  deriving DecidableEq

/-- `RequestQuarantineService`, with the requests it holds. -/
structure RequestQuarantineService where
  quarantined : List QuarantinedRequest := []
  approversRequired : ℤ := defaultApproversRequired
  holdSeconds : ℤ := quarantineHoldSeconds
  deriving DecidableEq

/-- `now + timedelta(seconds=hold)`, which has to be a date of the years 1 to 9999. -/
def deadlineAfter (now hold : ℤ) : Option ℤ :=
  let t := now + hold * 1000000
  if -62135596800000000 ≤ t ∧ t ≤ 253402300799999999 then some t else none

namespace RequestQuarantineService

variable (s : RequestQuarantineService)

/-- `quarantine`, under a new identifier and with the two readings of the clock. The date of the
deadline is the only thing that can fail. -/
def quarantine (quarantineId : PyStr) (timestamp now : ℤ) (request : List (PyStr × Json))
    (anomalies : List AnomalyDetection) (trustSuppression : Option (Bool × PyFloat)) :
    Option (QuarantinedRequest × RequestQuarantineService) := do
  let suppression := trustSuppression.getD (false, .finite 0)
  let approvalDeadline ← deadlineAfter now s.holdSeconds
  let qr : QuarantinedRequest := {
    quarantineId
    originalRequest := request
    originalTimestamp := timestamp
    quarantineReason := PyStr.ofString "Anomalies detected: " ++
      (PyStr.ofString ", ").intercalate (anomalies.map fun a => a.anomalyType.text)
    anomaliesDetected := anomalies
    approvalRequired := anomalies.any fun a => a.severity = .high ∨ a.severity = .critical
    approversRequired := s.approversRequired
    approvalDeadline
    trustSuppressionApplied := suppression.1
    suppressedTrustScore := suppression.2 }
  return (qr, { s with quarantined := s.quarantined ++ [qr] })

end RequestQuarantineService

end Governance
