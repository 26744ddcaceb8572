import Cappo.Lib.Checks
import Cappo.VdbC1.Canon

/-!
# Bound approval tokens

`MCPGateway._validate_bound_approval_token`: an approval token is a dictionary that names the
request, the policy snapshot, the capability and the nonce it was given for, signed with the
service's approval key. The whole check runs under one handler, so that an exception is a refusal
with the exception's text.

The check of the identities imports two functions of `services/safety.py` by name. What they compute
is a parameter here, because no module of the service defines them.
-/

namespace Gateway

open VdbC1

open Checks

/-! ## Python -/

/-- `now > x`. -/
def later (now : ℚ) : Json → Except PyStr Bool
  | .bool b => .ok ((if b then 1 else 0) < now)
  | .int n => .ok (n < now)
  | .float (.finite q) => .ok (q < now)
  | .float (.inf negative) => .ok negative
  | .float .nan => .ok false
  | x => .error ("'>' not supported between instances of 'float' and '" ++ x.typeName ++ "'")

def ascii (s : PyStr) : Bool := s.all fun c => c.val < 128

/-- `hmac.compare_digest(expected, x)`. -/
def compareDigest (expected : PyStr) : Json → Except PyStr Bool
  | .str s =>
    if ascii expected && ascii s then .ok (s = expected)
    else .error "comparing strings with non-ASCII characters is not supported"
  | x => .error (PyStr.ofString
      "unsupported operand types(s) or combination of types: 'str' and '" ++ x.typeName ++ "'")

/-- `token_payload.get(key)`. -/
def get (key : String) (fields : List (PyStr × Json)) : Json :=
  (FieldMap.lookup (PyStr.ofString key) fields).getD .null

/-- `from module import wanted`, of a module in a file that binds these names. -/
def importFrom (module file : PyStr) (names : List PyStr) : List PyStr → Except PyStr Unit :=
  forEach fun name =>
    require ("cannot import name '" ++ name ++ "' from '" ++
      module ++ "' (" ++ file ++ ")") (name ∈ names)

/-- The names that `services/safety.py` binds. -/
def safetyNames : List PyStr := [
  "annotations", "statistics", "uuid", "dataclass", "field", "datetime", "timedelta", "timezone",
  "Literal", "sha256_json", "Severity", "RecommendedAction", "QuarantineStatus", "AnomalyType",
  "ANOMALY_THRESHOLD_SIGMA", "BASELINE_MIN_OBSERVATIONS", "BASELINE_LOCK_OBSERVATIONS",
  "BASELINE_WINDOW_DAYS", "DEFAULT_APPROVERS_REQUIRED", "QUARANTINE_HOLD_SECONDS",
  "APPROVER_MIN_TRUST", "_now", "Observation", "BehavioralBaseline", "AnomalyDetection",
  "CurrentMetric", "BehavioralBaselineService", "AnomalyDetectionService", "QuarantinedRequest",
  "ApproverTrustError", "RequestQuarantineService", "SelfApprovalForbiddenError"].map PyStr.ofString

/-- The names that the check of the identities imports, in the order of the import. -/
def identityNames : List PyStr := ["extract_leaf_identity", "normalize_identity"].map PyStr.ofString

/-- What the two names denote where they are defined. -/
structure IdentityHelpers where
  normalizeIdentity : Json → Except PyStr Json
  extractLeafIdentity : Json → Except PyStr Json

namespace IdentityHelpers

variable (H : IdentityHelpers)

/-- The forms under which an identity is compared: its normal form and that of its leaf. -/
def forms (identity : Json) : Except PyStr (List Json) := do
  let norm ← H.normalizeIdentity identity
  let leaf ← H.extractLeafIdentity identity
  if leaf.truthy then
    let normLeaf ← H.normalizeIdentity leaf
    return if normLeaf.truthy then [norm, normLeaf] else [norm]
  else return [norm]

end IdentityHelpers

/-! ## The check -/

/-- What a token has to be bound to. -/
structure BoundRequest where
  requestHash : PyStr
  policySnapshotId : PyStr
  capabilityId : PyStr
  requestNonce : PyStr
  requesterId : Option PyStr := none
  deriving DecidableEq

/-- The claims of a token that name an identity. -/
def tokenApproverClaims (fields : List (PyStr × Json)) : List Json :=
  [get "approver_id" fields, get "agent_id" fields, get "subject" fields,
    get "actor_identity" fields, get "requester_id" fields]

/-- The part of a token that its signature covers. -/
def approvalTokenSignaturePayload (fields : List (PyStr × Json)) : Json :=
  .obj [("approver_id", get "approver_id" fields), ("capability_id", get "capability_id" fields),
    ("expires_at", get "expires_at" fields),
    ("nonce", get "nonce" fields),
    ("policy_snapshot_id", get "policy_snapshot_id" fields),
    ("request_hash", get "request_hash" fields)]

/-- A gateway at the moment of a check: the file of the imported module, the clock, the spent
nonces, the signing key, and HMAC-SHA256 over the canonical JSON of a dictionary, which has no
encoding for some texts. -/
structure MCPGateway where
  safetyFile : PyStr
  now : ℚ
  isNonceSpent : PyStr → Except PyStr Bool
  approvalTokenSigningKey : PyStr
  hmacSha256 : Json → PyStr → Except PyStr { digest : Bytes // digest.length = 32 }

/-- `(valid, approver, message)`. -/
structure TokenVerdict where
  valid : Bool
  approver : Option Json
  message : PyStr
  deriving DecidableEq

namespace MCPGateway

variable (G : MCPGateway) (H : IdentityHelpers)

/-- `sign_payload_hmac`. -/
def signPayloadHmac (payload : Json) (hmacKey : PyStr) : Except PyStr PyStr := do
  let digest ← G.hmacSha256 payload hmacKey
  return VdbC1.Platform.b64u digest.val

/-- `verify_signature_hmac`. -/
def verifySignatureHmac (payload signature : Json) (hmacKey : PyStr) : Except PyStr Bool := do
  let expected ← G.signPayloadHmac payload hmacKey
  compareDigest expected signature

/-- The claims of the token that name an identity are not the requester's. -/
def checkOwnIdentity (requesterId : PyStr) (fields : List (PyStr × Json)) : Except PyStr Unit := do
  let own ← H.forms (.str requesterId)
  forEach (fun candidate =>
    if candidate.truthy then do
      let forms ← H.forms candidate
      require ("SELF_APPROVAL_FORBIDDEN: requester '" ++ requesterId ++
        "' cannot approve own request")
        !(forms.any fun a => own.any fun b => Json.pyEq a b)
    else .ok ()) (tokenApproverClaims fields)

/-- The separation of requester and approver, of a request that names its requester. -/
def checkSeparation (requesterId : Option PyStr) (fields : List (PyStr × Json)) :
    Except PyStr Unit :=
  match requesterId with
  | none => .ok ()
  | some r => if r = [] then .ok () else checkOwnIdentity H r fields

/-- The signature of the token. -/
def checkSignature (fields : List (PyStr × Json)) : Except PyStr Unit := do
  let invalid := PyStr.ofString "Invalid cryptographic signature on approval token."
  require invalid (get "signature" fields).truthy
  require (PyStr.ofString "Approval token verifier is not configured.")
    (G.approvalTokenSigningKey ≠ [])
  let verified ← G.verifySignatureHmac (approvalTokenSignaturePayload fields)
    (get "signature" fields) G.approvalTokenSigningKey
  require invalid verified

/-- The checks after the import. A refusal and an exception are both an error with their text. -/
def checkBindings (fields : List (PyStr × Json)) (q : BoundRequest) : Except PyStr Json := do
  checkSeparation H q.requesterId fields
  let spent ← G.isNonceSpent q.requestNonce
  require (PyStr.ofString
    "Token reuse detected. This nonce has already been marked spent in Redis.") !spent
  require (PyStr.ofString
    "Token nonce mismatch. Approval is not bound to this specific request instance.")
    (Json.pyEq (get "nonce" fields) (.str q.requestNonce))
  let expired ← later G.now ((FieldMap.lookup (PyStr.ofString "expires_at") fields).getD (.int 0))
  require (PyStr.ofString "Approval token has expired.") !expired
  require (PyStr.ofString "Token request_hash mismatch. Payload was altered after approval.")
    (Json.pyEq (get "request_hash" fields) (.str q.requestHash))
  require (PyStr.ofString
    "Token policy_snapshot mismatch. Governing policy changed after approval.")
    (Json.pyEq (get "policy_snapshot_id" fields) (.str q.policySnapshotId))
  require (PyStr.ofString "Token capability mismatch. Action scope changed after approval.")
    (Json.pyEq (get "capability_id" fields) (.str q.capabilityId))
  G.checkSignature fields
  return (FieldMap.lookup (PyStr.ofString "approver_id") fields).getD
    (.str (PyStr.ofString "unknown_human"))

/-- The check, where the module of the identities binds these names. -/
def validateWith (names : List PyStr) (token : Json) (q : BoundRequest) : TokenVerdict :=
  let result : Except PyStr Json :=
    match token with
    | .obj fields => do
      importFrom "cappo_backend.services.safety" G.safetyFile names identityNames
      G.checkBindings H fields q
    | _ => .error "Token must be a structured payload."
  match result with
  | .ok approver => ⟨true, some approver, "Valid"⟩
  | .error text => ⟨false, none, text⟩

/-- `_validate_bound_approval_token`. -/
def validateBoundApprovalToken (token : Json) (q : BoundRequest) : TokenVerdict :=
  G.validateWith H safetyNames token q

end MCPGateway

end Gateway
