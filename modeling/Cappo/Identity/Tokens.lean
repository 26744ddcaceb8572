import Cappo.Lib.Checks
import Cappo.VdbC1.Python

/-!
# Workload identity tokens

The dataclasses of `identity/models.py`, built from the dictionaries of a request, and the errors of
`identity/errors.py`. Python checks the names of the members and not their types, so that a member
is any JSON value. Of the tokens only the members that the checks read are kept; of a workload
proof, which is compared as a whole, all of them.
-/

namespace Identity

open VdbC1

/-- A dictionary. -/
abbrev Dict := List (PyStr × Json)

/-- `WorkloadIdentityToken`. -/
structure WorkloadIdentityToken where
  sub : Json
  aud : Json
  exp : Json
  jti : Json

/-- `WorkloadIdentityToken(**payload)`. -/
def WorkloadIdentityToken.ofPayload (payload : Dict) : Option WorkloadIdentityToken := do
  let get ← construct ["iss", "sub", "aud", "exp", "iat", "jti", "cnf"]
    ["trust_domain", "profile_id"] payload
  return ⟨get "sub", get "aud", get "exp", get "jti"⟩

/-- `ExecutionContextToken`. -/
structure ExecutionContextToken where
  aud : Json
  exp : Json
  ephemeralExecutionId : Json
  candidateActHash : Json

/-- `ExecutionContextToken(**payload)`. -/
def ExecutionContextToken.ofPayload (payload : Dict) : Option ExecutionContextToken := do
  let get ← construct ["iss", "sub", "aud", "exp", "iat", "jti", "ephemeral_execution_id",
    "candidate_act_hash", "cnf"] ["workflow_id", "task_id", "intent_hash", "p5_operation_id"]
    payload
  return ⟨get "aud", get "exp", get "ephemeral_execution_id", get "candidate_act_hash"⟩

/-- `WorkloadProofToken`. -/
structure WorkloadProofToken where
  htm : Json
  htu : Json
  bodyHash : Json
  witHash : Json
  ectHash : Json
  authorityHash : Json
  jti : Json
  cnf : Json
  exp : Json

namespace WorkloadProofToken

/-- `WorkloadProofToken(**payload)`. -/
def ofPayload (payload : Dict) : Option WorkloadProofToken := do
  let get ← construct ["htm", "htu", "body_hash", "wit_hash", "ect_hash", "authority_hash", "jti",
    "cnf"] ["exp"] payload
  return ⟨get "htm", get "htu", get "body_hash", get "wit_hash", get "ect_hash",
    get "authority_hash", get "jti", get "cnf", get "exp"⟩

/-- The members as a list, which is how a dataclass is compared. -/
def members (w : WorkloadProofToken) : Json :=
  .arr [w.htm, w.htu, w.bodyHash, w.witHash, w.ectHash, w.authorityHash, w.jti, w.cnf, w.exp]

end WorkloadProofToken

/-- `AuthorityArtifact`. -/
structure AuthorityArtifact where
  ephemeralExecutionId : Json
  candidateActHash : Json
  expiresAt : Json

/-- `AuthorityArtifact(**payload)`. -/
def AuthorityArtifact.ofPayload (payload : Dict) : Option AuthorityArtifact := do
  let get ← construct ["authority_id", "ephemeral_execution_id", "scope_hash",
    "policy_decision_hash", "candidate_act_hash", "destination_hash", "rights", "issued_at",
    "expires_at", "proof_of_possession"] ["inbound_truth_state", "required_truth_state"] payload
  return ⟨get "ephemeral_execution_id", get "candidate_act_hash", get "expires_at"⟩

/-! ## Errors -/

/-- The classes of `IdentityValidationError`. -/
inductive ErrorClass where
  | missingWorkloadIdentity
  | missingExecutionContext
  | missingWorkloadProof
  | missingAuthority
  | executionContextLeaseMismatch
  | tokenExpired
  | audienceMismatch
  | bodyHashMismatch
  | requestBindingMismatch
  | candidateActMismatch
  | authorityHashMismatch
  | replayDenied
  | malformedWorkloadIdentifier
  | profileOnlyDenied
  deriving DecidableEq, Repr

/-- An exception: an `IdentityValidationError` with the identities it names, or another one. The
route, the method and the trace of the request are the request's own. -/
inductive Fault where
  | identity (cls : ErrorClass) (workloadIdentifier ephemeralExecutionId : Option Json)
  | raised

end Identity
