import Cappo.P5.Engine

/-!
# The truth enforcer

`p5/truth_enforcer.py`: before it lets the engine record a success, a failure or an observed effect,
the enforcer checks the authority of the caller, the decision of the policy and, when there is one,
the hash of the proof. It keeps the revoked authorities and the identifiers of the tokens it has
seen in memory, so those outlast a call that raises.
-/

namespace P5

open VdbC1 (PyStr Json)

open Checks

variable {τ : Type}

/-- What the enforcer reads of an `AuthorityArtifact`. -/
structure AuthorityArtifact where
  authorityId : PyStr
  ephemeralExecutionId : PyStr
  policyDecisionHash : PyStr
  candidateActHash : PyStr
  rights : List PyStr
  expiresAt : ℤ
  deriving DecidableEq

/-- `P5TruthIdentityError`, with what its classes are made with. -/
structure IdentityError where
  errorCode : PyStr
  reason : PyStr
  operationId : PyStr
  previousTruthState : PyStr
  attemptedTruthState : PyStr
  ephemeralExecutionId : Option PyStr
  authorityId : Option PyStr
  proofSubjectHash : Option PyStr
  deriving DecidableEq

/-- What the enforcer can raise. -/
inductive EnforcerError where
  | identity (e : IdentityError)
  | engine (e : Error)
  | notImplemented (text : PyStr)
  deriving DecidableEq

/-- The arguments of `authorize_and_record_truth`. -/
structure TruthRequest where
  operationId : PyStr
  assertedTruthState : TruthState
  authority : Option AuthorityArtifact
  cappoDecision : PyStr
  jti : Option PyStr := none
  proofType : PyStr := "cryptographic"
  cappoDecisionId : Option PyStr := none
  proofSubjectHash : Option PyStr := none
  actorIdentity : Option PyStr := none
  expectedCandidateActHash : Option PyStr := none
  isStale : Bool := false

/-- The memory of an enforcer: the tokens of the replay cache with their expiry, and the revoked
authorities. -/
structure Enforcer where
  store : List (PyStr × ℤ)
  revoked : List PyStr
  deriving DecidableEq

/-- What a call of the enforcer draws from its environment: the clock at the check of the expiry and
at that of the replay cache, and what the engine draws. -/
structure TruthEnv (τ : Type) where
  now : ℤ
  cacheNow : ℤ
  engine : Env τ

/-- A text that is neither `None` nor empty. -/
def given : Option PyStr → Option PyStr
  | some (c :: s) => some (c :: s)
  | _ => none

namespace Enforcer

/-- `check_and_store`. -/
def checkAndStore (enforcer : Enforcer) (now : ℤ) (jti : PyStr) (expiresAt : ℤ) : Bool × Enforcer :=
  let store := enforcer.store.filter fun r => ¬r.2 < now
  if jti ∈ store.map Prod.fst then (false, { enforcer with store })
  else (true, { enforcer with store := store ++ [(jti, expiresAt)] })

/-- An error about a request, when the row of its operation is `op`. -/
def denied (op : Operation) (request : TruthRequest) (errorCode reason : String) : EnforcerError :=
  .identity {
    errorCode := PyStr.ofString errorCode
    reason := PyStr.ofString reason
    operationId := request.operationId
    previousTruthState := op.currentTruthState.state.value
    attemptedTruthState := request.assertedTruthState.value
    ephemeralExecutionId := request.authority.map AuthorityArtifact.ephemeralExecutionId
    authorityId := request.authority.map AuthorityArtifact.authorityId
    proofSubjectHash := request.proofSubjectHash }

/-- Why an authority without the right to assert a truth is refused. -/
def rightsError (op : Operation) (request : TruthRequest) (rights : List PyStr) : EnforcerError :=
  if PyStr.ofString "execute" ∈ rights then
    denied op request "P5_EXECUTE_ONLY_TRUTH_DENIED" "Execute-only authority cannot assert truth"
  else if PyStr.ofString "observe" ∈ rights then
    denied op request "P5_OBSERVE_ONLY_TRUTH_DENIED" "Observe-only authority cannot assert truth"
  else if PyStr.ofString "reconcile" ∈ rights then
    denied op request "P5_RECONCILE_ONLY_TRUTH_DENIED"
      "Reconcile-only authority cannot assert truth"
  else
    denied op request "P5_MISSING_TRUTH_TRANSITION_AUTHORITY" "Missing truth.transition authority"

/-- The checks of the authority and of the decision. -/
def authorized (enforcer : Enforcer) (now : ℤ) (op : Operation) (request : TruthRequest) :
    Except EnforcerError AuthorityArtifact := do
  let authority ← ofOption (denied op request "P5_MISSING_TRUTH_TRANSITION_AUTHORITY"
    "Missing truth.transition authority") request.authority
  let stale := denied op request "P5_STALE_IDENTITY_DENIED" "Stale identity denied"
  require stale !request.isStale
  require stale (authority.authorityId ∉ enforcer.revoked)
  require (denied op request "P5_AUTHORITY_EXPIRED" "Authority is expired")
    (now ≤ authority.expiresAt)
  require (denied op request "P5_AUTHORITY_EI_MISMATCH" "Authority ephemeral execution ID mismatch")
    (some authority.ephemeralExecutionId = request.actorIdentity)
  require (denied op request "P5_AUTHORITY_CANDIDATE_ACT_MISMATCH"
    "Authority candidate act hash mismatch")
    (∀ expected ∈ given request.expectedCandidateActHash, authority.candidateActHash = expected)
  require (rightsError op request authority.rights) ("truth.transition" ∈ authority.rights)
  require (denied op request "P5_MISSING_POLICY_DECISION" "Missing policy decision hash")
    (authority.policyDecisionHash ≠ [])
  require (denied op request "P5_CONSEQUENCE_ALLOW_NOT_TRUTH_ALLOW"
    "CAPPO consequence ALLOW cannot substitute for TRUTH_ALLOW")
    (request.cappoDecision ≠ "ALLOW")
  require (denied op request "P5_CAPPO_TRUTH_DECISION_REQUIRED"
    "CAPPO truth decision is required (TRUTH_ALLOW)")
    (request.cappoDecision = "TRUTH_ALLOW")
  return authority

/-- What the proof of a request has to be about. -/
def subject (op : Operation) (request : TruthRequest) (authority : AuthorityArtifact) :
    ProofSubject where
  operationId := request.operationId
  intentHash := op.intentHash
  candidateActHash := authority.candidateActHash
  authorityId := authority.authorityId
  executionIdentity := (given request.actorIdentity).getD "None"
  sinkId := op.sinkClass
  previousTruthState := op.currentTruthState.state.value
  assertedTruthState := request.assertedTruthState.value
  consequenceIdentity := op.consequenceId
  proofType := request.proofType

/-- The call of the engine at the end. -/
def record (H : Host τ) (env : Env τ) (db : Db τ) (request : TruthRequest) :
    Except EnforcerError (Operation × Db τ) :=
  let completion : Db.Completion := {
    operationId := request.operationId
    proofType := some request.proofType
    proofSubjectHash := request.proofSubjectHash
    actorIdentity := request.actorIdentity
    cappoDecisionId := request.cappoDecisionId
    hasTruthTransition := true }
  match request.assertedTruthState with
  | .completedSuccess => (db.completeSuccess H env completion none).mapError .engine
  | .observedEffect => (db.recordObservedEffect H env request.operationId).mapError .engine
  | .completedFailure => (db.completeFailure H env completion).mapError .engine
  | state => throw (.notImplemented ("Transition to " ++ state.str ++
      " not mapped in this enforcer wrapper."))

/-- `authorize_and_record_truth`: what it returns or raises, and the memory of the enforcer. -/
def authorizeAndRecordTruth (enforcer : Enforcer) (H : Host τ) (env : TruthEnv τ) (db : Db τ)
    (request : TruthRequest) : Except EnforcerError (Operation × Db τ) × Enforcer :=
  let checked : Except EnforcerError (Operation × AuthorityArtifact × PyStr) := do
    let op ← (db.load env.engine.refreshed request.operationId).mapError .engine
    let authority ← enforcer.authorized env.now op request
    let expectedHash ← ofOption (.engine .unicodeEncode)
      (H.computeProofSubjectHash (subject op request authority))
    return (op, authority, expectedHash)
  match checked with
  | .error e => (.error e, enforcer)
  | .ok (op, authority, expectedHash) =>
    -- the token is stored before the proof is looked at
    let (new, enforcer) := match given request.jti with
      | none => (true, enforcer)
      | some jti => enforcer.checkAndStore env.cacheNow jti authority.expiresAt
    (do
      require (denied op request "P5_TRUTH_REPLAY_DENIED" "Truth transition JTI replayed") new
      require (denied op request "P5_PROOF_SUBJECT_MISMATCH" "Proof subject hash mismatch")
        (∀ hash ∈ given request.proofSubjectHash, hash = expectedHash)
      record H env.engine db request, enforcer)

end Enforcer

/-- A call of the engine or of the enforcer. -/
inductive TruthCall (τ : Type) where
  | engine (env : Env τ) (call : Call)
  | enforce (env : TruthEnv τ) (request : TruthRequest)
  | revokeIdentity (authorityId : PyStr)

/-- The tables and the enforcer. -/
structure World (τ : Type) where
  db : Db τ
  enforcer : Enforcer

namespace World

variable (w : World τ) (H : Host τ)

def init : World τ := ⟨Db.empty, ⟨[], []⟩⟩

/-- One call; what raises is rolled back. -/
def apply : TruthCall τ → World τ
  | .engine env call => { w with db := w.db.apply H (env, call) }
  | .enforce env request =>
    match w.enforcer.authorizeAndRecordTruth H env w.db request with
    | (.ok (_, db), enforcer) => ⟨db, enforcer⟩
    | (.error _, enforcer) => ⟨w.db, enforcer⟩
  | .revokeIdentity authorityId =>
    { w with enforcer := { w.enforcer with revoked := authorityId :: w.enforcer.revoked } }

def run (calls : List (TruthCall τ)) : World τ := calls.foldl (fun w call => w.apply H call) w

end World

end P5
