import Cappo.CapabilityMount.Evaluate

/-!
# Executing a consequence

The three closures of `MountRegistry._record` that append the events of an operation, and
`ExecutionBinding.consequence`, which calls them: the decision and the AUTHORIZED event, the
claim of STARTED behind the mount's fence, the target, and the report of the outcome. Each step
is a transaction of its own.
-/

namespace CapabilityMount

open VdbC1 (PyStr Json)

/-- What `consequence` passes on: the keyword arguments that are left after the local checks. -/
structure Call where
  action : PyStr
  resource : PyStr
  arguments : Json
  targetRef : PyStr
  suppressionEvidence : Option PyStr := none
  spiffeFields : Json := .null
  deriving DecidableEq

namespace Deployment

variable (D : Deployment)

/-- `build_intent_hash`, over the arguments as their `str`. -/
def intentHash (mountId executionId : PyStr) (c : Call) : PyStr :=
  D.sha256Json (.obj [("mount_id", .str mountId), ("execution_id", .str executionId),
    ("action", .str c.action),
    ("resource", .str (if c.resource = [] then star else c.resource)),
    ("normalized_args", .obj [("resource", .str (D.str (.str c.resource))),
      ("arguments", .str (D.str c.arguments)),
      ("target_ref", .str (D.str (.str c.targetRef))),
      ("spiffe_fields", .str (D.str c.spiffeFields))])])

/-- The closure's arguments of `evaluate`. An absent suppression evidence is passed as the text
`"None"`; the approval token has been dropped. -/
def evaluatorArgs (row : MountRow) (c : Call) : EvaluateArgs where
  mountId := row.mount.id
  action := c.action
  resource := some c.resource
  tokenId := row.token.tokenId
  nonce := row.token.nonce
  ownerPrincipal := row.ownerPrincipal
  ownerWorkspace := some row.ownerWorkspace
  suppressionEvidence := some (c.suppressionEvidence.getD "None")
  targetRef := some c.targetRef

/-- The AUTHORIZED event of an ALLOW. -/
def authorizedEvent (row : MountRow) (c : Call) (operationId intentHash : PyStr)
    (authorityEpoch : ℕ) (receiptId : PyStr) : Event where
  operationId := operationId
  intentHash := intentHash
  state := .authorized
  version := 0
  authorityEpoch := some authorityEpoch
  receiptId := some receiptId
  mountId := row.mount.id
  executionId := row.token.executionId
  principal := row.ownerPrincipal
  action := c.action
  resource := some c.resource
  site := .cappoEvaluator

/-- The closure `cappo_evaluator`. -/
def cappoEvaluator (row : MountRow) (c : Call) (operationId intentHash : PyStr) :
    Proc (Decision × Reason) := do
  match ← perform (.latestEvent operationId) with
  | some latest =>
    if latest.intentHash ≠ intentHash then return (.deny, .idempotencyIntentMismatch)
    else return (.deny, .idempotencyReplay latest.state)
  | none =>
    let e ← D.evaluate (evaluatorArgs row c)
    match e.decision, e.receiptId with
    | .allow, some receiptId =>
      let event := authorizedEvent row c operationId intentHash e.authorityEpoch receiptId
      perform (.write (.insertEvents [event]))
      perform .commit
      return (.allow, e.reason)
    | decision, _ => return (decision, e.reason)

end Deployment

/-- `_anchor_consequence_outcome`: never raises. -/
def anchorConsequenceOutcome (operationId outcome : PyStr) : Proc Unit :=
  tryCatch (do
    let _ ← perform (.anchor (.consequence operationId outcome))
    perform .commit) fun _ => perform .rollback

/-- The event that follows `latest` at a site of the mount service. -/
def Event.follow (latest : Event) (state : ConsequenceState) (authorityEpoch : Option ℕ)
    (proofType : Option ProofType) (site : Site) : Event :=
  { latest with
    state
    version := latest.version + 1
    authorityEpoch
    completionProofType := proofType
    site }

/-- Why the fence refuses an authorized operation. -/
def fenceRefusal (fenceRow : Option MountRow) (latest : Event) : Option Reason :=
  match fenceRow with
  | none => some .mountTerminated
  | some row =>
    if row.terminated then some .mountTerminated
    else if latest.authorityEpoch.any fun epoch => row.authorityEpoch ≠ epoch then
      some .staleAuthorityEpoch
    else none

/-- The epoch that an event records at the fence. -/
def fenceEpoch (fenceRow : Option MountRow) (latest : Event) : Option ℕ :=
  match fenceRow with
  | none => latest.authorityEpoch
  | some row => some row.authorityEpoch

/-- The closure `begin_consequence`: whether this call claimed the operation. -/
def beginConsequence (mountId operationId : PyStr) : Proc Bool := do
  let fenceRow ← perform (.lockMount mountId)
  match ← perform (.latestEvent operationId) with
  | none =>
    perform .commit
    return false
  | some latest =>
    if latest.state ≠ .authorized then
      perform .commit
      return false
    else match fenceRefusal fenceRow latest with
      | some reason =>
        let failed := latest.follow .failed (fenceEpoch fenceRow latest) (some .fenceRefusal)
          .beginConsequenceFence
        tryCatch (do
          perform (.write (.insertEvents [failed]))
          perform .commit) fun _ => perform .rollback
        anchorConsequenceOutcome operationId "refused"
        throw (.executionTerminated reason)
      | none =>
        let started := latest.follow .started (fenceEpoch fenceRow latest)
          (some .optimisticClaim) .beginConsequence
        tryCatch (do
          perform (.write (.insertEvents [started]))
          perform .commit
          return true) fun _ => do
            perform .rollback
            return false

/-- The state that a report asserts, and the proof it rests on. -/
def reportTarget (latest : ConsequenceState) (succeeded uncertain : Bool)
    (proofType : ProofType) : ConsequenceState × ProofType :=
  if uncertain then (.outcomeUnknown, .outcomeUncertain)
  else if latest = .outcomeUnknown then
    (if succeeded then .reconciledSucceeded else .reconciledFailed, proofType)
  else (if succeeded then .succeeded else .failed, proofType)

/-- The closure `completion_reporter`. -/
def completionReporter (operationId : PyStr) (succeeded uncertain : Bool)
    (proofType : ProofType) : Proc Unit := do
  match ← perform (.latestEvent operationId) with
  | none => return ()
  | some latest =>
    let (target, proof) := reportTarget latest.state succeeded uncertain proofType
    if target ≠ latest.state ∧ target ∉ latest.state.transitions then throw .invariantViolation
    else if latest.state.terminal then return ()
    else if proof.certainty < target.requiredCertainty then throw .invariantViolation
    else
      let event := latest.follow target latest.authorityEpoch (some proof) .completionReporter
      tryCatch (do
        perform (.write (.insertEvents [event]))
        perform .commit
        anchorConsequenceOutcome operationId target.value) fun _ => perform .rollback

/-- `_local_eval`. -/
def localEval (token : Token) (terminated : Bool) (c : Call) : Proc Unit := do
  checkLive token terminated
  if !token.grants.allows c.action then
    perform .audit
    throw (.policy
      (if token.grants.isBlocked c.action then .blockedAction else .notInCapabilityProfile))
  else if !token.grants.coversResource (some c.resource) then
    perform .audit
    throw (.policy .resourceNotGranted)
  else if c.action ∈ token.grants.externalSend ∧
      token.policy.requireHumanApprovalForExternalSend = true then
    perform .audit
    throw (.policy .humanApprovalNotVerified)
  else if c.action ∈ token.grants.suppressionRequired ∧
      token.policy.requireSuppressionCheck = true then
    perform .audit
    throw (.policy .suppressionNotVerified)
  else return ()

/-- The claim of an authorized operation. A refusal at the fence is passed on; any other
exception means that the operation is not owned. -/
def claim (mountId operationId : PyStr) : Proc Unit := do
  let owned ← tryCatch (beginConsequence mountId operationId) fun e =>
    match e.policyReason with
    | some _ => do
      perform .audit
      throw e
    | none => return false
  if !owned then
    perform .audit
    throw (.policy .consequenceAlreadyStarted)
  else return ()

/-- The call of the target and the report of its outcome; a report that raises is ignored. -/
def carryOut (operationId : PyStr) (fn : Proc Json) : Proc (Except Exn Json) := do
  match ← fn.attempt with
  | .error e =>
    let _ ← (completionReporter operationId false (e = .uncertain) .callbackException).attempt
    perform .audit
    return .error e
  | .ok result =>
    let _ ← (completionReporter operationId true false .callbackReturn).attempt
    perform .audit
    return .ok result

namespace Deployment

variable (D : Deployment)

/-- `ExecutionBinding.consequence` on the record of a row. What it raises before the target is
called is raised; what the target raises is returned. -/
def consequence (row : MountRow) (operationId : PyStr) (c : Call) (fn : Proc Json) :
    Proc (Except Exn Json) := do
  localEval row.token row.terminated c
  let (decision, reason) ← D.cappoEvaluator row c operationId
    (D.intentHash row.token.mountId row.token.executionId c)
  if decision ≠ .allow then
    perform .audit
    throw (.policy reason)
  else
    claim row.mount.id operationId
    carryOut operationId fn

/-- `_with_permit`: the receipt that permits are minted for, if permits are configured. -/
def withPermit (operationId : PyStr) : Proc (Option (Option PyStr)) :=
  if D.permitKey.isNone then return none
  else do
    let latest ← perform (.latestEvent operationId)
    perform .commit
    return some (latest.bind Event.receiptId)

/-- `invoke_effect`. -/
def invokeEffect (d : Dispatch) : Proc Json := do
  let permitReceipt ← D.withPermit d.operationId
  match ← perform (.dispatch d permitReceipt) with
  | .ok result => return result
  | .error e => throw e

end Deployment

end CapabilityMount
