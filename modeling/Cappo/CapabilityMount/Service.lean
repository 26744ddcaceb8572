import Cappo.CapabilityMount.Consequence

/-!
# The mount service

The operations of `MountRegistry`, `ConsequenceLifecycleRecorder` and
`ConsequenceLifecycleExecutor`, and the reconciler endpoint, as programs of sessions. A session
serves one `Request` and is closed afterwards.
-/

namespace CapabilityMount

open VdbC1 (PyStr Json)

/-- A caller, as `_owned_by` is asked about it. -/
structure Owner where
  principal : PyStr
  workspace : Option PyStr
  deriving DecidableEq

def MountRow.isOwnedBy (row : MountRow) (owner : Owner) : Bool :=
  row.ownedBy owner.principal owner.workspace

/-! ## Termination -/

/-- `_settle_in_flight`, with a number of polls after the first. -/
def settleInFlight (mountId : PyStr) : ℕ → Proc (List PyStr)
  | 0 => do
    let inFlight ← perform (.inFlight mountId)
    perform .commit
    return inFlight
  | polls + 1 => do
    let inFlight ← perform (.inFlight mountId)
    perform .commit
    if inFlight.isEmpty then return inFlight else settleInFlight mountId polls

/-- The arguments of `terminate_with_in_flight`, and how often it polls before it returns. -/
structure TerminateArgs where
  mountId : PyStr
  reason : UnmountReason
  owner : Owner
  polls : ℕ := 0
  deriving DecidableEq

/-- What `terminate_with_in_flight` returns; the anchor is left out. -/
structure Termination where
  decision : Decision
  reason : Reason
  inFlight : List PyStr := []
  deriving DecidableEq

/-- A termination that is refused and anchored as such. -/
def terminateDenied (q : TerminateArgs) (reason : Reason) : Proc Termination := do
  let _ ← perform (.anchor (.terminate q.mountId .deny reason))
  perform .commit
  return { decision := .deny, reason }

/-- The answer after the fence has committed. -/
def settled (q : TerminateArgs) (reason : Reason) : Proc Termination := do
  let inFlight ← settleInFlight q.mountId q.polls
  return {
    decision := .allow
    reason := if inFlight.isEmpty then reason else .terminatedInFlight
    inFlight }

/-- The lease of a terminated mount is revoked. -/
def revokeLease (mountId : PyStr) : Proc Unit := do
  match ← perform (.lease mountId) with
  | none => return ()
  | some lease =>
    if lease.leaseState = .issued ∨ lease.leaseState = .active then
      match lease.transitionState .revoked (max (lease.revocationEpoch + 1) lease.authorityEpoch)
      with
      | .ok revoked => perform (.write (.updateLease mountId (revoked.changes lease)))
      | .error _ => throw .other
    else return ()

/-- The fence. -/
def terminateRow (q : TerminateArgs) (row : MountRow) : Proc Termination := do
  let anchor ← perform (.anchor (.terminate q.mountId .allow (.unmount q.reason)))
  if !anchor.accepted then
    perform .rollback
    return { decision := .deny, reason := .pglAnchorUnconfirmed }
  else
    perform (.write (.updateMount q.mountId (.terminate (row.epoch + 1))))
    perform (.markRevoked q.mountId)
    revokeLease q.mountId
    perform .commit
    settled q .terminated

/-- `terminate_with_in_flight`. -/
def terminateWithInFlight (q : TerminateArgs) : Proc Termination := do
  match ← perform (.lockMount q.mountId) with
  | none => terminateDenied q .unknownMount
  | some row =>
    if !row.isOwnedBy q.owner then terminateDenied q .ownerMismatch
    else if row.terminated then
      perform .commit
      settled q .alreadyTerminated
    else terminateRow q row

/-! ## Execution -/

/-- The arguments of `execute_consequence`. -/
structure ExecuteArgs where
  mountId : PyStr
  tokenId : PyStr
  nonce : PyStr
  owner : Owner
  call : Call
  operationId : Option PyStr := none
  substrateId : Option PyStr := none
  bootInstanceId : Option PyStr := none
  runtimeKeyThumbprint : Option PyStr := none
  stateRoot : Option PyStr := none
  authorityEpoch : Option ℤ := none
  deriving DecidableEq

/-- What `execute_consequence` returns; the anchoring block and the echo of the request are left
out. -/
structure Execution where
  operationId : PyStr
  decision : Decision
  reason : Reason
  consequenceState : Option ConsequenceState := none
  targetInvoked : Bool := false
  resultingState : Option Json := none
  receiptId : Option PyStr := none
  terminated : Bool := false
  deriving DecidableEq

/-- The substrate that a mount is bound to. -/
def substrateReason (q : ExecuteArgs) (mount : Mount) : Option Reason :=
  if mount.substrateId.isSome ∧ q.substrateId ≠ mount.substrateId then
    some .substrateIdMismatch
  else if mount.substrateId.isSome ∧ q.bootInstanceId ≠ mount.bootInstanceId then
    some .bootInstanceIdMismatch
  else if mount.substrateId.isSome ∧ q.runtimeKeyThumbprint ≠ mount.runtimeKeyThumbprint then
    some .runtimeKeyThumbprintMismatch
  else if mount.stateRoot.isSome ∧ q.stateRoot ≠ mount.stateRoot then some .stateRootMismatch
  else none

/-- The epoch that a caller has to present. -/
def effectiveEpoch (row : MountRow) (lease : Option Lease) : ℤ :=
  let leaseEpoch : ℤ := (lease.map Lease.authorityEpoch).getD 0
  let rowEpoch : ℤ := if row.terminated then 1 else row.epoch
  max leaseEpoch (if 1 < rowEpoch then rowEpoch else 0)

/-- The epoch of the request is not behind; a request without one is of the first epoch. -/
def epochReason (q : ExecuteArgs) (row : MountRow) (lease : Option Lease) : Option Reason :=
  match q.authorityEpoch with
  | some epoch => if epoch < effectiveEpoch row lease then some .staleAuthorityEpoch else none
  | none => if 1 < effectiveEpoch row lease then some .staleAuthorityEpoch else none

/-- The operation that a request asks for. -/
def Call.operation (c : Call) : BoundOperation where
  targetRef := c.targetRef
  action := c.action
  resource := c.resource
  arguments := c.arguments

/-- `SANDBOX_PROJECT`. -/
def sandboxProject : PyStr := "sandbox"

namespace Deployment

variable (D : Deployment)

variable (q : ExecuteArgs) (row : MountRow)

/-- The start claim and the target that a package asks for. -/
def packageReason : Option Reason :=
  match D.packages row.token.packageRef with
  | none => none
  | some package =>
    if package.requiresStartClaim ∧
        (q.operationId.isNone ∨ row.startClaimOperationId ≠ q.operationId) then
      some .startNotClaimed
    else if (package.targetRef.filter fun t => t ≠ []).any fun t => q.call.targetRef ≠ t then
      some .targetNotBoundToPackage
    else none

/-- The adapter that a request is to be dispatched to. -/
def adapterReason : Option Reason :=
  match D.targetAdapters q.call.targetRef with
  | none => some .unknownEffectTarget
  | some adapter =>
    if q.call.action ∉ adapter.actions then some .effectNotMapped
    else if row.mount.scope.project = sandboxProject ∧ adapter.projectIsolated = false then
      some .targetHasNoSandbox
    else if validResource q.call.resource = false then some .invalidEffectResource
    else none

/-- The checks of a request against the package, the bound operation and the target. -/
def targetReason : Except Exn (Option Reason) :=
  match D.packageReason q row with
  | some reason => .ok (some reason)
  | none => do
    match ← D.envelopeRefusal row.token q.call.operation with
    | some reason => return some reason
    | none => return D.adapterReason q row

/-- The checks of `execute_consequence` that neither consume nor terminate. -/
def preflight : Proc (Option Reason) :=
  match substrateReason q row.mount with
  | some reason => return some reason
  | none => do
    let lease ← perform (.lease q.mountId)
    match epochReason q row lease with
    | some reason => return some reason
    | none =>
      let now ← perform .now
      if row.terminated = false ∧ now < row.expiresAt ∧
          (q.tokenId ≠ row.tokenId ∨ q.nonce ≠ row.tokenNonce) then
        return some .tokenMismatch
      else match D.targetReason q row with
        | .ok reason => return reason
        | .error e => throw e

end Deployment

/-- A refusal before anything is decided. -/
def preflightDenied (operationId : PyStr) (reason : Reason) : Proc Execution := do
  perform .commit
  return { operationId, decision := .deny, reason }

/-- Whether a request that was decided ends the mount. -/
def shouldTerminate (mountId : PyStr) (reason : Reason) : Proc Bool :=
  if (PyStr.ofString "idempotency_replay:").isPrefixOf reason.text then return false
  else if reason.text = "consequence_already_started" then return false
  else if reason.text = "nonce_replayed" then do
    let inFlight ← perform (.inFlight mountId)
    perform .commit
    return inFlight.isEmpty
  else return true

/-- The end of a request: unless it must not, it terminates the mount. -/
def finish (q : ExecuteArgs) (result : Execution) : Proc Execution := do
  if ← shouldTerminate q.mountId result.reason then
    let t ← terminateWithInFlight
      { mountId := q.mountId, reason := .taskComplete, owner := q.owner }
    return { result with terminated := t.decision = .allow }
  else return result

/-- The exceptions that are reported in the answer: policy errors, and what a target says of its
own input. -/
def Exn.isReported : Exn → Bool
  | .value _ => true
  | e => e.policyReason.isSome

/-- The answer to a decided request. What a target says of its own input is a refusal only if the
operation is recorded as failed. -/
def reportLatest (q : ExecuteArgs) (operationId : PyStr) (invoked : Bool)
    (outcome : Except Exn Json) : Proc Execution := do
  let latest ← perform (.latestEvent operationId)
  let result : Execution := {
    operationId
    decision := .allow
    reason := .allowed
    consequenceState := latest.map Event.state
    targetInvoked := invoked
    receiptId := latest.bind Event.receiptId }
  match outcome with
  | .ok value => finish q { result with resultingState := some value }
  | .error (.value text) =>
    if latest.map Event.state = some .failed then
      finish q { result with decision := .deny, reason := .targetRejected text }
    else throw (.value text)
  | .error e =>
    finish q { result with decision := .deny, reason := e.policyReason.getD .allowed }

/-- What `execute_consequence` does after the binding: the other exceptions are raised. -/
def report (q : ExecuteArgs) (operationId : PyStr) (invoked : Bool)
    (outcome : Except Exn Json) : Proc Execution :=
  match outcome with
  | .ok value => reportLatest q operationId invoked (.ok value)
  | .error e =>
    if e.isReported then reportLatest q operationId invoked (.error e) else throw e

namespace Deployment

variable (D : Deployment)

/-- The answer to a request whose operation is already recorded. -/
def replayed (row : MountRow) (q : ExecuteArgs) (operationId : PyStr) (latest : Event) :
    Proc Execution := do
  perform .commit
  return {
    operationId
    decision := .deny
    reason :=
      if latest.intentHash ≠ D.intentHash row.mount.id row.token.executionId q.call then
        .idempotencyIntentMismatch
      else .idempotencyReplay latest.state
    consequenceState := some latest.state
    receiptId := latest.receiptId }

/-- The event that an operation with a given id already has. -/
def recorded (q : ExecuteArgs) : Proc (Option Event) :=
  match q.operationId with
  | none => return none
  | some operationId => perform (.latestEvent operationId)

/-- Decide and carry out a request that passed the preflight. -/
def authorizeAndExecute (row : MountRow) (q : ExecuteArgs) (operationId : PyStr) :
    Proc Execution := do
  let d : Dispatch := .execute operationId row.mount.id row.token.packageRef q.call.targetRef
    q.call.action q.call.resource q.call.arguments
  match ← (D.consequence row operationId q.call (D.invokeEffect d)).attempt with
  | .ok outcome => report q operationId true outcome
  | .error e => report q operationId false (.error e)

/-- `execute_consequence`. -/
def executeConsequence (q : ExecuteArgs) : Proc Execution := do
  let random ← perform .fresh
  let operationId := (q.operationId.filter fun o => o ≠ []).getD random
  match ← perform (.lockMount q.mountId) with
  | none => preflightDenied operationId .unknownMount
  | some row =>
    if !row.isOwnedBy q.owner then preflightDenied operationId .ownerMismatch
    else
      match ← D.preflight q row with
      | some reason => preflightDenied operationId reason
      | none =>
        match ← recorded q with
        | some latest => D.replayed row q operationId latest
        | none => D.authorizeAndExecute row q operationId

end Deployment

/-! ## Redemption -/

/-- The arguments of `redeem_consequence`. -/
structure RedeemArgs where
  operationId : PyStr
  permit : PyStr
  payloadSha256 : PyStr
  sinkRef : Option PyStr := none
  targetSignature : Option PyStr := none
  deriving DecidableEq

variable (q : RedeemArgs)

/-- A refusal. The transaction is rolled back; if the mount is known, the refusal is anchored. -/
def refuse (reason : Reason) (record : Bool) : Proc (Decision × Reason) := do
  perform .rollback
  if record then
    anchorConsequenceOutcome q.operationId "redeem_refused"
    return (.deny, reason)
  else return (.deny, reason)

/-- What is redeemed. -/
def RedeemArgs.redemption (latest : Event) (mountId sinkRef : PyStr) : Redemption where
  operationId := q.operationId
  mountId := mountId
  receiptId := latest.receiptId
  payloadSha256 := q.payloadSha256
  sinkRef := sinkRef

/-- The permit that has to be presented. -/
def RedeemArgs.expectedPermit (latest : Event) (mountId sinkRef : PyStr) : Permit where
  operationId := q.operationId
  mountId := mountId
  receiptId := latest.receiptId
  payloadSha256 := q.payloadSha256
  targetRef := sinkRef

/-- The redemption once the permit is known to match. -/
def redeemMatched (latest : Event) (mountId sinkRef : PyStr) : Proc (Decision × Reason) := do
  perform (.write (.insertRedemption (q.redemption latest mountId sinkRef)))
  match ← (perform .commit).attempt with
  | .ok () => return (.allow, .redeemed)
  | .error .integrity => refuse q .alreadyRedeemed true
  | .error e => throw e

/-- The redemption under the lock of the mount. -/
def redeemLocked (key : VdbC1.Bytes) (row : MountRow) (mountId sinkRef : PyStr) :
    Proc (Decision × Reason) :=
  if row.terminated then refuse q .mountTerminated true
  else do
    let now ← perform .now
    if row.expiresAt ≤ now then refuse q .mountExpired true
    else
      match ← perform (.latestEvent q.operationId) with
      | none => throw .other
      | some latest =>
        if latest.state ≠ .started then refuse q (.operationNotDispatched latest.state) true
        else if !(← perform
            (.permitMatches key q.permit (q.expectedPermit latest mountId sinkRef))) then
          refuse q .permitMismatch true
        else redeemMatched q latest mountId sinkRef

/-- The redemption of an authenticated target: the operation is read to find its mount, and
again under the mount's lock. -/
def redeemAuthenticated (key : VdbC1.Bytes) (sinkRef : PyStr) : Proc (Decision × Reason) := do
  match ← perform (.latestEvent q.operationId) with
  | none => refuse q .unknownOperation false
  | some first =>
    if first.mountId = [] then refuse q .unknownOperation false
    else
      perform .commit
      match ← perform (.lockMount first.mountId) with
      | none => refuse q .unknownMount false
      | some row => redeemLocked q key row first.mountId sinkRef

namespace Deployment

variable (D : Deployment)

/-- The key pinned for a target. -/
def pinnedKey (sinkRef : PyStr) : Option PyStr :=
  ((D.targetAdapters sinkRef).bind TargetAdapter.redeemPublicKeyHex).filter fun k => k ≠ []

/-- Whether the request is signed by the target's pinned key; it raises when the message has no
encoding. -/
def signatureVerifies (q : RedeemArgs) (sinkRef pinned : PyStr) : Option Bool := do
  let message ← D.redeemMessage q.operationId q.payloadSha256 q.permit sinkRef
  return D.signatureValid pinned (q.targetSignature.getD []) message

/-- `redeem_consequence`. -/
def redeemConsequence (q : RedeemArgs) : Proc (Decision × Reason) :=
  match D.permitKey, q.sinkRef.filter fun s => s ≠ [] with
  | none, _ => refuse q .permitsNotConfigured false
  | some _, none => refuse q .targetIdentityRequired false
  | some key, some sinkRef =>
    match D.pinnedKey sinkRef with
    | none => refuse q .targetNotRegisteredForRedemption false
    | some pinned =>
      match D.signatureVerifies q sinkRef pinned with
      | none => throw (.value [])
      | some false => refuse q .targetSignatureInvalid false
      | some true => redeemAuthenticated q key sinkRef

end Deployment

/-! ## Epochs, handovers and start claims -/

/-- The lease follows the epoch of its mount. -/
def alignLease (mountId : PyStr) (epoch : ℕ) : Proc Unit := do
  match ← perform (.lease mountId) with
  | none => return ()
  | some lease =>
    if lease.authorityEpoch < epoch then
      let aligned : Lease := { lease with authorityEpoch := epoch }
      perform (.write (.updateLease mountId (aligned.changes lease)))
    else return ()

/-- The row of a live mount for its owner; the checks of `advance_epoch` and
`handover_incarnation`. -/
def liveRow (mountId : PyStr) (owner : Owner) : Proc MountRow := do
  match ← perform (.lockMount mountId) with
  | none =>
    perform .commit
    throw (.value ("unknown_mount: " ++ mountId))
  | some row =>
    if !row.isOwnedBy owner then
      perform .commit
      throw .permission
    else if row.terminated then
      perform .commit
      throw .runtime
    else return row

/-- `advance_epoch`. -/
def advanceEpoch (mountId : PyStr) (owner : Owner) : Proc ℕ := do
  let row ← liveRow mountId owner
  perform (.write (.updateMount mountId (.advance (row.epoch + 1))))
  alignLease mountId (row.epoch + 1)
  perform .commit
  return row.epoch + 1

/-- The arguments of `handover_incarnation`. -/
structure HandoverArgs where
  mountId : PyStr
  decisionHash : PyStr
  reason : PyStr
  owner : Owner

/-- What `handover_incarnation` returns. -/
structure Handover where
  incarnation : ℕ
  previousAuthorityEpoch : ℕ
  authorityEpoch : ℕ
  tokenId : PyStr
  nonce : PyStr
  previousHistoryHead : PyStr
  historyHead : PyStr
  deriving DecidableEq

namespace Deployment

variable (D : Deployment)

/-- The history head that a handover starts from. -/
def previousHead (mountId : PyStr) (row : MountRow) : Option PyStr :=
  match row.mount.historyHead.filter fun h => h ≠ [] with
  | some head => some head
  | none => D.sha256Text ("genesis:" ++ mountId ++ ":" ++
      row.tokenId ++ ":" ++ JsonText.decimal row.epoch)

/-- The history head of the successor. -/
def nextHead (q : HandoverArgs) (row : MountRow) (previous tokenId : PyStr) : Option PyStr :=
  D.sha256Text (previous ++ ":" ++ q.mountId ++ ":" ++
    JsonText.decimal row.epoch ++ "->" ++ JsonText.decimal (row.epoch + 1) ++
    ":" ++ q.decisionHash ++ ":" ++ tokenId)

/-- `handover_incarnation`. -/
def handoverIncarnation (q : HandoverArgs) : Proc Handover := do
  let row ← liveRow q.mountId q.owner
  let tokenId ← perform .fresh
  let nonce ← perform .fresh
  match D.previousHead q.mountId row with
  | none => throw (.value [])
  | some previous =>
    match D.nextHead q row previous tokenId with
    | none => throw (.value [])
    | some next =>
      let incarnation := (if row.mount.incarnation = 0 then 1 else row.mount.incarnation) + 1
      perform (.write (.updateMount q.mountId (.handover (row.epoch + 1) tokenId nonce
        incarnation previous next q.decisionHash q.reason)))
      alignLease q.mountId (row.epoch + 1)
      let _ ← perform (.anchor (.handover q.mountId q.reason))
      perform .commit
      return {
        incarnation
        previousAuthorityEpoch := row.epoch
        authorityEpoch := row.epoch + 1
        tokenId
        nonce
        previousHistoryHead := previous
        historyHead := next }

end Deployment

/-- The arguments of `claim_start`. -/
structure ClaimStartArgs where
  mountId : PyStr
  tokenId : PyStr
  nonce : PyStr
  operationId : PyStr
  owner : Owner

/-- The decision of `claim_start` on a locked row; the last case writes the claim. -/
def claimStartRow (q : ClaimStartArgs) (row : MountRow) : Proc (Decision × Reason) :=
  if !row.isOwnedBy q.owner then return (.deny, .ownerMismatch)
  else if row.terminated then return (.deny, .terminated)
  else do
    let now ← perform .now
    if row.expiresAt ≤ now then return (.deny, .expired)
    else if row.nonceConsumed then return (.deny, .tokenReplay)
    else if q.tokenId ≠ row.tokenId ∨ q.nonce ≠ row.tokenNonce then
      return (.deny, .tokenMismatch)
    else if row.startClaimOperationId = some q.operationId then
      return (.allow, .startClaimReplayed)
    else if row.startClaimOperationId.isSome then return (.deny, .startAlreadyClaimed)
    else
      perform (.write (.updateMount q.mountId (.claimStart q.operationId)))
      return (.allow, .startClaimed)

/-- `claim_start`; whatever is decided is committed. -/
def claimStart (q : ClaimStartArgs) : Proc (Decision × Reason) := do
  match ← perform (.lockMount q.mountId) with
  | none =>
    perform .commit
    return (.deny, .unknownMount)
  | some row =>
    let r ← (claimStartRow q row).attempt
    perform .commit
    match r with
    | .ok answer => return answer
    | .error e => throw e

/-! ## Mounts -/

/-- A principal that a mount cannot be bound to. -/
def unverified (principal : PyStr) : Bool :=
  principal = "auth-disabled" || principal = "legacy-unbound" || principal = []

/-- A request that is refused and anchored as such. -/
def mountDenied (reason : Reason) : Proc (Option MountRow × Reason) := do
  let _ ← perform (.anchor (.mount .deny reason))
  perform .commit
  return (none, reason)

/-- The lease of a new mount. -/
def newLease (mount : Mount) (token : Token) (caller executor : PyStr) (now : ℤ) : Lease where
  leaseId := "lease_" ++ mount.id
  mountId := mount.id
  subjectSpiffeId := caller
  executorSpiffeId := executor
  expiresAt := token.expiresAt
  leaseState := .active
  allowedActions := token.grants.reads ++ token.grants.writes ++ token.grants.externalSend
  allowedResources := if token.grants.resources.isEmpty then [star] else token.grants.resources
  updatedAt := now

/-- The row of a new mount. -/
def newRow (q : MountArgs) (mount : Mount) (token : Token) : MountRow where
  mountId := mount.id
  tokenId := token.tokenId
  tokenNonce := token.nonce
  ownerPrincipal := q.ownerPrincipal
  ownerWorkspace := (q.ownerWorkspace.filter fun w => w ≠ []).getD q.scope.workspace
  mount := mount
  token := token
  expiresAt := token.expiresAt

/-- A mount that was signed is anchored and stored with its lease. -/
def storeMount (q : MountArgs) (mount : Mount) (token : Token) (caller executor : PyStr)
    (now : ℤ) : Proc (Option MountRow × Reason) := do
  let anchor ← perform (.anchor (.mount .allow .mounted))
  if !anchor.accepted then
    perform .rollback
    return (none, .pglAnchorUnconfirmed)
  else
    perform (.write (.insertMount (newRow q mount token)
      (newLease mount token caller executor now)))
    perform .commit
    return (some (newRow q mount token), .mounted)

namespace Deployment

variable (D : Deployment)

/-- Why a request is refused before a mount is made. -/
def candidateReason (q : MountArgs) : Option Reason :=
  match q.authorityEvaluation with
  | some (.deny, _) => some .authorityDenied
  | some (.allow, permitted) => if q.packageRef ∈ permitted then none else some .bindingMismatch
  | none => none

/-- The mount with the head of its history. -/
def withGenesis (mount : Mount) (token : Token) : Option Mount :=
  (D.sha256Text ("genesis:" ++ mount.id ++ ":" ++ token.tokenId ++ ":1")).map fun head =>
      { mount with incarnation := 1, historyHead := some head }

/-- The mount of a known package. -/
def mountPackage (package : CapabilityPackage) (q : MountArgs) (ids : MountIds) :
    Proc (Option MountRow × Reason) := do
  let now ← perform .now
  match D.mount package q ids now with
  | .error (.mountRefused reason) => return (none, reason)
  | .error e => throw e
  | .ok (mount, token) =>
    match D.withGenesis mount token with
    | none => throw (.value [])
    | some mount =>
      let caller := (q.callerSpiffeId.filter fun s => s ≠ []).getD q.ownerPrincipal
      let executor := (q.executorSpiffeId.filter fun s => s ≠ []).getD q.ownerPrincipal
      if unverified caller || unverified executor then
        perform .rollback
        return (none, .missingVerifiedPrincipal)
      else
        let token := { token with biscuitToken := some (D.mintBiscuit token caller executor) }
        storeMount q mount token caller executor now

/-- `request_mount`. -/
def requestMount (q : MountArgs) : Proc (Option MountRow × Reason) :=
  match candidateReason q with
  | some reason => mountDenied reason
  | none =>
    match D.packages q.packageRef with
    | none =>
      mountDenied (if q.authorityEvaluation.isNone then .unknownPackage else .providerDisappeared)
    | some package => do
      let mountId ← perform .fresh
      let executionId ← perform .fresh
      let tokenId ← perform .fresh
      let nonce ← perform .fresh
      D.mountPackage package q { mountId, executionId, tokenId, nonce }

end Deployment

/-! ## The lifecycle recorder -/

/-- The arguments of `begin` of the recorder. -/
structure BeginArgs where
  receiptId : PyStr
  operationId : PyStr
  intentHash : PyStr
  resource : Option PyStr := none

/-- The two events that `begin` appends; the epoch column has its default. -/
def recorderEvent (q : BeginArgs) (receipt : Receipt) (state : ConsequenceState)
    (version : ℕ) : Event where
  operationId := q.operationId
  intentHash := q.intentHash
  state := state
  version := version
  authorityEpoch := some 1
  receiptId := some receipt.receiptId
  mountId := receipt.mountId
  executionId := receipt.executionId
  principal := receipt.principal
  action := receipt.action
  resource := (q.resource.filter fun r => r ≠ []).or receipt.resource
  site := .recorderBegin

/-- `ConsequenceLifecycleRecorder.begin`. -/
def recorderBegin (q : BeginArgs) : Proc Unit := do
  match ← perform (.receipt q.receiptId) with
  | none => throw .invariantViolation
  | some receipt =>
    if receipt.decision ≠ .allow then throw .invariantViolation
    else
      match ← perform (.latestEvent q.operationId) with
      | some _ => throw .invariantViolation
      | none =>
        perform (.write (.insertEvents
          [recorderEvent q receipt .authorized 0, recorderEvent q receipt .started 1]))
        perform .commit

/-- The state that `complete` asserts, and its proof. -/
def completionTarget (succeeded uncertain : Bool) (proofType : ProofType) :
    ConsequenceState × ProofType :=
  if uncertain then (.outcomeUnknown, .outcomeUncertain)
  else if succeeded then (.succeeded, proofType)
  else (.failed, if proofType = .other [] then .callbackException else proofType)

/-- `ConsequenceLifecycleRecorder.complete`. -/
def recorderComplete (operationId : PyStr) (succeeded uncertain : Bool)
    (proofType : ProofType) : Proc Unit := do
  match ← perform (.latestEvent operationId) with
  | none => throw .invariantViolation
  | some latest =>
    if latest.state ≠ .started then throw .invariantViolation
    else
      let (target, proof) := completionTarget succeeded uncertain proofType
      if target ∉ ConsequenceState.transitions .started then throw .invariantViolation
      else
        perform (.write (.insertEvents
          [latest.follow target (some 1) (some proof) .recorderComplete]))
        perform .commit

/-- `ConsequenceLifecycleExecutor.execute`. The proof that the delegate's `completion_proof`
gives is the environment's; `none` is one that it does not establish. -/
def lifecycleExecute (q : BeginArgs) (completionProof : Option ProofType) : Proc Json := do
  recorderBegin q
  match ← perform (.dispatch (.executor q.operationId q.receiptId) none) with
  | .error e =>
    recorderComplete q.operationId false (e ≠ .terminalExecution) .callbackException
    throw e
  | .ok result =>
    match completionProof with
    | none =>
      recorderComplete q.operationId false true .callbackReturn
      throw .invariantViolation
    | some proof =>
      recorderComplete q.operationId true false proof
      return result

/-! ## The reconciler -/

/-- What the reconciler answers. -/
inductive Reconciliation where
  | notFound
  | skipped (state : ConsequenceState)
  | pending
  | failed
  | reconciledSucceeded
  deriving DecidableEq

/-- The characters that `str.strip` removes. -/
def isSpace (c : VdbC1.CodePoint) : Bool :=
  (9 ≤ c.val && c.val ≤ 13) || (28 ≤ c.val && c.val ≤ 32) || c = 0x85 || c = 0xA0 || c = 0x1680 ||
    (0x2000 ≤ c.val && c.val ≤ 0x200A) || c = 0x2028 || c = 0x2029 || c = 0x202F || c = 0x205F ||
    c = 0x3000

/-- The operation that the connector's receipt names, if the name is not blank. -/
def proofSubject (body : Json) : Option PyStr := do
  let receipt ← body.field? "receipt"
  match receipt.field? "operation_id" with
  | some (.str operationId) => if operationId.all isSpace then none else some operationId
  | _ => none

/-- Whether the reconciler takes an operation up. -/
def ConsequenceState.reconcilable (state : ConsequenceState) : Bool :=
  state = .outcomeUnknown || state = .started

/-- The event that the reconciler appends. The receipt and the epoch columns are not given, so
that they are null and the default. -/
def reconciledEvent (latest : Event) : Event :=
  { latest.follow .reconciledSucceeded (some 1) (some .reconciliationApiQuery) .reconciler with
    receiptId := none }

/-- `reconcile_execution`. What the receipt names is recorded, and not compared. -/
def reconcileExecution (executionId : PyStr) : Proc Reconciliation := do
  match ← perform (.latestOfExecution executionId) with
  | none => return .notFound
  | some latest =>
    if !latest.state.reconcilable then return .skipped latest.state
    else match ← perform (.connectorEvidence executionId) with
      | .missing => return .pending
      | .failed => return .failed
      | .evidence body =>
        if (proofSubject body).isNone then return .failed
        else
          perform (.write (.insertEvents [reconciledEvent latest]))
          perform .commit
          return .reconciledSucceeded

/-! ## Requests -/

/-- A request to the service, with its arguments. -/
inductive Request where
  | requestMount (q : MountArgs)
  | evaluate (q : EvaluateArgs)
  | execute (q : ExecuteArgs)
  | redeem (q : RedeemArgs)
  | terminate (q : TerminateArgs)
  | advanceEpoch (mountId : PyStr) (owner : Owner)
  | handover (q : HandoverArgs)
  | claimStart (q : ClaimStartArgs)
  | completionReport (operationId : PyStr) (succeeded uncertain : Bool) (proofType : ProofType)
  | recorderBegin (q : BeginArgs)
  | recorderComplete (operationId : PyStr) (succeeded uncertain : Bool) (proofType : ProofType)
  | lifecycleExecute (q : BeginArgs) (completionProof : Option ProofType)
  | reconcile (executionId : PyStr)
  | seedSequence

/-- What a request returns, with the arguments that the theorems speak of. -/
inductive Response where
  | mount (row : Option MountRow) (reason : Reason)
  | evaluation (q : EvaluateArgs) (e : Evaluation)
  | execution (q : ExecuteArgs) (e : Execution)
  | redemption (q : RedeemArgs) (decision : Decision) (reason : Reason)
  | termination (q : TerminateArgs) (t : Termination)
  | epoch (n : ℕ)
  | handover (h : Handover)
  | startClaim (decision : Decision) (reason : Reason)
  | reconciliation (r : Reconciliation)
  | done
  deriving DecidableEq

/-- `seed_merkle_sequence`. -/
def seedSequence : Proc Unit := do
  perform (.write .seedSequence)
  perform .commit

namespace Deployment

variable (D : Deployment)

/-- The program of a request. -/
def handle : Request → Proc Response
  | .requestMount q => do
    let (row, reason) ← D.requestMount q
    return .mount row reason
  | .evaluate q => do return .evaluation q (← D.evaluate q)
  | .execute q => do return .execution q (← D.executeConsequence q)
  | .redeem q => do
    let (decision, reason) ← D.redeemConsequence q
    return .redemption q decision reason
  | .terminate q => do return .termination q (← terminateWithInFlight q)
  | .advanceEpoch mountId owner => do return .epoch (← CapabilityMount.advanceEpoch mountId owner)
  | .handover q => do return .handover (← D.handoverIncarnation q)
  | .claimStart q => do
    let (decision, reason) ← CapabilityMount.claimStart q
    return .startClaim decision reason
  | .completionReport operationId succeeded uncertain proofType => do
    completionReporter operationId succeeded uncertain proofType
    return .done
  | .recorderBegin q => do
    CapabilityMount.recorderBegin q
    return .done
  | .recorderComplete operationId succeeded uncertain proofType => do
    CapabilityMount.recorderComplete operationId succeeded uncertain proofType
    return .done
  | .lifecycleExecute q completionProof => do
    let _ ← CapabilityMount.lifecycleExecute q completionProof
    return .done
  | .reconcile executionId => do return .reconciliation (← reconcileExecution executionId)
  | .seedSequence => do
    CapabilityMount.seedSequence
    return .done

/-- A request; the session is closed when it has been served. -/
def serve (request : Request) : Proc Response := do
  let r ← (D.handle request).attempt
  perform .rollback
  match r with
  | .ok response => return response
  | .error e => throw e

end Deployment

/-- The tables and the log that the sessions share, and how far each session is. -/
abbrev Config := Sessions.Config Op Val Exn World Response

/-- A schedule of the service. -/
abbrev Schedule := List (Sessions.Event Request Answer Environment)

namespace Deployment

variable (D : Deployment)

/-- The service before any request. -/
def start : Config := .init {}

/-- The state that a schedule leads to. -/
def run (es : Schedule) : Option Config := start.run (machine D) D.serve es

end Deployment

end CapabilityMount
