import Cappo.CapabilityMount.Evidence

/-!
# Deciding an action

`MountRegistry.evaluate` and `assign_merkle_leaf_index`. The mount row is locked first and stays
locked until the decision is committed or rolled back; an ALLOW writes the consumed nonce and
the receipt in that one transaction.
-/

namespace CapabilityMount

open VdbC1 (PyStr Json)

/-- The arguments of `evaluate`. -/
structure EvaluateArgs where
  mountId : PyStr
  action : PyStr
  resource : Option PyStr := none
  tokenId : PyStr
  nonce : PyStr
  ownerPrincipal : PyStr
  ownerWorkspace : Option PyStr := none
  approvalToken : Option PyStr := none
  suppressionEvidence : Option PyStr := none
  targetRef : Option PyStr := none
  deriving DecidableEq

/-- What `evaluate` returns. The epoch is the one of the row object, as the locking read left
it; the caller reads it from the object. -/
structure Evaluation where
  decision : Decision
  reason : Reason
  anchor : AnchorResult
  receiptId : Option PyStr := none
  authorityEpoch : ℕ := 0
  deriving DecidableEq

/-- A DENY that is anchored and committed. -/
def denied (q : EvaluateArgs) (reason : Reason) : Proc Evaluation := do
  let anchor ← perform (.anchor (.actionDecision q.mountId .deny reason))
  perform .commit
  return { decision := .deny, reason, anchor }

/-- The checks of the row and of the token that is presented. -/
def tokenReason (q : EvaluateArgs) (row : MountRow) : Proc (Option Reason) :=
  if row.terminated then return some .terminated
  else do
    let now ← perform .now
    if row.expiresAt ≤ now then return some .tokenExpired
    else if row.nonceConsumed || q.tokenId ≠ row.tokenId || q.nonce ≠ row.tokenNonce then
      if row.nonceConsumed && q.tokenId = row.tokenId && q.nonce = row.tokenNonce then
        return some .tokenReplay
      else return some .tokenMismatch
    -- a reset of the consumed flag does not remove the receipt
    else if ← perform (.priorReceipt q.tokenId) then return some .tokenReplayReceipt
    else return none

/-- The offline budget, which is checked before the authority. -/
def budgetReason (q : EvaluateArgs) : Proc (Option Reason) := do
  let lease ← perform (.lease q.mountId)
  return if lease.any fun l => l.offlineEnabled && l.offlineBudget ≤ 0 then
    some .offlineBudgetExhausted else none

/-- The reason that a violation is reported under. -/
def Violation.reason : Violation → Reason
  | resourceNotGranted => .resourceNotGranted
  | resourceBoundNotSigned => .resourceBoundNotSigned
  | _ => .leaseInvariantViolation

namespace Deployment

variable (D : Deployment)

/-- The package's ceiling. A package bounds actions, not resources; without one, the Biscuit is
the ceiling. -/
def packageAuthority (row : MountRow) (biscuit : AuthorityContext) : AuthorityContext :=
  match D.packages row.token.packageRef with
  | some package => { biscuit with
      allowedActions := package.reads ++ package.writes ++ package.externalSendActions
      allowedResources := [star] }
  | none => biscuit

/-- The effective authority and what it must grant. -/
def checkEffective (q : EvaluateArgs) (row : MountRow) (lease : Lease)
    (biscuit : AuthorityContext) (now : ℤ) : Except Violation Unit := do
  let effective ← lease.evaluateAuthority biscuit (D.packageAuthority row biscuit) .online now
  Checks.require .actionNotEffective (q.action ∈ effective.allowedActions)
  -- a missing signed bound reads as "*", which a bounded mount must not rely on
  Checks.require .resourceBoundNotSigned
    !(!row.token.grants.resources.isEmpty && star ∈ biscuit.allowedResources)
  Checks.require .resourceNotGranted (resourceIn q.resource effective.allowedResources)

/-- The lease's authority, which must be signed. -/
def authorityReason (q : EvaluateArgs) (row : MountRow) : Proc (Option Reason) := do
  match ← perform (.lease q.mountId) with
  | none => return none
  | some lease =>
    match row.token.biscuit.bind D.authorityContext with
    | none => return some .missingCryptographicAuthority
    | some biscuit =>
      let now ← perform .now
      match D.checkEffective q row lease biscuit now with
      | .ok () => return none
      | .error violation => return some violation.reason

end Deployment

/-- `ExecutionBinding.check_live`. -/
def checkLive (token : Token) (terminated : Bool) : Proc Unit := do
  let revoked ← perform (.isRevoked token.mountId)
  if terminated || revoked then
    perform .audit
    throw (.executionTerminated .executionIsTerminated)
  else
    let now ← perform .now
    if token.expiresAt < now then
      perform .audit
      throw .tokenExpired
    else return ()

/-- A decision, its reason, and the evidence it consumes. -/
structure Verdict where
  decision : Decision
  reason : Reason
  evidence : List PyStr := []

def Verdict.deny (reason : Reason) : Verdict := { decision := .deny, reason }

namespace Deployment

variable (D : Deployment)

variable (q : EvaluateArgs) (row : MountRow)

/-- One piece of evidence: it must verify and must not have been consumed. -/
def evidenceGate (kind : EvidenceKind) (required : Bool)
    (evidence : Option PyStr) (notVerified replayed : Reason) :
    Proc (Except Reason (List PyStr)) :=
  if !required then return .ok []
  else do
    let now ← perform .now
    match D.verifyEvidence kind evidence q.ownerPrincipal row.mount q.action q.nonce now with
    | .error e => throw e
    | .ok none => return .error notVerified
    | .ok (some jti) =>
      if ← perform (.evidenceConsumed jti) then return .error replayed
      else return .ok [jti]

/-- The gates of an action that the profile allows. -/
def evidenceVerdict : Proc Verdict := do
  let grants := row.token.grants
  let policy := row.token.policy
  match ← D.evidenceGate q row .humanApproval
      (q.action ∈ grants.externalSend && policy.requireHumanApprovalForExternalSend)
      q.approvalToken .humanApprovalNotVerified .humanApprovalReplayed with
  | .error reason =>
    perform .audit
    return .deny reason
  | .ok approval =>
    match ← D.evidenceGate q row .suppressionCheck
        (q.action ∈ grants.suppressionRequired && policy.requireSuppressionCheck)
        q.suppressionEvidence .suppressionNotVerified .suppressionEvidenceReplayed with
    | .error reason =>
      perform .audit
      return .deny reason
    | .ok suppression =>
      return { decision := .allow, reason := .allowed, evidence := approval ++ suppression }

/-- The profile of the token's grants. -/
def profileVerdict : Proc Verdict := do
  checkLive row.token row.terminated
  let grants := row.token.grants
  if !grants.allows q.action then
    perform .audit
    return .deny (if grants.isBlocked q.action then .blockedAction else .notInCapabilityProfile)
  else if !grants.coversResource q.resource then
    perform .audit
    return .deny .resourceNotGranted
  else D.evidenceVerdict q row

/-- The profile, with the exceptions of `check_live` caught. -/
def liveVerdict : Proc Verdict := do
  let verdict ← tryCatch (D.profileVerdict q row) fun e =>
    match e with
    | .tokenExpired => return .deny .tokenExpired
    | .executionTerminated _ => return .deny .terminated
    | .policy reason => return .deny reason
    | e => throw e
  return if row.terminated then .deny .terminated else verdict

/-- The limits of a lease in offline operation; an ALLOW uses up one of each. -/
def offlineVerdict (lease : Lease) (verdict : Verdict) : Proc Verdict :=
  if !lease.offlineEnabled then return .deny .offlineExecutionDisabled
  else if lease.offlineBudget ≤ 0 then return .deny .offlineBudgetExhausted
  else if lease.offlineSideEffectLimit ≤ 0 then
    return .deny .offlineSideEffectLimitExhausted
  else do
    let used : Lease := { lease with
      offlineBudget := lease.offlineBudget - 1
      offlineSideEffectLimit := lease.offlineSideEffectLimit - 1 }
    perform (.write (.updateLease q.mountId (used.changes lease)))
    return verdict

/-- The expiry of the lease, and its limits when the anchor cannot be reached. -/
def leaseVerdict (verdict : Verdict) : Proc Verdict := do
  match ← perform (.lease q.mountId) with
  | none => return verdict
  | some lease =>
    let now ← perform .now
    let verdict := if lease.expiresAt < now then .deny .leaseExpired else verdict
    let online ← if D.pglAdapter then perform .isOnline else pure true
    if !online && verdict.decision = .allow then offlineVerdict q lease verdict
    else return verdict

end Deployment

/-- `assign_merkle_leaf_index`: the receipt with the next leaf index, if it is signed. The
sequence row is locked by its update, and read while it is. -/
def assignMerkleLeafIndex (receipt : Receipt) : Proc Receipt :=
  match receipt.signedReceiptCose with
  | none | some [] => return receipt
  | some (_ :: _) => do
    let rowcount ← perform .updateSequence
    if rowcount = (0 : ℕ) then throw .runtime
    else
      let next ← perform .selectNextValue
      return { receipt with merkleLeafIndex := some (next - (1 : ℕ)) }

/-- Consume the evidence of an ALLOW. -/
def consumeEvidence : List PyStr → Proc Unit
  | [] => return ()
  | jti :: jtis => do
    perform (.write (.consumeEvidence jti))
    consumeEvidence jtis

namespace Deployment

variable (D : Deployment)

variable (q : EvaluateArgs) (row : MountRow)

/-- The receipt of an ALLOW. -/
def allowReceipt (anchor : AnchorResult) (now : ℤ) : Receipt :=
  let receipt : Receipt := {
    receiptId := "rcpt_" ++ (anchor.anchorId.filter fun a => a ≠ []).getD (D.timestamp now)
    executionId := row.token.executionId
    mountId := q.mountId
    tokenId := row.token.tokenId
    principal := q.ownerPrincipal
    action := q.action
    resource := q.resource
    targetRef := q.targetRef
    envelopeDigest := row.token.grants.envelopeDigest
    decision := .allow
    signedReceiptCose := none }
  { receipt with signedReceiptCose := some (D.signedReceiptCose receipt) }

/-- An anchored ALLOW: nonce, receipt and leaf index in one transaction. -/
def recordAllow (anchor : AnchorResult) : Proc Evaluation := do
  perform (.write (.updateMount q.mountId .consumeNonce))
  let now ← perform .now
  let receipt ← assignMerkleLeafIndex (D.allowReceipt q row anchor now)
  perform (.write (.insertReceipt receipt))
  perform .commit
  perform .audit
  return {
    decision := .allow
    reason := .allowed
    anchor
    receiptId := some receipt.receiptId
    authorityEpoch := row.authorityEpoch }

/-- The decision is anchored before it is recorded; an ALLOW that is not is taken back. -/
def conclude (verdict : Verdict) : Proc Evaluation :=
  match verdict.decision with
  | .allow => do
    consumeEvidence verdict.evidence
    let anchor ← perform (.anchor (.actionDecision q.mountId .allow verdict.reason))
    if !anchor.accepted then
      perform .rollback
      return { decision := .deny, reason := .pglAnchorUnconfirmed, anchor }
    else D.recordAllow q row anchor
  | .deny => denied q verdict.reason

/-- `evaluate` once the row is locked and owned by the caller. -/
def evaluateRow : Proc Evaluation := do
  match ← tokenReason q row with
  | some reason => denied q reason
  | none =>
    match ← budgetReason q with
    | some reason => denied q reason
    | none =>
      match ← D.authorityReason q row with
      | some reason => denied q reason
      | none =>
        let verdict ← D.liveVerdict q row
        let verdict ← D.leaseVerdict q verdict
        D.conclude q row verdict

/-- `MountRegistry.evaluate`. -/
def evaluate : Proc Evaluation := do
  match ← perform (.lockMount q.mountId) with
  | none => denied q .unknownMount
  | some row =>
    if !row.ownedBy q.ownerPrincipal q.ownerWorkspace then denied q .ownerMismatch
    else D.evaluateRow q row

end Deployment

end CapabilityMount
