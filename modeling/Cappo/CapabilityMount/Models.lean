import Cappo.CapabilityMount.JsonText
import Cappo.CapabilityMount.Lease
import Cappo.VdbC1.Canon

/-!
# Mounts, receipts and consequence events

The rows that the mount service keeps, the packages and targets it is configured with, and the
reasons it gives. Columns that no modelled function reads are left out. A row's JSON columns
are the values they are validated to.

`ConsequenceState.transitions` is `_ALLOWED_TRANSITIONS`; a `Reason` is a reason string, and
`Reason.text` spells it.
-/

namespace CapabilityMount

open VdbC1

/-- What the service decides on a request. -/
inductive Decision where
  | allow
  | deny
  deriving DecidableEq

/-! ## Consequences -/

/-- `ConsequenceState`: where the record of an operation has got to. -/
inductive ConsequenceState where
  | authorized
  | started
  | succeeded
  | failed
  | outcomeUnknown
  | reconciledSucceeded
  | reconciledFailed
  | dispatchedUnknown
  | restored
  | staleAuthority
  | reconciliationRequired
  deriving DecidableEq

namespace ConsequenceState

def value : ConsequenceState → PyStr
  | authorized => "authorized"
  | started => "started"
  | succeeded => "succeeded"
  | failed => "failed"
  | outcomeUnknown => "outcome_unknown"
  | reconciledSucceeded => "reconciled_succeeded"
  | reconciledFailed => "reconciled_failed"
  | dispatchedUnknown => "dispatched-unknown"
  | restored => "restored"
  | staleAuthority => "stale-authority"
  | reconciliationRequired => "reconciliation-required"

/-- `_ALLOWED_TRANSITIONS`. -/
def transitions : ConsequenceState → List ConsequenceState
  | authorized => [started, failed]
  | started => [succeeded, failed, outcomeUnknown, dispatchedUnknown]
  | outcomeUnknown => [reconciledSucceeded, reconciledFailed, restored]
  | dispatchedUnknown => [restored, reconciliationRequired]
  | restored => [staleAuthority, reconciliationRequired]
  | reconciliationRequired => [reconciledSucceeded, reconciledFailed, staleAuthority]
  | succeeded | failed | staleAuthority | reconciledSucceeded | reconciledFailed => []

/-- The states `completion_reporter` never appends to. -/
def terminal : ConsequenceState → Bool
  | succeeded | failed | reconciledSucceeded | reconciledFailed => true
  | _ => false

/-- `_IN_FLIGHT_STATES`. -/
def inFlight : ConsequenceState → Bool
  | authorized | started => true
  | _ => false

/-- `state_certainty_requirements`. -/
def requiredCertainty : ConsequenceState → ℕ
  | outcomeUnknown => 0
  | succeeded | failed => 1
  | reconciledSucceeded | reconciledFailed => 2
  | _ => 0

end ConsequenceState

/-- `completion_proof_type`. -/
inductive ProofType where
  | outcomeUncertain
  | optimisticClaim
  | callbackReturn
  | callbackException
  | reconciliationFilesystem
  | reconciliationDbQuery
  | reconciliationApiQuery
  | cryptographicReceipt
  | fenceRefusal
  | other (text : PyStr)
  deriving DecidableEq

/-- `certainty_levels`. -/
def ProofType.certainty : ProofType → ℕ
  | outcomeUncertain => 0
  | optimisticClaim | callbackReturn | callbackException => 1
  | reconciliationFilesystem | reconciliationDbQuery | reconciliationApiQuery => 2
  | cryptographicReceipt => 3
  | fenceRefusal | other _ => 0

/-- The places of the code that append a consequence event. -/
inductive Site where
  | cappoEvaluator
  | beginConsequence
  | beginConsequenceFence
  | completionReporter
  | recorderBegin
  | recorderComplete
  | reconciler
  deriving DecidableEq

/-- A row of `consequence_execution_events`. The site is not a column: it says which of the
writers appended the row. -/
structure Event where
  operationId : PyStr
  intentHash : PyStr
  state : ConsequenceState
  version : ℕ
  authorityEpoch : Option ℕ
  receiptId : Option PyStr
  mountId : PyStr
  executionId : PyStr
  principal : PyStr
  action : PyStr
  resource : Option PyStr
  completionProofType : Option ProofType := none
  site : Site
  deriving DecidableEq

/-! ## Reasons -/

/-- Why a mount is terminated. -/
inductive UnmountReason where
  | taskComplete
  | tokenExpiry
  | explicitTerminate
  deriving DecidableEq

/-- The reasons of the mount service; the last two carry the text of an exception. -/
inductive Reason where
  | allowed
  | unknownMount
  | ownerMismatch
  | terminated
  | tokenExpired
  | tokenReplay
  | tokenMismatch
  | tokenReplayReceipt
  | offlineBudgetExhausted
  | missingCryptographicAuthority
  | leaseInvariantViolation
  | resourceNotGranted
  | resourceBoundNotSigned
  | blockedAction
  | notInCapabilityProfile
  | humanApprovalNotVerified
  | humanApprovalReplayed
  | suppressionNotVerified
  | suppressionEvidenceReplayed
  | leaseExpired
  | offlineExecutionDisabled
  | offlineSideEffectLimitExhausted
  | pglAnchorUnconfirmed
  | substrateIdMismatch
  | bootInstanceIdMismatch
  | runtimeKeyThumbprintMismatch
  | stateRootMismatch
  | staleAuthorityEpoch
  | startNotClaimed
  | targetNotBoundToPackage
  | operationEnvelopeUnverifiable
  | operationEnvelopeMismatch
  | unknownEffectTarget
  | effectNotMapped
  | targetHasNoSandbox
  | invalidEffectResource
  | idempotencyIntentMismatch
  | idempotencyReplay (state : ConsequenceState)
  | consequenceAlreadyStarted
  | mountTerminated
  | executionIsTerminated
  | executionTokenHasExpired
  | alreadyTerminated
  | terminatedInFlight
  | permitsNotConfigured
  | targetIdentityRequired
  | targetNotRegisteredForRedemption
  | targetSignatureInvalid
  | unknownOperation
  | mountExpired
  | operationNotDispatched (state : ConsequenceState)
  | permitMismatch
  | alreadyRedeemed
  | redeemed
  | expired
  | startClaimReplayed
  | startAlreadyClaimed
  | startClaimed
  | authorityDenied
  | bindingMismatch
  | unknownPackage
  | providerDisappeared
  | missingVerifiedPrincipal
  | ttlOutOfRange
  | persistentMemoryNotPermitted
  | noResourceNamed
  | invalidResource
  | operationTargetNotBoundToPackage
  | operationActionNotGranted
  | operationResourceMismatch
  | mounted
  | unmount (reason : UnmountReason)
  | targetRejected (text : PyStr)
  | raised (text : PyStr)
  deriving DecidableEq

/-- The reason string. -/
def Reason.text : Reason → PyStr
  | allowed => "allowed"
  | unknownMount => "unknown_mount"
  | ownerMismatch => "owner_mismatch"
  | terminated => "terminated"
  | tokenExpired => "token_expired"
  | tokenReplay => "token_replay"
  | tokenMismatch => "token_mismatch"
  | tokenReplayReceipt => "token_replay_receipt"
  | offlineBudgetExhausted => "offline_budget_exhausted"
  | missingCryptographicAuthority => "missing_cryptographic_authority"
  | leaseInvariantViolation => "lease_invariant_violation"
  | resourceNotGranted => "resource_not_granted"
  | resourceBoundNotSigned => "resource_bound_not_signed"
  | blockedAction => "blocked_action"
  | notInCapabilityProfile => "not_in_capability_profile"
  | humanApprovalNotVerified => "human_approval_not_verified"
  | humanApprovalReplayed => "human_approval_replayed"
  | suppressionNotVerified => "suppression_not_verified"
  | suppressionEvidenceReplayed => "suppression_evidence_replayed"
  | leaseExpired => "lease_expired"
  | offlineExecutionDisabled => "offline_execution_disabled"
  | offlineSideEffectLimitExhausted => "offline_side_effect_limit_exhausted"
  | pglAnchorUnconfirmed => "pgl_anchor_unconfirmed"
  | substrateIdMismatch => "substrate_id_mismatch"
  | bootInstanceIdMismatch => "boot_instance_id_mismatch"
  | runtimeKeyThumbprintMismatch => "runtime_key_thumbprint_mismatch"
  | stateRootMismatch => "state_root_mismatch"
  | staleAuthorityEpoch => "stale_authority_epoch"
  | startNotClaimed => "start_not_claimed"
  | targetNotBoundToPackage => "target_not_bound_to_package"
  | operationEnvelopeUnverifiable => "operation_envelope_unverifiable"
  | operationEnvelopeMismatch => "operation_envelope_mismatch"
  | unknownEffectTarget => "unknown_effect_target"
  | effectNotMapped => "effect_not_mapped"
  | targetHasNoSandbox => "target_has_no_sandbox"
  | invalidEffectResource => "invalid_effect_resource"
  | idempotencyIntentMismatch => "idempotency_intent_mismatch"
  | idempotencyReplay state => "idempotency_replay:" ++ state.value
  | consequenceAlreadyStarted => "consequence_already_started"
  | mountTerminated => "mount_terminated"
  | executionIsTerminated => "execution is terminated"
  | executionTokenHasExpired => "execution token has expired"
  | alreadyTerminated => "already_terminated"
  | terminatedInFlight => "terminated_in_flight"
  | permitsNotConfigured => "permits_not_configured"
  | targetIdentityRequired => "target_identity_required"
  | targetNotRegisteredForRedemption => "target_not_registered_for_redemption"
  | targetSignatureInvalid => "target_signature_invalid"
  | unknownOperation => "unknown_operation"
  | mountExpired => "mount_expired"
  | operationNotDispatched state => "operation_not_dispatched:" ++ state.value
  | permitMismatch => "permit_mismatch"
  | alreadyRedeemed => "already_redeemed"
  | redeemed => "redeemed"
  | expired => "expired"
  | startClaimReplayed => "start_claim_replayed"
  | startAlreadyClaimed => "start_already_claimed"
  | startClaimed => "start_claimed"
  | authorityDenied => "authority_denied"
  | bindingMismatch => "binding_mismatch"
  | unknownPackage => "unknown_package"
  | providerDisappeared => "provider_disappeared"
  | missingVerifiedPrincipal => "missing_verified_principal"
  | ttlOutOfRange => "ttl must be between 1 and 600 seconds"
  | persistentMemoryNotPermitted =>
    "persistent memory is not permitted for ephemeral mounts"
  | noResourceNamed => "resources, when given, must name at least one resource"
  | invalidResource => "invalid_resource"
  | operationTargetNotBoundToPackage =>
    "operation_target_not_bound_to_package"
  | operationActionNotGranted => "operation_action_not_granted"
  | operationResourceMismatch => "operation_resource_mismatch"
  | mounted => "mounted"
  | unmount .taskComplete => "task_complete"
  | unmount .tokenExpiry => "token_expiry"
  | unmount .explicitTerminate => "explicit_terminate"
  | targetRejected text => "target_rejected:" ++ text
  | raised text => text

/-- The exceptions that the code raises or distinguishes. -/
inductive Exn where
  | policy (reason : Reason)
  | executionTerminated (reason : Reason)
  | tokenExpired
  | mountRefused (reason : Reason)
  | value (text : PyStr)
  | permission
  | runtime
  | integrity
  | database
  | invariantViolation
  | uncertain
  | terminalExecution
  | other
  deriving DecidableEq

/-- `str(exc)` of a `PolicyError`; the two classes derived from it are policy errors too. -/
def Exn.policyReason : Exn → Option Reason
  | policy reason | executionTerminated reason => some reason
  | tokenExpired => some .executionTokenHasExpired
  | _ => none

/-! ## Mounts and tokens -/

/-- `Grants`: the actions and resources a token allows, and what it blocks or makes conditional. -/
structure Grants where
  reads : List PyStr
  writes : List PyStr
  resources : List PyStr
  blocked : List PyStr
  externalSend : List PyStr
  suppressionRequired : List PyStr
  envelopeDigest : Option PyStr
  deriving DecidableEq

/-- `MountPolicy`: the evidence that conditional actions need. -/
structure MountPolicy where
  requireHumanApprovalForExternalSend : Bool := true
  requireSuppressionCheck : Bool := true
  persistentMemoryAllowed : Bool := false
  deriving DecidableEq

/-- `EphemeralScopedToken`; whether its nonce was consumed is a column of the mount row. -/
structure Token where
  tokenId : PyStr
  mountId : PyStr
  executionId : PyStr
  packageRef : PyStr
  grants : Grants
  policy : MountPolicy
  expiresAt : ℤ
  nonce : PyStr
  biscuitToken : Option PyStr
  deriving DecidableEq

/-- `BoundOperationSpec`: the one operation a mount is requested for. -/
structure BoundOperation where
  targetRef : PyStr
  action : PyStr
  resource : PyStr
  arguments : Json
  deriving DecidableEq

/-- `MountScope`: what a mount is requested for; without a list of actions, all of the package. -/
structure MountScope where
  workspace : PyStr
  project : PyStr
  reads : Option (List PyStr) := none
  writes : Option (List PyStr) := none
  resources : Option (List PyStr) := none
  blocked : List PyStr := []
  operation : Option BoundOperation := none
  deriving DecidableEq

/-- `Mount`: its scope, the runtime it is bound to, and its incarnation. -/
structure Mount where
  id : PyStr
  packageRef : PyStr
  scope : MountScope
  substrateId : Option PyStr
  bootInstanceId : Option PyStr
  runtimeKeyThumbprint : Option PyStr
  stateRoot : Option PyStr
  incarnation : ℕ := 1
  previousHistoryHead : Option PyStr := none
  historyHead : Option PyStr := none
  decisionHash : Option PyStr := none
  handoverReason : Option PyStr := none
  deriving DecidableEq

/-- A row of `capability_mounts`. -/
structure MountRow where
  mountId : PyStr
  tokenId : PyStr
  tokenNonce : PyStr
  ownerPrincipal : PyStr
  ownerWorkspace : PyStr
  mount : Mount
  token : Token
  expiresAt : ℤ
  authorityEpoch : ℕ := 1
  terminated : Bool := false
  nonceConsumed : Bool := false
  startClaimOperationId : Option PyStr := none
  deriving DecidableEq

/-- `row.authority_epoch or 1`. -/
def MountRow.epoch (row : MountRow) : ℕ := if row.authorityEpoch = 0 then 1 else row.authorityEpoch

/-- `_owned_by`. -/
def MountRow.ownedBy (row : MountRow) (ownerPrincipal : PyStr) (ownerWorkspace : Option PyStr) :
    Bool :=
  let sameWorkspace : Bool := ownerWorkspace ≠ some [] && ownerWorkspace = some row.ownerWorkspace
  if ownerPrincipal = "mount-holder:" ++ row.mountId then sameWorkspace
  else if row.ownerPrincipal ≠ ownerPrincipal then false
  else if ownerPrincipal = "auth-disabled" then true
  else sameWorkspace

namespace Grants

variable (grants : Grants)

/-- `CapabilityProfile.allows`. -/
def allows (action : PyStr) : Bool :=
  if action ∈ grants.blocked then false
  else action ∈ grants.reads || action ∈ grants.writes

/-- `CapabilityProfile.is_blocked`. -/
def isBlocked (action : PyStr) : Bool := action ∈ grants.blocked

/-- `CapabilityProfile.covers_resource`. -/
def coversResource (resource : Option PyStr) : Bool :=
  grants.resources.isEmpty || resource.any fun r => r ∈ grants.resources

end Grants

/-- The Biscuit of a token, if it has one: an empty text is none. -/
def Token.biscuit (token : Token) : Option PyStr := token.biscuitToken.filter fun b => b ≠ []

/-! ## Receipts, redemptions and evidence -/

/-- A row of `capability_action_receipts`. -/
structure Receipt where
  receiptId : PyStr
  executionId : PyStr
  mountId : PyStr
  tokenId : PyStr
  principal : PyStr
  action : PyStr
  resource : Option PyStr
  targetRef : Option PyStr
  envelopeDigest : Option PyStr
  decision : Decision
  signedReceiptCose : Option Bytes
  merkleLeafIndex : Option ℕ := none
  deriving DecidableEq

/-- A row of `consequence_redemptions`. -/
structure Redemption where
  operationId : PyStr
  mountId : PyStr
  receiptId : Option PyStr
  payloadSha256 : PyStr
  sinkRef : PyStr
  deriving DecidableEq

/-- The evidence that a caller can present for an action. -/
inductive EvidenceKind where
  | humanApproval
  | suppressionCheck
  deriving DecidableEq

/-- What a permit binds. -/
structure Permit where
  operationId : PyStr
  mountId : PyStr
  receiptId : Option PyStr
  payloadSha256 : PyStr
  targetRef : PyStr
  deriving DecidableEq

/-- What the connector of the reconciler answers: that it has no evidence, nothing that can be
read, or a JSON value. -/
inductive ConnectorAnswer where
  | missing
  | failed
  | evidence (body : Json)
  deriving DecidableEq

/-! ## Anchors, targets and packages -/

/-- What the ledger says of an event it was asked to anchor. -/
inductive AnchorStatus where
  | confirmed
  | pendingReconciliation
  | unconfirmed
  | notApplicable
  | confirmedPrior
  | other (text : PyStr)
  deriving DecidableEq

/-- `AnchorResult`. -/
structure AnchorResult where
  status : AnchorStatus
  anchorId : Option PyStr := none
  deriving DecidableEq

/-- `anchor.status in ("confirmed", "pending_reconciliation")`. -/
def AnchorResult.accepted (a : AnchorResult) : Bool :=
  a.status = .confirmed || a.status = .pendingReconciliation

/-- The events that are anchored. -/
inductive AnchorEvent where
  | mount (decision : Decision) (reason : Reason)
  | actionDecision (mountId : PyStr) (decision : Decision) (reason : Reason)
  | terminate (mountId : PyStr) (decision : Decision) (reason : Reason)
  | handover (mountId : PyStr) (reason : PyStr)
  | consequence (operationId : PyStr) (outcome : PyStr)
  deriving DecidableEq

/-- A registered package: the actions that it declares and how they are classified. -/
structure CapabilityPackage where
  id : PyStr
  reads : List PyStr := []
  writes : List PyStr := []
  blocked : List PyStr := []
  externalSendActions : List PyStr := []
  suppressionRequiredActions : List PyStr := []
  policyDefaults : MountPolicy := {}
  targetRef : Option PyStr := none
  requiresStartClaim : Bool := false
  /-- `unique_actions`. -/
  uniqueActions : ∀ actions ∈
      [reads, writes, blocked, externalSendActions, suppressionRequiredActions],
    actions.Nodup ∧ [] ∉ actions
  /-- `classified_actions_must_be_writes`. -/
  classifiedActions : ∀ actions ∈ [externalSendActions, suppressionRequiredActions],
    actions ⊆ writes
  deriving DecidableEq

/-- What the service reads of a registered target adapter. -/
structure TargetAdapter where
  actions : List PyStr
  projectIsolated : Bool := false
  redeemPublicKeyHex : Option PyStr := none
  deriving DecidableEq

/-- What a registry is configured with, and the libraries it calls.

* `process` is the server process that serves a session.
* `permitKey` is the key of the permits, if there is one.
* `authorityContext` and `allowedEnvelopes` are `extract_authority_context` and
  `extract_allowed_envelopes`: what a signature-verified Biscuit carries.
* `mintBiscuit` signs the grants of a new mount for a caller and an executor.
* `evidencePayload` is the payload of a canonical evidence token that the key of its kind signs;
  it raises when the payload has no encoding.
* `parseTime` is `datetime.fromisoformat`; a moment that cannot be represented raises.
* `sha256Json` is the hash of a value's canonical JSON, `str` is Python's `str` of a value.
* `reprFloat` is the text of a finite float, `floatTexts` what is relied on of it.
* `sha256Text` and `hmacText` hash the UTF-8 encoding of a text; they raise when there is none.
* `signatureValid` is `target_signature_valid`: key, signature, message.
* `signedReceiptCose` is the signed evidence of a receipt.
* `timestamp` is a moment in digits.
* `pglAdapter` says whether the anchor is the networked one, which can be offline. -/
structure Deployment where
  process : ℕ → ℕ
  packages : PyStr → Option CapabilityPackage
  targetAdapters : PyStr → Option TargetAdapter
  permitKey : Option Bytes
  authorityContext : PyStr → Option AuthorityContext
  allowedEnvelopes : PyStr → Option (List PyStr)
  mintBiscuit : Token → PyStr → PyStr → PyStr
  evidencePayload : EvidenceKind → PyStr → Except Exn (Option (List (PyStr × Json)))
  parseTime : PyStr → Except Exn (Option ℤ)
  sha256Json : Json → PyStr
  str : Json → PyStr
  reprFloat : ℚ → PyStr
  floatTexts : JsonText.FloatTexts reprFloat
  sha256Text : PyStr → Option PyStr
  hmacText : Bytes → PyStr → Option PyStr
  signatureValid : PyStr → PyStr → PyStr → Bool
  signedReceiptCose : Receipt → Bytes
  timestamp : ℤ → PyStr
  pglAdapter : Bool

end CapabilityMount
