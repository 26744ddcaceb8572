import Cappo.CapabilityMount.Database

/-!
# Mounting and the operation envelope

`Mounter.mount` of `engine.py`, `operation_envelope_digest` of `envelope.py`, and
`_envelope_refusal`: a mount that is requested for one operation carries the digest of that
operation, and a request must hash to it. Sets are lists; only membership in them matters.

## Main results

* `Deployment.mount_eq_ok`: what the token of a mount grants;
* `Deployment.operationEnvelopeDigest_inj`: two operations with one digest are equal, but for
  the order of the members of the arguments;
* `Deployment.envelopeRefusal_eq_none`: a request that is not refused hashes to the digest.
-/

namespace CapabilityMount

open VdbC1 (PyStr Json)
open Checks

/-- The characters that `_RESOURCE_PATTERN` admits. -/
def isResourceChar (c : VdbC1.CodePoint) : Bool :=
  (65 ≤ c.val && c.val ≤ 90) || (97 ≤ c.val && c.val ≤ 122) || (48 ≤ c.val && c.val ≤ 57) ||
    c = 46 || c = 95 || c = 45

/-- Whether `validate_resource` accepts. -/
def validResource (resource : PyStr) : Bool :=
  1 ≤ resource.length && resource.length ≤ 128 && resource.all isResourceChar

/-- The body of the operation envelope. -/
def envelopeBody (packageRef : PyStr) (o : BoundOperation) : Json :=
  .obj [("action", .str o.action), ("arguments", o.arguments),
    ("package_ref", .str packageRef), ("resource", .str o.resource),
    ("target_ref", .str o.targetRef)]

namespace Deployment

variable (D : Deployment)

/-- `operation_envelope_digest`; it raises a `ValueError` when the body has no text or the text
no encoding. -/
def operationEnvelopeDigest (packageRef : PyStr) (o : BoundOperation) : Except Exn PyStr :=
  ofOption (.value []) do
    let body ← JsonText.dumps D.reprFloat (envelopeBody packageRef o)
    D.sha256Text ("veklom-consequence-envelope-v1\n" ++ body)

end Deployment

/-- `Mounter._effective_policy`. -/
def effectivePolicy (package : CapabilityPackage) (requested : MountPolicy) : MountPolicy where
  requireHumanApprovalForExternalSend :=
    package.policyDefaults.requireHumanApprovalForExternalSend ||
      requested.requireHumanApprovalForExternalSend
  requireSuppressionCheck :=
    package.policyDefaults.requireSuppressionCheck || requested.requireSuppressionCheck
  persistentMemoryAllowed :=
    package.policyDefaults.persistentMemoryAllowed && requested.persistentMemoryAllowed

/-- What a mount is requested with. -/
structure MountArgs where
  packageRef : PyStr
  scope : MountScope
  policy : MountPolicy := {}
  ttlSeconds : ℤ
  ownerPrincipal : PyStr
  ownerWorkspace : Option PyStr := none
  executionId : Option PyStr := none
  callerSpiffeId : Option PyStr := none
  executorSpiffeId : Option PyStr := none
  /-- The decision and the permitted candidates of an earlier `evaluate_candidates`. -/
  authorityEvaluation : Option (Decision × List PyStr) := none
  substrateId : Option PyStr := none
  bootInstanceId : Option PyStr := none
  runtimeKeyThumbprint : Option PyStr := none
  stateRoot : Option PyStr := none

/-- The random identifiers of a new mount. -/
structure MountIds where
  mountId : PyStr
  executionId : PyStr
  tokenId : PyStr
  nonce : PyStr

/-- The checks of the resources that a scope names. -/
def checkResources (scope : MountScope) : Except Exn Unit :=
  match scope.resources with
  | none => .ok ()
  | some resources => do
    require (.mountRefused .noResourceNamed) !resources.isEmpty
    require (.mountRefused .invalidResource) (resources.all validResource)

/-- The checks of a bound operation. -/
def checkOperation (package : CapabilityPackage) (scope : MountScope)
    (grantedWrites : List PyStr) (o : BoundOperation) : Except Exn Unit := do
  require (.mountRefused .operationTargetNotBoundToPackage)
    (package.targetRef = some o.targetRef && o.targetRef ≠ [])
  require (.mountRefused .operationActionNotGranted) (o.action ∈ grantedWrites)
  require (.mountRefused .invalidResource) (validResource o.resource)
  require (.mountRefused .operationResourceMismatch)
    (scope.resources.all fun rs => o.resource ∈ rs && rs.all fun r => r = o.resource)

namespace Deployment

variable (D : Deployment)

/-- The writes, the resources and the envelope digest that are granted. -/
def grantedScope (package : CapabilityPackage) (scope : MountScope) :
    Except Exn (List PyStr × List PyStr × Option PyStr) := do
  let grantedWrites := package.writes.filter fun a => scope.writes.all fun ws => a ∈ ws
  match scope.operation with
  | none => return (grantedWrites, scope.resources.getD [], none)
  | some o =>
    checkOperation package scope grantedWrites o
    let digest ← D.operationEnvelopeDigest package.id o
    return ([o.action], [o.resource], some digest)

/-- `Mounter.mount` at a given time. -/
def mount (package : CapabilityPackage) (q : MountArgs) (ids : MountIds) (now : ℤ) :
    Except Exn (Mount × Token) := do
  require (.mountRefused .ttlOutOfRange) (1 ≤ q.ttlSeconds && q.ttlSeconds ≤ 600)
  let policy := effectivePolicy package q.policy
  require (.mountRefused .persistentMemoryNotPermitted) !policy.persistentMemoryAllowed
  checkResources q.scope
  let (grantedWrites, grantedResources, envelopeDigest) ← D.grantedScope package q.scope
  let grants : Grants := {
    reads := package.reads.filter fun a => q.scope.reads.all fun rs => a ∈ rs
    writes := grantedWrites
    resources := grantedResources
    envelopeDigest
    blocked := package.blocked ++ q.scope.blocked
    externalSend := package.externalSendActions.filter fun a => a ∈ grantedWrites
    suppressionRequired := package.suppressionRequiredActions.filter fun a => a ∈ grantedWrites }
  return (
    { id := ids.mountId
      packageRef := package.id
      scope := q.scope
      substrateId := q.substrateId
      bootInstanceId := q.bootInstanceId
      runtimeKeyThumbprint := q.runtimeKeyThumbprint
      stateRoot := q.stateRoot },
    { tokenId := ids.tokenId
      mountId := ids.mountId
      executionId := (q.executionId.filter fun e => e ≠ []).getD ids.executionId
      packageRef := package.id
      grants
      policy
      expiresAt := now + q.ttlSeconds * 1000000
      nonce := ids.nonce
      biscuitToken := none })

/-- `_envelope_refusal`. -/
def envelopeRefusal (token : Token) (o : BoundOperation) : Except Exn (Option Reason) :=
  match token.grants.envelopeDigest, token.biscuit with
  -- a bound that is in the stored metadata only is not signed
  | some _, none => .ok (some .operationEnvelopeUnverifiable)
  | none, none => .ok none
  | bound, some biscuit =>
    match D.allowedEnvelopes biscuit, bound with
    | none, _ => .ok (some .operationEnvelopeUnverifiable)
    | some signed, none =>
      .ok (if signed.isEmpty then none else some .operationEnvelopeUnverifiable)
    | some signed, some bound =>
      if bound ∉ signed then .ok (some .operationEnvelopeUnverifiable)
      else do
        let requested ← D.operationEnvelopeDigest token.packageRef o
        return if requested = bound then none else some .operationEnvelopeMismatch

/-! ## What is granted -/

variable {D}

/-- A token carries what a package grants for a scope and a policy. -/
structure Confers (D : Deployment) (package : CapabilityPackage) (requested : MountPolicy)
    (scope : MountScope) (token : Token) : Prop where
  packageRef : token.packageRef = package.id
  policy : token.policy = effectivePolicy package requested
  granted : D.grantedScope package scope =
    .ok (token.grants.writes, token.grants.resources, token.grants.envelopeDigest)
  reads : token.grants.reads = package.reads.filter fun a => scope.reads.all fun rs => a ∈ rs
  blocked : token.grants.blocked = package.blocked ++ scope.blocked
  externalSend : token.grants.externalSend =
    package.externalSendActions.filter fun a => a ∈ token.grants.writes
  suppressionRequired : token.grants.suppressionRequired =
    package.suppressionRequiredActions.filter fun a => a ∈ token.grants.writes

variable {package : CapabilityPackage} {token : Token}

lemma mount_eq_ok {q : MountArgs} {ids : MountIds} {now : ℤ} {mount : Mount}
    (h : D.mount package q ids now = .ok (mount, token)) :
    token.mountId = mount.id ∧ D.Confers package q.policy mount.scope token := by
  unfold Deployment.mount at h
  obtain ⟨_, -, h⟩ := bind_eq_ok.mp h
  obtain ⟨_, -, h⟩ := bind_eq_ok.mp h
  obtain ⟨_, -, h⟩ := bind_eq_ok.mp h
  obtain ⟨⟨writes, resources, digest⟩, hscope, h⟩ := bind_eq_ok.mp h
  obtain ⟨rfl, rfl⟩ := Prod.mk.inj (pure_eq_ok.mp h)
  exact ⟨rfl, rfl, rfl, hscope, rfl, rfl, rfl, rfl⟩

variable {o : BoundOperation}

/-- A mount that is bound to an operation grants its action as the only write and its resource as
the only one, and carries its digest. -/
theorem Confers.operation {requested : MountPolicy} {scope : MountScope}
    (h : D.Confers package requested scope token) (ho : scope.operation = some o) :
    token.grants.writes = [o.action] ∧ token.grants.resources = [o.resource] ∧
      ∃ digest, token.grants.envelopeDigest = some digest ∧
        D.operationEnvelopeDigest token.packageRef o = .ok digest := by
  have hscope := h.granted
  unfold grantedScope at hscope
  rw [ho] at hscope
  obtain ⟨_, -, hscope⟩ := bind_eq_ok.mp hscope
  obtain ⟨digest, hdigest, hscope⟩ := bind_eq_ok.mp hscope
  obtain ⟨hwrites, hrest⟩ := Prod.mk.inj (pure_eq_ok.mp hscope)
  obtain ⟨hresources, henvelope⟩ := Prod.mk.inj hrest
  exact ⟨hwrites.symm, hresources.symm, digest, henvelope.symm, h.packageRef ▸ hdigest⟩

/-! ## What the digest binds -/

/-- SHA-256 is injective on the texts that have an encoding. -/
def Sha256Injective (D : Deployment) : Prop :=
  ∀ s t digest, D.sha256Text s = some digest → D.sha256Text t = some digest → s = t

lemma operationEnvelopeDigest_eq_ok : D.operationEnvelopeDigest packageRef o = .ok digest ↔
      ∃ body, JsonText.dumps D.reprFloat (envelopeBody packageRef o) = some body ∧
        D.sha256Text ("veklom-consequence-envelope-v1\n" ++ body) = some digest := by
  rw [operationEnvelopeDigest, ofOption_eq_ok]
  exact Option.bind_eq_some_iff

/-- Equal bodies have equal members. -/
lemma envelopeBody_inj
    (h : JsonText.sorted (envelopeBody p o) = JsonText.sorted (envelopeBody q o')) :
    p = q ∧ o.targetRef = o'.targetRef ∧ o.action = o'.action ∧ o.resource = o'.resource ∧
      JsonText.sorted o.arguments = JsonText.sorted o'.arguments := by
  have hmember := (Json.normWith_obj_eq_iff id _ _).mp h
  have haction := hmember "action"
  have harguments := hmember "arguments"
  have hpackage := hmember "package_ref"
  have hresource := hmember "resource"
  have htarget := hmember "target_ref"
  simp [FieldMap.lookup, Json.normWith] at haction harguments hpackage hresource htarget
  exact ⟨hpackage, htarget, haction, hresource, harguments⟩

/-- Two operations with one digest are the same operation of the same package, whatever the
order in which the members of the arguments are given. -/
theorem operationEnvelopeDigest_inj (hsha : D.Sha256Injective) {p q digest : PyStr}
    {o' : BoundOperation} (h : D.operationEnvelopeDigest p o = .ok digest)
    (h' : D.operationEnvelopeDigest q o' = .ok digest) :
    p = q ∧ o.targetRef = o'.targetRef ∧ o.action = o'.action ∧ o.resource = o'.resource ∧
      JsonText.sorted o.arguments = JsonText.sorted o'.arguments := by
  obtain ⟨body, hbody, hdigest⟩ := operationEnvelopeDigest_eq_ok.mp h
  obtain ⟨body', hbody', hdigest'⟩ := operationEnvelopeDigest_eq_ok.mp h'
  obtain rfl := List.append_cancel_left (hsha _ _ _ hdigest hdigest')
  exact envelopeBody_inj (JsonText.dumps_inj D.floatTexts hbody hbody')

/-- A request to an envelope-bound mount that is not refused hashes to the bound digest. -/
theorem envelopeRefusal_eq_none {digest : PyStr}
    (hbound : token.grants.envelopeDigest = some digest)
    (h : D.envelopeRefusal token o = .ok none) :
    D.operationEnvelopeDigest token.packageRef o = .ok digest := by
  rw [envelopeRefusal, hbound] at h
  split at h
  · nomatch h
  · next heq _ => nomatch heq
  · split at h
    · nomatch h
    · next heq => nomatch heq
    · next heq =>
      cases heq
      split at h
      · nomatch h
      · obtain ⟨requested, hdigest, hpure⟩ := bind_eq_ok.mp h
        have hif := pure_eq_ok.mp hpure
        split at hif
        · next heq => rw [hdigest, heq]
        · nomatch hif

end Deployment

end CapabilityMount
