import Cappo.Gateway.ApprovalTokens

/-!
# What an accepted approval token is

A token is accepted where it is signed over the bindings of the request, has not expired and names
nobody who is the requester, provided that the import of the check finds its names. In the module as
it is they are not there, so that no token is accepted.
-/

namespace Gateway

open VdbC1 (PyStr Json)
open VdbC1.Platform
open Checks

/-! ## Signatures -/

private lemma lt_base64UrlSymbol : ∀ d, (base64UrlSymbol d).val < 128 := by
  decide

lemma ascii_b64u (raw : VdbC1.Bytes) : ascii (b64u raw) = true := by
  rw [ascii, List.all_eq_true]
  intro c hc
  obtain ⟨d, rfl⟩ := Base64.exists_symbol_of_decode (unb64u_b64u raw) c hc
  exact decide_eq_true (lt_base64UrlSymbol d)

/-- The encoding of a digest is not empty. -/
lemma b64u_ne_nil (h : raw.length = 32) : b64u raw ≠ [] := by
  intro hnil
  have hraw : unb64u [] = some raw := hnil ▸ unb64u_b64u raw
  have hempty : unb64u [] = some [] := unb64u_b64u []
  rw [hempty, Option.some.injEq] at hraw
  rw [← hraw] at h
  simp at h

/-- The comparison of the signatures succeeds on the expected text alone. -/
lemma compareDigest_eq_true (h : ascii expected = true) :
    compareDigest expected x = .ok true ↔ x = .str expected := by
  cases x with
  | str s =>
    rw [compareDigest, h, Bool.true_and]
    by_cases hs : ascii s = true
    · simp [hs]
    · have hne : s ≠ expected := fun heq => hs (heq ▸ h)
      simp [hs, hne]
  | _ => simp [compareDigest]

namespace MCPGateway

variable (G : MCPGateway) (H : IdentityHelpers)

/-- The signature of a dictionary is the text `sign_payload_hmac` gives it. -/
lemma verifySignatureHmac_eq_true : G.verifySignatureHmac payload signature hmacKey = .ok true ↔
      ∃ digest, G.hmacSha256 payload hmacKey = .ok digest ∧ signature = .str (b64u digest.val) := by
  simp only [verifySignatureHmac, signPayloadHmac, bind_eq_ok, pure_eq_ok]
  constructor
  · rintro ⟨expected, ⟨digest, hdigest, rfl⟩, hcompare⟩
    exact ⟨digest, hdigest, (compareDigest_eq_true (ascii_b64u _)).mp hcompare⟩
  · rintro ⟨digest, hdigest, hsignature⟩
    exact ⟨_, ⟨digest, hdigest, rfl⟩, (compareDigest_eq_true (ascii_b64u _)).mpr hsignature⟩

variable {fields : List (PyStr × Json)} {u : Unit}

/-- The signature of a token is checked under a configured key. -/
lemma checkSignature_eq_ok : G.checkSignature fields = .ok u ↔ G.approvalTokenSigningKey ≠ [] ∧
      ∃ digest, G.hmacSha256 (approvalTokenSignaturePayload fields) G.approvalTokenSigningKey =
        .ok digest ∧ get "signature" fields = .str (b64u digest.val) := by
  simp only [checkSignature, bind_eq_ok, require_eq_ok, decide_eq_true_eq]
  constructor
  · rintro ⟨-, -, -, hkey, _, hverified, rfl⟩
    exact ⟨hkey, G.verifySignatureHmac_eq_true.mp hverified⟩
  · rintro ⟨hkey, digest, hdigest, hsignature⟩
    refine ⟨(), ?_, (), hkey, true, ?_, rfl⟩
    · rw [hsignature, Json.truthy_str]
      exact b64u_ne_nil digest.property
    · exact G.verifySignatureHmac_eq_true.mpr ⟨digest, hdigest, hsignature⟩

end MCPGateway

/-! ## Valid tokens -/

/-- No identity that a token names has a form of this requester. -/
def Independent (H : IdentityHelpers) (fields : List (PyStr × Json)) (requesterId : PyStr) : Prop :=
  ∃ own, H.forms (.str requesterId) = .ok own ∧
    ∀ candidate ∈ tokenApproverClaims fields, candidate.truthy = true →
      ∃ forms, H.forms candidate = .ok forms ∧ ∀ a ∈ forms, ∀ b ∈ own, ¬ Json.pyEq a b = true

/-- The dictionary an approver signs for a request. -/
def boundBody (fields : List (PyStr × Json)) (q : BoundRequest) : Json :=
  .obj [("approver_id", get "approver_id" fields), ("capability_id", .str q.capabilityId),
    ("expires_at", get "expires_at" fields),
    ("nonce", .str q.requestNonce),
    ("policy_snapshot_id", .str q.policySnapshotId),
    ("request_hash", .str q.requestHash)]

/-- A token that a request may be resumed with. -/
structure ValidFor (G : MCPGateway) (H : IdentityHelpers) (fields : List (PyStr × Json))
    (q : BoundRequest) : Prop where
  nonce : get "nonce" fields = .str q.requestNonce
  requestHash : get "request_hash" fields = .str q.requestHash
  policySnapshotId : get "policy_snapshot_id" fields = .str q.policySnapshotId
  capabilityId : get "capability_id" fields = .str q.capabilityId
  unexpired : later G.now ((FieldMap.lookup (PyStr.ofString "expires_at") fields).getD (.int 0)) =
    .ok false
  configured : G.approvalTokenSigningKey ≠ []
  signed : ∃ digest, G.hmacSha256 (boundBody fields q) G.approvalTokenSigningKey = .ok digest ∧
    get "signature" fields = .str (b64u digest.val)
  independent : ∀ r, q.requesterId = some r → r ≠ [] → Independent H fields r

/-- A valid token is a dictionary. -/
def ValidToken (G : MCPGateway) (H : IdentityHelpers) (token : Json) (q : BoundRequest) : Prop :=
  ∃ fields, token = .obj fields ∧ ValidFor G H fields q

namespace MCPGateway

variable (G : MCPGateway) (H : IdentityHelpers)

lemma checkOwnIdentity_eq_ok :
    checkOwnIdentity H requesterId fields = .ok u ↔ Independent H fields requesterId := by
  simp only [checkOwnIdentity, bind_eq_ok, forEach_eq_ok, Independent]
  refine exists_congr fun own => and_congr_right fun _ => forall₂_congr fun candidate _ => ?_
  by_cases htruthy : candidate.truthy = true
  · simp only [htruthy, if_true, bind_eq_ok, require_eq_ok, forall_const]
    simp
  · simp [htruthy]

lemma checkSeparation_eq_ok : checkSeparation H requesterId fields = .ok u ↔
      ∀ r, requesterId = some r → r ≠ [] → Independent H fields r := by
  cases requesterId with
  | none => simp [checkSeparation]
  | some r =>
    rw [checkSeparation]
    by_cases hr : r = []
    · simp [hr]
    · simp [hr, checkOwnIdentity_eq_ok]

/-- The checks after the import accept exactly the valid tokens, where the nonce is unspent. -/
lemma exists_checkBindings_eq_ok (hspent : G.isNonceSpent q.requestNonce = .ok false) :
    (∃ approver, G.checkBindings H fields q = .ok approver) ↔ ValidFor G H fields q := by
  simp only [checkBindings, bind_eq_ok, checkSeparation_eq_ok, hspent, require_eq_ok, pure_eq_ok,
    VdbC1.Json.pyEq_str_iff, checkSignature_eq_ok]
  constructor
  · rintro ⟨_, -, hindependent, spent, -, -, -, -, hnonce, expired, hlater, -, hexpired, -, hhash,
      -, hpolicy, -, hcapability, -, ⟨hkey, hsigned⟩, -⟩
    have hexpired : expired = false := by simpa using hexpired
    refine ⟨hnonce, hhash, hpolicy, hcapability, hexpired ▸ hlater, hkey, ?_, hindependent⟩
    rw [approvalTokenSignaturePayload, hnonce, hhash, hpolicy, hcapability] at hsigned
    exact hsigned
  · intro h
    refine ⟨_, (), h.independent, false, rfl, (), rfl, (), h.nonce, false, h.unexpired, (), rfl, (),
      h.requestHash, (), h.policySnapshotId, (), h.capabilityId, (), ⟨h.configured, ?_⟩, rfl⟩
    rw [approvalTokenSignaturePayload, h.nonce, h.requestHash, h.policySnapshotId, h.capabilityId]
    exact h.signed

lemma importFrom_eq_ok :
    importFrom module file names wanted = .ok u ↔ ∀ name ∈ wanted, name ∈ names := by
  simp only [importFrom, forEach_eq_ok, require_eq_ok, decide_eq_true_eq]

/-- A verdict is positive where the import succeeds and the token is valid. -/
lemma validateWith_valid (hspent : G.isNonceSpent q.requestNonce = .ok false) :
    (G.validateWith H names token q).valid = true ↔
      (∀ name ∈ identityNames, name ∈ names) ∧ ValidToken G H token q := by
  rw [ValidToken]
  cases token with
  | obj fields =>
    have hbody : (∃ approver, (do
        importFrom "cappo_backend.services.safety" G.safetyFile names identityNames
        G.checkBindings H fields q) = .ok approver) ↔
        (∀ name ∈ identityNames, name ∈ names) ∧ ValidFor G H fields q := by
      simp only [bind_eq_ok, importFrom_eq_ok, ← G.exists_checkBindings_eq_ok H hspent]
      simp
    simp only [VdbC1.Json.obj.injEq, exists_eq_left', ← hbody, validateWith]
    split <;> simp_all
  | _ => simp [validateWith]

end MCPGateway

/-! ## The names of the import -/

section Sample

/-- Identities that are compared as they are. -/
private def plainIdentities : IdentityHelpers where
  normalizeIdentity x := .ok x
  extractLeafIdentity _ := .ok .null

private def sampleGateway : MCPGateway where
  safetyFile := "/app/cappo_backend/services/safety.py"
  now := 1000
  isNonceSpent _ := .ok false
  approvalTokenSigningKey := "approval-key"
  hmacSha256 _ _ := .ok ⟨List.replicate 32 0, by decide⟩

private def sampleRequest : BoundRequest where
  requestHash := "sha256:request"
  policySnapshotId := "policy-1"
  capabilityId := "orders.refund"
  requestNonce := "nonce-1"
  requesterId := some "agent-7"

private def sampleToken : List (PyStr × Json) := [("approver_id", .str "human-1"),
  ("capability_id", .str "orders.refund"),
  ("expires_at", .int 2000),
  ("nonce", .str "nonce-1"),
  ("policy_snapshot_id", .str "policy-1"),
  ("request_hash", .str "sha256:request"),
  ("signature", .str (b64u (List.replicate 32 0)))]

private lemma validFor_sampleToken :
    ValidFor sampleGateway plainIdentities sampleToken sampleRequest where
  nonce := by decide +kernel
  requestHash := by decide +kernel
  policySnapshotId := by decide +kernel
  capabilityId := by decide +kernel
  unexpired := by decide +kernel
  configured := by decide +kernel
  signed := ⟨_, rfl, by decide +kernel⟩
  independent := by
    intro r hr _
    obtain rfl : "agent-7" = r := Option.some.inj hr
    refine ⟨[.str "agent-7"], by decide +kernel, ?_⟩
    intro candidate hcandidate htruthy
    refine ⟨[candidate], rfl, ?_⟩
    simp only [List.mem_singleton, forall_eq]
    revert htruthy
    revert hcandidate
    revert candidate
    decide +kernel

/-- A request with an unspent nonce is answered as the validity of its token says exactly if the
token is not valid: the module that the check imports from does not bind the names of the import. -/
theorem validateBoundApprovalToken_correct_iff (G : MCPGateway) (H : IdentityHelpers) (token : Json)
    (q : BoundRequest) (hspent : G.isNonceSpent q.requestNonce = .ok false) :
    ((G.validateBoundApprovalToken H token q).valid = true ↔ ValidToken G H token q) ↔
      ¬ ValidToken G H token q := by
  have hrefused : ¬ (G.validateBoundApprovalToken H token q).valid = true := by
    intro hvalid
    have himport := ((G.validateWith_valid H hspent).mp hvalid).1
    exact absurd himport (by decide)
  rw [iff_false_left hrefused]

/-- A token for another capability is refused, as it is to be. -/
theorem validateBoundApprovalToken_other_capability :
    let q := { sampleRequest with capabilityId := "orders.cancel" }
    ¬ ValidToken sampleGateway plainIdentities (.obj sampleToken) q ∧
    ((sampleGateway.validateBoundApprovalToken plainIdentities (.obj sampleToken) q).valid = true ↔
      ValidToken sampleGateway plainIdentities (.obj sampleToken) q) := by
  intro q
  have hinvalid : ¬ ValidToken sampleGateway plainIdentities (.obj sampleToken) q := by
    rintro ⟨fields, hfields, hvalid⟩
    obtain rfl := Json.obj.inj hfields
    exact absurd hvalid.capabilityId (by decide +kernel)
  exact ⟨hinvalid, (validateBoundApprovalToken_correct_iff _ _ _ _ rfl).mpr hinvalid⟩

/-- With the module as it is, the refusal of a valid token names the import. -/
theorem validateBoundApprovalToken_refuses :
    ValidToken sampleGateway plainIdentities (.obj sampleToken) sampleRequest ∧
    sampleGateway.validateBoundApprovalToken plainIdentities (.obj sampleToken) sampleRequest =
      ⟨false, none, PyStr.ofString ("cannot import name 'extract_leaf_identity' from " ++
        "'cappo_backend.services.safety' (/app/cappo_backend/services/safety.py)")⟩ :=
  ⟨⟨sampleToken, rfl, validFor_sampleToken⟩, by decide +kernel⟩

end Sample

end Gateway
