import Cappo.CapabilityMount.Mounting

/-!
# Evidence for the approval gates

`BoundMountEvidenceVerifier.verify` of `mount_evidence.py`. An evidence token is signed with the
key of its kind and names one principal, mount, action, nonce and scope; it is valid for ten
minutes at most. Times are microseconds.
-/

namespace CapabilityMount

open VdbC1 (PyStr Json)

def EvidenceKind.value : EvidenceKind → PyStr
  | humanApproval => "human_approval"
  | suppressionCheck => "suppression_check"

/-- `payload.get(field)`. -/
def evidenceField (payload : List (PyStr × Json)) (field : String) : Option Json :=
  FieldMap.lookup (PyStr.ofString field) payload

/-- A token of version 1 and the given kind. -/
def evidenceType (kind : EvidenceKind) (payload : List (PyStr × Json)) : Bool :=
  (evidenceField payload "v").any (fun v => v.pyEq (.int 1)) &&
    evidenceField payload "kind" = some (.str kind.value)

/-- The identifier of the token, if it is a text of 1 to 255 characters. -/
def evidenceJti (payload : List (PyStr × Json)) : Option PyStr :=
  match evidenceField payload "jti" with
  | some (.str jti) => if jti = [] ∨ 255 < jti.length then none else some jti
  | _ => none

/-- Whether a token issued and expiring at these times is valid now: it is not from more than
30 seconds ahead, and lives for at most 600. -/
def evidenceInTime (issuedAt expiresAt now : ℤ) : Bool :=
  !(issuedAt > now + 30 * 1000000) && !(expiresAt ≤ now) && !(expiresAt ≤ issuedAt) &&
    !(expiresAt - issuedAt > 600 * 1000000)

namespace Deployment

variable (D : Deployment)

/-- `_scope_hash`. -/
def scopeHash (mount : Mount) : PyStr :=
  D.sha256Json (.obj [("workspace", .str mount.scope.workspace),
    ("project", .str mount.scope.project)])

/-- `_nonce_hash`; it raises when the nonce has no encoding. -/
def nonceHash (nonce : PyStr) : Except Exn PyStr :=
  Checks.ofOption (.value []) (D.sha256Text nonce)

/-- `_parse_time`; a value that is no text is no time. -/
def evidenceTime : Option Json → Except Exn (Option ℤ)
  | some (.str text) => D.parseTime text
  | _ => .ok none

/-- The members that a payload must have. -/
def evidenceBinding (principal : PyStr) (mount : Mount) (action nonce : PyStr) :
    Except Exn (List (String × PyStr)) := do
  let nonceHash ← D.nonceHash nonce
  return [("principal", principal), ("mount_id", mount.id), ("action", action),
    ("nonce_hash", nonceHash), ("scope_hash", D.scopeHash mount)]

/-- The checks of a payload whose signature is valid: its `jti`. -/
def verifyPayload (kind : EvidenceKind) (payload : List (PyStr × Json)) (principal : PyStr)
    (mount : Mount) (action nonce : PyStr) (now : ℤ) : Except Exn (Option PyStr) :=
  if !evidenceType kind payload then .ok none
  else do
    let expected ← D.evidenceBinding principal mount action nonce
    if !expected.all fun (field, value) => evidenceField payload field = some (.str value) then
      return none
    else match evidenceJti payload with
      | none => return none
      | some jti =>
        match ← D.evidenceTime (evidenceField payload "iat") with
        | none => return none
        | some issuedAt =>
          match ← D.evidenceTime (evidenceField payload "exp") with
          | none => return none
          | some expiresAt =>
            return if evidenceInTime issuedAt expiresAt now then some jti else none

/-- `BoundMountEvidenceVerifier.verify`: the `jti` of evidence that verifies. -/
def verifyEvidence (kind : EvidenceKind) (token : Option PyStr) (principal : PyStr)
    (mount : Mount) (action nonce : PyStr) (now : ℤ) : Except Exn (Option PyStr) :=
  match token.filter fun t => t ≠ [] with
  | none => .ok none
  | some token => do
    match ← D.evidencePayload kind token with
    | none => return none
    | some payload => D.verifyPayload kind payload principal mount action nonce now

end Deployment

end CapabilityMount
