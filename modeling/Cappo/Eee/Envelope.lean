import Cappo.VdbC1.Canon

/-!
# Sealed evidence envelopes

The integrity of an EEE v0.1.0 envelope, as every issuer of this repository makes it: the
hash covers all fields but the hash itself, the link to a previous envelope and the
signatures, and the issuer signs the text of the hash. `vdb_c1/eee.py` and
`vre15/evidence.py` seal their envelopes so, and `cappo_backend/services/eee.py` and
`vre15/verify_evidence.py` check them.

## Main result

* `exists_sealed`: encodable fields can be sealed.
-/

open VdbC1

open FieldMap

namespace Eee

/-- The fields of a dictionary. -/
abbrev Fields := List (PyStr × Json)

/-- The fields that the hash does not cover. -/
def integrityFields : List PyStr :=
  ["envelope_hash", "previous_envelope_hash", "signatures"].map PyStr.ofString

/-- The fields that the hash covers. -/
def body (fields : Fields) : Fields := fields.filter fun m => m.1 ∉ integrityFields

lemma lookup_body (k : PyStr) (fields : Fields) : lookup k (body fields) =
    if k ∈ integrityFields then none else lookup k fields := by
  induction fields with
  | nil => simp [body]
  | cons m fields ih =>
    rw [body] at ih ⊢
    by_cases hm : m.1 ∈ integrityFields
    · rw [List.filter_cons_of_neg (by simpa using hm), ih, lookup_cons]
      split_ifs with hk hkm
      · rfl
      · exact absurd (hkm ▸ hm) hk
      · rfl
    · rw [List.filter_cons_of_pos (by simpa using hm), lookup_cons, ih, lookup_cons]
      split_ifs with hkm hk
      · exact absurd (hkm ▸ hk) hm
      · rfl
      · rfl
      · rfl

/-- Python's `s.encode("ascii")`. -/
def ascii (s : PyStr) : Option Bytes :=
  if s.all fun c => c.val < 128 then some (s.map fun c => Fin.ofNat 256 c.val) else none

variable (P : Platform)

/-- A digest is an ASCII text. -/
lemma exists_ascii_digest (h : P.digest j = some d) : ∃ raw, ascii d = some raw := by
  obtain ⟨raw, -, rfl⟩ := Option.map_eq_some_iff.mp h
  refine ⟨_, if_pos ?_⟩
  have hdigit : ∀ n < 16, (PyStr.hex.digit n).val < 128 := by decide
  have hhex : (PyStr.hex (P.sha256 raw)).all (fun c => decide (c.val < 128)) = true := by
    simp only [PyStr.hex, List.all_flatMap, List.all_eq_true, List.all_cons, List.all_nil,
      Bool.and_true, Bool.and_eq_true, decide_eq_true_eq]
    exact fun b _ => ⟨hdigit _ (by omega), hdigit _ (by omega)⟩
  rw [List.all_append, hhex, Bool.and_true]
  decide

/-- The issuer's signature entry over the text of the hash. -/
def signature (issuer kid : PyStr) (sig : Bytes) (signedAt : Json) : Json :=
  .obj [("signer", .str (issuer ++ "#" ++ kid)), ("kid", .str kid),
    ("scheme", "Ed25519"), ("value", .str (Platform.b64u sig)), ("signed_at", signedAt)]

/-- The fields with their hash and the issuer's signature. -/
def withSeal (root : PyStr) (sig : Json) (fields : Fields) : Fields :=
  ("envelope_hash", .str root) :: ("signatures", .arr [sig]) :: fields

/-- The last steps of `envelope_for` of `vdb_c1/eee.py` and of `envelope` of
`vre15/evidence.py`. -/
def sealed (fields : Fields) (issuer kid : PyStr) (sk : P.SecretKey) (signedAt : Json) :
    Option Fields := do
  let root ← P.digest (.obj (body fields))
  let raw ← ascii root
  some (withSeal root (signature issuer kid (P.sign sk raw) signedAt) fields)

variable {P} {fields env : Fields} {issuer kid : PyStr} {sk : P.SecretKey} {signedAt : Json}

lemma sealed_eq_some : sealed P fields issuer kid sk signedAt = some env ↔
    ∃ root raw, P.digest (.obj (body fields)) = some root ∧ ascii root = some raw ∧
      env = withSeal root (signature issuer kid (P.sign sk raw) signedAt) fields := by
  simp only [sealed, Option.bind_eq_bind, Option.bind_eq_some_iff, Option.some.injEq]
  constructor
  · rintro ⟨root, hroot, raw, hraw, henv⟩
    exact ⟨root, raw, hroot, hraw, henv.symm⟩
  · rintro ⟨root, raw, hroot, hraw, henv⟩
    exact ⟨root, hroot, raw, hraw, henv.symm⟩

/-- Encodable fields can be sealed. -/
theorem exists_sealed (h : (Json.obj fields).encodable = true) :
    ∃ env, sealed P fields issuer kid sk signedAt = some env := by
  have hbody : (Json.obj (body fields)).encodable = true := by
    rw [Json.encodable_obj_iff] at h ⊢
    intro k v hk
    rw [lookup_body] at hk
    split_ifs at hk
    exact h k v hk
  obtain ⟨root, hroot⟩ := P.exists_digest hbody
  obtain ⟨raw, hraw⟩ := exists_ascii_digest P hroot
  exact ⟨_, sealed_eq_some.mpr ⟨root, raw, hroot, hraw, rfl⟩⟩

/-- Sealing adds integrity fields only. -/
lemma lookup_sealed (h : sealed P fields issuer kid sk signedAt = some env)
    (hk : k ∉ integrityFields) : lookup k env = lookup k fields := by
  obtain ⟨root, raw, -, -, rfl⟩ := sealed_eq_some.mp h
  have hhash : k ≠ "envelope_hash" := by
    rintro rfl
    exact hk (by simp [integrityFields])
  have hsigs : k ≠ "signatures" := by
    rintro rfl
    exact hk (by simp [integrityFields])
  rw [withSeal, lookup_cons, if_neg hhash, lookup_cons, if_neg hsigs]

/-- Python's `d.get(k)` of a dictionary. -/
def get (k : String) (fields : Fields) : Json :=
  (lookup (PyStr.ofString k) fields).getD .null

lemma get_sealed (h : sealed P fields issuer kid sk signedAt = some env)
    (hk : PyStr.ofString k ∉ integrityFields) : get k env = get k fields := by
  rw [get, get, lookup_sealed h hk]

end Eee
