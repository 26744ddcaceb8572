import Mathlib.Data.List.TakeWhile
import Cappo.Lib.Base64Url
import Cappo.Lib.KeyedTable
import Cappo.VdbC1.Python

/-!
# Canonical encoding, digests, signatures, state roots and times

The functions of `canon.py`, over a `Platform`: the libraries and the parts of Python the
code calls but this repository does not contain. What is known of them is stated as laws of
the structure; every function that can raise returns an `Option`.

## Main results

* `Platform.digest_isSome`: exactly the encodable values have a digest;
* `Platform.verifySigned_sign`: what a trusted key signed verifies;
* `Platform.parseTime_formatTime`: a formatted time is read back cut to milliseconds.
-/

namespace VdbC1

open List Json

/-- A Python `bytes` value. -/
abbrev Bytes := List (Fin 256)

namespace PyStr

/-- `text.replace(pattern, "")`, with `n` characters of a match left to skip. -/
private def removeFrom (pattern : PyStr) : ℕ → PyStr → PyStr
  | _, [] => []
  | n + 1, _ :: s => removeFrom pattern n s
  | 0, c :: s =>
    if pattern.isPrefixOf (c :: s) then removeFrom pattern (pattern.length - 1) s
    else c :: removeFrom pattern 0 s

/-- Python's `s.replace(pattern, "")`. -/
def remove (pattern s : PyStr) : PyStr := removeFrom pattern 0 s

/-- Python's `s.strip(chars)`. -/
def strip (chars s : PyStr) : PyStr :=
  ((s.dropWhile fun c => c ∈ chars).reverse.dropWhile fun c => c ∈ chars).reverse

variable {c : CodePoint}

private lemma mem_removeFrom (hne : pattern ≠ []) (hc : c ∉ pattern) (s : PyStr) :
    ∀ n, c ∉ s.take n → c ∈ s → c ∈ removeFrom pattern n s := by
  induction s with
  | nil => exact fun n _ h => h
  | cons x s ih =>
    intro n hskip hmem
    cases n with
    | succ n =>
      rw [take_succ_cons, mem_cons, not_or] at hskip
      exact ih n hskip.2 ((mem_cons.mp hmem).resolve_left hskip.1)
    | zero =>
      rw [removeFrom]
      split_ifs with hpattern
      · -- the characters that are left out are those of the pattern
        obtain ⟨y, rest, rfl⟩ := exists_cons_of_ne_nil hne
        obtain ⟨tail, htail⟩ := isPrefixOf_iff_prefix.mp hpattern
        cases htail
        rw [mem_cons, not_or] at hc
        refine ih _ ?_ ((mem_cons.mp hmem).resolve_left hc.1)
        simpa using hc.2
      · rcases mem_cons.mp hmem with rfl | hmem
        · exact mem_cons_self
        · exact mem_cons_of_mem _ (ih 0 not_mem_nil hmem)

/-- Only the characters of the pattern are removed. -/
lemma mem_remove (hne : pattern ≠ []) (hc : c ∉ pattern) (h : c ∈ s) : c ∈ remove pattern s :=
  mem_removeFrom hne hc s 0 not_mem_nil h

/-- Only the given characters are stripped. -/
lemma mem_strip (hc : c ∉ chars) (h : c ∈ s) : c ∈ strip chars s := by
  have hdrop {s : PyStr} (h : c ∈ s) : c ∈ s.dropWhile fun c => c ∈ chars := by
    rw [← takeWhile_append_dropWhile (p := fun c => decide (c ∈ chars)) (l := s), mem_append] at h
    exact h.resolve_left fun htake => hc (by simpa using mem_takeWhile_imp htake)
  rw [strip, mem_reverse]
  exact hdrop (mem_reverse.mpr (hdrop h))

/-- Python's `bytes.hex()`: two lowercase digits for each byte. -/
def hex (raw : Bytes) : PyStr :=
  raw.flatMap fun b => [digit (b.val / 16), digit (b.val % 16)]
where
  digit (n : ℕ) : CodePoint := if n < 10 then Fin.ofNat _ (48 + n) else Fin.ofNat _ (87 + n)

lemma encodable_hex (raw : Bytes) : encodable (hex raw) = true := by
  have hdigit : ∀ n < 16, isSurrogate (hex.digit n) = false := by decide
  simp only [encodable, hex, all_flatMap, all_eq_true, all_cons, all_nil,
    Bool.and_true, Bool.and_eq_true, Bool.not_eq_true']
  exact fun b _ => ⟨hdigit _ (by omega), hdigit _ (by omega)⟩

end PyStr

/-- The row `[key, value]` of an entry list. -/
def entry (r : PyStr × PyStr) : Json := .arr [.str r.1, .str r.2]

variable {j : Json}

/-- Only a row of the same strings equals a row. -/
lemma eq_entry_of_pyEq (h : Json.pyEq (entry r) j = true) : j = entry r := by
  have hnorm := (pyEq_iff.mp h).1
  obtain ⟨xs, rfl, -⟩ := pyNorm_eq_arr.mp (hnorm.symm.trans (pyNorm_eq_arr.mpr ⟨_, rfl, rfl⟩))
  -- the elements are compared with the two strings of the row
  rw [entry, pyEq_arr_iff, forall₂_cons_left_iff] at h
  obtain ⟨k, l, hk, hl, rfl⟩ := h
  obtain ⟨v, l', hv, hl', rfl⟩ := forall₂_cons_left_iff.mp hl
  obtain rfl := forall₂_nil_left_iff.mp hl'
  rw [str_pyEq_iff.mp hk, str_pyEq_iff.mp hv, entry]

/-- The libraries and the parts of Python that the code calls, with what the code relies on.

* `jcs` is `rfc8785.dumps`; it raises on a value RFC 8785 does not encode.
* `sign` and `verify` are Ed25519; a public key is its raw bytes.
* `sorted` is Python's sort of a list of JSON values; it raises when two elements it
  compares have no order.
* `isoformat` is the text `datetime.isoformat(timespec="milliseconds")` of the moment so many
  microseconds after the epoch, without the offset; it has a fraction of a second and no `Z`.
  `fromisoformat` parses a UTC text.
* `intBase16` says whether `int(s, 16)` accepts the text as a 128-bit number; no such text has
  a `#`.
* `reprFloat` is the text of a float in an f-string. -/
structure Platform where
  jcs : Json → Option Bytes
  sha256 : Bytes → Bytes
  SecretKey : Type
  publicRaw : SecretKey → Bytes
  sign : SecretKey → Bytes → Bytes
  verify : Bytes → Bytes → Bytes → Bool
  sorted : List Json → Option (List Json)
  isoformat : ℤ → PyStr
  fromisoformat : PyStr → Option ℤ
  intBase16 : PyStr → Bool
  reprFloat : PyFloat → PyStr
  jcs_isSome : ∀ j, (jcs j).isSome = j.encodable
  jcs_congr : ∀ a b, a.canonical = b.canonical → jcs a = jcs b
  verify_sign : ∀ sk m, verify (publicRaw sk) (sign sk m) m = true
  sorted_perm : ∀ xs ys, sorted xs = some ys → ys.Perm xs
  sorted_entries : ∀ t : List (PyStr × PyStr),
    sorted (t.map entry) = some ((KeyedTable.ordered t).map entry)
  encodable_isoformat : ∀ u, (isoformat u).encodable = true
  fromisoformat_isoformat : ∀ u,
    fromisoformat (isoformat u ++ "+00:00") = some (u / 1000 * 1000)
  isoformat_fraction : ∀ u, 0x2E ∈ isoformat u
  isoformat_offset : ∀ u, 0x5A ∉ isoformat u
  intBase16_digits : ∀ s, intBase16 s = true → 0x23 ∉ s
  encodable_reprFloat : ∀ x, (reprFloat x).encodable = true

namespace Platform

variable (P : Platform)

/-! ## Digests -/

/-- `digest` of `canon.py`. -/
def digest (j : Json) : Option PyStr :=
  (P.jcs j).map fun raw => "sha256:" ++ PyStr.hex (P.sha256 raw)

/-- Exactly the values with an RFC 8785 encoding have a digest. -/
theorem digest_isSome (j : Json) : (P.digest j).isSome = j.encodable := by
  rw [digest, Option.isSome_map, P.jcs_isSome]

lemma digest_congr (h : a.canonical = b.canonical) : P.digest a = P.digest b := by
  rw [digest, digest, P.jcs_congr a b h]

lemma encodable_digest (h : P.digest j = some d) : d.encodable = true := by
  obtain ⟨raw, -, rfl⟩ := Option.map_eq_some_iff.mp h
  rw [PyStr.encodable_append, PyStr.encodable_ofString, PyStr.encodable_hex, Bool.and_self]

lemma encodable_of_digest (h : P.digest j = some d) : j.encodable = true := by
  rw [← P.digest_isSome, h, Option.isSome_some]

lemma exists_digest (h : j.encodable = true) : ∃ d, P.digest j = some d :=
  Option.isSome_iff_exists.mp (by rwa [P.digest_isSome])

/-- No two values have one digest, unless RFC 8785 encodes them alike. -/
def DigestInjective : Prop :=
  ∀ a b d, P.digest a = some d → P.digest b = some d → a.canonical = b.canonical

/-! ## Keys and signatures -/

/-- The base64url alphabet. -/
def base64UrlSymbol (d : Fin 64) : CodePoint :=
  if d.val < 26 then Fin.ofNat _ (65 + d.val)
  else if d.val < 52 then Fin.ofNat _ (71 + d.val)
  else if d.val < 62 then Fin.ofNat _ (d.val - 4)
  else if d.val = 62 then 45 else 95

lemma base64UrlSymbol_injective : Function.Injective base64UrlSymbol := by
  intro a b h
  simp only [base64UrlSymbol] at h
  split_ifs at h <;> simp [Fin.ext_iff] at h ⊢ <;> omega

/-- `b64u` of `canon.py`. -/
def b64u (raw : Bytes) : PyStr := Base64.encode base64UrlSymbol raw

/-- `unb64u` of `canon.py`: a text that is not the encoding of its own decoding is refused,
so the function is the partial inverse of `b64u`. -/
def unb64u (text : PyStr) : Option Bytes := Base64.decode base64UrlSymbol text

@[simp]
lemma unb64u_b64u (raw : Bytes) : unb64u (b64u raw) = some raw :=
  Base64.decode_encode base64UrlSymbol_injective raw

/-- `key_id` of `canon.py`. -/
def keyId (pub : Bytes) : PyStr :=
  "ed25519:" ++ (PyStr.hex (P.sha256 pub)).take 16

lemma isSurrogate_base64UrlSymbol : ∀ d, PyStr.isSurrogate (base64UrlSymbol d) = false := by
  decide

lemma encodable_b64u (raw : Bytes) : (b64u raw).encodable = true := by
  simp [PyStr.encodable, b64u, Base64.encode, isSurrogate_base64UrlSymbol]

variable {text : PyStr}

lemma encodable_of_unb64u (h : unb64u text = some raw) : text.encodable = true := by
  rw [PyStr.encodable, all_eq_true]
  intro c hc
  obtain ⟨d, rfl⟩ := Base64.exists_symbol_of_decode h c hc
  rw [isSurrogate_base64UrlSymbol, Bool.not_false]

lemma encodable_keyId (pub : Bytes) : (P.keyId pub).encodable = true := by
  have hhex := PyStr.encodable_hex (P.sha256 pub)
  rw [keyId, PyStr.encodable_append, PyStr.encodable_ofString, Bool.true_and]
  rw [PyStr.encodable, all_eq_true] at hhex ⊢
  exact fun c hc => hhex c (mem_of_mem_take hc)

/-- The envelope `sign` of `canon.py` returns. -/
def envelope (payload : Json) (kid sig : PyStr) : Json :=
  .obj [("alg", "Ed25519"), ("kid", .str kid), ("payload", payload), ("sig", .str sig)]

/-- `sign` of `canon.py`. -/
def signPayload (payload : Json) (sk : P.SecretKey) (kid : PyStr) : Option Json :=
  (P.jcs payload).map fun m => envelope payload kid (b64u (P.sign sk m))

variable {kid : PyStr}

/-- An encodable payload can be signed, and the envelope can be encoded. -/
lemma exists_signPayload (h : payload.encodable = true) (sk : P.SecretKey)
    (hkid : kid.encodable = true) :
    ∃ signed, P.signPayload payload sk kid = some signed ∧ signed.encodable = true := by
  obtain ⟨m, hm⟩ := Option.isSome_iff_exists.mp ((P.jcs_isSome _).trans h)
  refine ⟨envelope payload kid (b64u (P.sign sk m)), by rw [signPayload, hm, Option.map_some], ?_⟩
  simp [envelope, h, hkid, encodable_b64u]

lemma field?_signPayload (h : P.signPayload payload sk kid = some signed) :
    signed.field? "payload" = some payload ∧ signed.field? "kid" = some (.str kid) := by
  obtain ⟨m, -, rfl⟩ := Option.map_eq_some_iff.mp h
  simp [envelope]

/-- The raw key a trust store pins under `kid`, if the key's id is `kid`. -/
def trustedKey (trusted : List (PyStr × PyStr)) (kid : PyStr) : Option Bytes := do
  let pub ← unb64u (← FieldMap.lookup kid trusted)
  if P.keyId pub = kid then some pub else none

/-- `verify_signed` of `canon.py`; whatever raises there is a signature that does not
verify. A key that is not a string is in no trust store, and a signature that is not a
string is no base64url text. -/
def verifySigned (signed : Json) (trusted : List (PyStr × PyStr)) : Bool :=
  match signed.field? "kid", signed.field? "alg", signed.field? "sig",
      signed.field? "payload" with
  | some (.str kid), some alg, some (.str sig), some payload =>
    match P.trustedKey trusted kid, unb64u sig, P.jcs payload with
    | some pub, some raw, some m => alg.pyEq "Ed25519" && P.verify pub raw m
    | _, _, _ => false
  | _, _, _, _ => false

variable {trusted : List (PyStr × PyStr)}

/-- A verified value is an envelope of strings around an encodable payload. -/
lemma verifySigned_iff :
    P.verifySigned signed trusted = true ↔
      ∃ kid sig payload pub raw m,
        signed.field? "kid" = some (.str kid) ∧ signed.field? "alg" = some (.str "Ed25519") ∧
        signed.field? "sig" = some (.str sig) ∧ signed.field? "payload" = some payload ∧
        P.trustedKey trusted kid = some pub ∧ unb64u sig = some raw ∧ P.jcs payload = some m ∧
        P.verify pub raw m = true := by
  constructor
  · intro h
    unfold verifySigned at h
    split at h
    · rename_i kid alg sig payload hkid halg hsig hpayload
      split at h
      · rename_i pub raw m hpub hraw hm
        obtain ⟨heq, hverify⟩ := Bool.and_eq_true_iff.mp h
        obtain rfl := pyEq_str_iff.mp heq
        exact ⟨kid, sig, payload, pub, raw, m, hkid, halg, hsig, hpayload, hpub, hraw, hm, hverify⟩
      · exact absurd h (by simp)
    · exact absurd h (by simp)
  · rintro ⟨kid, sig, payload, pub, raw, m, hkid, halg, hsig, hpayload, hpub, hraw, hm, hverify⟩
    simp only [verifySigned, hkid, halg, hsig, hpayload, hpub, hraw, hm, hverify, Bool.and_true]
    exact pyEq_str_iff.mpr rfl

/-- What a trusted key signed verifies. -/
theorem verifySigned_sign {payload signed : Json} {sk : P.SecretKey}
    (hsign : P.signPayload payload sk kid = some signed)
    (hkey : P.trustedKey trusted kid = some (P.publicRaw sk)) :
    P.verifySigned signed trusted = true := by
  obtain ⟨m, hm, rfl⟩ := Option.map_eq_some_iff.mp hsign
  exact P.verifySigned_iff.mpr ⟨kid, b64u (P.sign sk m), payload, P.publicRaw sk, P.sign sk m, m,
    by simp [envelope], by simp [envelope], by simp [envelope], by simp [envelope], hkey,
    unb64u_b64u _, hm, P.verify_sign sk m⟩

/-- No signature in the value is forged: one that verifies under a pinned key was made by the
key's holder. -/
def Unforged (signedBy : Bytes → Bytes → Prop) (trusted : List (PyStr × PyStr)) (j : Json) : Prop :=
  ∀ kid pub text sig m, P.trustedKey trusted kid = some pub → Json.Within (.str text) j →
    unb64u text = some sig → P.verify pub sig m = true → signedBy pub m

/-! ## Roots and commitments -/

/-- `state_root` of `canon.py`, which `verify.py` repeats. -/
def stateRoot (ns generation entries : Json) : Option PyStr := do
  let rows ← P.sorted (← entries.items)
  P.digest (.obj [("protocol", "veklom.vdb.c1.state/v1"), ("namespace", ns),
    ("generation", generation), ("entries", .arr rows)])

/-- `payload_commitment` of `canon.py`. -/
def payloadCommitment (op key value : Json) : Option PyStr :=
  P.digest (.obj [("protocol", "veklom.vdb.c1.payload/v1"), ("op", op), ("key", key),
    ("value", value)])

/-! ## Times -/

/-- A clock reading in microseconds, as `datetime` counts them: the fraction of the second is
multiplied as a double, and the product is rounded to an integer. -/
def microseconds (t : ℚ) : ℤ :=
  let whole : ℤ := if 0 ≤ t then ⌊t⌋ else ⌈t⌉
  whole * 10 ^ 6 + Json.roundHalfEven (Json.roundDouble ((t - whole) * 10 ^ 6))

/-- `datetime.fromtimestamp`, as microseconds after the epoch. Only the years 1 to 9999 have a
`datetime`. -/
def fromtimestamp (t : ℚ) : Option ℤ :=
  let u := microseconds t
  if -62135596800000000 ≤ u ∧ u ≤ 253402300799999999 then some u else none

/-- `format_time` of `canon.py`. -/
def formatTime (t : ℚ) : Option PyStr :=
  (fromtimestamp t).map fun u => P.isoformat u ++ "Z"

/-- `parse_time` of `canon.py`: the time as a double, in seconds. -/
def parseTime (text : PyStr) : Option ℚ :=
  if text.getLast? = some 0x5A then
    (P.fromisoformat (text.dropLast ++ "+00:00")).map fun u : ℤ =>
      Json.roundDouble (u / 10 ^ 6)
  else none

/-- A clock reading as it is read back from its formatted text: rounded to microseconds, cut
to milliseconds, and rounded to a double. -/
def stamped (t : ℚ) : ℚ := Json.roundDouble ((microseconds t / 1000 * 1000 : ℤ) / 10 ^ 6)

variable {t : ℚ}

lemma parseTime_formatTime (h : P.formatTime t = some text) :
    P.parseTime text = some (stamped t) := by
  obtain ⟨u, hu, rfl⟩ := Option.map_eq_some_iff.mp h
  have hZ : PyStr.ofString "Z" = [0x5A] := by decide
  rw [parseTime, hZ, if_pos (List.getLast?_concat), dropLast_concat,
    P.fromisoformat_isoformat, Option.map_some, stamped]
  unfold fromtimestamp at hu
  simp only at hu
  split_ifs at hu
  rw [Option.some.inj hu]

lemma exists_formatTime (h : fromtimestamp t ≠ none) : ∃ text, P.formatTime t = some text := by
  obtain ⟨u, hu⟩ := Option.ne_none_iff_exists'.mp h
  exact ⟨_, by rw [formatTime, hu, Option.map_some]⟩

lemma microseconds_intCast (n : ℤ) : microseconds n = n * 10 ^ 6 := by
  have hzero : Json.roundDouble 0 = ((0 : ℤ) : ℚ) := by simpa using roundDouble_intCast (n := 0)
  rw [microseconds, Int.floor_intCast, Int.ceil_intCast, ite_self, sub_self, zero_mul, hzero,
    roundHalfEven_intCast, add_zero]

/-- Whole seconds of the years from 1970 to 9999 have a `datetime`. -/
lemma fromtimestamp_intCast {n : ℤ} (h : 0 ≤ n) (h' : n < 253402300800) :
    fromtimestamp n = some (n * 10 ^ 6) := by
  rw [fromtimestamp, microseconds_intCast]
  exact if_pos ⟨by omega, by omega⟩

/-- A whole number of seconds is stamped exactly. -/
lemma stamped_intCast {n : ℤ} (h : |n| < 2 ^ 53) : stamped n = n := by
  have hmilli : n * 10 ^ 6 / 1000 * 1000 = n * 10 ^ 6 := by omega
  have hmicro : ((n * 10 ^ 6 : ℤ) : ℚ) / 10 ^ 6 = n := by
    rw [Int.cast_mul, Int.cast_pow, Int.cast_ofNat]
    exact mul_div_cancel_right₀ _ (by norm_num)
  rw [stamped, microseconds_intCast, hmilli, hmicro, roundDouble_intCast h]

lemma encodable_formatTime (h : P.formatTime t = some text) : text.encodable = true := by
  obtain ⟨u, -, rfl⟩ := Option.map_eq_some_iff.mp h
  rw [PyStr.encodable_append, P.encodable_isoformat, PyStr.encodable_ofString, Bool.and_self]

/-- The hexadecimal digits `uuid.UUID(s)` reads: the text without the marks it allows. -/
def uuidHex (s : PyStr) : PyStr :=
  PyStr.remove "-" (PyStr.strip "\x7b\x7d" (PyStr.remove "uuid:" (PyStr.remove "urn:" s)))

/-- Whether `uuid.UUID(s)` accepts the text. -/
def isUuid (s : PyStr) : Bool := decide ((uuidHex s).length = 32) && P.intBase16 (uuidHex s)

/-- No text of a UUID has a `#`: it is not among the marks, and no digit. -/
lemma not_mem_of_isUuid (h : P.isUuid s = true) : 0x23 ∉ s := by
  intro hmem
  refine P.intBase16_digits _ (Bool.and_eq_true_iff.mp h).2 ?_
  exact PyStr.mem_remove (by decide) (by decide) (PyStr.mem_strip (by decide)
    (PyStr.mem_remove (by decide) (by decide) (PyStr.mem_remove (by decide) (by decide) hmem)))

end Platform

end VdbC1
