import Cappo.Lib.Checks
import Cappo.VdbC1.Journal

/-!
# The chain of untrusted records

`verify.py` (for a bundle's journal and for its suffix) and `witness.py` check records they
do not trust with one loop over the parsed JSON. A list that passes is a hash chain, and
when digests are injective a chain is determined by its length and its last hash, up to what
RFC 8785 does not tell apart.

## Main results

* `checkChain_eq_ok`: what the loop accepts;
* `canonical_eq_of_recordHash`: a linked record is determined by its hash;
* `chain_toJson`: the records of a coordinator's journal pass.
-/

namespace VdbC1

open Json Checks

/-- `JOURNAL` of `verify.py` and `JOURNAL_PROTOCOL` of `witness.py`. -/
def journalProtocol : PyStr := "veklom.vdb.c1.journal/v1"

/-- The hash a record states. -/
def Json.recordHash (r : Json) : PyStr := (r.str? "hash").getD []

variable {i : ℕ} {prev : PyStr}

variable {k : PyStr}

section Check

variable (P : Platform) {ε : Type} (raised mismatch : ε)

/-- One round of the loop: `raised` stands for a Python exception, `mismatch` for a record
that does not continue the chain. -/
def checkRecord (i : ℕ) (prev : PyStr) (r : Json) : Except ε PyStr := do
  let body ← ofOption raised (r.without "hash")
  let protocol ← ofOption raised (r.get? "protocol")
  require mismatch (protocol.pyEq (.str journalProtocol))
  let seq ← ofOption raised (r.get? "seq")
  require mismatch (seq.pyEq (.int i))
  let prev' ← ofOption raised (r.get? "prev")
  require mismatch (prev'.pyEq (.str prev))
  let hash ← ofOption raised (r.get? "hash")
  let digest ← ofOption raised (P.digest body)
  require mismatch (hash.pyEq (.str digest))
  return digest

/-- The loop over the records, from position `i` after the hash `prev`; the last hash. -/
def checkChain : ℕ → PyStr → List Json → Except ε PyStr
  | _, prev, [] => .ok prev
  | i, prev, r :: rs => do
    let hash ← checkRecord P raised mismatch i prev r
    checkChain (i + 1) hash rs

/-- The record continues a chain at position `i` after the hash `prev`. -/
structure Links (i : ℕ) (prev : PyStr) (r : Json) : Prop where
  protocol : r.field? "protocol" = some (.str journalProtocol)
  seq : ∃ seq, r.field? "seq" = some seq ∧ seq.pyEq (.int i) = true
  prev : r.field? "prev" = some (.str prev)
  hash : r.field? "hash" = some (.str r.recordHash)
  digest : ∃ body, r.without "hash" = some body ∧ P.digest body = some r.recordHash

variable {P raised mismatch}

lemma Json.field?_of_get?_ne_null {j v : Json} (h : j.get? k = some v) (hv : v ≠ .null) :
    j.field? k = some v := by
  cases j with
  | obj fields =>
    rw [Json.get?, Option.some.injEq] at h
    rw [Json.field?_obj]
    cases hl : FieldMap.lookup k fields with
    | none => simp [hl] at h; exact absurd h.symm hv
    | some x => simpa [hl] using h
  | _ => simp [Json.get?] at h

/-- What `j.get(k) == s` says for a text `s`. -/
lemma Json.get?_pyEq_str_iff {s : PyStr} {j : Json} :
    (∃ v, j.get? k = some v ∧ v.pyEq (.str s) = true) ↔ j.field? k = some (.str s) := by
  constructor
  · rintro ⟨v, hv, heq⟩
    obtain rfl := pyEq_str_iff.mp heq
    exact Json.field?_of_get?_ne_null hv (by simp)
  · intro h
    exact ⟨_, Json.get?_of_field? h, pyEq_str_iff.mpr rfl⟩

/-- A record passes exactly if it continues the chain. -/
lemma checkRecord_eq_ok {d : PyStr} {r : Json} :
    checkRecord P raised mismatch i prev r = .ok d ↔ Links P i prev r ∧ d = r.recordHash := by
  simp only [checkRecord, bind_eq_ok, ofOption_eq_ok, require_eq_ok,
    pure_eq_ok]
  constructor
  · rintro ⟨body, hbody, p, hp, _, hpe, seq, hseq, _, hseqe, pr, hpr, _, hpre, h, hh, dg, hdg, _,
      hhe, rfl⟩
    have hhash : r.field? "hash" = some (.str dg) := Json.get?_pyEq_str_iff.mp ⟨h, hh, hhe⟩
    have hrec : r.recordHash = dg := by rw [Json.recordHash, Json.str?, hhash, Option.getD_some]
    have hnull : seq ≠ .null := fun hn => by
      subst hn
      simp [Json.pyEq, Json.pyNorm, Json.normWith, Json.pyScalar] at hseqe
    refine ⟨⟨Json.get?_pyEq_str_iff.mp ⟨p, hp, hpe⟩,
      ⟨seq, Json.field?_of_get?_ne_null hseq hnull, hseqe⟩,
      Json.get?_pyEq_str_iff.mp ⟨pr, hpr, hpre⟩, by rw [hrec, hhash], body, hbody, ?_⟩, hrec.symm⟩
    rw [hdg, hrec]
  · rintro ⟨⟨hp, ⟨seq, hseq, hseqe⟩, hpr, hh, body, hbody, hdg⟩, rfl⟩
    exact ⟨body, hbody, _, Json.get?_of_field? hp, (), pyEq_str_iff.mpr rfl, seq,
      Json.get?_of_field? hseq, (), hseqe, _, Json.get?_of_field? hpr, (),
      pyEq_str_iff.mpr rfl, _, Json.get?_of_field? hh, _, hdg, (),
      pyEq_str_iff.mpr rfl, rfl⟩

/-- The loop accepts the hash chains, and returns the last hash. -/
theorem checkChain_eq_ok {d : PyStr} {rs : List Json} :
    checkChain P raised mismatch i prev rs = .ok d ↔
      HashChain.Chain Json.recordHash (Links P) i prev rs ∧
        d = HashChain.head Json.recordHash prev rs := by
  induction rs generalizing i prev with
  | nil => simp [checkChain, eq_comm]
  | cons r rs ih =>
    simp only [checkChain, bind_eq_ok, checkRecord_eq_ok, ih, HashChain.chain_cons,
      HashChain.head_cons]
    constructor
    · rintro ⟨_, ⟨hlinks, rfl⟩, hrest, rfl⟩
      exact ⟨⟨hlinks, hrest⟩, rfl⟩
    · rintro ⟨⟨hlinks, hrest⟩, rfl⟩
      exact ⟨_, ⟨hlinks, rfl⟩, hrest, rfl⟩

end Check

section SameRecord

/-- RFC 8785 encodes the records alike. -/
abbrev SameRecord (r r' : Json) : Prop := r.canonical = r'.canonical

variable {r r' : Json}

lemma SameRecord.exists_field? (h : SameRecord r r') (hv : r.field? k = some v) :
    ∃ v', r'.field? k = some v' ∧ v.canonical = v'.canonical := by
  have hmap := canonical_field? h k
  rw [hv, Option.map_some] at hmap
  obtain ⟨v', hv', heq⟩ := Option.map_eq_some_iff.mp hmap.symm
  exact ⟨v', hv', heq.symm⟩

lemma SameRecord.field?_str (h : SameRecord r r') :
    r.field? k = some (.str s) ↔ r'.field? k = some (.str s) := by
  have hmp : ∀ {a b : Json}, SameRecord a b → a.field? k = some (.str s) →
      b.field? k = some (.str s) := by
    intro a b hab ha
    obtain ⟨v, hv, heq⟩ := hab.exists_field? ha
    rw [hv, canonical_eq_str.mp (heq.symm.trans (canonical_str s))]
  exact ⟨hmp h, hmp h.symm⟩

lemma SameRecord.recordHash_eq (h : SameRecord r r') : r.recordHash = r'.recordHash := by
  have hread : ∀ (j : Json) (s : PyStr),
      j.str? "hash" = some s ↔ j.field? "hash" = some (.str s) := by
    intro j s
    unfold Json.str?
    split <;> simp_all
  have hstr : r.str? "hash" = r'.str? "hash" := by
    ext s
    rw [hread, hread, h.field?_str]
  rw [Json.recordHash, Json.recordHash, hstr]

/-- Records that are encoded alike are hashed alike. -/
lemma SameRecord.exists_without (h : SameRecord r r') (hbody : r'.without k = some body) :
    ∃ body', r.without k = some body' ∧ SameRecord body' body := by
  cases r' with
  | obj ys =>
    cases r with
    | obj xs =>
      cases hbody
      refine ⟨_, rfl, canonical_obj_eq_iff.mpr fun l => ?_⟩
      rw [FieldMap.lookup_erase, FieldMap.lookup_erase]
      split_ifs
      · rfl
      · exact canonical_obj_eq_iff.mp h l
    | float x =>
      -- no scalar is written as an object
      have hscalar := isScalar_canonScalar (.float x) rfl
      rw [show Json.canonScalar (.float x) = (Json.float x).canonical from rfl, h] at hscalar
      simp [Json.canonical, Json.normWith, Json.isScalar] at hscalar
    | _ => cases h
  | _ => cases hbody

end SameRecord

section Chain

variable {P : Platform}

/-- What is encoded like a linked record is linked. -/
lemma Links.of_same {r r' : Json} (h : Links P i prev r') (hsame : SameRecord r r') :
    Links P i prev r := by
  obtain ⟨seq', hseq', hi⟩ := h.seq
  obtain ⟨seq, hseq, hcanon⟩ := SameRecord.exists_field? hsame.symm hseq'
  obtain ⟨body', hbody', hdigest⟩ := h.digest
  obtain ⟨body, hbody, hcanon'⟩ := hsame.exists_without hbody'
  have hhash := hsame.recordHash_eq
  refine ⟨hsame.field?_str.mpr h.protocol, ⟨seq, hseq, ?_⟩, hsame.field?_str.mpr h.prev,
    hhash ▸ hsame.field?_str.mpr h.hash, body, hbody, ?_⟩
  · rw [pyEq_congr hcanon.symm rfl, hi]
  · rw [P.digest_congr hcanon', hdigest, hhash]

/-- A linked record is determined by its hash. -/
theorem canonical_eq_of_recordHash (hinj : P.DigestInjective) {i' : ℕ} {h h' : PyStr}
    {r r' : Json} (hr : Links P i h r) (hr' : Links P i' h' r')
    (heq : r.recordHash = r'.recordHash) : SameRecord r r' := by
  obtain ⟨body, hbody, hdigest⟩ := hr.digest
  obtain ⟨body', hbody', hdigest'⟩ := hr'.digest
  have hcanon := hinj body body' _ hdigest (heq ▸ hdigest')
  exact canonical_eq_of_without hbody hbody' hcanon (by rw [hr.hash, hr'.hash, heq])

/-- What a linked record states can be encoded. -/
theorem Links.encodable {r : Json} (h : Links P i prev r) : r.recordHash.encodable = true ∧
      ∀ k v, k ≠ PyStr.ofString "hash" → r.field? k = some v → v.encodable = true := by
  obtain ⟨body, hbody, hdigest⟩ := h.digest
  refine ⟨P.encodable_digest hdigest, fun k v hk hv => ?_⟩
  refine encodable_field? (k := k) (P.encodable_of_digest hdigest) ?_
  rw [Json.field?_without hbody hk, hv]

/-- With a linked record the hash before it is determined. -/
lemma links_determined (hinj : P.DigestInjective) (i : ℕ) (h h' : PyStr) (r r' : Json)
    (hr : Links P i h r) (hr' : Links P i h' r') (heq : r.recordHash = r'.recordHash) :
    SameRecord r r' ∧ h = h' := by
  have hsame := canonical_eq_of_recordHash hinj hr hr' heq
  refine ⟨hsame, ?_⟩
  have hprev := canonical_field? hsame "prev"
  rw [hr.prev, hr'.prev] at hprev
  simpa using hprev

/-- A record of a coordinator's journal is linked. -/
lemma links_toJson {r : Record} (h : validRecord P i prev r) :
    Links P i prev r.toJson ∧ r.toJson.recordHash = r.hash := by
  obtain ⟨hseq, hprev, hdigest⟩ := h
  have hrec : r.toJson.recordHash = r.hash := by
    rw [Json.recordHash, Json.str?, r.field?_hash, Option.getD_some]
  refine ⟨⟨by simp [Record.toJson, Draft.fields, journalProtocol],
    ⟨.int r.seq, r.field?_seq, by simp [hseq]⟩,
    by simp [Record.toJson, Draft.fields, hprev], by rw [hrec, r.field?_hash], _, r.without_hash,
    ?_⟩, hrec⟩
  rw [hdigest, hrec]

/-- The records of a coordinator's journal form a chain of JSON records. -/
theorem chain_toJson {J : List Record} (h : HashChain.Chain Record.hash (validRecord P) i prev J) :
    HashChain.Chain Json.recordHash (Links P) i prev (J.map Record.toJson) := by
  induction J generalizing i prev with
  | nil => trivial
  | cons r J ih =>
    obtain ⟨hlinks, hrec⟩ := links_toJson h.1
    refine ⟨hlinks, ?_⟩
    rw [hrec]
    exact ih h.2

end Chain

end VdbC1
