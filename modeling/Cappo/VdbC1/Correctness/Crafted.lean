import Cappo.VdbC1.Correctness.Acceptance

/-!
# Bundles that the holders of the keys can make

Whoever holds an authority's and a finalizer's key can make a bundle without a coordinator.
For every pair of generations that the verifier's comparisons accept there is such a bundle
about the upsert of one key into an empty store. It shows what the verifier does not rule
out, and it takes any further members, such as a witness's.

## Main results

* `exists_evidence`: such members exist for all generations with an encoding;
* `Evidence.verifyBundle_ok`: the bundle is accepted if the verifier's arithmetic takes the
  generations;
* `Evidence.verifyBundle_witnessed`: and it is accepted with a witness's checkpoint.
-/

namespace VdbC1

namespace Crafted

open Verify Option Json

/-! ## The members -/

/-- The intent to set `k` to `v` at a generation that may be any JSON value. -/
def intent (kid root issuedAt expiresAt : PyStr) (generation : Json) : Json :=
  .obj [("protocol", "veklom.vdb.c1.intent/v1"), ("intent_id", "i"), ("namespace", "n"),
    ("op", "UPSERT"), ("key", "k"), ("value", "v"), ("expected_generation", generation),
    ("expected_root", .str root), ("issued_at", .str issuedAt), ("expires_at", .str expiresAt),
    ("authority_kid", .str kid)]

/-- The body of the PREPARED record. -/
def preparedBody (signed : Json) (hash root admittedAt commitment : PyStr) (generation : Json) :
    Json :=
  .obj [("intent_hash", .str hash), ("signed_intent", signed),
    ("admission", .obj [("admitted_at", .str admittedAt)]), ("pre_generation", generation),
    ("pre_root", .str root), ("pre_entries", .arr []), ("payload_commitment", .str commitment)]

/-- The row the COMMITTED record states. -/
def appliedRow (hash root : PyStr) (generation : Json) : Json :=
  .obj [("intent_id", "i"), ("intent_hash", .str hash), ("generation", generation),
    ("post_root", .str root)]

/-- The entries after the upsert. -/
def entries : List (PyStr × PyStr) := [("k", "v")]

/-- The body of the COMMITTING record. -/
def committingBody (hash : PyStr) : Json := .obj [("intent_hash", .str hash)]

/-- The body of the COMMITTED record. -/
def committedBody (hash root : PyStr) (generation : Json) : Json :=
  .obj [("intent_hash", .str hash), ("post_generation", generation), ("post_root", .str root),
    ("post_entries", .arr (entries.map entry)), ("applied_row", appliedRow hash root generation),
    ("physical", .obj [])]

/-- The payload of the certificate. -/
def certificate (authorityKid finalizerKid hash preRoot postRoot commitment preparedHash
    committedHash : PyStr) (preGeneration postGeneration : Json) : Json :=
  .obj [("protocol", "veklom.vdb.c1.finality/v1"), ("intent_id", "i"),
    ("intent_hash", .str hash), ("namespace", "n"), ("authority_kid", .str authorityKid),
    ("expected_generation", preGeneration), ("pre_root", .str preRoot),
    ("payload_commitment", .str commitment), ("post_generation", postGeneration),
    ("post_root", .str postRoot),
    ("physical", .obj [("applied_row", appliedRow hash postRoot postGeneration)]),
    ("journal", .obj [("prepared_seq", .int 0), ("prepared_hash", .str preparedHash),
      ("committed_seq", .int 2), ("committed_hash", .str committedHash)]),
    ("finalized_at", "t"), ("finalizer_kid", .str finalizerKid)]

/-- The body of the FINALIZED record. -/
def finalizedBody (hash : PyStr) (cert : Json) : Json :=
  .obj [("intent_hash", .str hash), ("certificate", cert)]

/-- The members of a record before it is hashed. -/
def fields (i : ℕ) (prev kind : PyStr) (body : Json) : List (PyStr × Json) :=
  [("protocol", .str journalProtocol), ("seq", .int i), ("prev", .str prev), ("at", "t"),
    ("kind", .str kind), ("intent_id", "i"), ("body", body)]

/-- A record with its hash. -/
def record (i : ℕ) (prev kind : PyStr) (body : Json) (hash : PyStr) : Json :=
  .obj (fields i prev kind body ++ [(PyStr.ofString "hash", .str hash)])

/-- The record of a body, linked after the hash `prev`. -/
structure Made (P : Platform) (i : ℕ) (prev kind : PyStr) (body r : Json) : Prop where
  links : Links P i prev r
  kind : r.field? "kind" = some (.str kind)
  intentId : r.field? "intent_id" = some (.str "i")
  seq : r.field? "seq" = some (.int i)
  stamp : r.field? "at" = some (.str "t")
  body : r.field? "body" = some body
  hash : r.recordHash.encodable = true

variable {P : Platform}

/-- A record can be made of any body that can be encoded. -/
lemma exists_made (i : ℕ) (prev kind : PyStr) (body : Json) (hi : (i : ℤ) ≤ Json.maxSafe)
    (hprev : prev.encodable = true) (hkind : kind.encodable = true)
    (hbody : body.encodable = true) : ∃ r, Made P i prev kind body r := by
  have henc : (Json.obj (fields i prev kind body)).encodable = true := by
    simp [fields, hi, hprev, hkind, hbody, journalProtocol]
  obtain ⟨hash, hhash⟩ := P.exists_digest henc
  have hfield : (record i prev kind body hash).field? "hash" = some (.str hash) := by
    simp [record, fields]
  have hrec : (record i prev kind body hash).recordHash = hash := by
    rw [Json.recordHash, Json.str?, hfield, getD_some]
  have hwithout : (record i prev kind body hash).without "hash" =
      some (.obj (fields i prev kind body)) := by
    simp [record, fields, Json.without, FieldMap.erase]
  refine ⟨record i prev kind body hash, ?_, ?_, ?_, ?_, ?_, ?_, ?_⟩
  · exact ⟨by simp [record, fields], ⟨.int i, by simp [record, fields], by simp⟩,
      by simp [record, fields], by rw [hrec, hfield], _, hwithout, by rw [hhash, hrec]⟩
  · simp [record, fields]
  · simp [record, fields]
  · simp [record, fields]
  · simp [record, fields]
  · simp [record, fields]
  · rw [hrec]
    exact P.encodable_digest hhash

lemma Made.isMine {i : ℕ} {prev kind : PyStr} {body r : Json} (h : Made P i prev kind body r)
    (hkind : Json.str kind ∈ bindingKinds) : isMine "i" r = .ok true :=
  isMine_eq_ok.mpr ⟨_, h.intentId, .inl ⟨pyEq_str_iff.mpr rfl, _, h.kind, decide_eq_true hkind⟩⟩

lemma Made.kindOf {i : ℕ} {prev kind : PyStr} {body r : Json} (h : Made P i prev kind body r) :
    kindOf r = .str kind := by
  rw [Verify.kindOf, h.kind, getD_some]

/-! ## Times, roots and signatures -/

lemma exists_times : ∃ issuedAt expiresAt, P.parseTime issuedAt = some 0 ∧
    P.parseTime expiresAt = some 300 ∧ issuedAt.encodable = true ∧ expiresAt.encodable = true := by
  have htime : ∀ n : ℤ, 0 ≤ n → n ≤ 300 →
      ∃ text, P.parseTime text = some (n : ℚ) ∧ text.encodable = true := by
    intro n h0 h300
    obtain ⟨text, htext⟩ := P.exists_formatTime (t := n) (by
      rw [Platform.fromtimestamp_intCast h0 (by omega)]
      exact some_ne_none _)
    refine ⟨text, ?_, P.encodable_formatTime htext⟩
    rw [P.parseTime_formatTime htext, Platform.stamped_intCast (by rw [abs_of_nonneg h0]; omega)]
  obtain ⟨t, ht, hte⟩ := htime 0 le_rfl (by norm_num)
  obtain ⟨t', ht', hte'⟩ := htime 300 (by norm_num) le_rfl
  exact ⟨t, t', by simpa using ht, by simpa using ht', hte, hte'⟩

lemma exists_stateRoot {generation : Json} (hg : generation.encodable = true)
    {t : List (PyStr × PyStr)} (ht : ∀ r ∈ t, r.1.encodable = true ∧ r.2.encodable = true) :
    ∃ root, P.stateRoot "n" generation (.arr (t.map entry)) = some root ∧
      root.encodable = true := by
  have hrows : (Json.arr ((KeyedTable.ordered t).map entry)).encodable = true :=
    encodable_entriesJson fun r hr => ht r (by simpa using hr)
  have henc : (Json.obj [("protocol", "veklom.vdb.c1.state/v1"), ("namespace", "n"),
      ("generation", generation),
      ("entries", .arr ((KeyedTable.ordered t).map entry))]).encodable = true := by
    simp [hg, hrows, -encodable_arr_iff]
  obtain ⟨root, hroot⟩ := P.exists_digest henc
  refine ⟨root, ?_, P.encodable_digest hroot⟩
  simp only [Platform.stateRoot, Json.items, bind_eq_bind, bind_some, P.sorted_entries, hroot]

lemma exists_signed {payload : Json} (h : payload.encodable = true) (sk : P.SecretKey)
    (trusted : List (PyStr × PyStr)) (hkey : P.trustedKey trusted (P.keyId (P.publicRaw sk)) =
      some (P.publicRaw sk)) :
    ∃ signed, P.verifySigned signed trusted = true ∧ signed.encodable = true ∧
      signed.field? "payload" = some payload ∧
      signed.field? "kid" = some (.str (P.keyId (P.publicRaw sk))) := by
  obtain ⟨signed, hsign, henc⟩ := P.exists_signPayload h sk (P.encodable_keyId _)
  exact ⟨signed, P.verifySigned_sign hsign hkey, henc, P.field?_signPayload hsign⟩

/-! ## The bundle -/

/-- The members of a bundle about setting `k` from generation `g` to `g'`, and how they fit
together. -/
structure Evidence (P : Platform) (trust : TrustStore) (g g' : Json) where
  authorityKid : PyStr
  finalizerKid : PyStr
  issuedAt : PyStr
  expiresAt : PyStr
  preRoot : PyStr
  postRoot : PyStr
  commitment : PyStr
  hash : PyStr
  signed : Json
  prepared : Json
  committing : Json
  committed : Json
  cert : Json
  digest : PyStr
  finalized : Json
  issued_eq : P.parseTime issuedAt = some 0
  expires_eq : P.parseTime expiresAt = some 300
  preRoot_eq : P.stateRoot "n" g (.arr []) = some preRoot
  postRoot_eq : P.stateRoot "n" g' (.arr (entries.map entry)) = some postRoot
  commitment_eq : P.payloadCommitment "UPSERT" "k" "v" = some commitment
  hash_eq : P.digest (intent authorityKid preRoot issuedAt expiresAt g) = some hash
  signed_verifies : P.verifySigned signed trust.authorityKeys = true
  signed_payload : signed.field? "payload" =
    some (intent authorityKid preRoot issuedAt expiresAt g)
  signed_kid : signed.field? "kid" = some (.str authorityKid)
  prepared_made : Made P 0 "genesis" "PREPARED"
    (preparedBody signed hash preRoot issuedAt commitment g) prepared
  committing_made : Made P 1 prepared.recordHash "COMMITTING" (committingBody hash) committing
  committed_made : Made P 2 committing.recordHash "COMMITTED" (committedBody hash postRoot g')
    committed
  cert_verifies : P.verifySigned cert trust.finalizerKeys = true
  cert_payload : cert.field? "payload" = some (certificate authorityKid finalizerKid hash preRoot
    postRoot commitment prepared.recordHash committed.recordHash g g')
  cert_kid : cert.field? "kid" = some (.str finalizerKid)
  cert_encodable : (certificate authorityKid finalizerKid hash preRoot postRoot commitment
    prepared.recordHash committed.recordHash g g').encodable = true
  digest_eq : P.digest cert = some digest
  finalized_made : Made P 3 committed.recordHash "FINALIZED" (finalizedBody hash cert) finalized

/-- The holders of an authority's and a finalizer's key have such members for all generations
with an encoding. -/
theorem exists_evidence (authoritySk finalizerSk : P.SecretKey) (trust : TrustStore)
    (hauth : P.trustedKey trust.authorityKeys (P.keyId (P.publicRaw authoritySk)) =
      some (P.publicRaw authoritySk))
    (hfin : P.trustedKey trust.finalizerKeys (P.keyId (P.publicRaw finalizerSk)) =
      some (P.publicRaw finalizerSk))
    {g g' : Json} (hg : g.encodable = true) (hg' : g'.encodable = true) :
    Nonempty (Evidence P trust g g') := by
  have hkv : ∀ r ∈ entries, r.1.encodable = true ∧ r.2.encodable = true := by simp [entries]
  have hent : (Json.arr (entries.map entry)).encodable = true := encodable_entriesJson hkv
  -- the texts: times, roots, commitment and the hash of the intent
  obtain ⟨issuedAt, expiresAt, hissued, hexpires, hie, hee⟩ := exists_times (P := P)
  obtain ⟨preRoot, hpre, hpree⟩ := exists_stateRoot (P := P) hg (t := []) (by simp)
  obtain ⟨postRoot, hpost, hposte⟩ := exists_stateRoot (P := P) hg' hkv
  obtain ⟨commitment, hcomm⟩ : ∃ c, P.payloadCommitment "UPSERT" "k" "v" = some c :=
    P.exists_digest (by simp)
  have hcomme : commitment.encodable = true := P.encodable_digest hcomm
  have hinte : (intent (P.keyId (P.publicRaw authoritySk)) preRoot issuedAt expiresAt
      g).encodable = true :=
    by simp [intent, hg, hpree, hie, hee, P.encodable_keyId]
  obtain ⟨hash, hhash⟩ := P.exists_digest hinte
  have hhashe : hash.encodable = true := P.encodable_digest hhash
  obtain ⟨signed, hsv, hse, hsp, hsk⟩ := exists_signed hinte authoritySk trust.authorityKeys hauth
  -- the records up to COMMITTED
  obtain ⟨r0, hm0⟩ := exists_made (P := P) 0 "genesis" "PREPARED"
    (preparedBody signed hash preRoot issuedAt commitment g) (by decide) (by simp)
    (by simp) (by simp [preparedBody, hg, hse, hhashe, hpree, hcomme, hie])
  obtain ⟨r1, hm1⟩ := exists_made (P := P) 1 r0.recordHash "COMMITTING" (committingBody hash)
    (by decide) hm0.hash (by simp)
    (by simp [committingBody, hhashe])
  obtain ⟨r2, hm2⟩ := exists_made (P := P) 2 r1.recordHash "COMMITTED"
    (committedBody hash postRoot g') (by decide) hm1.hash (by simp)
    (by simp [committedBody, appliedRow, hg', hhashe, hposte, hent, -encodable_arr_iff])
  -- the certificate and the record that carries it
  have hcerte : (certificate (P.keyId (P.publicRaw authoritySk)) (P.keyId (P.publicRaw finalizerSk))
      hash preRoot postRoot commitment r0.recordHash r2.recordHash g g').encodable = true := by
    refine encodable_obj ?_
    simp [appliedRow, hg, hg', hhashe, hpree, hposte, hcomme, P.encodable_keyId,
      hm0.hash, hm2.hash, Json.maxSafe]
  obtain ⟨cert, hcv, hce, hcp, hck⟩ := exists_signed hcerte finalizerSk trust.finalizerKeys hfin
  obtain ⟨d, hd⟩ := P.exists_digest hce
  obtain ⟨r3, hm3⟩ := exists_made (P := P) 3 r2.recordHash "FINALIZED" (finalizedBody hash cert)
    (by decide) hm2.hash (by simp)
    (by simp [finalizedBody, hhashe, hce])
  exact ⟨⟨_, _, issuedAt, expiresAt, preRoot, postRoot, commitment, hash, signed, r0, r1, r2, cert,
    d, r3, hissued, hexpires, hpre, hpost, hcomm, hhash, hsv, hsp, hsk, hm0, hm1, hm2, hcv, hcp,
    hck, hcerte, hd, hm3⟩⟩

namespace Evidence

variable {trust : TrustStore} {g g' : Json} (e : Evidence P trust g g')

/-- The records in their order. -/
def journal : List Json := [e.prepared, e.committing, e.committed, e.finalized]

/-- The bundle, with further members. -/
def json (extra : List (PyStr × Json)) : Json :=
  .obj (bundleFields "i" e.journal e.cert e.digest ++ extra)

/-- What the verifier opens. -/
def opened : Opened :=
  ⟨"i", e.journal, .obj [("certificate", e.cert), ("certificate_digest", .str e.digest)], e.cert⟩

/-- What the verifier selects. -/
def selected : Selected := ⟨e.journal, e.prepared, e.committed, e.finalized⟩

/-- The bodies the verifier reads. -/
def bodies : Bodies :=
  ⟨preparedBody e.signed e.hash e.preRoot e.issuedAt e.commitment g,
    committedBody e.hash e.postRoot g', e.signed,
    intent e.authorityKid e.preRoot e.issuedAt e.expiresAt g⟩

attribute [local simp] bodies intent preparedBody committedBody

lemma chain : HashChain.Chain Json.recordHash (Links P) 0 "genesis" e.journal :=
  ⟨e.prepared_made.links, e.committing_made.links, e.committed_made.links, e.finalized_made.links,
    trivial⟩

lemma kinds : e.journal.map kindOf =
    [.str "PREPARED", .str "COMMITTING", .str "COMMITTED", .str "FINALIZED"] := by
  simp only [journal, List.map_cons, List.map_nil, e.prepared_made.kindOf, e.committing_made.kindOf,
    e.committed_made.kindOf, e.finalized_made.kindOf]

lemma selects : Selects e.opened e.selected := by
  have hmine : ∀ r ∈ e.journal, isMine "i" r = .ok true := by
    simp only [journal, List.forall_mem_cons, List.not_mem_nil, false_imp_iff, implies_true,
      and_true]
    exact ⟨e.prepared_made.isMine (by decide), e.committing_made.isMine (by decide),
      e.committed_made.isMine (by decide), e.finalized_made.isMine (by decide)⟩
  refine ⟨fun r hr => ⟨true, hmine r hr⟩, ?_, ?_, rfl, hmine _ (by simp [journal, selected]), rfl,
    ?_⟩
  · refine (List.filter_eq_self.mpr fun r hr => ?_).symm
    rw [opened, hmine r hr, Checks.yes]
  · rw [selected, e.kinds]
    decide
  · have hne : ∀ k : String, k ≠ "COMMITTED" → (Json.str k = .str "COMMITTED") = False := by
      simp
    simp only [selected, journal, List.find?_cons, e.prepared_made.kindOf,
      e.committing_made.kindOf, e.committed_made.kindOf, hne "PREPARED" (by decide),
      hne "COMMITTING" (by decide), decide_false, decide_true]

lemma opens (extra : List (PyStr × Json)) : Opens (e.json extra) e.opened :=
  ⟨by simp [json, bundleFields], by simp [json, bundleFields, opened],
    by simp [json, bundleFields, opened], by simp [opened, journal],
    by simp [json, bundleFields, opened], by simp [opened]⟩

lemma checkSignatures_ok : checkSignatures P trust e.opened e.bodies = .ok () :=
  checkSignatures_eq_ok.mpr ⟨e.signed_verifies,
    ⟨.str e.authorityKid, _, by simp, e.signed_kid, pyEq_str_iff.mpr rfl⟩,
    by simp, e.cert_verifies⟩

lemma checkBinding_ok : checkBinding P e.opened e.selected e.bodies = .ok e.hash := by
  refine checkBinding_eq_ok.mpr ⟨e.hash_eq, ⟨_, by simp, pyEq_str_iff.mpr rfl⟩, ?_⟩
  simp only [selected, journal, List.forall_mem_cons, List.not_mem_nil, false_imp_iff, implies_true,
    and_true]
  exact ⟨⟨_, e.prepared_made.body, by simp [preparedBody]⟩,
    ⟨_, e.committing_made.body, by simp [committingBody]⟩,
    ⟨_, e.committed_made.body, by simp [committedBody]⟩,
    ⟨_, e.finalized_made.body, by simp [finalizedBody]⟩⟩

lemma checkWindow_ok : checkWindow P e.bodies = .ok () := by
  have h5 : Json.roundDouble (0 - 5) = -5 := by
    simpa using roundDouble_intCast (n := -5) (by norm_num)
  refine checkWindow_eq_ok.mpr ⟨.obj [("admitted_at", .str e.issuedAt)], e.issuedAt, e.issuedAt,
    e.expiresAt, 0, 0, 300, by simp, by simp, by simp,
    by simp, e.issued_eq, e.issued_eq, e.expires_eq, ?_, by norm_num⟩
  rw [h5]
  norm_num

lemma checkRoots_ok : checkRoots P e.bodies = .ok () :=
  checkRoots_eq_ok.mpr ⟨"n", g, .arr [], e.preRoot, g', .arr (entries.map entry), e.postRoot,
    by simp, by simp, by simp,
    e.preRoot_eq, by simp, by simp,
    by simp, by simp, e.postRoot_eq,
    by simp⟩

lemma checkPayload_ok (hg' : g'.encodable = true) :
    checkPayload P e.opened e.bodies e.hash = .ok e.commitment := by
  have hhash : e.hash.encodable = true := P.encodable_digest e.hash_eq
  have hroot : e.postRoot.encodable = true := by
    have hfield := encodable_field? e.cert_encodable (k := "post_root")
      (v := .str e.postRoot) (by simp [certificate])
    simpa using hfield
  have happe : (appliedRow e.hash e.postRoot g').encodable = true :=
    by simp [appliedRow, hg', hroot, hhash]
  have hsorted : P.sorted (entries.map entry) = some (entries.map entry) := by
    rw [P.sorted_entries]
    rfl
  refine checkPayload_eq_ok.mpr ⟨.str "k", .str "v", .arr [], [], entries.map entry,
    .arr (entries.map entry), entries.map entry, entries.map entry,
    appliedRow e.hash e.postRoot g', g', .str e.postRoot, by simp,
    by simp, by simp, e.commitment_eq,
    by simp, rfl, by simp, hsorted, by simp,
    by simp, rfl, hsorted, ?_, by simp,
    by simp, by simp, pyEq_self happe⟩
  exact pyEq_self (encodable_entriesJson (by simp [entries]))

lemma wanted_ok : wanted e.opened e.selected e.bodies e.hash e.commitment =
    .ok (certificate e.authorityKid e.finalizerKid e.hash e.preRoot e.postRoot e.commitment
      e.prepared.recordHash e.committed.recordHash g g') :=
  wanted_eq_ok.mpr ⟨.str "n", .str e.authorityKid, g, .str e.preRoot, g', .str e.postRoot,
    appliedRow e.hash e.postRoot g', .obj [],
    .obj [("applied_row", appliedRow e.hash e.postRoot g')], .int 0, .str e.prepared.recordHash,
    .int 2, .str e.committed.recordHash, .str "t", .str e.finalizerKid, by simp,
    by simp, by simp, by simp,
    by simp, by simp,
    by simp, by simp, rfl, e.prepared_made.seq,
    e.prepared_made.links.hash, e.committed_made.seq, e.committed_made.links.hash,
    e.committed_made.stamp, e.cert_kid, rfl⟩

lemma checkReceipt_ok : checkReceipt P e.opened e.selected e.bodies e.hash e.commitment = .ok () :=
  checkReceipt_eq_ok.mpr ⟨_, finalizedBody e.hash e.cert, e.cert, e.digest, _, e.wanted_ok,
    e.finalized_made.body, by simp [finalizedBody],
    pyEq_self (P.encodable_of_digest e.digest_eq), e.digest_eq, by simp [opened],
    e.cert_payload, pyEq_self e.cert_encodable⟩

variable {next : Json}

section

variable (hg : g.encodable = true) (hg' : g'.encodable = true) (hadd : g.addOne = some next)
  (hnext : g'.pyEq next = true)

include hg hg' hadd hnext

/-- The bundle passes, whatever else it has, if its generations do. -/
lemma verify_ok (extra : List (PyStr × Json)) : verify P (e.json extra) trust = .ok () :=
  verify_eq_ok.mpr ⟨e.opened, e.selected, e.bodies, e.hash, e.commitment, e.opens extra, e.chain,
    e.selects, ⟨e.prepared_made.body, e.committed_made.body, by simp,
      e.signed_payload⟩, e.checkSignatures_ok, e.checkBinding_ok, e.checkWindow_ok, e.checkRoots_ok,
    checkGeneration_eq_ok.mpr ⟨g, g, g', next, by simp,
      by simp, pyEq_self hg, by simp, hadd, hnext⟩,
    e.checkPayload_ok hg', e.checkReceipt_ok⟩

/-- A bundle without a witness is judged valid at profile L1. -/
theorem verifyBundle_ok :
    verifyBundle P (e.json []) trust false = some (.valid .l1 "i" (.str e.postRoot) steps) :=
  verifyBundle_eq_valid.mpr ⟨e.verify_ok hg hg' hadd hnext [],
    verifyWitness_eq_ok.mpr (.inl ⟨rfl, by simp [json, bundleFields]⟩), by simp,
    by simp [json, bundleFields],
    ⟨e.opened.receipt, e.cert, _, (e.opens []).receipt, (e.opens []).cert, e.cert_payload,
      by simp [certificate]⟩, rfl⟩

end

/-- What a witness signs over the whole journal of the bundle. -/
def checkpoint : Json :=
  .obj [("protocol", "veklom.vdb.c1.checkpoint/v1"),
    ("journal_genesis_hash", .str e.prepared.recordHash), ("seq", .int 3),
    ("head_hash", .str e.finalized.recordHash)]

/-- The members of a bundle that carries a signed checkpoint and nothing after the finality. -/
def witnessed (signed : Json) (more : List (PyStr × Json)) : List (PyStr × Json) :=
  ("witness", .obj [("checkpoint", signed), ("journal_suffix", .arr [])]) :: more

/-- With a checkpoint of a pinned witness the bundle is judged valid at profile W1. -/
theorem verifyBundle_witnessed (hg : g.encodable = true) (hg' : g'.encodable = true)
    (hadd : g.addOne = some next) (hnext : g'.pyEq next = true) {signed : Json}
    (hsigned : P.verifySigned signed (trust.witnessKeys.getD []) = true)
    (hpayload : signed.field? "payload" = some e.checkpoint) (more : List (PyStr × Json))
    (requireWitness : Bool) :
    verifyBundle P (e.json (witnessed signed more)) trust requireWitness =
      some (.valid .w1 "i" (.str e.postRoot) (steps ++ ["witness"])) := by
  have hcounter : Countersigned P trust (e.json (witnessed signed more))
      (.obj [("checkpoint", signed), ("journal_suffix", .arr [])])
      ⟨signed, e.checkpoint, e.journal, []⟩ :=
    { checkpoint := by simp
      suffix := by simp
      signed := hsigned
      journal := by simp [json, bundleFields]
      chain := trivial
      others := ⟨"i", by simp [json, bundleFields], by simp⟩
      payload := hpayload
      protocol := by simp [checkpoint]
      seq := ⟨.int 3, by simp [checkpoint], pyEq_self (by decide)⟩
      head := by simp [checkpoint, journal]
      genesis := ⟨e.prepared, rfl, by simp [checkpoint]⟩ }
  exact verifyBundle_eq_valid.mpr ⟨e.verify_ok hg hg' hadd hnext _,
    verifyWitness_eq_ok.mpr (.inr ⟨rfl, _, _, by simp [json, bundleFields, witnessed], hcounter⟩),
    fun _ => rfl, by simp [json, bundleFields],
    ⟨e.opened.receipt, e.cert, _, (e.opens _).receipt, (e.opens []).cert, e.cert_payload,
      by simp [certificate]⟩, rfl⟩

lemma encodable_checkpoint : e.checkpoint.encodable = true :=
  by simp [checkpoint, e.prepared_made.hash, e.finalized_made.hash, Json.maxSafe]

end Evidence

end Crafted

end VdbC1
