import Cappo.VdbC1.Verify

/-!
# What the verifier accepts

Each step of the verifier passes exactly if the members it reads are there and the
comparisons it makes hold. The lemmas state this step by step; `verify_eq_ok` puts them
together.

## Main results

* `verify_eq_ok`: what passes `_verify`;
* `checkWitness_eq_ok`: what passes the witness check;
* `verifyBundle_eq_valid`: what is judged valid.
-/

namespace VdbC1

open Checks

open HashChain
open Json

namespace Verify

variable {P : Platform}

variable {passed : List String}

@[simp]
lemma stage_eq_ok {α : Type} {x : Check α} {a : α} : stage passed x = .ok a ↔ x = .ok a := by
  cases x <;> simp [stage]

variable {j : Json}

@[simp]
lemma read_eq_ok : read k j = .ok v ↔ j.field? k = some v :=
  ofOption_eq_ok

@[simp]
lemma get_eq_ok : get k j = .ok v ↔ j.get? k = some v :=
  ofOption_eq_ok

variable {c : Bool} {u : Unit}

@[simp]
lemma check_eq_ok {verdict : RejectVerdict} {name : String} :
    check verdict name c = .ok u ↔ c = true :=
  require_eq_ok

@[simp]
lemma digest_eq_ok : digest P j = .ok d ↔ P.digest j = some d :=
  ofOption_eq_ok

lemma ts_eq_ok : ts P j = .ok t ↔ ∃ text, j = .str text ∧ P.parseTime text = some t := by
  cases j <;> simp [ts]

/-- `check_signed` passes exactly the signatures that verify. -/
@[simp]
lemma checkSigned_eq_ok :
    checkSigned P signed trusted what = .ok u ↔ P.verifySigned signed trusted = true := by
  constructor
  · intro h
    simp only [checkSigned, bind_eq_ok, get_eq_ok] at h
    obtain ⟨kid, -, h⟩ := h
    cases kid with
    | str kid =>
      simp only [bind_eq_ok, check_eq_ok] at h
      exact h.choose_spec.2
    | _ => simp at h
  · intro h
    obtain ⟨kid, sig, payload, pub, raw, m, hkid, -, -, -, hkey, -⟩ := P.verifySigned_iff.mp h
    have hknown : (FieldMap.lookup kid trusted).isSome = true := by
      cases hl : FieldMap.lookup kid trusted with
      | none => simp [Platform.trustedKey, hl] at hkey
      | some _ => rfl
    simp only [checkSigned, bind_eq_ok, get_eq_ok]
    exact ⟨_, Json.get?_of_field? hkid, by simp [hknown, h]⟩

/-- The bundle has the members of `o`. -/
structure Opens (bundle : Json) (o : Opened) : Prop where
  protocol : bundle.field? "protocol" = some (.str "veklom.vdb.c1.bundle/v1")
  intentId : bundle.field? "intent_id" = some o.intentId
  journal : bundle.field? "journal" = some (.arr o.journal)
  nonempty : o.journal ≠ []
  receipt : bundle.field? "receipt" = some o.receipt
  cert : o.receipt.field? "certificate" = some o.cert

variable {bundle : Json} {o : Opened}

/-- A bundle opens exactly if it has the parts that are read. -/
lemma openBundle_eq_ok : openBundle bundle = .ok o ↔ Opens bundle o := by
  simp only [openBundle, bind_eq_ok, get_eq_ok, check_eq_ok, read_eq_ok]
  constructor
  · rintro ⟨p, hp, _, hpe, iid, hiid, j, hj, rc, hrc, cert, hcert, h⟩
    cases j with
    | arr rs =>
      cases rs with
      | nil => simp at h
      | cons r rs =>
        obtain rfl := pure_eq_ok.mp h
        exact ⟨Json.get?_pyEq_str_iff.mp ⟨p, hp, hpe⟩, hiid, hj, by simp, hrc, hcert⟩
    | _ => simp at h
  · rintro ⟨hp, hiid, hj, hne, hrc, hcert⟩
    refine ⟨_, Json.get?_of_field? hp, (), pyEq_str_iff.mpr rfl, _, hiid, _, hj, _, hrc, _,
      hcert, ?_⟩
    obtain ⟨iid, rs, rc, cert⟩ := o
    cases rs with
    | nil => exact absurd rfl hne
    | cons r rs => rfl

lemma exists_str_of_mem_bindingKinds (h : k ∈ bindingKinds) : ∃ s, k = .str s := by
  simp only [bindingKinds, List.mem_cons, List.not_mem_nil, or_false] at h
  rcases h with rfl | rfl | rfl | rfl | rfl | rfl <;> exact ⟨_, rfl⟩

lemma any_bindingKinds (kind : Json) :
    (bindingKinds.any fun k => kind.pyEq k) = decide (kind ∈ bindingKinds) := by
  have hstr : ∀ k ∈ bindingKinds, kind.pyEq k = true ↔ k = kind := by
    intro k hk
    obtain ⟨text, rfl⟩ := exists_str_of_mem_bindingKinds hk
    exact pyEq_str_iff.trans eq_comm
  rw [Bool.eq_iff_iff, List.any_eq_true, decide_eq_true_eq]
  constructor
  · rintro ⟨k, hk, heq⟩
    exact (hstr k hk).mp heq ▸ hk
  · intro hk
    exact ⟨kind, hk, (hstr kind hk).mpr rfl⟩

/-- What the verifier takes for a binding record of the intent. -/
lemma isMine_eq_ok : isMine intentId r = .ok c ↔ ∃ id, r.field? "intent_id" = some id ∧
      ((id.pyEq intentId = true ∧ ∃ kind, r.field? "kind" = some kind ∧
        decide (kind ∈ bindingKinds) = c) ∨ (id.pyEq intentId = false ∧ false = c)) := by
  simp only [isMine, bind_eq_ok, read_eq_ok, any_bindingKinds]
  refine exists_congr fun id => and_congr_right fun _ => ?_
  cases id.pyEq intentId with
  | true =>
    simp only [if_true, bind_eq_ok, read_eq_ok, pure_eq_ok, true_and,
      Bool.true_eq_false, false_and, or_false]
  | false =>
    simp only [Bool.false_eq_true, if_false, pure_eq_ok, false_and, true_and, false_or]

/-- The records of `s` are the binding records of the intent, on a legal path that ends the
journal. -/
structure Selects (o : Opened) (s : Selected) : Prop where
  readable : ∀ r ∈ o.journal, ∃ b, isMine o.intentId r = .ok b
  mine : s.mine = o.journal.filter fun r => yes (isMine o.intentId r)
  path : s.mine.map kindOf ∈ legalFinalPaths
  last : o.journal.getLast? = some s.finalized
  ends : isMine o.intentId s.finalized = .ok true
  prepared : s.mine.head? = some s.prepared
  committed : s.mine.find? (fun r => kindOf r = "COMMITTED") = some s.committed

lemma count_le_of_legal : ∀ kinds ∈ legalFinalPaths, kinds.count (.str "FINALIZED") = 1 ∧
    kinds.count (.str "COMMITTED") = 1 ∧ kinds.count (.str "PREPARED") = 1 := by
  decide

lemma checkPath_eq_ok : checkPath kinds = .ok u ↔ kinds ∈ legalFinalPaths := by
  simp only [checkPath, bind_eq_ok, check_eq_ok, decide_eq_true_eq, Bool.and_eq_true]
  constructor
  · rintro ⟨_, -, hpath⟩
    exact hpath
  · intro hpath
    obtain ⟨hf, hc, hp⟩ := count_le_of_legal _ hpath
    exact ⟨(), ⟨⟨hf.le, hc.le⟩, hp.le⟩, hpath⟩

variable {s : Selected}

lemma selectRecords_eq_ok : selectRecords o = .ok s ↔ Selects o s := by
  simp only [selectRecords, bind_eq_ok, filter_eq_ok, checkPath_eq_ok, check_eq_ok, ofOption_eq_ok,
    pure_eq_ok]
  constructor
  · rintro ⟨mine, ⟨hread, rfl⟩, _, hpath, last, hlast, ends, hmine, _, rfl, p, hp, c, hc, rfl⟩
    exact ⟨hread, rfl, hpath, hlast, hmine, hp, hc⟩
  · rintro ⟨hread, hmine, hpath, hlast, hends, hp, hc⟩
    exact ⟨s.mine, ⟨hread, hmine⟩, (), hpath, _, hlast, true, hends, (), rfl, _, hp, _, hc, rfl⟩

/-- The records have the bodies of `b`. -/
structure HasBodies (s : Selected) (b : Bodies) : Prop where
  pb : s.prepared.field? "body" = some b.pb
  cb : s.committed.field? "body" = some b.cb
  signedIntent : b.pb.field? "signed_intent" = some b.signedIntent
  intent : b.signedIntent.field? "payload" = some b.intent

variable {b : Bodies}

lemma readBodies_eq_ok : readBodies s = .ok b ↔ HasBodies s b := by
  simp only [readBodies, bind_eq_ok, read_eq_ok, pure_eq_ok]
  constructor
  · rintro ⟨_, h1, _, h2, _, h3, _, h4, rfl⟩
    exact ⟨h1, h2, h3, h4⟩
  · rintro ⟨h1, h2, h3, h4⟩
    exact ⟨_, h1, _, h2, _, h3, _, h4, rfl⟩

variable {trust : TrustStore}

/-- The intent and the certificate are signed with trusted keys. -/
lemma checkSignatures_eq_ok : checkSignatures P trust o b = .ok u ↔
      P.verifySigned b.signedIntent trust.authorityKeys = true ∧
      (∃ authorityKid kid, b.intent.field? "authority_kid" = some authorityKid ∧
        b.signedIntent.field? "kid" = some kid ∧ authorityKid.pyEq kid = true) ∧
      b.intent.field? "protocol" = some (.str "veklom.vdb.c1.intent/v1") ∧
      P.verifySigned o.cert trust.finalizerKeys = true := by
  simp only [checkSignatures, bind_eq_ok, read_eq_ok, get_eq_ok, check_eq_ok, checkSigned_eq_ok]
  constructor
  · rintro ⟨_, hs, ak, hak, kid, hkid, _, heq, p, hp, _, hpe, hc⟩
    exact ⟨hs, ⟨ak, kid, hak, hkid, heq⟩, Json.get?_pyEq_str_iff.mp ⟨p, hp, hpe⟩, hc⟩
  · rintro ⟨hs, ⟨ak, kid, hak, hkid, heq⟩, hp, hc⟩
    exact ⟨(), hs, ak, hak, kid, hkid, (), heq, _, Json.get?_of_field? hp, (),
      pyEq_str_iff.mpr rfl, hc⟩

/-- All records of the intent have the hash of the intent. -/
lemma checkBinding_eq_ok : checkBinding P o s b = .ok ih ↔ P.digest b.intent = some ih ∧
      (∃ id, b.intent.field? "intent_id" = some id ∧ id.pyEq o.intentId = true) ∧
      ∀ r ∈ s.mine, ∃ body, r.field? "body" = some body ∧
        body.field? "intent_hash" = some (.str ih) := by
  simp only [checkBinding, bind_eq_ok, read_eq_ok, get_eq_ok, check_eq_ok, digest_eq_ok,
    forEach_eq_ok, pure_eq_ok]
  constructor
  · rintro ⟨d, hd, id, hid, _, heq, _, hall, rfl⟩
    refine ⟨hd, ⟨id, hid, heq⟩, fun r hr => ?_⟩
    obtain ⟨body, hbody, h, hh, he⟩ := hall r hr
    exact ⟨body, hbody, Json.get?_pyEq_str_iff.mp ⟨h, hh, he⟩⟩
  · rintro ⟨hd, ⟨id, hid, heq⟩, hall⟩
    refine ⟨ih, hd, id, hid, (), heq, (), fun r hr => ?_, rfl⟩
    obtain ⟨body, hbody, hh⟩ := hall r hr
    exact ⟨body, hbody, _, Json.get?_of_field? hh, pyEq_str_iff.mpr rfl⟩

/-- The time of admission is in the window of the intent. -/
lemma checkWindow_eq_ok :
    checkWindow P b = .ok u ↔ ∃ admission admittedAt issuedAt expiresAt admitted issued expires,
      b.pb.field? "admission" = some admission ∧
      admission.field? "admitted_at" = some (.str admittedAt) ∧
      b.intent.field? "issued_at" = some (.str issuedAt) ∧
      b.intent.field? "expires_at" = some (.str expiresAt) ∧
      P.parseTime admittedAt = some admitted ∧ P.parseTime issuedAt = some issued ∧
      P.parseTime expiresAt = some expires ∧
      Json.roundDouble (issued - 5) ≤ admitted ∧ admitted < expires := by
  simp only [checkWindow, bind_eq_ok, read_eq_ok, check_eq_ok, ts_eq_ok, decide_eq_true_eq]
  constructor
  · rintro ⟨adm, hadm, _, h1, a, ⟨ta, rfl, ha⟩, _, h2, i, ⟨ti, rfl, hi⟩, _, hle, _, h3, e,
      ⟨te, rfl, he⟩, hlt⟩
    exact ⟨adm, ta, ti, te, a, i, e, hadm, h1, h2, h3, ha, hi, he, hle, hlt⟩
  · rintro ⟨adm, ta, ti, te, a, i, e, hadm, h1, h2, h3, ha, hi, he, hle, hlt⟩
    exact ⟨adm, hadm, _, h1, a, ⟨ta, rfl, ha⟩, _, h2, i, ⟨ti, rfl, hi⟩, (), hle, _, h3, e,
      ⟨te, rfl, he⟩, hlt⟩

/-- The roots are those of the entries that the records state. -/
lemma checkRoots_eq_ok :
    checkRoots P b = .ok u ↔ ∃ ns preGeneration preEntries preRoot postGeneration postEntries
        postRoot,
      b.intent.field? "namespace" = some ns ∧
      b.pb.field? "pre_generation" = some preGeneration ∧
      b.pb.field? "pre_entries" = some preEntries ∧
      P.stateRoot ns preGeneration preEntries = some preRoot ∧
      b.pb.field? "pre_root" = some (.str preRoot) ∧
      b.intent.field? "expected_root" = some (.str preRoot) ∧
      b.cb.field? "post_generation" = some postGeneration ∧
      b.cb.field? "post_entries" = some postEntries ∧
      P.stateRoot ns postGeneration postEntries = some postRoot ∧
      b.cb.field? "post_root" = some (.str postRoot) := by
  simp only [checkRoots, bind_eq_ok, read_eq_ok, check_eq_ok, ofOption_eq_ok]
  constructor
  · rintro ⟨ns, hns, g, hg, e, he, r, hr, pr, hpr, _, heq, er, her, _, heq', g', hg', e', he', r',
      hr', pr', hpr', heq''⟩
    obtain rfl := str_pyEq_iff.mp heq
    obtain rfl := str_pyEq_iff.mp heq'
    obtain rfl := str_pyEq_iff.mp heq''
    exact ⟨ns, g, e, r, g', e', r', hns, hg, he, hr, hpr, her, hg', he', hr', hpr'⟩
  · rintro ⟨ns, g, e, r, g', e', r', hns, hg, he, hr, hpr, her, hg', he', hr', hpr'⟩
    have hrefl : ∀ s : PyStr, Json.pyEq (.str s) (.str s) = true := fun s =>
      str_pyEq_iff.mpr rfl
    exact ⟨ns, hns, g, hg, e, he, r, hr, _, hpr, (), hrefl _, _, her, (), hrefl _, g', hg', e', he',
      r', hr', _, hpr', hrefl _⟩

/-- The generation is the expected one, and goes up by one. -/
lemma checkGeneration_eq_ok :
    checkGeneration b = .ok u ↔ ∃ preGeneration expected postGeneration next,
      b.pb.field? "pre_generation" = some preGeneration ∧
      b.intent.field? "expected_generation" = some expected ∧
      preGeneration.pyEq expected = true ∧
      b.cb.field? "post_generation" = some postGeneration ∧
      preGeneration.addOne = some next ∧ postGeneration.pyEq next = true := by
  simp only [checkGeneration, bind_eq_ok, read_eq_ok, check_eq_ok, ofOption_eq_ok]
  constructor
  · rintro ⟨g, hg, e, he, _, heq, g', hg', n, hn, heq'⟩
    exact ⟨g, e, g', n, hg, he, heq, hg', hn, heq'⟩
  · rintro ⟨g, e, g', n, hg, he, heq, hg', hn, heq'⟩
    exact ⟨g, hg, e, he, (), heq, g', hg', n, hn, heq'⟩

/-- The entry is for the key. -/
def isFor (key e : Json) : Bool := e.first?.any fun k => k.pyEq key

/-- The entry begins with the key of another entry, or of none. -/
lemma isOther_eq_ok : isOther key e = .ok c ↔ (∃ k, e.first? = some k) ∧ c = !isFor key e := by
  simp only [isOther, bind_eq_ok, ofOption_eq_ok, pure_eq_ok, isFor]
  constructor
  · rintro ⟨k, hk, rfl⟩
    exact ⟨⟨k, hk⟩, by simp [hk]⟩
  · rintro ⟨⟨k, hk⟩, rfl⟩
    exact ⟨k, hk, by simp [hk]⟩

lemma filter_isOther_eq_ok : filter (isOther key) xs = .ok ys ↔
      (∀ e ∈ xs, ∃ k, e.first? = some k) ∧ ys = xs.filter fun e => !isFor key e := by
  have hyes : ∀ e, (∃ k, e.first? = some k) → yes (isOther key e) = !isFor key e :=
    fun e he => by rw [isOther_eq_ok.mpr ⟨he, rfl⟩, yes]
  rw [filter_eq_ok]
  simp only [isOther_eq_ok]
  constructor
  · rintro ⟨hread, rfl⟩
    have hfirst : ∀ e ∈ xs, ∃ k, e.first? = some k := fun e he => (hread e he).choose_spec.1
    exact ⟨hfirst, List.filter_congr fun e he => hyes e (hfirst e he)⟩
  · rintro ⟨hfirst, rfl⟩
    exact ⟨fun e he => ⟨_, hfirst e he, rfl⟩,
      (List.filter_congr fun e he => hyes e (hfirst e he)).symm⟩

/-- The intent is an upsert, and the entries are those before it with its key set. -/
lemma checkPayload_eq_ok :
    checkPayload P o b ih = .ok commitment ↔ ∃ key value preEntries pre expectedPost postEntries
        postItems post applied postGeneration postRoot,
      b.intent.field? "op" = some (.str "UPSERT") ∧ b.intent.field? "key" = some key ∧
      b.intent.field? "value" = some value ∧
      P.payloadCommitment (.str "UPSERT") key value = some commitment ∧
      b.pb.field? "pre_entries" = some preEntries ∧ preEntries.items = some pre ∧
      (∀ e ∈ pre, ∃ k, e.first? = some k) ∧
      P.sorted ((pre.filter fun e => !isFor key e) ++ [.arr [key, value]]) = some expectedPost ∧
      b.pb.field? "payload_commitment" = some (.str commitment) ∧
      b.cb.field? "post_entries" = some postEntries ∧ postEntries.items = some postItems ∧
      P.sorted postItems = some post ∧ Json.pyEq (.arr post) (.arr expectedPost) = true ∧
      b.cb.field? "applied_row" = some applied ∧
      b.cb.field? "post_generation" = some postGeneration ∧
      b.cb.field? "post_root" = some postRoot ∧
      applied.pyEq (.obj [("intent_id", o.intentId), ("intent_hash", .str ih),
        ("generation", postGeneration), ("post_root", postRoot)]) = true := by
  simp only [checkPayload, bind_eq_ok, read_eq_ok, check_eq_ok, ofOption_eq_ok,
    pure_eq_ok, filter_isOther_eq_ok]
  constructor
  · rintro ⟨op, hop, key, hkey, value, hvalue, c, hc, pe, hpe, pre, hpre, others, ⟨hfirst, rfl⟩, ep,
      hep, applied, happ, _, hupsert, st, hst, _, hste, pse, hpse, psi, hpsi, post, hpost, _, heq,
      pg, hpg, pr, hpr, _, happe, rfl⟩
    obtain rfl := pyEq_str_iff.mp hupsert
    obtain rfl := pyEq_str_iff.mp hste
    exact ⟨key, value, pe, pre, ep, pse, psi, post, applied, pg, pr, hop, hkey, hvalue, hc, hpe,
      hpre, hfirst, hep, hst, hpse, hpsi, hpost, heq, happ, hpg, hpr, happe⟩
  · rintro ⟨key, value, pe, pre, ep, pse, psi, post, applied, pg, pr, hop, hkey, hvalue, hc, hpe,
      hpre, hfirst, hep, hst, hpse, hpsi, hpost, heq, happ, hpg, hpr, happe⟩
    exact ⟨_, hop, key, hkey, value, hvalue, commitment, hc, pe, hpe, pre, hpre, _, ⟨hfirst, rfl⟩,
      ep, hep, applied, happ, (), pyEq_str_iff.mpr rfl, _, hst, (), pyEq_str_iff.mpr rfl,
      pse, hpse, psi, hpsi, post, hpost, (), heq, pg, hpg, pr, hpr, (), happe, rfl⟩

/-- The certificate that the bundle has to contain. -/
lemma wanted_eq_ok :
    wanted o s b ih commitment = .ok want ↔ ∃ ns authorityKid expected preRoot postGeneration
        postRoot applied physical merged preparedSeq preparedHash committedSeq committedHash stamp
        kid,
      b.intent.field? "namespace" = some ns ∧
      b.intent.field? "authority_kid" = some authorityKid ∧
      b.intent.field? "expected_generation" = some expected ∧
      b.pb.field? "pre_root" = some preRoot ∧
      b.cb.field? "post_generation" = some postGeneration ∧
      b.cb.field? "post_root" = some postRoot ∧ b.cb.field? "applied_row" = some applied ∧
      b.cb.field? "physical" = some physical ∧
      physical.updated "applied_row" applied = some merged ∧
      s.prepared.field? "seq" = some preparedSeq ∧ s.prepared.field? "hash" = some preparedHash ∧
      s.committed.field? "seq" = some committedSeq ∧
      s.committed.field? "hash" = some committedHash ∧ s.committed.field? "at" = some stamp ∧
      o.cert.field? "kid" = some kid ∧
      .obj [("protocol", "veklom.vdb.c1.finality/v1"), ("intent_id", o.intentId),
        ("intent_hash", .str ih), ("namespace", ns), ("authority_kid", authorityKid),
        ("expected_generation", expected), ("pre_root", preRoot),
        ("payload_commitment", .str commitment), ("post_generation", postGeneration),
        ("post_root", postRoot), ("physical", merged),
        ("journal", .obj [("prepared_seq", preparedSeq), ("prepared_hash", preparedHash),
          ("committed_seq", committedSeq), ("committed_hash", committedHash)]),
        ("finalized_at", stamp), ("finalizer_kid", kid)] = want := by
  simp only [wanted, bind_eq_ok, read_eq_ok, ofOption_eq_ok, pure_eq_ok]
  constructor
  · rintro ⟨ns, h1, ak, h2, ex, h3, pr, h4, pg, h5, qr, h6, ap, h7, ph, h8, me, h9, ps, h10, pha,
      h11, cs, h12, ch, h13, st, h14, kid, h15, h⟩
    exact ⟨ns, ak, ex, pr, pg, qr, ap, ph, me, ps, pha, cs, ch, st, kid, h1, h2, h3, h4, h5, h6, h7,
      h8, h9, h10, h11, h12, h13, h14, h15, h⟩
  · rintro ⟨ns, ak, ex, pr, pg, qr, ap, ph, me, ps, pha, cs, ch, st, kid, h1, h2, h3, h4, h5, h6,
      h7, h8, h9, h10, h11, h12, h13, h14, h15, h⟩
    exact ⟨ns, h1, ak, h2, ex, h3, pr, h4, pg, h5, qr, h6, ap, h7, ph, h8, me, h9, ps, h10, pha,
      h11, cs, h12, ch, h13, st, h14, kid, h15, h⟩

/-- The receipt has the digest of the certificate in the journal. -/
lemma checkReceipt_eq_ok :
    checkReceipt P o s b ih commitment = .ok u ↔ ∃ want body certificate d payload,
      wanted o s b ih commitment = .ok want ∧ s.finalized.field? "body" = some body ∧
      body.field? "certificate" = some certificate ∧ certificate.pyEq o.cert = true ∧
      P.digest o.cert = some d ∧ o.receipt.field? "certificate_digest" = some (.str d) ∧
      o.cert.field? "payload" = some payload ∧ payload.pyEq want = true := by
  simp only [checkReceipt, bind_eq_ok, read_eq_ok, check_eq_ok, digest_eq_ok]
  constructor
  · rintro ⟨w, hw, bd, hbd, c, hc, _, hce, st, hst, d, hd, _, hste, p, hp, hpe⟩
    obtain rfl := pyEq_str_iff.mp hste
    exact ⟨w, bd, c, d, p, hw, hbd, hc, hce, hd, hst, hp, hpe⟩
  · rintro ⟨w, bd, c, d, p, hw, hbd, hc, hce, hd, hst, hp, hpe⟩
    exact ⟨w, hw, bd, hbd, c, hc, (), hce, _, hst, d, hd, (), pyEq_str_iff.mpr rfl, p, hp, hpe⟩

/-- What passes `_verify`. -/
theorem verify_eq_ok : verify P bundle trust = .ok u ↔ ∃ o s b ih commitment, Opens bundle o ∧
      Chain Json.recordHash (Links P) 0 "genesis" o.journal ∧ Selects o s ∧
      HasBodies s b ∧ checkSignatures P trust o b = .ok () ∧ checkBinding P o s b = .ok ih ∧
      checkWindow P b = .ok () ∧ checkRoots P b = .ok () ∧ checkGeneration b = .ok () ∧
      checkPayload P o b ih = .ok commitment ∧ checkReceipt P o s b ih commitment = .ok () := by
  simp only [verify, bind_eq_ok, stage_eq_ok, openBundle_eq_ok, checkChain_eq_ok,
    selectRecords_eq_ok, readBodies_eq_ok]
  constructor
  · rintro ⟨o, ho, _, ⟨hchain, -⟩, s, hs, b, hb, _, h4, ih, h5, _, h6, _, h7, _, h8, c, h9, h10⟩
    exact ⟨o, s, b, ih, c, ho, hchain, hs, hb, h4, h5, h6, h7, h8, h9, h10⟩
  · rintro ⟨o, s, b, ih, c, ho, hchain, hs, hb, h4, h5, h6, h7, h8, h9, h10⟩
    exact ⟨o, ho, _, ⟨hchain, rfl⟩, s, hs, b, hb, (), h4, ih, h5, (), h6, (), h7, (), h8, c, h9,
      h10⟩

/-- The witness part `w` of a bundle: its checkpoint, the payload of the checkpoint, and the
records of the bundle's journal and of the suffix. -/
structure WitnessPart where
  checkpoint : Json
  payload : Json
  journal : List Json
  suffix : List Json

/-- A pinned witness signed the last hash of the journal with the suffix, and the suffix has
no record of the intent. -/
structure Countersigned (P : Platform) (trust : TrustStore) (bundle w : Json)
    (v : WitnessPart) : Prop where
  checkpoint : w.field? "checkpoint" = some v.checkpoint
  suffix : w.field? "journal_suffix" = some (.arr v.suffix)
  signed : P.verifySigned v.checkpoint (trust.witnessKeys.getD []) = true
  journal : bundle.field? "journal" = some (.arr v.journal)
  chain : Chain Json.recordHash (Links P) v.journal.length
    (head Json.recordHash "genesis" v.journal) v.suffix
  others : ∃ intentId, bundle.field? "intent_id" = some intentId ∧
    ∀ r ∈ v.suffix, isMine intentId r = .ok false
  payload : v.checkpoint.field? "payload" = some v.payload
  protocol : v.payload.field? "protocol" = some (.str "veklom.vdb.c1.checkpoint/v1")
  seq : ∃ seq, v.payload.field? "seq" = some seq ∧
    seq.pyEq (.int ((v.journal ++ v.suffix).length - 1)) = true
  head : v.payload.field? "head_hash" =
    some (.str (head Json.recordHash "genesis" (v.journal ++ v.suffix)))
  genesis : ∃ first, v.journal.head? = some first ∧
    v.payload.field? "journal_genesis_hash" = some (.str first.recordHash)

lemma elements?_eq_some : j.elements? = some xs ↔ j = .arr xs := by
  cases j <;> simp [Json.elements?]

/-- The countersignature is accepted exactly if it is one. -/
lemma checkWitness_eq_ok :
    checkWitness P bundle w trust = .ok u ↔ ∃ v, Countersigned P trust bundle w v := by
  simp only [checkWitness, bind_eq_ok, read_eq_ok, get_eq_ok, check_eq_ok, checkSigned_eq_ok,
    ofOption_eq_ok, checkChain_eq_ok, forEach_eq_ok, elements?_eq_some]
  constructor
  · rintro ⟨cp, hcp, _, hsuf, _, hsigned, _, hj, journal, rfl, suffix, rfl, last, hlast, head,
      ⟨hchain, rfl⟩, iid, hiid, _, hothers, p, hp, proto, hproto, _, hprotoe, seq, hseq, _, hseqe,
      hh, hhead, _, hheade, gh, hgh, first, hfirst, hghe⟩
    obtain rfl := pyEq_str_iff.mp hheade
    obtain rfl := pyEq_str_iff.mp hghe
    have hlast' : last.recordHash = head Json.recordHash "genesis" journal :=
      (head_of_getLast? hlast).symm
    refine ⟨⟨cp, p, journal, suffix⟩, hcp, hsuf, hsigned, hj, hlast' ▸ hchain,
      ⟨iid, hiid, fun r hr => ?_⟩, hp, Json.get?_pyEq_str_iff.mp ⟨proto, hproto, hprotoe⟩,
      ⟨seq, hseq, hseqe⟩, ?_, ⟨first, hfirst, hgh⟩⟩
    · obtain ⟨mine, hmine, hnot⟩ := hothers r hr
      rwa [show mine = false by simpa using hnot] at hmine
    · rw [head_append, ← hlast', hhead]
  · rintro ⟨v, h⟩
    obtain ⟨iid, hiid, hothers⟩ := h.others
    obtain ⟨seq, hseq, hseqe⟩ := h.seq
    obtain ⟨first, hfirst, hgh⟩ := h.genesis
    obtain ⟨last, hlast⟩ : ∃ last, v.journal.getLast? = some last := by
      cases hj : v.journal with
      | nil => simp [hj] at hfirst
      | cons r rs => exact ⟨_, List.getLast?_eq_some_getLast (by simp)⟩
    have hlast' : last.recordHash = head Json.recordHash "genesis" v.journal :=
      (head_of_getLast? hlast).symm
    refine ⟨_, h.checkpoint, _, h.suffix, (), h.signed, _, h.journal, _, rfl, _, rfl, last, hlast,
      _, ⟨hlast' ▸ h.chain, rfl⟩, iid, hiid, (), fun r hr => ⟨false, hothers r hr, rfl⟩, _,
      h.payload, _, Json.get?_of_field? h.protocol, (), pyEq_str_iff.mpr rfl, seq, hseq, (),
      hseqe, _, h.head, (), pyEq_str_iff.mpr ?_, _, hgh, first, hfirst,
      pyEq_str_iff.mpr rfl⟩
    rw [head_append, hlast']

variable {profile : Profile}

/-- The profile says whether there is a countersignature. -/
lemma verifyWitness_eq_ok : verifyWitness P bundle trust = .ok profile ↔
      (profile = .l1 ∧ bundle.field? "witness" = none) ∨
      (profile = .w1 ∧ ∃ w v, bundle.field? "witness" = some w ∧
        Countersigned P trust bundle w v) := by
  unfold verifyWitness
  split
  · rename_i hw
    simp [hw, eq_comm]
  · rename_i w hw
    simp only [bind_eq_ok, checkWitness_eq_ok, pure_eq_ok, hw]
    constructor
    · rintro ⟨_, hv, rfl⟩
      exact .inr ⟨rfl, w, hv.choose, rfl, hv.choose_spec⟩
    · rintro (⟨-, h⟩ | ⟨rfl, _, v, hw', hv⟩)
      · exact absurd h (by simp)
      · cases hw'
        exact ⟨(), ⟨v, hv⟩, rfl⟩

/-- What is judged valid: what passes both parts, under a witness if one is required. -/
theorem verifyBundle_eq_valid {intentId postRoot : Json} {requireWitness : Bool} :
    verifyBundle P bundle trust requireWitness = some (.valid profile intentId postRoot passed) ↔
      verify P bundle trust = .ok () ∧ verifyWitness P bundle trust = .ok profile ∧
      (requireWitness = true → profile = .w1) ∧ bundle.field? "intent_id" = some intentId ∧
      (∃ receipt cert payload, bundle.field? "receipt" = some receipt ∧
        receipt.field? "certificate" = some cert ∧ cert.field? "payload" = some payload ∧
        payload.field? "post_root" = some postRoot) ∧
      passed = if profile = .w1 then steps ++ ["witness"] else steps := by
  have hcond : ∀ p : Profile, (!(requireWitness && decide (p ≠ .w1))) = true ↔
      (requireWitness = true → p = .w1) := fun p => by
    cases requireWitness <;> simp
  have hchecks : ∀ p, checks P bundle trust requireWitness = .ok p ↔
      verify P bundle trust = .ok () ∧ verifyWitness P bundle trust = .ok p ∧
        (requireWitness = true → p = .w1) := by
    intro p
    simp only [checks, bind_eq_ok, stage_eq_ok, check_eq_ok, pure_eq_ok, hcond]
    constructor
    · rintro ⟨_, hv, q, hw, _, hreq, rfl⟩
      exact ⟨hv, hw, hreq⟩
    · rintro ⟨hv, hw, hreq⟩
      exact ⟨(), hv, p, hw, (), hreq, rfl⟩
  unfold verifyBundle
  split
  · rename_i r hr
    have hnone : ¬∃ p, checks P bundle trust requireWitness = .ok p := by
      rintro ⟨p, hp⟩
      simp [hr] at hp
    simp only [Option.some.injEq, reduceCtorEq, false_iff]
    rintro ⟨hv, hw, hreq, -⟩
    exact hnone ⟨profile, (hchecks profile).mpr ⟨hv, hw, hreq⟩⟩
  · rename_i p hp
    simp only [Option.bind_eq_bind, Option.bind_eq_some_iff, Option.pure_def, Option.some.injEq,
      VerifyResult.valid.injEq]
    constructor
    · rintro ⟨_, hid, rc, hrc, cert, hcert, pl, hpl, _, hroot, rfl, rfl, rfl, rfl⟩
      obtain ⟨hv, hw, hreq⟩ := (hchecks p).mp hp
      exact ⟨hv, hw, hreq, hid, ⟨rc, cert, pl, hrc, hcert, hpl, hroot⟩, rfl⟩
    · rintro ⟨hv, hw, hreq, hid, ⟨rc, cert, pl, hrc, hcert, hpl, hroot⟩, rfl⟩
      obtain rfl : p = profile :=
        Except.ok.inj (hp.symm.trans ((hchecks profile).mpr ⟨hv, hw, hreq⟩))
      exact ⟨_, hid, rc, hrc, cert, hcert, pl, hpl, _, hroot, rfl, rfl, rfl, rfl⟩

end Verify

end VdbC1
