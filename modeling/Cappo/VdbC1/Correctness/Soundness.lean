import Cappo.VdbC1.Correctness.Crafted
import Cappo.VdbC1.Reference

/-!
# What an accepted bundle proves

A bundle is any JSON value, so its members are compared as Python compares them: a
generation may be a float or a boolean, an entry any value with an order. What a valid verdict
establishes (`Established`) is stated with Python's `==` and `+`, and exactly where the
members have the types the coordinator writes: integer generations and rows of two strings.

## Main results

* `verifyBundle_sound`: what `verify_bundle` establishes when it returns VALID_FINALIZED;
* `verifyBundle_same_generation`: on floats beyond 2⁵³ the generation need not grow.
-/

namespace VdbC1

open Verify List Json Platform

/-- The records of an intent with a given kind. -/
def recordsOf (intentId : Json) (kind : PyStr) (journal : List Json) : List Json :=
  journal.filter fun r => (r.field? "intent_id").any (fun id => id.pyEq intentId) &&
    decide (r.field? "kind" = some (.str kind))

/-- The members of a bundle its finality is about. -/
structure Finality where
  intentId : Json
  journal : List Json
  prepared : Json
  committed : Json
  finalized : Json
  intent : Json
  intentHash : PyStr
  ns : Json
  key : Json
  value : Json
  expectedGeneration : Json
  preGeneration : Json
  preEntriesJson : Json
  preEntries : List Json
  preRoot : PyStr
  postGeneration : Json
  postEntriesJson : Json
  postEntries : List Json
  postRoot : PyStr
  certificate : Json

namespace Finality

/-- The members stand where the bundle has them. -/
structure Reads (f : Finality) (bundle : Json) : Prop where
  intentId : bundle.field? "intent_id" = some f.intentId
  journal : bundle.field? "journal" = some (.arr f.journal)
  prepared : ∃ pb signed, f.prepared.field? "body" = some pb ∧
    pb.field? "signed_intent" = some signed ∧ signed.field? "payload" = some f.intent ∧
    pb.field? "pre_generation" = some f.preGeneration ∧
    pb.field? "pre_entries" = some f.preEntriesJson ∧ pb.field? "pre_root" = some (.str f.preRoot)
  preEntries : f.preEntriesJson.items = some f.preEntries
  committed : ∃ cb, f.committed.field? "body" = some cb ∧
    cb.field? "post_generation" = some f.postGeneration ∧
    cb.field? "post_entries" = some f.postEntriesJson ∧
    cb.field? "post_root" = some (.str f.postRoot)
  postEntries : f.postEntriesJson.items = some f.postEntries
  ns : f.intent.field? "namespace" = some f.ns
  key : f.intent.field? "key" = some f.key
  value : f.intent.field? "value" = some f.value
  expectedGeneration : f.intent.field? "expected_generation" = some f.expectedGeneration
  certificate : ∃ receipt cert, bundle.field? "receipt" = some receipt ∧
    receipt.field? "certificate" = some cert ∧ cert.field? "payload" = some f.certificate

/-- The entries after the upsert of the intent's key: every entry for the key is replaced by
the one `[key, value]`. -/
def upserted (f : Finality) : List Json :=
  (f.preEntries.filter fun e => !isFor f.key e) ++ [.arr [f.key, f.value]]

end Finality

section

variable (P : Platform) (signedBy : Bytes → Bytes → Prop)

/-- A key of the trust store signed the value. -/
def SignedByOneOf (trusted : List (PyStr × PyStr)) (payload : Json) : Prop :=
  ∃ kid pub m, P.trustedKey trusted kid = some pub ∧ P.jcs payload = some m ∧ signedBy pub m

/-- What a valid verdict establishes about the members of the bundle. -/
structure Established (trust : TrustStore) (f : Finality) : Prop where
  /-- A trusted authority signed the intent, an upsert with the bundle's intent id. -/
  authority : SignedByOneOf P signedBy trust.authorityKeys f.intent
  op : f.intent.field? "op" = some (.str "UPSERT")
  intentId : ∃ id, f.intent.field? "intent_id" = some id ∧ id.pyEq f.intentId = true
  /-- The entries before hash to the expected root, at the expected generation. -/
  preRoot : P.stateRoot f.ns f.preGeneration f.preEntriesJson = some f.preRoot
  expectedRoot : f.intent.field? "expected_root" = some (.str f.preRoot)
  expectedGeneration : f.preGeneration.pyEq f.expectedGeneration = true
  /-- The entries after are the upserted ones, in some order. -/
  postRoot : P.stateRoot f.ns f.postGeneration f.postEntriesJson = some f.postRoot
  entries : ∃ l, List.Forall₂ (fun x y => Json.pyEq x y = true) f.postEntries l ∧
    l.Perm f.upserted
  entries_exact : (∀ x ∈ f.postEntries, ∃ r, x = entry r) → f.postEntries.Perm f.upserted
  /-- The generation is counted up. -/
  generation : ∃ next, f.preGeneration.addOne = some next ∧ f.postGeneration.pyEq next = true
  generation_exact : ∀ e n m, f.expectedGeneration = .int e → f.preGeneration = .int n →
    f.postGeneration = .int m → e = n ∧ m = n + 1
  /-- A trusted finalizer signed a certificate of just this. -/
  finalizer : SignedByOneOf P signedBy trust.finalizerKeys f.certificate
  intentHash : P.digest f.intent = some f.intentHash
  certifiedIntent : f.certificate.field? "intent_hash" = some (.str f.intentHash)
  certifiedPreRoot : f.certificate.field? "pre_root" = some (.str f.preRoot)
  certifiedPostRoot : f.certificate.field? "post_root" = some (.str f.postRoot)
  certifiedGenerations : ∃ g g', f.certificate.field? "expected_generation" = some g ∧
    f.certificate.field? "post_generation" = some g' ∧ g.pyEq f.expectedGeneration = true ∧
    g'.pyEq f.postGeneration = true
  certifiedRecords : ∃ journal, f.certificate.field? "journal" = some journal ∧
    journal.field? "prepared_hash" = some (.str f.prepared.recordHash) ∧
    journal.field? "committed_hash" = some (.str f.committed.recordHash)
  /-- The hashes stand for this intent and these records alone. -/
  intent_determined : ∀ j, P.digest j = some f.intentHash → j.canonical = f.intent.canonical
  prepared_determined : ∀ i prev r, Links P i prev r →
    r.recordHash = f.prepared.recordHash → r.canonical = f.prepared.canonical
  committed_determined : ∀ i prev r, Links P i prev r →
    r.recordHash = f.committed.recordHash → r.canonical = f.committed.canonical
  /-- The journal has one record of each kind for the intent. -/
  onePrepared : recordsOf f.intentId "PREPARED" f.journal = [f.prepared]
  oneCommitted : recordsOf f.intentId "COMMITTED" f.journal = [f.committed]
  oneFinalized : recordsOf f.intentId "FINALIZED" f.journal = [f.finalized]

end

variable {P : Platform} {signedBy : Bytes → Bytes → Prop}

/-! ## Signatures -/

/-- A signature that verifies and stands in the bundle is by the key's holder. -/
lemma signedByOneOf_of_verifySigned (hunf : P.Unforged signedBy trusted bundle)
    (h : P.verifySigned signed trusted = true) (hp : signed.field? "payload" = some payload)
    (hwithin : ∀ x, Json.Within x signed → Json.Within x bundle) :
    SignedByOneOf P signedBy trusted payload := by
  obtain ⟨kid, sig, p, pub, raw, m, -, -, hsig, hp', hkey, hraw, hm, hverify⟩ :=
    P.verifySigned_iff.mp h
  obtain rfl : p = payload := Option.mem_unique hp' hp
  exact ⟨kid, pub, m, hkey, hm,
    hunf kid pub sig raw m hkey (hwithin _ (.of_field? .self hsig)) hraw hverify⟩

/-! ## The records of the intent -/

/-- For a kind of the protocol run, the verifier's selection is by intent and kind. -/
lemma recordsOf_eq (hs : Selects o s) (hkind : Json.str kind ∈ bindingKinds) :
    recordsOf o.intentId kind o.journal = s.mine.filter fun r => kindOf r = .str kind := by
  rw [hs.mine, filter_filter, recordsOf]
  refine filter_congr fun r hr => ?_
  obtain ⟨c, hc⟩ := hs.readable r hr
  rw [hc, Checks.yes]
  obtain ⟨id, hid, ⟨hmine, k, hk, rfl⟩ | ⟨hother, rfl⟩⟩ := isMine_eq_ok.mp hc
  · -- a record of the intent: its kind decides both sides
    rw [hid, kindOf, hk]
    simp only [Option.any_some, hmine, Bool.true_and, Option.getD_some, Option.some.injEq]
    by_cases hkk : k = .str kind
    · subst hkk
      simp [hkind]
    · simp [hkk]
  · simp [hid, hother]

lemma eq_singleton_of_count {l : List Json} {k r : Json} (hr : r ∈ l) (hk : kindOf r = k)
    (hcount : (l.map kindOf).count k = 1) : (l.filter fun x => kindOf x = k) = [r] := by
  have hlen : (l.filter fun x => kindOf x = k).length = 1 := by
    rw [← countP_eq_length_filter, ← hcount, List.count, countP_map]
    refine countP_congr fun x _ => ?_
    simp
  obtain ⟨x, hx⟩ := length_eq_one_iff.mp hlen
  have hmem : r ∈ l.filter fun x => kindOf x = k := mem_filter.mpr ⟨hr, by simpa using hk⟩
  rw [hx, mem_singleton] at hmem
  rw [hx, hmem]

lemma head_last_of_legal : ∀ kinds ∈ legalFinalPaths, kinds.head? = some (.str "PREPARED") ∧
    kinds.getLast? = some (.str "FINALIZED") := by
  decide

/-- The intent has one PREPARED, one COMMITTED and one FINALIZED record. -/
lemma Verify.Selects.recordsOf_eq_singleton {o : Opened} {s : Selected} (hs : Selects o s) :
    recordsOf o.intentId "PREPARED" o.journal = [s.prepared] ∧
      recordsOf o.intentId "COMMITTED" o.journal = [s.committed] ∧
      recordsOf o.intentId "FINALIZED" o.journal = [s.finalized] := by
  obtain ⟨hf, hc, hp⟩ := count_le_of_legal _ hs.path
  obtain ⟨hhead, hlast⟩ := head_last_of_legal _ hs.path
  have hpk : kindOf s.prepared = .str "PREPARED" := by
    rw [List.head?_map, hs.prepared] at hhead
    exact Option.some.inj hhead
  have hck : kindOf s.committed = .str "COMMITTED" := by
    simpa using List.find?_some hs.committed
  -- the journal ends with a record of the intent, so this is the last one selected
  have hmineLast : s.mine.getLast? = some s.finalized := by
    obtain ⟨a, ha⟩ := List.getLast?_eq_some_iff.mp hs.last
    rw [hs.mine, ha, filter_append]
    simp [hs.ends, Checks.yes]
  have hfk : kindOf s.finalized = .str "FINALIZED" := by
    rw [List.getLast?_map, hmineLast] at hlast
    exact Option.some.inj hlast
  refine ⟨?_, ?_, ?_⟩
  · rw [recordsOf_eq hs (by decide)]
    exact eq_singleton_of_count (mem_of_head? hs.prepared) hpk hp
  · rw [recordsOf_eq hs (by decide)]
    exact eq_singleton_of_count (mem_of_find?_eq_some hs.committed) hck hc
  · rw [recordsOf_eq hs (by decide)]
    exact eq_singleton_of_count (mem_of_getLast? hmineLast) hfk hf

/-! ## The entries -/

/-- Sorted lists that Python holds equal come from lists that agree up to their order. -/
lemma exists_perm_of_sorted (hx : P.sorted xs = some sx)
    (hy : P.sorted ys = some sy) (heq : Json.pyEq (.arr sx) (.arr sy) = true) :
    ∃ l, List.Forall₂ (fun x y => Json.pyEq x y = true) xs l ∧ l.Perm ys := by
  obtain ⟨l, hl, hperm⟩ := perm_comp_forall₂ (P.sorted_perm xs sx hx).symm (pyEq_arr_iff.mp heq)
  exact ⟨l, hl, hperm.trans (P.sorted_perm ys sy hy)⟩

/-- Rows of two strings are equal only to themselves. -/
lemma eq_of_forall₂_entry (h : List.Forall₂ (fun x y => Json.pyEq x y = true) xs ys)
    (hrow : ∀ x ∈ xs, ∃ r, x = entry r) : ys = xs := by
  induction h with
  | nil => rfl
  | @cons x y xs ys hxy _ ih =>
    obtain ⟨⟨r, rfl⟩, htail⟩ := forall_mem_cons.mp hrow
    rw [eq_entry_of_pyEq hxy, ih htail]

/-! ## Soundness -/

/-- A certificate that Python holds equal to the re-derived one states its texts. -/
lemma field?_of_pyEq_str {a b : Json} {k s : PyStr} (h : a.pyEq b = true)
    (hb : b.field? k = some (.str s)) : a.field? k = some (.str s) := by
  obtain ⟨y, hy, heq⟩ := pyEq_field? (pyEq_symm h) hb
  rw [hy, str_pyEq_iff.mp heq]

lemma eq_add_one_of_pyEq {next : Json} (hadd : Json.addOne (.int n) = some next)
    (heq : Json.pyEq (.int m) next = true) : m = n + 1 := by
  cases hadd
  exact pyEq_int_int.mp heq

variable {trust : TrustStore}

/-- What a passed verification establishes. -/
lemma verify_sound (hinj : P.DigestInjective) {bundle : Json}
    (hauthority : P.Unforged signedBy trust.authorityKeys bundle)
    (hfinalizer : P.Unforged signedBy trust.finalizerKeys bundle)
    (h : verify P bundle trust = .ok ()) :
    ∃ f : Finality, f.Reads bundle ∧ Established P signedBy trust f := by
  obtain ⟨o, s, b, ih, commitment, ho, hchain, hs, hb, hsig, hbind, -, hroots, hgen, hpay, hrcpt⟩ :=
    verify_eq_ok.mp h
  obtain ⟨hauth, -, -, hfin⟩ := checkSignatures_eq_ok.mp hsig
  obtain ⟨hih, hid, -⟩ := checkBinding_eq_ok.mp hbind
  obtain ⟨ns, g, pe, pr, g', qe, qr, hns, hg, hpe, hpr, hpbr, hexp, hg', hqe, hqr, hcbr⟩ :=
    checkRoots_eq_ok.mp hroots
  obtain ⟨g2, e, g2', next, hg2, he, hge, hg2', hnext, hgn⟩ := checkGeneration_eq_ok.mp hgen
  obtain ⟨key, value, pe3, pre, ep, qe3, post, sp, _, _, _, hop, hkey, hvalue, -, hpe3, hpre, -,
    hep, -, hqe3, hpost, hsp, hposteq, -⟩ := checkPayload_eq_ok.mp hpay
  obtain ⟨want, fb, cert', d, cp, hwant, -, -, -, -, -, hcp, hcpeq⟩ := checkReceipt_eq_ok.mp hrcpt
  obtain ⟨wns, wak, we, wpr, wg', wqr, wap, wph, wme, wps, wpha, wcs, wcha, wst, wkid, -, -, hwe,
    hwpr, hwg', hwqr, -, -, -, -, hwpha, -, hwcha, -, -, rfl⟩ := wanted_eq_ok.mp hwant
  -- every member is read more than once, always as the same value
  obtain rfl := Option.mem_unique hg hg2
  obtain rfl := Option.mem_unique hg' hg2'
  obtain rfl := Option.mem_unique hpe hpe3
  obtain rfl := Option.mem_unique hqe hqe3
  obtain rfl := Option.mem_unique he hwe
  obtain rfl := Option.mem_unique hpbr hwpr
  obtain rfl := Option.mem_unique hg' hwg'
  obtain rfl := Option.mem_unique hcbr hwqr
  obtain ⟨hone, htwo, hthree⟩ := hs.recordsOf_eq_singleton
  have hmem : ∀ {kind : PyStr} {r : Json}, recordsOf o.intentId kind o.journal = [r] →
      r ∈ o.journal := fun hr => mem_of_mem_filter (hr ▸ mem_singleton_self _)
  have hprep := hmem hone
  obtain ⟨_, _, hlp⟩ := HashChain.valid_of_mem hchain hprep
  obtain ⟨_, _, hlc⟩ := HashChain.valid_of_mem hchain (hmem htwo)
  obtain rfl := Option.mem_unique hlp.hash hwpha
  obtain rfl := Option.mem_unique hlc.hash hwcha
  obtain ⟨l, hl, hperm⟩ := exists_perm_of_sorted hsp hep hposteq
  refine ⟨⟨o.intentId, o.journal, s.prepared, s.committed, s.finalized, b.intent, ih, ns, key,
    value, e, g, pe, pre, pr, g', qe, post, qr, cp⟩, ?_, ?_⟩
  · exact {
      intentId := ho.intentId
      journal := ho.journal
      prepared := ⟨_, _, hb.pb, hb.signedIntent, hb.intent, hg, hpe, hpbr⟩
      preEntries := hpre
      committed := ⟨_, hb.cb, hg', hqe, hcbr⟩
      postEntries := hpost
      ns := hns
      key := hkey
      value := hvalue
      expectedGeneration := he
      certificate := ⟨_, _, ho.receipt, ho.cert, hcp⟩ }
  · have hcertified := fun k s => field?_of_pyEq_str (k := k) (s := s) hcpeq
    obtain ⟨cg, hcg, hcge⟩ := pyEq_field? (k := "expected_generation") (pyEq_symm hcpeq)
      (x := e) (by simp)
    obtain ⟨cg', hcg', hcge'⟩ := pyEq_field? (k := "post_generation") (pyEq_symm hcpeq)
      (x := g') (by simp)
    obtain ⟨cj, hcj, hcje⟩ := pyEq_field? (k := "journal") (pyEq_symm hcpeq)
      (x := .obj [("prepared_seq", wps), ("prepared_hash", .str s.prepared.recordHash),
        ("committed_seq", wcs), ("committed_hash", .str s.committed.recordHash)]) (by simp)
    exact {
      authority := signedByOneOf_of_verifySigned hauthority hauth hb.intent fun x hx =>
        ((hx.of_field? hb.signedIntent).of_field? hb.pb |>.element hprep).of_field? ho.journal
      op := hop
      intentId := hid
      preRoot := hpr
      expectedRoot := hexp
      expectedGeneration := hge
      postRoot := hqr
      entries := ⟨l, hl, hperm⟩
      entries_exact := fun hrow => eq_of_forall₂_entry hl hrow ▸ hperm
      generation := ⟨next, hnext, hgn⟩
      generation_exact := fun e' n m he' hn hm => by
        subst he' hn hm
        exact ⟨(pyEq_int_int.mp hge).symm, eq_add_one_of_pyEq hnext hgn⟩
      finalizer := signedByOneOf_of_verifySigned hfinalizer hfin hcp fun x hx =>
        (hx.of_field? ho.cert).of_field? ho.receipt
      intentHash := hih
      certifiedIntent := hcertified _ _ (by simp)
      certifiedPreRoot := hcertified _ _ (by simp)
      certifiedPostRoot := hcertified _ _ (by simp)
      certifiedGenerations := ⟨cg, cg', hcg, hcg', pyEq_symm hcge, pyEq_symm hcge'⟩
      certifiedRecords := ⟨cj, hcj, field?_of_pyEq_str (pyEq_symm hcje) (by simp),
        field?_of_pyEq_str (pyEq_symm hcje) (by simp)⟩
      intent_determined := fun j hj => hinj j _ _ hj hih
      prepared_determined := fun i prev r hr heq => canonical_eq_of_recordHash hinj hr hlp heq
      committed_determined := fun i prev r hr heq => canonical_eq_of_recordHash hinj hr hlc heq
      onePrepared := hone
      oneCommitted := htwo
      oneFinalized := hthree }

/-- A bundle judged VALID_FINALIZED, whoever made it, shows that a trusted authority signed
the upsert, that it was applied once to the state it names, and that a trusted finalizer
certified just this. -/
theorem verifyBundle_sound (hinj : P.DigestInjective) {bundle intentId postRoot : Json}
    {trust : TrustStore} (hauthority : P.Unforged signedBy trust.authorityKeys bundle)
    (hfinalizer : P.Unforged signedBy trust.finalizerKeys bundle) {requireWitness : Bool}
    {profile : Profile} {passed : List String}
    (h : verifyBundle P bundle trust requireWitness =
      some (.valid profile intentId postRoot passed)) :
    ∃ f : Finality, f.Reads bundle ∧ Established P signedBy trust f :=
  verify_sound hinj hauthority hfinalizer (verifyBundle_eq_valid.mp h).1

/-! ## Crafted bundles -/

/-- The finality of a crafted bundle is about its own records. -/
theorem Crafted.Evidence.generations {g g' : Json} (e : Crafted.Evidence P trust g g')
    {extra : List (PyStr × Json)} {f : Finality} (hreads : f.Reads (e.json extra))
    (h : Established P signedBy trust f) :
    f.preGeneration = g ∧ f.postGeneration = g' := by
  have hid : f.intentId = "i" := by
    have := hreads.intentId
    simp only [Evidence.json, bundleFields] at this
    simpa using this.symm
  have hjournal : f.journal = e.journal := by
    have := hreads.journal
    simp only [Evidence.json, bundleFields] at this
    simpa using this.symm
  obtain ⟨hone, htwo, -⟩ := e.selects.recordsOf_eq_singleton
  have hprepared := h.onePrepared
  have hcommitted := h.oneCommitted
  rw [hid, hjournal] at hprepared hcommitted
  -- both are the only record of their kind
  have hp : f.prepared = e.prepared := singleton_injective (hprepared.symm.trans hone)
  have hc : f.committed = e.committed := singleton_injective (hcommitted.symm.trans htwo)
  obtain ⟨pb, _, hpb, -, -, hpre, -⟩ := hreads.prepared
  obtain ⟨cb, hcb, hpost, -⟩ := hreads.committed
  rw [hp] at hpb
  rw [hc] at hcb
  obtain rfl := Option.mem_unique e.prepared_made.body hpb
  obtain rfl := Option.mem_unique e.committed_made.body hcb
  exact ⟨by simpa [preparedBody] using hpre.symm, by simpa [committedBody] using hpost.symm⟩

/-- The trust store of the reference platform. -/
def referenceTrust : TrustStore :=
  ⟨referenceKeys, referenceKeys, some referenceKeys⟩

/-- Evidence about the first upsert of a store, under the keys of the reference platform. -/
lemma reference_evidence (hg : g.encodable = true) (hg' : g'.encodable = true) :
    Nonempty (Crafted.Evidence reference referenceTrust g g') :=
  Crafted.exists_evidence (P := reference) [] [] referenceTrust
    referenceKeys_trusted referenceKeys_trusted hg hg'

/-- A bundle about the first upsert of a store. -/
theorem verifyBundle_sound_crafted : ∃ (bundle postRoot : Json) (f : Finality),
    verifyBundle reference bundle referenceTrust false =
      some (.valid .l1 "i" postRoot Verify.steps) ∧ f.Reads bundle ∧
    Established reference (fun pub _ => pub = []) referenceTrust f ∧
    f.preGeneration = .int 0 ∧ f.postGeneration = .int 1 := by
  have h0 : (Json.int 0).encodable = true := by decide
  have h1 : (Json.int 1).encodable = true := by decide
  obtain ⟨e⟩ := reference_evidence h0 h1
  have hvalid := e.verifyBundle_ok h0 h1 rfl (pyEq_self h1)
  obtain ⟨f, hreads, h⟩ := verifyBundle_sound reference_digestInjective
    (reference_unforged _) (reference_unforged _) hvalid
  exact ⟨_, _, f, hvalid, hreads, h, e.generations hreads h⟩

/-- A bundle whose generations are floats can be accepted with a generation that does not
grow: at 2⁵³ Python's `+ 1` changes nothing. -/
theorem verifyBundle_same_generation : ∃ (bundle postRoot : Json) (f : Finality),
    verifyBundle reference bundle referenceTrust false =
      some (.valid .l1 "i" postRoot Verify.steps) ∧ f.Reads bundle ∧
    Established reference (fun pub _ => pub = []) referenceTrust f ∧
    f.preGeneration = .float (.finite (2 ^ 53)) ∧
    f.postGeneration = .float (.finite (2 ^ 53)) := by
  obtain ⟨e⟩ := reference_evidence (encodable_float (2 ^ 53)) (encodable_float (2 ^ 53))
  have hadd : Json.addOne (.float (.finite (2 ^ 53))) = some (.float (.finite (2 ^ 53))) := by
    rw [Json.addOne, roundDouble_two_pow_add_one]
  have hvalid := e.verifyBundle_ok (encodable_float _) (encodable_float _) hadd
    (pyEq_self (encodable_float _))
  obtain ⟨f, hreads, h⟩ := verify_sound reference_digestInjective
    (reference_unforged _) (reference_unforged _)
    (verifyBundle_eq_valid.mp hvalid).1
  exact ⟨_, _, f, hvalid, hreads, h, e.generations hreads h⟩

end VdbC1
