import Cappo.VdbC1.Correctness.Soundness

/-!
# Witnessed bundles are unique

Two bundles that a witness countersigned with one checkpoint hold one history: the hash chain
is unwound from the signed head, and the split into journal and suffix is forced, because the
journal ends at the intent's finality and the suffix has no record of the intent. Histories
are compared by what RFC 8785 sees of the records, which is all that a digest can tell apart.

## Main results

* `witnessed_unique`: one checkpoint, one history, one finality for an intent.
-/

namespace VdbC1

open Verify Option Json

/-- The payload of the checkpoint a bundle carries. -/
def checkpointPayload (bundle : Json) : Option Json := do
  let w ← bundle.field? "witness"
  let checkpoint ← w.field? "checkpoint"
  checkpoint.field? "payload"

/-- The records of a bundle's journal. -/
def journalOf (bundle : Json) : Option (List Json) := (bundle.field? "journal").bind Json.elements?

/-- The records of a bundle's journal and suffix. -/
def fullRecords (bundle : Json) : Option (List Json) := do
  let journal ← journalOf bundle
  let w ← bundle.field? "witness"
  let suffix ← (← w.field? "journal_suffix").elements?
  return journal ++ suffix

/-! ## Records that are encoded alike -/

section

variable {r r' id id' : Json}

/-- `==` with one of two ids that are equal is `==` with the other. -/
lemma pyEq_eq_of_canonical {v v' : Json} (hv : v.canonical = v'.canonical)
    (hid : id.pyEq id' = true) : v.pyEq id = v'.pyEq id' := by
  rw [pyEq_congr hv rfl, Bool.eq_iff_iff]
  exact ⟨fun h => pyEq_trans h hid, fun h => pyEq_trans h (pyEq_symm hid)⟩

/-- Whether a record is one of the intent is decided alike. -/
lemma SameRecord.isMine (h : SameRecord r r') (hid : id.pyEq id' = true)
    (hmine : isMine id r = .ok c) : isMine id' r' = .ok c := by
  obtain ⟨v, hv, hcase⟩ := isMine_eq_ok.mp hmine
  obtain ⟨v', hv', heq⟩ := h.exists_field? hv
  refine isMine_eq_ok.mpr ⟨v', hv', ?_⟩
  rw [← pyEq_eq_of_canonical heq hid]
  refine hcase.imp_left fun ⟨hmine, kind, hkind, hc⟩ => ⟨hmine, ?_⟩
  obtain ⟨kind', hkind', hkeq⟩ := h.exists_field? hkind
  refine ⟨kind', hkind', hc ▸ decide_eq_decide.mpr ?_⟩
  -- the kinds of a protocol run are texts, which are their own canonical form
  have hmem : ∀ {a b : Json}, a.canonical = b.canonical → a ∈ bindingKinds → b ∈ bindingKinds := by
    intro a b hab ha
    obtain ⟨s, rfl⟩ := exists_str_of_mem_bindingKinds ha
    rwa [canonical_eq_str.mp (hab.symm.trans (canonical_str s))]
  exact ⟨hmem hkeq.symm, hmem hkeq⟩

/-- Journals that are encoded alike have the same records of an intent. -/
lemma forall₂_recordsOf (h : List.Forall₂ SameRecord j j')
    (hid : id.pyEq id' = true) (kind : PyStr) :
    List.Forall₂ SameRecord (recordsOf id kind j) (recordsOf id' kind j') := by
  refine List.rel_filter (fun r r' hr => ?_) h
  have hany : (r.field? "intent_id").any (fun v => v.pyEq id) =
      (r'.field? "intent_id").any (fun v => v.pyEq id') := by
    cases hv : r.field? "intent_id" with
    | none =>
      have hmap := canonical_field? hr "intent_id"
      rw [hv, map_none] at hmap
      rw [map_eq_none_iff.mp hmap.symm]
      rfl
    | some v =>
      obtain ⟨v', hv', heq⟩ := hr.exists_field? hv
      rw [hv', any_some, any_some, pyEq_eq_of_canonical heq hid]
  simp only [Bool.and_eq_true, decide_eq_true_eq, hany, SameRecord.field?_str hr]

end

/-! ## What the witness part settles -/

variable {P : Platform} {trust : TrustStore}

variable {passed : List String} {requireWitness : Bool}

/-- A bundle of profile W1: what passed `_verify`, and what the witness signed over. -/
lemma exists_countersigned {bundle id root : Json}
    (h : verifyBundle P bundle trust requireWitness = some (.valid .w1 id root passed)) :
    verify P bundle trust = .ok () ∧ bundle.field? "intent_id" = some id ∧
      ∃ w v, bundle.field? "witness" = some w ∧ Countersigned P trust bundle w v := by
  obtain ⟨hverify, hwitness, -, hid, -⟩ := verifyBundle_eq_valid.mp h
  obtain ⟨hp, -⟩ | ⟨-, hw⟩ := verifyWitness_eq_ok.mp hwitness
  · exact absurd hp (by simp)
  · exact ⟨hverify, hid, hw⟩

section

variable {bundle w : Json} {v : WitnessPart} (h : Countersigned P trust bundle w v)
include h

lemma Verify.Countersigned.checkpointPayload_eq (hw : bundle.field? "witness" = some w) :
    checkpointPayload bundle = some v.payload := by
  simp only [checkpointPayload, hw, h.checkpoint, h.payload, bind_eq_bind, bind_some]

lemma Verify.Countersigned.journalOf_eq : journalOf bundle = some v.journal := by
  simp only [journalOf, h.journal, bind_some, Json.elements?]

lemma Verify.Countersigned.fullRecords_eq (hw : bundle.field? "witness" = some w) :
    fullRecords bundle = some (v.journal ++ v.suffix) := by
  simp only [fullRecords, h.journalOf_eq, hw, h.suffix, Json.elements?, bind_eq_bind,
    bind_some, pure_def]

/-- Journal and suffix form one chain from the genesis. -/
lemma Verify.Countersigned.full_chain (hverify : verify P bundle trust = .ok ()) :
    HashChain.Chain Json.recordHash (Links P) 0 "genesis" (v.journal ++ v.suffix) := by
  obtain ⟨o, -, -, -, -, ho, hchain, -⟩ := verify_eq_ok.mp hverify
  have hj : o.journal = v.journal := by simpa using ho.journal.symm.trans h.journal
  refine HashChain.chain_append.mpr ⟨hj ▸ hchain, ?_⟩
  rw [zero_add]
  exact h.chain

lemma Verify.Countersigned.journal_ne_nil : v.journal ≠ [] := by
  obtain ⟨first, hfirst, -⟩ := h.genesis
  intro hnil
  simp [hnil] at hfirst

end

/-- Witness parts with one payload are over equally long lists. -/
lemma length_eq_of_payload {bundle bundle' w w' : Json} {v v' : WitnessPart}
    (h : Countersigned P trust bundle w v) (h' : Countersigned P trust bundle' w' v')
    (hpayload : v.payload.pyEq v'.payload = true) :
    (v.journal ++ v.suffix).length = (v'.journal ++ v'.suffix).length := by
  obtain ⟨seq, hseq, heq⟩ := h.seq
  obtain ⟨seq', hseq', heq'⟩ := h'.seq
  obtain ⟨y, hy, hsy⟩ := pyEq_field? hpayload hseq
  obtain rfl := mem_unique hseq' hy
  have hint := pyEq_int_int.mp (pyEq_trans (pyEq_symm heq) (pyEq_trans hsy heq'))
  have hpos := List.length_pos_of_ne_nil h.journal_ne_nil
  have hpos' := List.length_pos_of_ne_nil h'.journal_ne_nil
  simp only [List.length_append] at hint ⊢
  omega

/-- One checkpoint payload, one history. -/
lemma forall₂_full (hinj : P.DigestInjective) {bundle bundle' w w' : Json} {v v' : WitnessPart}
    (hverify : verify P bundle trust = .ok ()) (hverify' : verify P bundle' trust = .ok ())
    (h : Countersigned P trust bundle w v) (h' : Countersigned P trust bundle' w' v')
    (hpayload : v.payload.pyEq v'.payload = true) :
    List.Forall₂ SameRecord (v.journal ++ v.suffix) (v'.journal ++ v'.suffix) := by
  refine (HashChain.chain_determined (links_determined hinj) (h.full_chain hverify)
    (h'.full_chain hverify') (length_eq_of_payload h h' hpayload) ?_).1
  obtain ⟨y, hy, heq⟩ := pyEq_field? hpayload h.head
  have hstr := h'.head.symm.trans hy
  rw [str_pyEq_iff.mp heq] at hstr
  simpa using hstr.symm

/-- The finality of the first bundle is not behind that of the second: its record would stand
in the second bundle's suffix. -/
lemma length_journal_le {bundle bundle' w' id id' : Json} (ho : Opens bundle o) (hs : Selects o s)
    (h' : Countersigned P trust bundle' w' v') (hid : bundle.field? "intent_id" = some id)
    (hid' : bundle'.field? "intent_id" = some id') (heq : id.pyEq id' = true)
    (hfull : List.Forall₂ SameRecord (o.journal ++ suffix) (v'.journal ++ v'.suffix)) :
    o.journal.length ≤ v'.journal.length := by
  obtain ⟨iid, hiid, hothers⟩ := h'.others
  obtain rfl := mem_unique hiid hid'
  obtain rfl := mem_unique ho.intentId hid
  obtain ⟨a, ha⟩ := List.getLast?_eq_some_iff.mp hs.last
  by_contra hlt
  rw [not_le] at hlt
  -- the last record of the longer journal, seen in the other list
  have hget : (o.journal ++ suffix)[a.length]? = some s.finalized := by
    rw [ha, List.append_assoc, List.singleton_append, List.getElem?_append_right le_rfl,
      Nat.sub_self, List.getElem?_cons_zero]
  have hlen : a.length + 1 = o.journal.length := by
    rw [ha, List.length_append, List.length_singleton]
  obtain ⟨r, hr, hsame⟩ : ∃ r, (v'.journal ++ v'.suffix)[a.length]? = some r ∧
      SameRecord s.finalized r := by
    obtain ⟨hn, hfin⟩ := List.getElem?_eq_some_iff.mp hget
    have hn' : a.length < (v'.journal ++ v'.suffix).length := hfull.length_eq ▸ hn
    exact ⟨_, List.getElem?_eq_getElem hn', hfin ▸ hfull.get hn hn'⟩
  rw [List.getElem?_append_right (by omega)] at hr
  have hfalse := hothers r (List.mem_of_getElem? hr)
  have htrue := hsame.isMine heq hs.ends
  rw [hfalse] at htrue
  simp at htrue

/-- The root a valid verdict reports is the one in the intent's COMMITTED record. -/
lemma exists_postRoot {bundle id root : Json}
    (h : verifyBundle P bundle trust requireWitness = some (.valid profile id root passed)) :
    ∃ o s body text, Opens bundle o ∧ Selects o s ∧ s.committed.field? "body" = some body ∧
      body.field? "post_root" = some (.str text) ∧ root = .str text := by
  obtain ⟨hverify, -, -, -, ⟨receipt, cert, payload, hreceipt, hcert, hpayload, hroot⟩, -⟩ :=
    verifyBundle_eq_valid.mp h
  obtain ⟨o, s, b, ih, commitment, ho, -, hs, hb, -, -, -, hroots, -, -, hrcpt⟩ :=
    verify_eq_ok.mp hverify
  obtain ⟨_, _, _, _, _, _, text, -, -, -, -, -, -, -, -, -, htext⟩ := checkRoots_eq_ok.mp hroots
  obtain ⟨want, _, _, _, p, hwant, -, -, -, -, -, hp, hpeq⟩ := checkReceipt_eq_ok.mp hrcpt
  obtain ⟨_, _, _, _, _, proot, _, _, _, _, _, _, _, _, _, -, -, -, -, -, hproot, -, -, -, -, -, -,
    -, -, -, rfl⟩ := wanted_eq_ok.mp hwant
  obtain rfl := mem_unique htext hproot
  obtain rfl := mem_unique ho.receipt hreceipt
  obtain rfl := mem_unique ho.cert hcert
  obtain rfl := mem_unique hp hpayload
  have hpost := field?_of_pyEq_str (k := "post_root") (s := text) hpeq (by simp)
  exact ⟨o, s, b.cb, text, ho, hs, hb.cb, htext, mem_unique hroot hpost⟩

/-- Two bundles that are valid at profile W1 with one checkpoint payload hold one history; if
they name one intent, they hold one journal and report one root. -/
theorem witnessed_unique (hinj : P.DigestInjective)
    {bundle₁ bundle₂ id₁ id₂ root₁ root₂ p₁ p₂ : Json}
    {requireWitness₁ requireWitness₂ : Bool} {passed₁ passed₂ : List String}
    (h₁ : verifyBundle P bundle₁ trust requireWitness₁ = some (.valid .w1 id₁ root₁ passed₁))
    (h₂ : verifyBundle P bundle₂ trust requireWitness₂ = some (.valid .w1 id₂ root₂ passed₂))
    (hp₁ : checkpointPayload bundle₁ = some p₁) (hp₂ : checkpointPayload bundle₂ = some p₂)
    (hp : p₁.pyEq p₂ = true) :
    (∃ full₁ full₂, fullRecords bundle₁ = some full₁ ∧ fullRecords bundle₂ = some full₂ ∧
      List.Forall₂ SameRecord full₁ full₂) ∧
    (id₁.pyEq id₂ = true →
      (∃ journal₁ journal₂, journalOf bundle₁ = some journal₁ ∧ journalOf bundle₂ = some journal₂ ∧
        List.Forall₂ SameRecord journal₁ journal₂) ∧ root₁ = root₂) := by
  obtain ⟨hv₁, hid₁, w₁, v₁, hw₁, hc₁⟩ := exists_countersigned h₁
  obtain ⟨hv₂, hid₂, w₂, v₂, hw₂, hc₂⟩ := exists_countersigned h₂
  obtain rfl := some.inj ((hc₁.checkpointPayload_eq hw₁).symm.trans hp₁)
  obtain rfl := some.inj ((hc₂.checkpointPayload_eq hw₂).symm.trans hp₂)
  have hfull := forall₂_full hinj hv₁ hv₂ hc₁ hc₂ hp
  refine ⟨⟨_, _, hc₁.fullRecords_eq hw₁, hc₂.fullRecords_eq hw₂, hfull⟩, fun hid => ?_⟩
  obtain ⟨o₁, s₁, b₁, text₁, ho₁, hs₁, hb₁, ht₁, rfl⟩ := exists_postRoot h₁
  obtain ⟨o₂, s₂, b₂, text₂, ho₂, hs₂, hb₂, ht₂, rfl⟩ := exists_postRoot h₂
  have hj₁ : o₁.journal = v₁.journal := by simpa using ho₁.journal.symm.trans hc₁.journal
  have hj₂ : o₂.journal = v₂.journal := by simpa using ho₂.journal.symm.trans hc₂.journal
  -- neither journal is longer than the other, so the lists split at one place
  have hle := length_journal_le ho₁ hs₁ hc₂ hid₁ hid₂ hid (hj₁ ▸ hfull)
  have hge := length_journal_le ho₂ hs₂ hc₁ hid₂ hid₁ (pyEq_symm hid)
    (hj₂ ▸ List.Forall₂.flip (hfull.imp fun _ _ h => Eq.symm h))
  have hlen : v₁.journal.length = v₂.journal.length := by
    rw [hj₁] at hle
    rw [hj₂] at hge
    omega
  have hjournal : List.Forall₂ SameRecord v₁.journal v₂.journal := by
    have htake := List.forall₂_take v₁.journal.length hfull
    rwa [List.take_left, hlen, List.take_left] at htake
  refine ⟨⟨_, _, hc₁.journalOf_eq, hc₂.journalOf_eq, hjournal⟩, ?_⟩
  -- the COMMITTED records agree, and with them the roots they state
  obtain rfl := mem_unique ho₁.intentId hid₁
  obtain rfl := mem_unique ho₂.intentId hid₂
  have hcommitted := forall₂_recordsOf hjournal hid "COMMITTED"
  rw [← hj₁, ← hj₂, hs₁.recordsOf_eq_singleton.2.1, hs₂.recordsOf_eq_singleton.2.1,
    List.forall₂_cons] at hcommitted
  obtain ⟨b₂', hb₂', hbody⟩ := hcommitted.1.exists_field? hb₁
  obtain rfl := mem_unique hb₂ hb₂'
  have htext := (SameRecord.field?_str hbody).mp ht₁
  exact mem_unique htext ht₂

/-- Two bundles with one checkpoint, of which one has a further member. -/
theorem witnessed_unique_crafted : ∃ (bundle₁ bundle₂ root : Json) (full₁ full₂ : List Json),
    bundle₁ ≠ bundle₂ ∧
    verifyBundle Platform.reference bundle₁ referenceTrust true =
      some (.valid .w1 "i" root (Verify.steps ++ ["witness"])) ∧
    verifyBundle Platform.reference bundle₂ referenceTrust true =
      some (.valid .w1 "i" root (Verify.steps ++ ["witness"])) ∧
    fullRecords bundle₁ = some full₁ ∧ fullRecords bundle₂ = some full₂ ∧
    List.Forall₂ SameRecord full₁ full₂ := by
  have h0 : (Json.int 0).encodable = true := by decide
  have h1 : (Json.int 1).encodable = true := by decide
  obtain ⟨e⟩ := reference_evidence h0 h1
  obtain ⟨signed, hsigned, -, hpayload, -⟩ := Crafted.exists_signed (P := Platform.reference)
    e.encodable_checkpoint [] Platform.referenceKeys Platform.referenceKeys_trusted
  have hvalid := fun more => e.verifyBundle_witnessed (by decide) (by decide) rfl
    (pyEq_self (by decide)) hsigned hpayload more true
  have hcp : ∀ more, checkpointPayload (e.json (Crafted.Evidence.witnessed signed more)) =
      some e.checkpoint := fun more => by
    simp [checkpointPayload, Crafted.Evidence.json, bundleFields, Crafted.Evidence.witnessed,
      hpayload]
  obtain ⟨⟨full₁, full₂, hfull₁, hfull₂, hsame⟩, -⟩ := witnessed_unique
    Platform.reference_digestInjective (hvalid []) (hvalid [("note", .null)]) (hcp _) (hcp _)
    (pyEq_self e.encodable_checkpoint)
  refine ⟨_, _, _, full₁, full₂, ?_, hvalid [], hvalid [("note", .null)], hfull₁, hfull₂, hsame⟩
  simp [Crafted.Evidence.json, Crafted.Evidence.witnessed]

end VdbC1
