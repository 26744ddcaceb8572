import Cappo.VdbC1.Correctness.Acceptance
import Cappo.VdbC1.Correctness.Progress

/-!
# Honest finality

The coordinator and the verifier are two implementations of one protocol. Every finality a
coordinator journals passes every check of the verifier but one: `_admission` compares the
intent's validity window with one reading of the clock, PREPARED states the next reading,
cut to milliseconds, and the verifier compares the window with that one.

## Main results

* `Home.split_of_finalized`: where the records of a finalized intent stand in the journal;
* `Ending.verify_eq`: what the verifier says of the records of a finalized attempt;
* `exported_valid_iff`: an exported finality is valid exactly if the reading PREPARED states
  still lies in the window.
-/

namespace VdbC1

open Coordinator Verify List Json

open Checks

variable {P : Platform} {C : Coordinator P} {J₀ rs : List Record} {S₀ S₁ : Store} {n : ℕ}
  {a : Attempt} {u : Bool}

/-! ## Where a finality stands -/

/-- The records of a finalized attempt follow a settled journal, and no later record is
one of the attempt's intent. -/
structure FinalizedAt (C : Coordinator P) (J J₀ rs : List Record) (S₀ S₁ : Store) (n : ℕ)
    (a : Attempt) (uncertain : Bool) : Prop where
  settled : Settled C J₀ S₀
  begins : Begins C n J₀ S₀ a
  block : Block C S₀ a (.finalized uncertain) rs S₁
  later : ∃ J1, J = J₀ ++ rs ++ J1 ∧ binding J1 a.id = []

/-- More records that are none of the intent's. -/
theorem FinalizedAt.append {J J₀ rs more : List Record} {S₀ S₁ : Store} {n : ℕ} {a : Attempt}
    {u : Bool} (h : FinalizedAt C J J₀ rs S₀ S₁ n a u) (hmore : binding more a.id = []) :
    FinalizedAt C (J ++ more) J₀ rs S₀ S₁ n a u := by
  obtain ⟨J1, hJ, hnone⟩ := h.later
  exact ⟨h.settled, h.begins, h.block, J1 ++ more, by rw [hJ, append_assoc],
    by rw [binding_append, hnone, hmore, append_nil]⟩

/-- A FINALIZED record is one of a finalized attempt. -/
lemma Settled.split_of_finalized (h : Settled C J S) (hr : r ∈ J) (hk : r.kind = .finalized) :
    ∃ J₀ rs S₀ S₁ n a u, FinalizedAt C J J₀ rs S₀ S₁ n a u ∧ a.id = r.intentId := by
  induction h with
  | fresh => simp at hr
  | @rejected J S x h hx ih =>
    have hne : r ≠ x := fun heq => by simp [← heq, hk, Kind.binding] at hx
    have hr' : r ∈ J := by simpa [hne] using hr
    obtain ⟨J₀, rs, S₀, S₁, n, a, u, hat, hid⟩ := ih hr'
    refine ⟨J₀, rs, S₀, S₁, n, a, u, hat.append ?_, hid⟩
    simp [binding, forIntent, filter_filter, hx]
  | @closed J S n a st rs S' h hb hblock hst ih =>
    rcases mem_append.mp hr with hr | hr
    · obtain ⟨J₀, rs', S₀, S₁, m, a', u, hat, hid⟩ := ih hr
      exact ⟨J₀, rs', S₀, S₁, m, a', u, hat.append (hid ▸ hblock.binding_of_finalized hb hr hk),
        hid⟩
    · obtain ⟨u, rfl⟩ := (Stage.finalized_mem_kinds st).mp (hk ▸ hblock.kind_mem hr)
      exact ⟨J, rs, S, S', n, a, u, ⟨h, hb, hblock, [], by simp, rfl⟩, (hblock.same r hr).1.symm⟩

/-- A finality of a home was journaled by an attempt that was closed. -/
theorem Home.split_of_finalized {w : World} (h : Home C w) {r : Record} (hr : r ∈ w.journal)
    (hk : r.kind = .finalized) :
    ∃ J₀ rs S₀ S₁ n a u, FinalizedAt C w.journal J₀ rs S₀ S₁ n a u ∧ a.id = r.intentId := by
  rcases h.shape with hsettled | ⟨J₀, S₀, n, a, st, rs, hsettled, hb, hblock, hopen, hj⟩
  · exact hsettled.split_of_finalized hr hk
  · rw [hj] at hr ⊢
    rcases mem_append.mp hr with hr | hr
    · obtain ⟨J1, rs', S₁, S2, m, a', u, hat, hid⟩ := hsettled.split_of_finalized hr hk
      exact ⟨J1, rs', S₁, S2, m, a', u, hat.append (hid ▸ hblock.binding_of_finalized hb hr hk),
        hid⟩
    · -- an attempt that is open has no FINALIZED record
      obtain ⟨u, rfl⟩ := (Stage.finalized_mem_kinds st).mp (hk ▸ hblock.kind_mem hr)
      simp [Stage.closed] at hopen

/-! ## What the records of a finalized attempt state -/

/-- What COMMITTED states of an attempt after which the store reads as `post`. -/
def confirmedBody (a : Attempt) (post : Snapshot) (recovered : Bool) : CommittedBody :=
  ⟨post.generation, post.root, post.entries, ⟨a.id, a.hash, post.generation, post.root⟩,
    post.storeId, recovered⟩

/-- The COMMITTED and FINALIZED records of an attempt and what they state. -/
structure Ending (C : Coordinator P) (S₁ : Store) (a : Attempt) (rs : List Record) where
  committed : Record
  post : Snapshot
  recovered : Bool
  finalized : Record
  cert : Json
  committed_eq : rs.find? (fun r => r.kind = .committed) = some committed
  committed_body : committed.body =
    ⟨some a.hash, .committed (confirmedBody a post recovered)⟩
  snapshot : S₁.snapshot P = some post
  generation : post.generation = a.body.preGeneration + 1
  entries : post.entries = KeyedTable.ordered
    (a.body.preEntries.filter (fun r => r.1 ≠ a.intent.key) ++ [(a.intent.key, a.intent.value)])
  finalized_eq : rs.getLast? = some finalized
  finalized_body : finalized.body = ⟨some a.hash, .finalized cert⟩
  cert_eq : P.signPayload (C.certificatePayload a.id a.record committed a.body
    (confirmedBody a post recovered)) C.finalizerSk C.finalizerKid = some cert

/-- A finalized attempt has a COMMITTED and a FINALIZED record. -/
lemma Block.exists_ending (hs : StoreFacts J₀ S₀) (hb : Begins C n J₀ S₀ a)
    (hblock : Block C S₀ a (.finalized u) rs S₁) : Nonempty (Ending C S₁ a rs) := by
  obtain ⟨c, cb, hrecs, hc, hcb⟩ := hblock.exists_finalityRecords (by cases u <;> decide)
  obtain ⟨f, hf, hfk⟩ := hblock.exists_of_kind_mem (k := .finalized) (by cases u <;> decide)
  obtain ⟨cert, hcert⟩ : ∃ cert, f.body.detail = .finalized cert := by
    rw [Draft.kind] at hfk
    cases hd : f.body.detail <;> simp [hd, Detail.kind] at hfk
    exact ⟨_, rfl⟩
  have hcommits := hblock.store
  rw [if_pos (by cases u <;> rfl)] at hcommits
  obtain ⟨post, hpost, hrow, -, hgen, hent⟩ := hcommits.fresh_read hs hb
  -- COMMITTED states the store that FINALIZED certifies
  obtain ⟨snap, row, recovered, hsnap, hrow', rfl⟩ := hblock.committed c hc cb hcb
  obtain rfl := Option.mem_unique hpost hsnap
  obtain rfl := Option.mem_unique hrow hrow'
  obtain ⟨recs, hrecs', hsign⟩ := hblock.finalized f hf cert hcert
  obtain rfl := Option.mem_unique hrecs hrecs'
  have hbody : ∀ r ∈ rs, ∀ d, r.body.detail = d → r.body = ⟨some a.hash, d⟩ := by
    intro r hr d hd
    rw [← (hblock.same r hr).2, ← hd]
  refine ⟨⟨c, post, recovered, f, cert, ?_, hbody c hc _ hcb, hpost, hgen, hent,
    hblock.getLast?_of_finalized (by cases u <;> rfl) hf hfk, hbody f hf _ hcert, hsign⟩⟩
  simp only [finalityRecords, hblock.head, Option.bind_eq_bind, Option.bind_some, a.body_eq,
    Option.bind_eq_some_iff] at hrecs
  obtain ⟨c', hc', hmatch⟩ := hrecs
  rw [hc']
  split at hmatch
  · obtain ⟨-, h⟩ := Prod.mk.inj (Option.some.inj hmatch)
    exact congrArg some (Prod.mk.inj h).1
  · simp at hmatch

/-! ## The verifier's view of a coordinator's records -/

lemma kindOf_toJson (r : Record) : kindOf r.toJson = .str r.kind.text := by
  rw [kindOf, r.field?_kind, Option.getD_some]

lemma text_mem_bindingKinds (k : Kind) : decide (Json.str k.text ∈ bindingKinds) = k.binding := by
  cases k <;> decide

/-- The verifier selects the coordinator's binding records. -/
lemma isMine_toJson (id : PyStr) (r : Record) :
    isMine (.str id) r.toJson = .ok (decide (r.intentId = id) && r.kind.binding) := by
  refine isMine_eq_ok.mpr ⟨_, r.field?_intentId, ?_⟩
  by_cases hid : r.intentId = id
  · refine .inl ⟨pyEq_str_iff.mpr (by rw [hid]), _, r.field?_kind, ?_⟩
    rw [text_mem_bindingKinds, decide_eq_true hid, Bool.true_and]
  · refine .inr ⟨?_, by simp [hid]⟩
    rw [Bool.eq_false_iff]
    exact fun h => hid (str.inj (pyEq_str_iff.mp h))

lemma filter_isMine (id : PyStr) (J : List Record) :
    ((J.map Record.toJson).filter fun r => yes (isMine (.str id) r)) =
      (binding J id).map Record.toJson := by
  rw [filter_map, binding, forIntent, filter_filter]
  congr 1
  refine filter_congr fun r _ => ?_
  rw [Function.comp, isMine_toJson, yes, Bool.and_comm]

lemma find?_committed (rs : List Record) :
    (rs.map Record.toJson).find? (fun r => kindOf r = "COMMITTED") =
      (rs.find? fun r => r.kind = .committed).map Record.toJson := by
  rw [List.find?_map]
  congr 2
  funext r
  rw [Function.comp, kindOf_toJson, decide_eq_decide]
  cases hk : r.kind <;> simp [Kind.text]

lemma kinds_legal (u : Bool) :
    ((Stage.finalized u).kinds.map fun k => Json.str k.text) ∈ legalFinalPaths := by
  cases u <;> decide

/-- The trust store of a home, with the keys of its witnesses. -/
def Coordinator.trustStore (C : Coordinator P) (witnessKeys : Option (List (PyStr × PyStr))) :
    TrustStore :=
  ⟨C.authorityKeys, [(C.finalizerKid, Platform.b64u (P.publicRaw C.finalizerSk))], witnessKeys⟩

lemma trustedKey_finalizer (C : Coordinator P) (witnessKeys : Option (List (PyStr × PyStr))) :
    P.trustedKey (C.trustStore witnessKeys).finalizerKeys C.finalizerKid =
      some (P.publicRaw C.finalizerSk) := by
  simp [Platform.trustedKey, trustStore, finalizerKid]

namespace Ending

variable {witnessKeys : Option (List (PyStr × PyStr))} (e : Ending C S₁ a rs)

/-- What the verifier opens: the journal up to the finality, and the receipt. -/
def opened (J₀ : List Record) (digest : PyStr) : Opened :=
  ⟨.str a.id, (J₀ ++ rs).map Record.toJson,
    .obj [("certificate", e.cert), ("certificate_digest", .str digest)], e.cert⟩

/-- What the verifier selects: the records of the attempt. -/
def selected : Selected :=
  ⟨rs.map Record.toJson, a.record.toJson, e.committed.toJson, e.finalized.toJson⟩

/-- The bodies the verifier reads. -/
def bodies : Bodies :=
  ⟨a.record.body.toJson, e.committed.body.toJson, a.body.signed.envelope, a.body.signed.payload⟩

lemma pb_field? (k : PyStr) : e.bodies.pb.field? k =
    FieldMap.lookup k (("intent_hash", .str a.hash) :: a.body.fields) := by
  rw [bodies, a.body_eq]
  rfl

lemma cb_field? (k : PyStr) : e.bodies.cb.field? k =
    FieldMap.lookup k (("intent_hash", .str a.hash) ::
      (confirmedBody a e.post e.recovered).fields) := by
  rw [bodies, e.committed_body]
  rfl

attribute [local simp] pb_field? cb_field? PreparedBody.fields CommittedBody.fields confirmedBody

/-- The certificate is the finalizer's envelope around its payload. -/
lemma cert_fields : e.cert.field? "kid" = some (.str C.finalizerKid) ∧
    e.cert.field? "payload" = some (C.certificatePayload a.id a.record e.committed a.body
      (confirmedBody a e.post e.recovered)) := by
  obtain ⟨m, -, hcert⟩ := Option.map_eq_some_iff.mp e.cert_eq
  rw [← hcert]
  exact ⟨by simp [Platform.envelope], by simp [Platform.envelope]⟩

lemma opens (digest : PyStr) (hrs : rs ≠ []) (extra : List (PyStr × Json)) :
    Opens (.obj (bundleFields (.str a.id) ((J₀ ++ rs).map Record.toJson) e.cert digest ++ extra))
      (e.opened J₀ digest) :=
  ⟨by simp [bundleFields], by simp [bundleFields, opened], by simp [bundleFields, opened],
    by simp [opened, hrs], by simp [bundleFields, opened], by simp [opened]⟩

lemma finalized_mem : e.finalized ∈ rs := mem_of_getLast? e.finalized_eq

lemma committed_mem : e.committed ∈ rs := mem_of_find?_eq_some e.committed_eq

section

variable (hb : Begins C n J₀ S₀ a)

include hb

/-- The verifier selects the records of the attempt. -/
lemma selects (hblock : Block C S₀ a (.finalized u) rs S₁)
    (digest : PyStr) : Selects (e.opened J₀ digest) e.selected := by
  have hlast : ((J₀ ++ rs).map Record.toJson).getLast? = some e.finalized.toJson := by
    rw [List.getLast?_map, List.getLast?_append, e.finalized_eq]
    rfl
  refine ⟨fun r hr => ?_, ?_, ?_, hlast, ?_, ?_, ?_⟩
  · obtain ⟨x, -, rfl⟩ := mem_map.mp hr
    exact ⟨_, isMine_toJson a.id x⟩
  · rw [opened, filter_isMine, binding_append, hb.fresh, hblock.binding_self, nil_append, selected]
  · have hmap : (rs.map Record.toJson).map kindOf =
        (rs.map fun r => r.kind).map fun k => Json.str k.text := by
      simp only [map_map]
      exact map_congr_left fun r _ => kindOf_toJson r
    rw [selected, hmap, hblock.kinds]
    exact kinds_legal u
  · have hkind : e.finalized.kind = .finalized := by
      rw [Draft.kind, e.finalized_body]
      rfl
    rw [opened, selected, isMine_toJson, (hblock.same _ e.finalized_mem).1, hkind,
      decide_eq_true rfl]
    rfl
  · rw [selected, List.head?_map, hblock.head]
    rfl
  · rw [selected, find?_committed, e.committed_eq]
    rfl

lemma checkSignatures_ok (digest : PyStr) :
    checkSignatures P (C.trustStore witnessKeys) (e.opened J₀ digest) e.bodies = .ok () := by
  obtain ⟨-, hkid, hverify⟩ := keyRefusal_eq_none hb.key
  have hproto : a.intent.protocol = "veklom.vdb.c1.intent/v1" := by
    have hform := hb.form
    unfold formRefusal at hform
    split_ifs at hform with h
    exact not_not.mp h
  refine checkSignatures_eq_ok.mpr ⟨hverify, ⟨_, _, a.body.signed.reads.authorityKid, hkid,
    pyEq_str_iff.mpr rfl⟩, ?_, P.verifySigned_sign e.cert_eq (trustedKey_finalizer C _)⟩
  rw [bodies, a.body.signed.reads.protocol, hproto]

lemma checkBinding_ok (hblock : Block C S₀ a (.finalized u) rs S₁)
    (digest : PyStr) : checkBinding P (e.opened J₀ digest) e.selected e.bodies = .ok a.hash := by
  refine checkBinding_eq_ok.mpr ⟨hb.hash_eq, ⟨_, a.body.signed.reads.intentId, ?_⟩, fun r hr => ?_⟩
  · rw [opened, hb.id_eq]
    exact pyEq_str_iff.mpr rfl
  · obtain ⟨x, hx, rfl⟩ := mem_map.mp hr
    refine ⟨_, x.field?_body, ?_⟩
    rw [Body.toJson, (hblock.same x hx).2]
    simp [optStr]

/-- The roots are computed as the coordinator did. -/
lemma checkRoots_ok (hblock : Block C S₀ a (.finalized u) rs S₁) :
    checkRoots P e.bodies = .ok () := by
  obtain ⟨hns, -⟩ := keyRefusal_eq_none hb.key
  obtain ⟨-, -, hpgen, -, hproot⟩ := Store.snapshot_eq_some hb.pre
  obtain ⟨-, -, hqgen, -, hqroot⟩ := Store.snapshot_eq_some e.snapshot
  have hcommits := hblock.store
  rw [if_pos (by cases u <;> rfl)] at hcommits
  have hns' : S₁.ns = S₀.ns := by
    obtain ⟨post, -, rfl⟩ := hcommits
    rfl
  simp only at hpgen hproot
  refine checkRoots_eq_ok.mpr ⟨_, .int a.body.preGeneration, entriesJson a.body.preEntries,
    a.body.preRoot, .int e.post.generation, entriesJson e.post.entries, e.post.root,
    a.body.signed.reads.ns, by simp,
    by simp, ?_, by simp, ?_,
    by simp,
    by simp, ?_,
    by simp⟩
  · rw [hns, hpgen]
    exact hproot
  · rw [hb.root]
    exact a.body.signed.reads.expectedRoot
  · rw [hns, ← hns', hqgen]
    exact hqroot

lemma checkGeneration_ok : checkGeneration e.bodies = .ok () := by
  refine checkGeneration_eq_ok.mpr ⟨.int a.body.preGeneration, _, .int e.post.generation,
    .int (a.body.preGeneration + 1), by simp,
    a.body.signed.reads.expectedGeneration, pyEq_int_int.mpr hb.generation,
    by simp, rfl, pyEq_int_int.mpr ?_⟩
  rw [e.generation]
  push_cast
  rfl

/-- The entries after the attempt are those that the verifier computes. -/
lemma checkPayload_ok (digest : PyStr) :
    checkPayload P (e.opened J₀ digest) e.bodies a.hash = .ok a.body.payloadCommitment := by
  have hop : a.intent.op = "UPSERT" := by
    have hform := hb.form
    unfold formRefusal at hform
    split_ifs at hform with _ h
    exact not_not.mp h
  obtain ⟨hgenc, hentc, hrootc⟩ := Store.encodable_of_snapshot e.snapshot
  have hisFor : ∀ r : PyStr × PyStr, isFor (.str a.intent.key) (entry r) =
      decide (r.1 = a.intent.key) := by
    intro r
    rw [Bool.eq_iff_iff]
    simp [isFor, entry, Json.first?]
  -- the verifier's upsert of the entries is the coordinator's
  have hupsert : ((a.body.preEntries.map entry).filter fun x => !isFor (.str a.intent.key) x) ++
      [.arr [.str a.intent.key, .str a.intent.value]] =
      (a.body.preEntries.filter (fun r => r.1 ≠ a.intent.key) ++
        [(a.intent.key, a.intent.value)]).map entry := by
    rw [filter_map, map_append, map_singleton, entry]
    congr 2
    refine filter_congr fun r _ => ?_
    simp [hisFor]
  have hsorted : P.sorted (e.post.entries.map entry) = some (e.post.entries.map entry) := by
    rw [P.sorted_entries, e.entries, KeyedTable.ordered_ordered]
  have hrow : (AppliedRow.toJson ⟨a.id, a.hash, e.post.generation, e.post.root⟩).encodable = true :=
    by simp [AppliedRow.toJson, hb.encodable_id, P.encodable_digest hb.hash_eq, hgenc, hrootc]
  refine checkPayload_eq_ok.mpr ⟨_, _, entriesJson a.body.preEntries, a.body.preEntries.map entry,
    e.post.entries.map entry, entriesJson e.post.entries, e.post.entries.map entry,
    e.post.entries.map entry, AppliedRow.toJson ⟨a.id, a.hash, e.post.generation, e.post.root⟩,
    .int e.post.generation, .str e.post.root, ?_, a.body.signed.reads.key,
    a.body.signed.reads.value, ?_, by simp, rfl, ?_, ?_,
    by simp,
    by simp, rfl, hsorted, pyEq_self hentc,
    by simp,
    by simp,
    by simp, pyEq_self hrow⟩
  · rw [← hop]
    exact a.body.signed.reads.op
  · rw [← hop]
    exact hb.commitment
  · intro x hx
    obtain ⟨r, -, rfl⟩ := mem_map.mp hx
    exact ⟨_, rfl⟩
  · rw [hupsert, P.sorted_entries, e.entries]

end

/-- The certificate is the one that the verifier wants. -/
lemma wanted_ok (digest : PyStr) : wanted (e.opened J₀ digest) e.selected e.bodies a.hash
    a.body.payloadCommitment = .ok (C.certificatePayload a.id a.record e.committed a.body
      (confirmedBody a e.post e.recovered)) := by
  refine wanted_eq_ok.mpr ⟨_, _, _, .str a.body.preRoot, .int e.post.generation, .str e.post.root,
    AppliedRow.toJson ⟨a.id, a.hash, e.post.generation, e.post.root⟩,
    .obj (physicalFields e.post.storeId), _, _, _, _, _, _, .str C.finalizerKid,
    a.body.signed.reads.ns, a.body.signed.reads.authorityKid,
    a.body.signed.reads.expectedGeneration, by simp,
    by simp,
    by simp,
    by simp,
    by simp, rfl, a.record.field?_seq,
    a.record.field?_hash, e.committed.field?_seq, e.committed.field?_hash,
    e.committed.field?_stamp, e.cert_fields.1, ?_⟩
  rw [certificatePayload, a.body_eq]
  rfl

lemma encodable_cert (hid : a.id.encodable = true) (hchain : Chained P (J₀ ++ rs))
    (hblock : Block C S₀ a (.finalized u) rs S₁)
    (hp : a.body.signed.payload.encodable = true) :
    (C.certificatePayload a.id a.record e.committed a.body
      (confirmedBody a e.post e.recovered)).encodable = true ∧ e.cert.encodable = true := by
  have hpayload := encodable_certificatePayload (C := C) hchain hid
    (mem_append_right J₀ hblock.record_mem) a.body_eq
    (mem_append_right J₀ e.committed_mem) (by rw [e.committed_body]) hp
  refine ⟨hpayload, ?_⟩
  obtain ⟨m, -, hcert⟩ := Option.map_eq_some_iff.mp e.cert_eq
  rw [← hcert]
  simp [Platform.envelope, -confirmedBody, hpayload, finalizerKid, P.encodable_keyId,
    Platform.encodable_b64u]

lemma checkReceipt_ok {digest : PyStr} (hd : P.digest e.cert = some digest)
    (hpayload : (C.certificatePayload a.id a.record e.committed a.body
      (confirmedBody a e.post e.recovered)).encodable = true) :
    checkReceipt P (e.opened J₀ digest) e.selected e.bodies a.hash a.body.payloadCommitment =
      .ok () := by
  refine checkReceipt_eq_ok.mpr ⟨_, _, e.cert, digest, _, e.wanted_ok digest,
    e.finalized.field?_body, ?_, pyEq_self (P.encodable_of_digest hd), hd, by simp [opened],
    e.cert_fields.2, pyEq_self hpayload⟩
  rw [e.finalized_body]
  simp [Body.toJson, Detail.fields]

end Ending

/-! ## The window -/

/-- The clock reading, as it is read back from its text, lies in the validity window. -/
def InWindow (window : ℚ × ℚ) (t : ℚ) : Prop :=
  Json.roundDouble (window.1 - 5) ≤ Platform.stamped t ∧ Platform.stamped t < window.2

instance (window : ℚ × ℚ) (t : ℚ) : Decidable (InWindow window t) :=
  inferInstanceAs (Decidable (_ ∧ _))

/-- A reading that admission accepts lies in the window if its text states it exactly. -/
lemma inWindow_of_timeRefusal (h : timeRefusal window t = none)
    (ht : Platform.stamped t = t) : InWindow window t := by
  unfold timeRefusal at h
  split_ifs at h with _ hissued hexpired
  rw [InWindow, ht]
  exact ⟨not_lt.mp hissued, not_le.mp hexpired⟩

/-- The verdict on a finality that was admitted outside the window. -/
def outsideWindow : Rejection := ⟨.outsideAuthorityWindow, "authority_window"⟩

/-- The verifier compares the window with the reading that PREPARED states. -/
lemma Ending.checkWindow_eq (e : Ending C S₁ a rs) (hb : Begins C n J₀ S₀ a) {window : ℚ × ℚ}
    (hwindow : window? (P := P) a.intent = some window) :
    checkWindow P e.bodies =
      if InWindow window (C.clock (n + 1)) then .ok () else .error outsideWindow := by
  obtain ⟨-, -, hissued, hexpires⟩ := window?_eq_some hwindow
  obtain ⟨admission, hadmission, hadmittedAt⟩ : ∃ admission,
      read "admission" e.bodies.pb = .ok admission ∧
      read "admitted_at" admission = .ok (.str a.body.admittedAt) :=
    ⟨_, read_eq_ok.mpr (by rw [Ending.pb_field?]; rfl), read_eq_ok.mpr rfl⟩
  have hissuedAt : read "issued_at" e.bodies.intent = .ok (.str a.intent.issuedAt) :=
    read_eq_ok.mpr a.body.signed.reads.issuedAt
  have hexpiresAt : read "expires_at" e.bodies.intent = .ok (.str a.intent.expiresAt) :=
    read_eq_ok.mpr a.body.signed.reads.expiresAt
  simp only [checkWindow, hadmission, hadmittedAt, hissuedAt, hexpiresAt, ok_bind, ts,
    P.parseTime_formatTime hb.admitted, hissued, hexpires, ofOption, check, require,
    decide_eq_true_eq]
  by_cases hle : Json.roundDouble (window.1 - 5) ≤ Platform.stamped (C.clock (n + 1))
  · by_cases hlt : Platform.stamped (C.clock (n + 1)) < window.2
    · rw [if_pos hle, ok_bind, if_pos hlt, if_pos ⟨hle, hlt⟩]
    · rw [if_pos hle, ok_bind, if_neg hlt, if_neg fun h => hlt h.2, outsideWindow]
  · rw [if_neg hle, error_bind, if_neg fun h => hle h.1, outsideWindow]

section

variable (e : Ending C S₁ a rs) (hchain : Chained P (J₀ ++ rs)) (hb : Begins C n J₀ S₀ a)
  (hblock : Block C S₀ a (.finalized u) rs S₁)

include e hchain hb hblock

/-- All that `_verify` can say against an honest finality is that it was admitted outside the
window. -/
theorem Ending.verify_eq {K : Option (List (PyStr × PyStr))} {window : ℚ × ℚ}
    (hwindow : window? (P := P) a.intent = some window) {digest : PyStr}
    (hd : P.digest e.cert = some digest) (extra : List (PyStr × Json)) :
    verify P (.obj (bundleFields (.str a.id) ((J₀ ++ rs).map Record.toJson) e.cert digest ++ extra))
      (C.trustStore K) =
        if InWindow window (C.clock (n + 1)) then .ok ()
        else .error (outsideWindow, steps.take 6) := by
  have hopens : openBundle _ = .ok (e.opened J₀ digest) :=
    openBundle_eq_ok.mpr (e.opens digest (ne_nil_of_mem hblock.record_mem) extra)
  have hlinks : checkChain P raised ⟨.journalInconsistent, "journal_chain"⟩ 0 "genesis"
      ((J₀ ++ rs).map Record.toJson) = .ok _ := checkChain_eq_ok.mpr ⟨chain_toJson hchain, rfl⟩
  have hselects := selectRecords_eq_ok.mpr (e.selects hb hblock digest)
  have hbodies : readBodies e.selected = .ok e.bodies :=
    readBodies_eq_ok.mpr ⟨a.record.field?_body, e.committed.field?_body, by
      rw [e.pb_field?]
      simp [PreparedBody.fields, Ending.bodies], a.body.signed.payload_eq⟩
  have hcert := (e.encodable_cert hb.encodable_id hchain hblock hb.encodable_payload).1
  simp only [verify, hopens, stage, ok_bind]
  rw [show (e.opened J₀ digest).journal = (J₀ ++ rs).map Record.toJson from rfl, hlinks]
  simp only [ok_bind, hselects, hbodies, e.checkSignatures_ok hb digest,
    e.checkBinding_ok hb hblock digest, e.checkWindow_eq hb hwindow]
  by_cases hin : InWindow window (C.clock (n + 1))
  · simp only [if_pos hin, ok_bind, e.checkRoots_ok hb hblock, e.checkGeneration_ok hb,
      e.checkPayload_ok hb digest, e.checkReceipt_ok hd hcert]
  · simp only [if_neg hin, error_bind]

/-- Inside the window, the bundle about a finality is valid. -/
lemma Ending.verifyBundle_eq {K : Option (List (PyStr × PyStr))} {window : ℚ × ℚ}
    (hwindow : window? (P := P) a.intent = some window) {digest : PyStr}
    (hd : P.digest e.cert = some digest) (hin : InWindow window (C.clock (n + 1))) :
    verifyBundle P (.obj (bundleFields (.str a.id) ((J₀ ++ rs).map Record.toJson) e.cert digest))
      (C.trustStore K) false = some (.valid .l1 (.str a.id) (.str e.post.root) steps) := by
  have hverify := e.verify_eq (K := K) hchain hb hblock hwindow hd []
  rw [append_nil, if_pos hin] at hverify
  exact verifyBundle_eq_valid.mpr ⟨hverify, verifyWitness_eq_ok.mpr
    (.inl ⟨rfl, by simp [bundleFields]⟩), by simp, by simp [bundleFields],
    ⟨(e.opened J₀ digest).receipt, e.cert, _, by simp [bundleFields, Ending.opened],
      by simp [Ending.opened], e.cert_fields.2,
      by simp [certificatePayload, confirmedBody]⟩, rfl⟩

end

/-! ## Export -/

section

variable {w : World}

/-- The attempt's finality is the only one of its intent. -/
lemma FinalizedAt.filter_finalized (h : FinalizedAt C w.journal J₀ rs S₀ S₁ n a u)
    (e : Ending C S₁ a rs) :
    (forIntent w.journal a.id).filter (fun r => r.kind = .finalized) = [e.finalized] := by
  obtain ⟨J1, hj, hnone⟩ := h.later
  have hbinding : binding w.journal a.id = rs := by
    rw [hj, binding_append, binding_append, h.begins.fresh, h.block.binding_self, hnone,
      nil_append, append_nil]
  have hfilter : (forIntent w.journal a.id).filter (fun r => r.kind = .finalized) =
      rs.filter fun r => r.kind = .finalized := by
    rw [← hbinding, binding, filter_filter]
    refine filter_congr fun r _ => ?_
    by_cases hk : r.kind = .finalized <;> simp [hk, Kind.binding]
  obtain ⟨f, hf⟩ := h.block.exists_filter_finalized
  have hmem : e.finalized ∈ rs.filter fun r => decide (r.kind = .finalized) := by
    refine mem_filter.mpr ⟨e.finalized_mem, ?_⟩
    rw [Draft.kind, e.finalized_body]
    rfl
  rw [hf, mem_singleton] at hmem
  rw [hfilter, hf, hmem]

/-- The bundle's journal is the journal up to the finality. -/
lemma FinalizedAt.take_eq (h : FinalizedAt C w.journal J₀ rs S₀ S₁ n a u)
    (hchain : Chained P w.journal) (e : Ending C S₁ a rs) :
    w.journal.take (e.finalized.seq + 1) = J₀ ++ rs := by
  obtain ⟨J1, hj, -⟩ := h.later
  obtain ⟨init, hinit⟩ := List.getLast?_eq_some_iff.mp e.finalized_eq
  rw [hj] at hchain ⊢
  obtain ⟨hseq, -⟩ : validRecord P (0 + (J₀ ++ init).length) _ e.finalized := by
    rw [Chained, hinit, ← append_assoc, HashChain.chain_append, HashChain.chain_append]
      at hchain
    exact hchain.1.2.1
  rw [hseq, zero_add]
  refine take_left' ?_
  rw [hinit, length_append, length_append, length_append, length_singleton, Nat.add_assoc]

/-- `export_bundle` of a finalized intent returns the bundle about it, with what a checkpoint
adds. -/
lemma exportBundle_eq (hchain : Chained P w.journal)
    (h : FinalizedAt C w.journal J₀ rs S₀ S₁ n a u) (e : Ending C S₁ a rs) {digest : PyStr}
    (hd : P.digest e.cert = some digest) {checkpoint : Option Json} {extra : List (PyStr × Json)}
    (hextra : witnessFields w.journal e.finalized.seq checkpoint = some extra)
    (budget : Option ℕ) :
    exportBundle (P := P) a.id checkpoint ⟨w, budget⟩ =
      (.ok (.obj (bundleFields (.str a.id) ((J₀ ++ rs).map Record.toJson) e.cert digest ++ extra)),
        ⟨w, budget⟩) := by
  have hwp : (exportBundle (P := P) a.id checkpoint).wp
      (fun b s => b = .obj (bundleFields (.str a.id) ((J₀ ++ rs).map Record.toJson) e.cert digest ++
        extra) ∧ s = ⟨w, budget⟩) (fun _ _ => False) ⟨w, budget⟩ := by
    rw [exportBundle, Proc.wp_bind]
    refine wp_load hchain ?_
    have hdetail : e.finalized.body.detail = .finalized e.cert := by rw [e.finalized_body]
    simp only [Proc.wp_bind, Proc.wp_read, h.filter_finalized e, hdetail, hextra,
      Proc.wp_ofOption_some, hd, Proc.wp_pure, h.take_eq hchain e, and_self]
  obtain ⟨b, s, hrun, rfl, rfl⟩ := Proc.returns_of_wp hwp
  exact hrun

/-- The bundle about a finality, and what the verifier says of it. -/
theorem FinalizedAt.verdict (h : FinalizedAt C w.journal J₀ rs S₀ S₁ n a u)
    (hchain : Chained P w.journal) {window : ℚ × ℚ}
    (hwindow : window? (P := P) a.intent = some window)
    (witnessKeys : Option (List (PyStr × PyStr))) (budget : Option ℕ) :
    ∃ bundle root, exportBundle (P := P) a.id none ⟨w, budget⟩ = (.ok bundle, ⟨w, budget⟩) ∧
      verifyBundle P bundle (C.trustStore witnessKeys) false =
        if InWindow window (C.clock (n + 1)) then some (.valid .l1 (.str a.id) root steps)
        else some (.rejected outsideWindow (steps.take 6)) := by
  have hb := h.begins
  obtain ⟨J1, hj, -⟩ := h.later
  obtain ⟨e⟩ := h.block.exists_ending h.settled.storeFacts hb
  have hchain0 : Chained P (J₀ ++ rs) := (HashChain.chain_append.mp (hj ▸ hchain)).1
  obtain ⟨-, hcert⟩ := e.encodable_cert hb.encodable_id hchain0 h.block hb.encodable_payload
  obtain ⟨digest, hd⟩ := P.exists_digest hcert
  have hverify := e.verify_eq (K := witnessKeys) hchain0 hb h.block hwindow hd []
  have hnone : witnessFields w.journal e.finalized.seq none = some [] := rfl
  have hexport := exportBundle_eq hchain h e hd hnone budget
  rw [append_nil] at hverify hexport
  refine ⟨_, .str e.post.root, hexport, ?_⟩
  by_cases hin : InWindow window (C.clock (n + 1))
  · rw [if_pos hin]
    exact e.verifyBundle_eq hchain0 hb h.block hwindow hd hin
  · rw [if_neg hin] at hverify ⊢
    simp only [verifyBundle, checks, hverify, error_bind]

end

/-- Every finality of a reachable home is exported, and the bundle is judged valid exactly if
the clock reading that PREPARED states, taken after the one that admission checked, still
lies in the intent's validity window. -/
theorem exported_valid_iff {w : World} (hw : Reachable C w) {r : Record} (hr : r ∈ w.journal)
    (hk : r.kind = .finalized) (witnessKeys : Option (List (PyStr × PyStr)))
    (budget : Option ℕ) :
    ∃ bundle n window,
      exportBundle (P := P) r.intentId none ⟨w, budget⟩ = (.ok bundle, ⟨w, budget⟩) ∧
      (∃ a : Attempt, a.record ∈ w.journal ∧ a.id = r.intentId ∧
        window? (P := P) a.intent = some window ∧ timeRefusal window (C.clock n) = none ∧
        P.formatTime (C.clock (n + 1)) = some a.body.admittedAt) ∧
      ((∃ root passed, verifyBundle P bundle (C.trustStore witnessKeys) false =
        some (.valid .l1 (.str r.intentId) root passed)) ↔ InWindow window (C.clock (n + 1))) := by
  have hhome := hw.invariant.home
  obtain ⟨J₀, rs, S₀, S₁, n, a, u, hat, hid⟩ := hhome.split_of_finalized hr hk
  obtain ⟨J₁, hj, -⟩ := hat.later
  obtain ⟨window, hwindow, htime⟩ := hat.begins.time
  obtain ⟨bundle, root, hexport, hverdict⟩ :=
    hat.verdict hhome.chained hwindow witnessKeys budget
  have hrecord : a.record ∈ w.journal :=
    hj ▸ mem_append_left J₁ (mem_append_right J₀ hat.block.record_mem)
  rw [← hid]
  refine ⟨bundle, n, window, hexport, ⟨a, hrecord, rfl, hwindow, htime, hat.begins.admitted⟩,
    fun ⟨root', passed, hvalid⟩ => ?_, fun hin => ?_⟩
  · by_contra hout
    rw [if_neg hout, hvalid] at hverdict
    simp at hverdict
  · rw [if_pos hin] at hverdict
    exact ⟨root, _, hverdict⟩

/-- The reference home after its first intent, whose window is (0, 300), was submitted. -/
lemma reference_finalizedAt (clock : ℕ → ℚ)
    (hclock : ∀ n, Platform.fromtimestamp (clock n) ≠ none) (hge : 0 ≤ clock 0)
    (hlt : clock 0 < 300) :
    ∃ signed out s a rs S₁ r,
      (referenceCoordinator clock).submit signed ⟨referenceHome, none⟩ = (.ok out, s) ∧
      FinalizedAt (referenceCoordinator clock) s.world.journal [] rs referenceHome.store S₁ 0 a
        false ∧
      window? (P := Platform.reference) a.intent = some (0, 300) ∧
      Chained Platform.reference s.world.journal ∧ r ∈ s.world.journal ∧
      r.kind = .finalized ∧ r.intentId = a.id := by
  obtain ⟨signed, out, s, a, hrun, -, hb, hwindow, -, hat⟩ := reference_finalizes clock hclock hge
    hlt
  obtain ⟨rs, hj, hblock⟩ := hat.block
  obtain ⟨r, hr, hk⟩ := hblock.exists_of_kind_mem (k := .finalized) (by decide)
  exact ⟨signed, out, s, a, rs, s.world.store, r, hrun,
    ⟨reference_settled clock, hb, hblock, [], by simpa using hj, rfl⟩, hwindow, hat.chained,
    by rw [hj]; exact mem_append_right _ hr, hk, (hblock.same r hr).1⟩

/-- A clock that stands at 0 keeps the window. -/
theorem exported_valid_reference : ∃ signed w r bundle root passed,
    run stoppedCoordinator referenceHome [(.submit signed, none)] = w ∧
    r ∈ w.journal ∧ r.kind = .finalized ∧
    exportBundle (P := Platform.reference) r.intentId none ⟨w, none⟩ = (.ok bundle, ⟨w, none⟩) ∧
    verifyBundle Platform.reference bundle (stoppedCoordinator.trustStore none)
      false = some (.valid .l1 (.str r.intentId) root passed) := by
  obtain ⟨signed, out, s, a, rs, S₁, r, hrun, -, -, -, hr, hk, -⟩ :=
    reference_finalizedAt (fun _ => 0) (fun _ => fromtimestamp_zero) le_rfl (by norm_num)
  have hw := run_submit hrun
  have hreachable : Reachable stoppedCoordinator s.world :=
    ⟨_, _, _, [(.submit signed, none)], hw⟩
  obtain ⟨bundle, n, window, hexport, ⟨a', -, -, hwindow, htime, -⟩, hvalid⟩ :=
    exported_valid_iff hreachable hr hk none none
  have hzero : Platform.stamped 0 = 0 := by
    simpa using Platform.stamped_intCast (n := 0) (by norm_num)
  obtain ⟨root, passed, hverdict⟩ := hvalid.mpr (inWindow_of_timeRefusal htime hzero)
  exact ⟨signed, s.world, r, bundle, root, passed, hw, hr, hk, hexport, hverdict⟩

/-- A clock that reads 299 when the intent is admitted and 300 from then on: the intent is
finalized, and the verifier rejects what the home exports about it. -/
theorem exported_outside_window : ∃ (clock : ℕ → ℚ) (signed : Json) (w : World) (r : Record)
    (bundle : Json),
    Monotone clock ∧ run (referenceCoordinator clock) referenceHome [(.submit signed, none)] = w ∧
    r ∈ w.journal ∧ r.kind = .finalized ∧
    exportBundle (P := Platform.reference) r.intentId none ⟨w, none⟩ = (.ok bundle, ⟨w, none⟩) ∧
    verifyBundle Platform.reference bundle ((referenceCoordinator clock).trustStore none) false =
      some (.rejected outsideWindow (Verify.steps.take 6)) := by
  let clock : ℕ → ℚ := fun n => if n = 0 then 299 else 300
  have hmono : Monotone clock := by
    intro m n hmn
    simp only [clock]
    split_ifs with hm hn hn
    · exact le_rfl
    · norm_num
    · omega
    · exact le_rfl
  have hclock : ∀ n, Platform.fromtimestamp (clock n) ≠ none := by
    intro n
    have hrange : ∃ k : ℤ, clock n = k ∧ 0 ≤ k ∧ k < 253402300800 := by
      by_cases hn : n = 0
      · exact ⟨299, by simp [clock, hn], by norm_num, by norm_num⟩
      · exact ⟨300, by simp [clock, hn], by norm_num, by norm_num⟩
    obtain ⟨k, hk, h0, hlt⟩ := hrange
    rw [hk, Platform.fromtimestamp_intCast h0 hlt]
    simp
  obtain ⟨signed, out, s, a, rs, S₁, r, hrun, hat, hwindow, hchain, hr, hk, hid⟩ :=
    reference_finalizedAt clock hclock (by norm_num [clock]) (by norm_num [clock])
  obtain ⟨bundle, root, hexport, hverdict⟩ := hat.verdict hchain hwindow none none
  have hout : ¬InWindow (0, 300) ((referenceCoordinator clock).clock (0 + 1)) := by
    have h300 : Platform.stamped 300 = 300 := by
      simpa using Platform.stamped_intCast (n := 300) (by norm_num)
    simp [InWindow, referenceCoordinator, clock, h300]
  rw [if_neg hout] at hverdict
  exact ⟨clock, signed, s.world, r, bundle, hmono, run_submit hrun, hr, hk, hid ▸ hexport,
    hverdict⟩

end VdbC1
