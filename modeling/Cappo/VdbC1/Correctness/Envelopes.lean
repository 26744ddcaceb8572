import Cappo.Lib.Delimited
import Cappo.VdbC1.Correctness.Idempotence
import Cappo.VdbC1.Envelopes

/-!
# The envelopes of a reachable journal

`envelopes_from_journal` makes one envelope of every terminal record of a reachable journal:
the PREPARED and COMMITTED records it looks for are there, since the binding records of an
intent are those of one attempt and a closing record is the last of them. The envelopes have
execution ids of their own, whatever ids were submitted. An admission rejection has no
authority behind it, and its envelope names none, unless the intent id it was submitted
under had been admitted before.

## Main results

* `Home.upTo_closing`: the binding records up to a closing record are those of its attempt;
* `Issuer.exists_envelopes`: every reachable journal has its envelopes;
* `Issuer.envelopes_identity`: they have different execution ids, and say what was done;
* `Issuer.rejection_iff`: which admission rejections claim no authority.
-/

open CapabilityMount.JsonText
open Eee (Fields)

namespace VdbC1

open Coordinator List Json

open Json

variable {P : Platform} {C : Coordinator P}

/-! ## Positions -/

section Positions

variable {J : List Record}

/-- A record's position is its sequence number. -/
lemma Chained.getElem?_seq (h : Chained P J) {r : Record} (hr : r ∈ J) : J[r.seq]? = some r := by
  obtain ⟨i, hi⟩ := mem_iff_getElem?.mp hr
  obtain ⟨prev, hseq, -⟩ := HashChain.valid_of_getElem? h hi
  rwa [hseq, zero_add]

lemma Chained.eq_of_seq (h : Chained P J) {r r' : Record} (hr : r ∈ J) (hr' : r' ∈ J)
    (hseq : r.seq = r'.seq) : r = r' := by
  have hget := h.getElem?_seq hr
  rw [hseq, h.getElem?_seq hr'] at hget
  exact (Option.some.inj hget).symm

lemma Chained.pairwise_seq (h : Chained P J) : J.Pairwise fun r r' => r.seq < r'.seq := by
  refine pairwise_iff_getElem.mpr fun i j hi hj hij => ?_
  obtain ⟨_, hseq, -⟩ := HashChain.valid_of_getElem? h (List.getElem?_eq_getElem hi)
  obtain ⟨_, hseq', -⟩ := HashChain.valid_of_getElem? h (List.getElem?_eq_getElem hj)
  omega

lemma Chained.nodup (h : Chained P J) : J.Nodup :=
  h.pairwise_seq.imp fun hlt heq => by simp [heq] at hlt

/-- The binding records of an intent stand in the order of the journal. -/
lemma Chained.pairwise_binding (h : Chained P J) (id : PyStr) :
    (binding J id).Pairwise fun r r' => r.seq < r'.seq :=
  h.pairwise_seq.sublist (filter_sublist.trans filter_sublist)

end Positions

/-! ## Closing records -/

/-- The kinds that close an attempt. -/
def Kind.closing : Kind → Bool
  | finalized => true
  | aborted => true
  | _ => false

lemma Kind.binding_of_closing {k : Kind} (h : k.closing = true) : k.binding = true := by
  revert h
  cases k <;> decide

/-- A closing record is the last of a block. -/
lemma Stage.closing_last (st : Stage) : ∀ (i : ℕ) (h : i < st.kinds.length),
    st.kinds[i].closing = true → i + 1 = st.kinds.length := by
  decide +revert

variable {a : Attempt} {rs : List Record}

variable {r : Record} {w : World}

lemma Block.le_closing {S S' : Store} {st : Stage} (h : Block C S a st rs S')
    (hsorted : rs.Pairwise fun r r' => r.seq < r'.seq) (hr : r ∈ rs)
    (hk : r.kind.closing = true) : ∀ x ∈ rs, x.seq ≤ r.seq := by
  intro x hx
  obtain ⟨i, hi, rfl⟩ := mem_iff_getElem.mp hr
  obtain ⟨j, hj, rfl⟩ := mem_iff_getElem.mp hx
  have hlen := h.length_eq
  have hkind : st.kinds[i] = rs[i].kind := by
    simp only [← h.kinds, getElem_map]
  have hlast := st.closing_last i (by omega) (hkind ▸ hk)
  rcases (show j ≤ i by omega).eq_or_lt with rfl | hlt
  · exact le_rfl
  · exact (pairwise_iff_getElem.mp hsorted j i hj hi hlt).le

/-- The binding records up to a closing record are those of its attempt. -/
theorem Home.upTo_closing (h : Home C w) (hr : r ∈ w.journal)
    (hk : r.kind.closing = true) : ∃ S0 a st S1,
      Block C S0 a st (bindingUpTo w.journal r) S1 ∧ a.id = r.intentId ∧
        r ∈ bindingUpTo w.journal r := by
  have hmem : r ∈ binding w.journal r.intentId :=
    mem_binding.mpr ⟨hr, rfl, Kind.binding_of_closing hk⟩
  rcases h.binding_cases r.intentId with hnil | ⟨S0, a, st, rs, S1, hblock, hid, hrs, -⟩
  · simp [hnil] at hmem
  · have hsorted := h.chained.pairwise_binding r.intentId
    have hall : bindingUpTo w.journal r = rs := by
      rw [bindingUpTo, hrs]
      rw [hrs] at hsorted hmem
      refine filter_eq_self.mpr fun x hx => ?_
      simpa using hblock.le_closing hsorted hmem hk x hx
    exact ⟨S0, a, st, S1, hall ▸ hblock, hid, hall ▸ hrs ▸ hmem⟩

/-- An intent has at most one closing record. -/
lemma Home.closing_unique (h : Home C w) {r' : Record} (hr : r ∈ w.journal)
    (hr' : r' ∈ w.journal) (hk : r.kind.closing = true) (hk' : r'.kind.closing = true)
    (hid : r.intentId = r'.intentId) : r = r' := by
  have hle {x y : Record} (hx : x ∈ w.journal) (hy : y ∈ w.journal) (hkx : x.kind.closing = true)
      (hky : y.kind.closing = true) (hxy : y.intentId = x.intentId) : y.seq ≤ x.seq := by
    have hmem : y ∈ binding w.journal x.intentId :=
      mem_binding.mpr ⟨hy, hxy, Kind.binding_of_closing hky⟩
    have hmem' : x ∈ binding w.journal x.intentId :=
      mem_binding.mpr ⟨hx, rfl, Kind.binding_of_closing hkx⟩
    rcases h.binding_cases x.intentId with hnil | ⟨S0, a, st, rs, S1, hblock, -, hrs, -⟩
    · simp [hnil] at hmem
    · have hsorted := h.chained.pairwise_binding x.intentId
      rw [hrs] at hsorted hmem hmem'
      exact hblock.le_closing hsorted hmem' hkx y hmem
  exact h.chained.eq_of_seq hr hr'
    (le_antisymm (hle hr' hr hk' hk hid) (hle hr hr' hk hk' hid.symm))

/-- The PREPARED record of an attempt. -/
lemma Block.preparedOf_eq {S S' : Store} {st : Stage} (h : Block C S a st rs S') :
    preparedOf rs = some (a.record, a.body) := by
  simp only [preparedOf, h.head, Option.bind_eq_bind, Option.bind_some, a.body_eq]

/-! ## Records an envelope rests on -/

lemma mem_of_preparedOf {p : Record × PreparedBody} (h : preparedOf rs = some p) :
    p.1 ∈ rs ∧ p.1.body.detail = .prepared p.2 := by
  simp only [preparedOf, Option.bind_eq_bind, Option.bind_eq_some_iff] at h
  obtain ⟨r, hr, hp⟩ := h
  split at hp
  · rename_i pb hpb
    cases hp
    exact ⟨mem_of_head? hr, hpb⟩
  · cases hp

lemma mem_bindingUpTo {records : List Record} {terminal : Record} :
    r ∈ bindingUpTo records terminal ↔ r ∈ records ∧ r.intentId = terminal.intentId ∧
      r.kind.binding = true ∧ r.seq ≤ terminal.seq := by
  simp only [bindingUpTo, mem_filter, mem_binding, decide_eq_true_eq, and_assoc]

/-- There is a PREPARED record of the intent before a record exactly when one is found. -/
lemma Home.preparedFor_eq_none_iff (h : Home C w) (hr : r ∈ w.journal)
    (hk : r.kind ≠ .prepared) : preparedFor w.journal r = none ↔
      ¬∃ x ∈ w.journal, x.kind = .prepared ∧ x.intentId = r.intentId ∧ x.seq < r.seq := by
  constructor
  · rintro hnone ⟨x, hx, hxk, hid, hlt⟩
    have hmem : x ∈ binding w.journal r.intentId :=
      mem_binding.mpr ⟨hx, hid, by rw [hxk]; rfl⟩
    rcases h.binding_cases r.intentId with hnil | ⟨S0, a, st, rs, S1, hblock, -, hrs, -⟩
    · simp [hnil] at hmem
    · rw [hrs] at hmem
      obtain rfl := hblock.eq_record_of_prepared hmem hxk
      -- the first binding record is not left out
      obtain ⟨rest, hrest⟩ : ∃ rest, rs = a.record :: rest := by
        cases rs with
        | nil => nomatch hmem
        | cons x rest => exact ⟨rest, by rw [Option.some.inj hblock.head]⟩
      rw [preparedFor, bindingUpTo, hrs, hrest, filter_cons_of_pos (by simpa using hlt.le)]
        at hnone
      simp [preparedOf, a.body_eq] at hnone
  · intro hno
    cases hfor : preparedFor w.journal r with
    | none => rfl
    | some p =>
      obtain ⟨hmem, hbody⟩ := mem_of_preparedOf hfor
      obtain ⟨hj, hid, -, hle⟩ := mem_bindingUpTo.mp hmem
      have hpk : p.1.kind = .prepared := by rw [Draft.kind, hbody]; rfl
      refine absurd ⟨p.1, hj, hpk, hid, hle.lt_of_ne fun hseq => ?_⟩ hno
      exact hk (h.chained.eq_of_seq hj hr hseq ▸ hpk)

/-! ## Every terminal record has its envelope -/

section Existence

variable {w : World} {r : Record}

variable {x : Record}

/-- What the signed intent in a body says can be encoded. -/
lemma encodable_signed {J : List Record} (hchain : Chained P J) (hx : x ∈ J)
    {signed : SignedIntent} (hfield : x.body.toJson.field? "signed_intent" = some signed.envelope) :
    signed.payload.encodable = true :=
  encodable_field? (encodable_bodyField hchain hx hfield) signed.payload_eq

/-- What a PREPARED record says can be encoded. -/
lemma encodable_prepared {J : List Record} (hchain : Chained P J) (hx : x ∈ J)
    {pb : PreparedBody} (hbody : x.body.detail = .prepared pb) :
    x.stamp.encodable = true ∧ pb.payloadCommitment.encodable = true ∧
      pb.signed.payload.encodable = true := by
  refine ⟨(x.encodable_iff.mp (encodable_of_chained hchain hx).1).2.2.1, ?_, ?_⟩
  · exact encodable_bodyField hchain hx (k := "payload_commitment") (v := .str _)
      (by simp [Body.toJson, hbody, Detail.fields, PreparedBody.fields])
  · exact encodable_signed hchain hx
      (by simp [Body.toJson, hbody, Detail.fields, PreparedBody.fields])

lemma encodable_reasonText (r : Record) : (reasonText r).encodable = true := by
  rw [reasonText]
  cases r.body.detail.reason? with
  | none | some => exact PyStr.encodable_ofString _

lemma encodable_decision {gate rule : String} {verdict stamp reason : PyStr}
    (hverdict : verdict.encodable = true) (hstamp : stamp.encodable = true)
    (hreason : reason.encodable = true) :
    (obj (decision gate rule verdict stamp reason)).encodable = true := by
  simp [decision, hverdict, hstamp, hreason, maxSafe]

/-- A closing record has a PREPARED record before it, and a FINALIZED record a COMMITTED one. -/
lemma Home.exists_prepared (h : Home C w) (hr : r ∈ w.journal) (hk : r.kind.closing = true) :
    ∃ p, preparedFor w.journal r = some p ∧ p.1 ∈ w.journal ∧ p.1.body.detail = .prepared p.2 := by
  obtain ⟨S0, a, st, S1, hblock, -, -⟩ := h.upTo_closing hr hk
  have hfor := hblock.preparedOf_eq
  obtain ⟨hmem, hbody⟩ := mem_of_preparedOf hfor
  exact ⟨_, hfor, (mem_bindingUpTo.mp hmem).1, hbody⟩

lemma Stage.committed_mem_of_finalized (st : Stage) (h : .finalized ∈ st.kinds) :
    .committed ∈ st.kinds := by
  decide +revert

@[inherit_doc Home.exists_prepared]
lemma Home.exists_committed (h : Home C w) (hr : r ∈ w.journal) (hk : r.kind = .finalized) :
    ∃ x cb, (bindingUpTo w.journal r).find? (fun x => x.kind = .committed) = some x ∧
      x ∈ w.journal ∧ x.body.detail = .committed cb := by
  obtain ⟨S0, a, st, S1, hblock, -, hmem⟩ := h.upTo_closing hr (by rw [hk]; rfl)
  have hcommitted := st.committed_mem_of_finalized (hk ▸ hblock.kind_mem hmem)
  obtain ⟨x0, hx0, hk0⟩ := hblock.exists_of_kind_mem hcommitted
  have hsome : ((bindingUpTo w.journal r).find? fun x => x.kind = .committed).isSome = true :=
    List.find?_isSome.mpr ⟨x0, hx0, decide_eq_true hk0⟩
  obtain ⟨x, hx⟩ := Option.isSome_iff_exists.mp hsome
  have hxk : x.kind = .committed := by simpa using List.find?_some hx
  rw [Draft.kind] at hxk
  refine ⟨x, ?_⟩
  cases hd : x.body.detail with
  | committed cb => exact ⟨cb, hx, (mem_bindingUpTo.mp (mem_of_find?_eq_some hx)).1, rfl⟩
  | _ => simp [hd, Detail.kind] at hxk

/-- The texts an issuer puts into its envelopes can be encoded. -/
structure Issuer.Encodable (E : Issuer P) : Prop where
  ns : E.ns.encodable = true
  storeId : E.storeId.encodable = true
  buildHash : E.buildHash.encodable = true

/-- A terminal record has its course, and what this says can be encoded. -/
lemma Home.exists_course (h : Home C w) (hr : r ∈ w.journal) (hk : r.kind.terminal = true) :
    ∃ started decisions, course w.journal r = some (started, decisions) ∧
      started.encodable = true ∧ ∀ d ∈ decisions, (obj d).encodable = true := by
  have hstamp := (r.encodable_iff.mp (encodable_of_chained h.chained hr).1).2.2.1
  have hreason := encodable_reasonText r
  have htext (s : String) : (PyStr.ofString s).encodable = true := PyStr.encodable_ofString s
  unfold course
  cases hkind : r.kind
  case admissionRejected =>
    refine ⟨_, _, rfl, hstamp, ?_⟩
    rw [forall_mem_singleton]
    exact encodable_decision (htext _) hstamp hreason
  case preconditionRejected =>
    refine ⟨_, _, rfl, hstamp, ?_⟩
    rw [forall_mem_cons, forall_mem_singleton]
    exact ⟨encodable_decision (htext _) hstamp (htext _),
      encodable_decision (htext _) hstamp hreason⟩
  case finalized | aborted =>
    obtain ⟨p, hp, hmem, hbody⟩ := h.exists_prepared hr (by rw [hkind]; rfl)
    have hprepared := (encodable_prepared h.chained hmem hbody).1
    refine ⟨_, _, by simp only [hp, Option.bind_eq_bind, Option.bind_some]; rfl, hprepared, ?_⟩
    rw [forall_mem_cons, forall_mem_cons, forall_mem_singleton]
    exact ⟨encodable_decision (htext _) hprepared (htext _),
      encodable_decision (htext _) hprepared (htext _),
      encodable_decision (by split_ifs <;> exact htext _) hstamp hreason⟩
  all_goals simp [hkind, Kind.terminal] at hk

namespace Issuer

variable {E : Issuer P}

/-- What the envelope is built from can be encoded. -/
structure Parts.Encodable (p : Parts) : Prop where
  started : p.started.encodable = true
  decisions : ∀ d ∈ p.decisions, (obj d).encodable = true
  output : p.output.encodable = true
  artifact : p.artifact.encodable = true
  capability : p.capability.encodable = true
  config : p.config.encodable = true
  policy : p.policy.encodable = true

lemma exists_output (h : Home C w) (hr : r ∈ w.journal) :
    ∃ d, output (P := P) w.journal r = some d ∧ d.encodable = true := by
  rw [output]
  split_ifs with hk
  · obtain ⟨x, cb, hfind, hx, hcb⟩ := h.exists_committed hr hk
    refine ⟨cb.postRoot, by simp only [hfind, Option.bind_eq_bind, Option.bind_some, hcb], ?_⟩
    exact encodable_bodyField h.chained hx (k := "post_root") (v := .str _)
      (by simp [Body.toJson, hcb, Detail.fields, CommittedBody.fields])
  · have hid := (r.encodable_iff.mp (encodable_of_chained h.chained hr).1).2.2.2.1
    obtain ⟨d, hd⟩ := P.exists_digest (j := .obj [("protocol", "veklom.vdb.c1.outcome/v1"),
      ("intent_id", .str r.intentId), ("outcome", r.kind.text), ("reason", .str (reasonText r))])
      (by simp [hid, encodable_reasonText])
    exact ⟨d, hd, P.encodable_digest hd⟩

lemma exists_artifact (hchain : Chained P w.journal) (hr : r ∈ w.journal) :
    ∃ d, artifact (P := P) r = some d ∧ d.encodable = true := by
  unfold artifact
  split
  · rename_i c hash hhash
    refine ⟨c :: hash, rfl, ?_⟩
    exact encodable_bodyField hchain hr (k := "intent_hash") (v := .str (c :: hash))
      (by simp [Body.toJson, hhash, optStr])
  · obtain ⟨d, hd⟩ := P.exists_digest (j := .null) rfl
    exact ⟨d, hd, P.encodable_digest hd⟩

lemma exists_parts (h : Home C w) (hr : r ∈ w.journal) (hk : r.kind.terminal = true)
    (hE : E.Encodable) : ∃ p, E.parts w.journal r = some p ∧ p.Encodable := by
  obtain ⟨started, decisions, hcourse, hstarted, hdecisions⟩ := h.exists_course hr hk
  obtain ⟨out, hout, houtput⟩ := exists_output h hr
  obtain ⟨art, hart, hartifact⟩ := exists_artifact h.chained hr
  obtain ⟨capability, hcapability⟩ := P.exists_digest (j := .obj [("capability_id",
    "vdb.c1.upsert"), ("op", "UPSERT"), ("namespace", .str E.ns), ("key_max", .int 256),
    ("value_max", .int 65536)]) (by simp [hE.ns, maxSafe])
  obtain ⟨config, hconfig⟩ := P.exists_digest (j := .obj [("adapter", "sqlite-wal/v1"),
    ("journal_mode", "wal"), ("synchronous", "FULL")]) (by simp)
  obtain ⟨policy, hpolicy⟩ := P.exists_digest (j := .obj [("bundle_id", "vdb-c1-admission-v1"),
    ("rules", .arr policyRules)]) (by simp [policyRules])
  refine ⟨⟨started, decisions, out, art, capability, config, policy⟩, ?_, hstarted, hdecisions,
    houtput, hartifact, P.encodable_digest hcapability, P.encodable_digest hconfig,
    P.encodable_digest hpolicy⟩
  simp only [parts, hcourse, hout, hcapability, hconfig, hart, hpolicy, Option.bind_eq_bind,
    Option.bind_some, Option.pure_def]

/-- The grant an envelope names can be encoded. -/
lemma encodable_grant (h : Home C w) (hr : r ∈ w.journal) :
    (grant w.journal r).authorityKid.encodable = true ∧
      (grant w.journal r).issuedAt.encodable = true ∧
      (grant w.journal r).expiresAt.encodable = true := by
  have hstamp := (r.encodable_iff.mp (encodable_of_chained h.chained hr).1).2.2.1
  have hsigned {signed : SignedIntent} (hp : signed.payload.encodable = true) :
      signed.intent.authorityKid.encodable = true ∧ signed.intent.issuedAt.encodable = true ∧
        signed.intent.expiresAt.encodable = true :=
    ⟨encodable_field? hp signed.reads.authorityKid, encodable_field? hp signed.reads.issuedAt,
      encodable_field? hp signed.reads.expiresAt⟩
  unfold grant intentFor
  cases hfor : preparedFor w.journal r with
  | some p =>
    obtain ⟨hmem, hbody⟩ := mem_of_preparedOf hfor
    exact hsigned (encodable_prepared h.chained (mem_bindingUpTo.mp hmem).1 hbody).2.2
  | none =>
    cases hd : r.body.detail with
    | preconditionRejected reason signed observed =>
      exact hsigned (encodable_signed h.chained hr (by simp [Body.toJson, hd, Detail.fields]))
    | _ => exact ⟨PyStr.encodable_ofString _, hstamp, hstamp⟩

lemma encodable_intText (n : ℤ) : (intText n).encodable = true := by
  rw [PyStr.encodable, all_eq_true]
  intro c hc
  have hnumeric := isNumeric_intText c hc
  simp only [isNumeric, Bool.or_eq_true, Bool.and_eq_true, decide_eq_true_eq] at hnumeric
  rcases hnumeric with ((((hdigit | rfl) | rfl) | rfl) | rfl)
  · simp only [PyStr.isSurrogate, Bool.not_eq_true', Bool.and_eq_false_iff, decide_eq_false_iff_not]
    omega
  all_goals decide

/-- The fields of an envelope can be encoded. -/
lemma encodable_fields (h : Home C w) (hr : r ∈ w.journal) (hE : E.Encodable) {p : Parts}
    (hp : p.Encodable) : (obj (E.fields w.journal r p)).encodable = true := by
  obtain ⟨hdraft, hhash⟩ := encodable_of_chained h.chained hr
  obtain ⟨-, -, hstamp, hid, -⟩ := r.encodable_iff.mp hdraft
  obtain ⟨hkid, hissued, hexpires⟩ := encodable_grant h hr
  have hprepared {q : Record × PreparedBody} (hq : preparedFor w.journal r = some q) :
      q.2.payloadCommitment.encodable = true := by
    obtain ⟨hmem, hbody⟩ := mem_of_preparedOf hq
    exact (encodable_prepared h.chained (mem_bindingUpTo.mp hmem).1 hbody).2.1
  have hinput : (input w.journal r p).encodable = true := by
    rw [input]
    cases hfor : preparedFor w.journal r with
    | none => exact hp.artifact
    | some q => exact hprepared hfor
  have hactions : ∀ x ∈ toolActions w.journal r, x.encodable = true := by
    rw [toolActions]
    cases hfor : preparedFor w.journal r with
    | none => simp
    | some q =>
      rw [forall_mem_singleton]
      refine encodable_obj ?_
      have hcommitment := hprepared hfor
      simp [hcommitment, PyStr.encodable_append, encodable_intText, hhash]
      split_ifs <;> simp
  have hexecution : (if r.kind = .finalized ∨ r.kind = .aborted then r.intentId
      else r.intentId ++ ("#" ++ intText r.seq)).encodable = true := by
    split_ifs
    · exact hid
    · simp [PyStr.encodable_append, hid, encodable_intText]
  have hstatus : (if r.kind = .finalized then str "completed"
      else if r.kind = .aborted then str "error" else str "denied").encodable = true := by
    split_ifs <;> simp
  have hbudget : (obj [("granted", .obj [("writes", .int 1)]), ("consumed",
      .obj [("writes", .int (if r.kind = .finalized then 1 else 0))])]).encodable = true := by
    split_ifs <;> decide
  refine encodable_obj ?_
  simpa [fields, hp.started, hp.output, hp.artifact, hp.capability, hp.config,
    hp.policy, hE.ns, hE.storeId, hE.buildHash, hstamp, hid, hkid, hissued, hexpires, hinput, name,
    PyStr.encodable_append, encodable_intText, maxSafe] using
    ⟨hexecution, hp.decisions, hactions, hbudget, hstatus⟩

/-- Every terminal record of a home has its envelope. -/
lemma exists_envelopeFor (h : Home C w) (hr : r ∈ w.journal) (hk : r.kind.terminal = true)
    (hE : E.Encodable) : ∃ env, E.envelopeFor w.journal r = some env := by
  obtain ⟨p, hp, henc⟩ := exists_parts h hr hk hE
  obtain ⟨env, henv⟩ : ∃ env, Eee.sealed P (E.fields w.journal r p) E.name E.kid E.sk
      (.str r.stamp) = some env := Eee.exists_sealed (encodable_fields h hr hE henc)
  exact ⟨env, envelopeFor_eq_some.mpr ⟨p, hp, henv⟩⟩

/-- Every home has the envelopes of its journal. -/
theorem exists_envelopes (h : Home C w) (hE : E.Encodable) :
    ∃ envs, E.envelopesFromJournal w.journal = some envs := by
  refine exists_mapM fun r hr => ?_
  obtain ⟨hmem, hk⟩ := mem_filter.mp hr
  exact exists_envelopeFor h hmem hk hE

end Issuer

end Existence

/-! ## Execution ids -/

/-- The intent of a binding record was admitted. -/
lemma Home.exists_begins {w : World} (h : Home C w) {r : Record} (hr : r ∈ w.journal)
    (hk : r.kind.binding = true) : ∃ n J S a, Begins C n J S a ∧ a.id = r.intentId := by
  have hsettled {J : List Record} {S : Store} (hs : Settled C J S) (hr : r ∈ J) :
      ∃ n J S a, Begins C n J S a ∧ a.id = r.intentId := by
    have hmem : r ∈ binding J r.intentId := mem_binding.mpr ⟨hr, rfl, hk⟩
    rcases hs.binding_cases r.intentId with hnil | ⟨J0, S0, n, a, -, -, -, hb, -, -, hid, -⟩
    · simp [hnil] at hmem
    · exact ⟨n, J0, S0, a, hb, hid⟩
  rcases h.shape with hs | ⟨J0, S0, n, a, st, rs, hs, hb, hblock, -, hj⟩
  · exact hsettled hs hr
  · rw [hj, mem_append] at hr
    rcases hr with hr | hr
    · exact hsettled hs hr
    · exact ⟨n, J0, S0, a, hb, (hblock.same r hr).1.symm⟩

/-- An admitted intent's id is the text of a UUID. -/
lemma Begins.isUuid {n : ℕ} {J : List Record} {S : Store} (h : Begins C n J S a) :
    P.isUuid a.id = true := by
  obtain ⟨window, hwindow, -⟩ := h.time
  rw [← h.id_eq]
  exact (window?_eq_some hwindow).2.1

/-- The execution id of a terminal record. -/
def executionId (r : Record) : PyStr :=
  if r.kind = .finalized ∨ r.kind = .aborted then r.intentId
  else r.intentId ++ "#" ++ intText r.seq

lemma Kind.closing_iff {k : Kind} : k.closing = true ↔ k = .finalized ∨ k = .aborted := by
  cases k <;> decide

/-- Different records of a home have different execution ids: a closing record has the id of
its intent, the text of a UUID, and no other of these ends in a number sign and a number. -/
lemma Home.executionId_inj {w : World} (h : Home C w) {r r' : Record} (hr : r ∈ w.journal)
    (hr' : r' ∈ w.journal) (heq : executionId r = executionId r') : r = r' := by
  have hsharp : PyStr.ofString "#" = [0x23] := by decide
  have hnumber (n : ℤ) : 0x23 ∉ intText n := fun hmem =>
    absurd (isNumeric_intText _ hmem) (by decide)
  -- the id of a closing record is not of the other form
  have hclosing {x y : Record} (hx : x ∈ w.journal) (hk : x.kind.closing = true) :
      x.intentId ≠ y.intentId ++ "#" ++ intText y.seq := by
    intro hid
    obtain ⟨n, J, S, a, hb, haid⟩ := h.exists_begins hx (Kind.binding_of_closing hk)
    refine P.not_mem_of_isUuid hb.isUuid ?_
    rw [haid, hid, hsharp]
    simp
  rw [executionId, executionId] at heq
  split_ifs at heq with hk hk' hk'
  · exact h.closing_unique hr hr' (Kind.closing_iff.mpr hk) (Kind.closing_iff.mpr hk') heq
  · exact absurd heq (hclosing hr (Kind.closing_iff.mpr hk))
  · exact absurd heq.symm (hclosing hr' (Kind.closing_iff.mpr hk'))
  · rw [hsharp, append_assoc, append_assoc, singleton_append, singleton_append] at heq
    have htext := (Delimited.eq_of_append_cons_eq (hnumber _) (hnumber _) heq).2
    refine h.chained.eq_of_seq hr hr' ?_
    exact_mod_cast intText_injective htext

namespace Issuer

variable {E : Issuer P} {records : List Record} {r : Record} {env : Fields}

section

variable (h : E.envelopeFor records r = some env)

include h

/-- The members of an envelope, besides those that seal it. -/
lemma get_envelopeFor {k : String} (hk : PyStr.ofString k ∉ Eee.integrityFields) :
    ∃ p, E.parts records r = some p ∧ Eee.get k env = Eee.get k (E.fields records r p) := by
  obtain ⟨p, hp, hseal⟩ := envelopeFor_eq_some.mp h
  exact ⟨p, hp, Eee.get_sealed hseal hk⟩

lemma get_executionId : Eee.get "execution_id" env = .str (executionId r) := by
  obtain ⟨p, -, hget⟩ := get_envelopeFor h (k := "execution_id") (by decide)
  exact hget

/-- Only the envelope of a FINALIZED record reports a completed execution. -/
lemma get_status_iff : Eee.get "status" env = .str "completed" ↔ r.kind = .finalized := by
  obtain ⟨p, -, hget⟩ := get_envelopeFor h (k := "status") (by decide)
  have hstatus : Eee.get "status" (E.fields records r p) =
      if r.kind = .finalized then str "completed"
      else if r.kind = .aborted then str "error" else str "denied" := rfl
  rw [hget, hstatus]
  split_ifs with hk hk'
  · exact iff_of_true rfl hk
  · exact iff_of_false (by decide) hk
  · exact iff_of_false (by decide) hk

/-- Only the envelope of a FINALIZED record reports effects. -/
lemma get_effects_iff : (∃ effect rest, Eee.get "actual_effects" env = .arr (effect :: rest)) ↔
      r.kind = .finalized := by
  obtain ⟨p, -, hget⟩ := get_envelopeFor h (k := "actual_effects") (by decide)
  have heffects : Eee.get "actual_effects" (E.fields records r p) =
      .arr (if r.kind = .finalized then [.str ("state:upsert:" ++ E.ns)] else []) :=
    rfl
  rw [hget, heffects]
  split_ifs with hk
  · exact iff_of_true ⟨_, _, rfl⟩ hk
  · exact iff_of_false (fun ⟨effect, rest, heq⟩ => by simp at heq) hk

end

/-- Over every reachable journal, the envelopes have different execution ids; an envelope
reports a completed execution, and an envelope reports effects, exactly for the FINALIZED
records. -/
theorem envelopes_identity (C : Coordinator P) {w : World} (hw : Reachable C w) (E : Issuer P)
    {envs : List Fields} (henvs : E.envelopesFromJournal w.journal = some envs) :
    (envs.map (Eee.get "execution_id")).Nodup ∧
      List.Forall₂ (fun r env =>
        (Eee.get "status" env = .str "completed" ↔ r.kind = .finalized) ∧
        ((∃ effect rest, Eee.get "actual_effects" env = .arr (effect :: rest)) ↔
          r.kind = .finalized)) (w.journal.filter fun r => r.kind.terminal) envs := by
  have hhome := hw.invariant.home
  have hfor := forall₂_of_mapM henvs
  constructor
  · have hids : envs.map (Eee.get "execution_id") =
        (w.journal.filter fun r => r.kind.terminal).map fun r => .str (executionId r) := by
      rw [← forall₂_eq_eq_eq, forall₂_map_left_iff, forall₂_map_right_iff]
      exact (hfor.imp fun r env henv => get_executionId henv).flip
    rw [hids]
    refine List.Nodup.map_on ?_ (hhome.chained.nodup.filter _)
    intro r hr r' hr' heq
    exact hhome.executionId_inj (mem_of_mem_filter hr) (mem_of_mem_filter hr')
      (str.inj heq)
  · exact hfor.imp fun r env henv => ⟨get_status_iff henv, get_effects_iff henv⟩

/-! ## Admission rejections -/

/-- The envelope claims no authority: nobody was admitted, the window is the moment of the
decision, no effect is allowed and no tool was used. -/
structure NoAuthority (env : Fields) (decided : PyStr) : Prop where
  principal : (Eee.get "principal" env).field? "identifier" = some (.str "unadmitted")
  participant : (Eee.get "participant_identity" env).field? "identifier" =
    some (.str "unadmitted")
  opens : (Eee.get "authority_window" env).field? "not_before" = some (.str decided)
  closes : (Eee.get "authority_window" env).field? "not_after" = some (.str decided)
  effects : Eee.get "allowed_effects" env = .arr []
  actions : Eee.get "tool_actions" env = .arr []

/-- The envelope of an admission rejection claims no authority exactly when no PREPARED record
is found for it. -/
lemma noAuthority_iff (h : E.envelopeFor records r = some env) (hk : r.kind = .admissionRejected) :
    NoAuthority env r.stamp ↔ preparedFor records r = none := by
  obtain ⟨p, hp, hseal⟩ := envelopeFor_eq_some.mp h
  have hget {k : String} (hk : PyStr.ofString k ∉ Eee.integrityFields) :
      Eee.get k env = Eee.get k (E.fields records r p) := Eee.get_sealed hseal hk
  have hactions : Eee.get "tool_actions" (E.fields records r p) =
      .arr (toolActions records r) := rfl
  constructor
  · intro hno
    have hnil := hno.actions
    rw [hget (by decide), hactions] at hnil
    cases hfor : preparedFor records r with
    | none => rfl
    | some prepared => simp [toolActions, hfor] at hnil
  · intro hnone
    have hgrant : grant records r = ⟨"unadmitted", r.stamp, r.stamp⟩ := by
      rw [Draft.kind] at hk
      unfold grant intentFor
      rw [hnone]
      cases hd : r.body.detail with
      | admissionRejected reason => rfl
      | _ => simp [hd, Detail.kind] at hk
    have hallowed : Eee.get "allowed_effects" (E.fields records r p) =
        .arr (if r.kind = .admissionRejected then [] else
          [.str ("state:upsert:" ++ E.ns)]) := rfl
    have hprincipal : (Eee.get "principal" (E.fields records r p)).field? "identifier" =
        some (.str (grant records r).authorityKid) := rfl
    have hparticipant : (Eee.get "participant_identity" (E.fields records r p)).field?
        "identifier" = some (.str (grant records r).authorityKid) := rfl
    have hopens : (Eee.get "authority_window" (E.fields records r p)).field? "not_before" =
        some (.str (grant records r).issuedAt) := rfl
    have hcloses : (Eee.get "authority_window" (E.fields records r p)).field? "not_after" =
        some (.str (grant records r).expiresAt) := rfl
    rw [hgrant] at hprincipal hparticipant hopens hcloses
    refine ⟨?_, ?_, ?_, ?_, ?_, ?_⟩
    · rw [hget (by decide), hprincipal]
    · rw [hget (by decide), hparticipant]
    · rw [hget (by decide), hopens]
    · rw [hget (by decide), hcloses]
    · rw [hget (by decide), hallowed, if_pos hk]
    · rw [hget (by decide), hactions, toolActions, hnone]

/-- Over every reachable journal, the envelope of an admission rejection claims no authority
exactly when the intent id it was submitted under had not been prepared before. -/
theorem rejection_iff (C : Coordinator P) {w : World} (hw : Reachable C w) (E : Issuer P)
    {r : Record} (hr : r ∈ w.journal) (hk : r.kind = .admissionRejected) {env : Fields}
    (henv : E.envelopeFor w.journal r = some env) :
    NoAuthority env r.stamp ↔
      ¬∃ x ∈ w.journal, x.kind = .prepared ∧ x.intentId = r.intentId ∧ x.seq < r.seq := by
  rw [noAuthority_iff henv hk]
  exact hw.invariant.home.preparedFor_eq_none_iff hr (by rw [hk]; decide)

end Issuer

/-! ## A rejected resubmission on the reference platform -/

/-- A value without a valid signature is rejected under an intent id that was prepared. -/
lemma resubmit_refused {w : World} (hhome : Home C w) (hsettled : Settled C w.journal w.store)
    (hclear : Clear C w) (hx : x ∈ w.journal) (hk : x.kind = .prepared) {signed : Json}
    (hid : x.intentId = intentIdOf signed) (hbad : P.verifySigned signed C.authorityKeys = false) :
    ∃ out s' r, C.submit signed ⟨w, none⟩ = (.ok out, s') ∧ s'.world.journal = w.journal ++ [r] ∧
      r.kind = .admissionRejected ∧ r.intentId = x.intentId := by
  have henc := (x.encodable_iff.mp (encodable_of_chained hhome.chained hx).1).2.2.2.1
  obtain ⟨out, s', hrun, report, s1, hrecover, -, -, v, hv, hc, -⟩ :=
    submit_returns hhome hclear signed (hid ▸ henc)
  obtain rfl : s1 = ⟨w, none⟩ := by
    rw [recover_settled hhome.chained hsettled] at hrecover
    exact (Prod.mk.inj hrecover).2.symm
  obtain ⟨rest, hbound⟩ := hsettled.head_of_prepared hx hk
  rw [hid] at hbound
  obtain ⟨reason, rfl⟩ : ∃ reason, v = .refuse reason := by
    simp only [verdict, hbound, judgeBound, hbad, Option.some.injEq] at hv
    split_ifs at hv with hhash
    · exact ⟨_, hv.symm⟩
    · exact ⟨_, hv.symm⟩
    · simp at *
  obtain ⟨⟨r, hrejected, hrid, hbody⟩, -⟩ := hc
  exact ⟨out, s', r, hrun, hrejected.journal, by rw [Draft.kind, hbody]; rfl, hrid.trans hid.symm⟩

/-- An issuer for the reference home. -/
def referenceIssuer : Issuer Platform.reference where
  ns := "n"
  storeId := "s"
  sk := []
  kid := "k"
  buildHash := "b"

lemma referenceIssuer_encodable : referenceIssuer.Encodable :=
  ⟨PyStr.encodable_ofString _, PyStr.encodable_ofString _, PyStr.encodable_ofString _⟩

/-- On the reference home an intent is finalized, and a value without signature is then
rejected under its id. -/
lemma reference_rejection : ∃ signed signed' w, ∃ x ∈ w.journal, ∃ r ∈ w.journal,
    run stoppedCoordinator referenceHome [(.submit signed, none), (.submit signed', none)] = w ∧
    x.kind = .prepared ∧ r.kind = .admissionRejected ∧ x.intentId = r.intentId ∧
    x.seq < r.seq := by
  obtain ⟨signed, out, s, a, hrun, -, hb, -, -, hat⟩ := reference_finalizes (fun _ => 0)
    (fun _ => fromtimestamp_zero) le_rfl (by norm_num)
  obtain ⟨rs, hj, hblock⟩ := hat.block
  have hfirst := run_submit hrun
  have hreach : Reachable stoppedCoordinator s.world := ⟨_, _, _, _, hfirst⟩
  have hsettled : Settled stoppedCoordinator s.world.journal s.world.store := by
    rw [hj]
    exact .closed (reference_settled _) hb hblock rfl
  have hlength : s.world.journal.length = 4 := by rw [hj, nil_append, hblock.length_eq]; rfl
  have hgeneration : s.world.store.generation = 1 := by
    rw [hsettled.storeFacts.generation, hj, nil_append, hblock.kinds]
    rfl
  have hclear : Clear stoppedCoordinator s.world :=
    ⟨fun _ => fromtimestamp_zero, by rw [hlength]; decide, by rw [hgeneration]; decide⟩
  have hx : a.record ∈ s.world.journal := by
    rw [hj]
    exact hblock.record_mem
  obtain ⟨out', s', r, hrun', hjournal, hkind, hid⟩ := resubmit_refused hreach.invariant.home
    hsettled hclear hx a.kind_record
    (show a.id = intentIdOf (.obj [("payload", .obj [("intent_id", .str a.id)])]) from rfl) rfl
  have hsecond := run_submit hrun'
  have hwhole : run stoppedCoordinator referenceHome [(.submit signed, none),
      (.submit (.obj [("payload", .obj [("intent_id", .str a.id)])]), none)] = s'.world := by
    rw [← hsecond, ← hfirst]
    rfl
  have hhome := (Reachable.invariant (C := stoppedCoordinator) (w := s'.world)
    ⟨_, _, _, _, hwhole⟩).home
  have hmem : a.record ∈ s'.world.journal := hjournal ▸ mem_append_left _ hx
  have hr : r ∈ s'.world.journal := by simp [hjournal]
  refine ⟨signed, _, s'.world, a.record, hmem, r, hr, hwhole, a.kind_record, hkind, hid.symm, ?_⟩
  have hsorted := hhome.chained.pairwise_seq
  rw [hjournal] at hsorted
  exact (pairwise_append.mp hsorted).2.2 a.record hx r (mem_singleton_self r)

/-- JSON `null` is rejected by the reference home, with nothing else in its journal. -/
lemma reference_null : ∃ w r, run stoppedCoordinator referenceHome
    [(.submit .null, none)] = w ∧ w.journal = [r] ∧ r.kind = .admissionRejected := by
  obtain ⟨out, s', hrun, report, s1, hrecover, -, -, v, hv, hc, -⟩ :=
    submit_returns (reference_home _) (reference_clear _ fun _ => fromtimestamp_zero) .null
      (by decide)
  obtain rfl : s1 = ⟨referenceHome, none⟩ := by
    rw [recover_settled (reference_home fun _ => 0).chained (reference_settled _)] at hrecover
    exact (Prod.mk.inj hrecover).2.symm
  obtain rfl : Verdict.refuse .schema = v := Option.some.inj hv
  obtain ⟨⟨r, hrejected, -, hbody⟩, -⟩ := hc
  exact ⟨s'.world, r, run_submit hrun, hrejected.journal, by rw [Draft.kind, hbody]; rfl⟩

namespace Issuer

/-- The envelope of a value that was rejected on an empty home claims no authority. -/
theorem rejection_null : ∃ w r env,
    run stoppedCoordinator referenceHome [(.submit .null, none)] = w ∧
    r ∈ w.journal ∧ referenceIssuer.envelopeFor w.journal r = some env ∧
    NoAuthority env r.stamp := by
  obtain ⟨w, r, hrun, hj, hk⟩ := reference_null
  have hreach : Reachable stoppedCoordinator w := ⟨_, _, _, _, hrun⟩
  have hr : r ∈ w.journal := by simp [hj]
  obtain ⟨env, henv⟩ := exists_envelopeFor hreach.invariant.home hr (by rw [hk]; rfl)
    referenceIssuer_encodable
  refine ⟨w, r, env, hrun, hr, henv,
    (rejection_iff _ hreach referenceIssuer hr hk henv).mpr ?_⟩
  rintro ⟨x, hx, hxk, -⟩
  rw [hj, mem_singleton] at hx
  rw [hx, hk] at hxk
  nomatch hxk

/-- The envelope of a rejected resubmission claims the authority of the intent that was
admitted before. -/
theorem rejection_claims_authority : ∃ signed signed' w r env,
    run stoppedCoordinator referenceHome
      [(.submit signed, none), (.submit signed', none)] = w ∧
    r ∈ w.journal ∧ r.kind = .admissionRejected ∧
    referenceIssuer.envelopeFor w.journal r = some env ∧ ¬NoAuthority env r.stamp := by
  obtain ⟨signed, signed', w, x, hx, r, hr, hrun, hxk, hrk, hid, hlt⟩ := reference_rejection
  have hhome := (Reachable.invariant (C := stoppedCoordinator) (w := w)
    ⟨_, _, _, _, hrun⟩).home
  obtain ⟨env, henv⟩ := exists_envelopeFor hhome hr (by rw [hrk]; rfl) referenceIssuer_encodable
  refine ⟨signed, signed', w, r, env, hrun, hr, hrk, henv, fun hno => ?_⟩
  have hnone := (noAuthority_iff henv hrk).mp hno
  exact (hhome.preparedFor_eq_none_iff hr (by rw [hrk]; decide)).mp hnone ⟨x, hx, hxk, hid, hlt⟩

/-- The same journal has the envelopes of a FINALIZED record and of the rejection. -/
theorem envelopes_identity_reference : ∃ w envs, Reachable stoppedCoordinator w ∧
    referenceIssuer.envelopesFromJournal w.journal = some envs ∧
    (∃ r ∈ w.journal, r.kind = .admissionRejected) ∧
    (envs.map (Eee.get "execution_id")).Nodup := by
  obtain ⟨signed, signed', w, x, hx, r, hr, hrun, -, hrk, -, -⟩ := reference_rejection
  have hreach : Reachable stoppedCoordinator w := ⟨_, _, _, _, hrun⟩
  obtain ⟨envs, henvs⟩ := exists_envelopes hreach.invariant.home referenceIssuer_encodable
  exact ⟨w, envs, hreach, henvs, ⟨r, hr, hrk⟩,
    (envelopes_identity _ hreach referenceIssuer henvs).1⟩

end Issuer

end VdbC1
