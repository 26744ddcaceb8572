import Cappo.VdbC1.Correctness.Countersigning
import Cappo.VdbC1.Correctness.HonestFinality

/-!
# Witnessed exports

`export_bundle` with a checkpoint cuts the journal twice: after the finality, and after the head
that the checkpoint states. `_verify_witness` puts the two parts together again. What a witness
signed over a journal fits the parts of that journal, so a finality that is valid without the
checkpoint is valid with it, under the profile W1.

## Main results

* `Witness.signed_of_run`: what every checkpoint of a witness states;
* `exported_witnessed_valid`: a valid finality is valid with every later checkpoint.
-/

namespace VdbC1

open Coordinator Verify List Option

variable {P : Platform} {C : Coordinator P}

/-! ## What a witness signs -/

namespace Witness

variable {W : Witness P}

/-- The checkpoint is the witness's signature over the ends of the records. -/
def Signed (W : Witness P) (c : Witnessed) : Prop :=
  ∃ first last seq stamp, c.records.head? = some first ∧ c.records.getLast? = some last ∧
    last.field? "seq" = some seq ∧
    P.signPayload (.obj (checkpointFields first.recordHash seq last.recordHash stamp W.kid)) W.sk
      W.kid = some c.checkpoint

/-- Every checkpoint of the later directory is one of the earlier directory, or is signed. -/
def Signs (W : Witness P) (d d' : WitnessDir) : Prop :=
  ∀ c ∈ d'.checkpoints, c ∈ d.checkpoints ∨ W.Signed c

lemma Untouched.signs (h : Untouched d d') : Signs W d d' := by
  intro c hc
  rw [h.checkpoints] at hc
  exact .inl hc

variable {s : Machine WitnessDir} {stamp : Option PyStr}

/-- The witness signs what it has read, and touches nothing else. -/
lemma wp_countersign {rs : List Json} :
    (W.countersign rs stamp).wp (fun _ s' => Signs W s.world s'.world)
      (fun _ s' => Signs W s.world s'.world) s := by
  have hsame : Signs W s.world s.world := (Untouched.refl _).signs
  simp only [countersign, Proc.wp_bind]
  refine Proc.wp_ofOption.mpr ⟨fun first hfirst => ?_, fun _ => hsame⟩
  refine Proc.wp_ofOption.mpr ⟨fun last hlast => ?_, fun _ => hsame⟩
  refine Proc.wp_ofOption.mpr ⟨fun seq hseq => ?_, fun _ => hsame⟩
  refine Proc.wp_mono wp_witnessedAt (fun stamp s1 hs1 => ?_) fun _ _ h => h.signs
  refine Proc.wp_ofOption.mpr ⟨fun checkpoint hsign => ?_, fun _ => hs1.signs⟩
  refine Proc.wp_ofOption.mpr ⟨fun _ _ => ?_, fun _ => hs1.signs⟩
  have happended : ∀ d' : WitnessDir, d'.checkpoints = s.world.checkpoints ++ [⟨checkpoint, rs⟩] →
      Signs W s.world d' := by
    intro d' hd' c hc
    rw [hd'] at hc
    rcases mem_append.mp hc with hc | hc
    · exact .inl hc
    · obtain rfl := mem_singleton.mp hc
      exact .inr ⟨first, last, seq, stamp, hfirst, hlast, hseq, hsign⟩
  simp only [Proc.wp_persist, Proc.wp_update, Proc.wp_pure]
  refine ⟨fun _ => hs1.signs, fun _ => ⟨fun _ => ?_, fun _ => ?_⟩⟩
  · exact happended _ (by simp [Proc.written, hs1.checkpoints])
  · exact happended _ (by simp [Proc.written, hs1.checkpoints])

lemma wp_observe_signs : (W.observe file stamp).wp (fun _ s' => Signs W s.world s'.world)
      (fun _ s' => Signs W s.world s'.world) s := by
  have hsame : Signs W s.world s.world := (Untouched.refl _).signs
  simp only [observe, Proc.wp_bind, Proc.wp_read, Proc.wp_ofExcept]
  refine ⟨fun rs _ => ?_, fun _ _ => hsame⟩
  refine Proc.wp_mono wp_extension (fun fresh s1 hs => ?_) fun _ _ h => h.signs
  obtain ⟨-, rfl⟩ := hs
  exact ⟨fun _ _ => wp_countersign, fun _ _ => hsame⟩

lemma step_signs_checkpoints (d : WitnessDir) (e : Event) : Signs W d (W.step d e) := by
  cases e with
  | restart => exact fun c hc => .inl hc
  | observe file stamp budget =>
    refine step_observe (Proc.wp_mono wp_observe_signs (fun _ _ h => h) fun e s h => ?_)
    -- a restart leaves the checkpoints as they are
    split_ifs
    · exact h
    · exact h

/-- Every checkpoint of a run is signed over the records it was made for. -/
theorem signed_of_run (W : Witness P) (tick : ℕ) (events : List Event) :
    ∀ c ∈ (W.run (.create tick) events).checkpoints, W.Signed c := by
  have hrun : ∀ (events : List Event) (d : WitnessDir), (∀ c ∈ d.checkpoints, W.Signed c) →
      ∀ c ∈ (W.run d events).checkpoints, W.Signed c := by
    intro events
    induction events with
    | nil => exact fun d h => h
    | cons e events ih =>
      intro d h
      refine ih (W.step d e) fun c hc => ?_
      exact (step_signs_checkpoints d e c hc).elim (h c) id
  exact hrun events (.create tick) (by simp [WitnessDir.create])

end Witness

/-! ## Reading a journal back -/

/-- The records as a reader of the journal's file finds them: RFC 8785 does not tell them from the
journal's own, and a position is read as an integer. -/
def ReadBack (rs : List Json) (J : List Record) : Prop :=
  List.Forall₂ (fun j r => SameRecord j r.toJson ∧ j.field? "seq" = some (.int r.seq)) rs J

variable {J : List Record}

/-- A record states a position of its journal. -/
lemma seq_lt_length (hchain : Chained P J) (hr : r ∈ J) : r.seq < J.length := by
  obtain ⟨i, hi⟩ := getElem?_of_mem hr
  obtain ⟨_, hseq, -⟩ := HashChain.valid_of_getElem? hchain hi
  rw [hseq, zero_add]
  exact (List.getElem?_eq_some_iff.mp hi).1

lemma recordHash_toJson (r : Record) : r.toJson.recordHash = r.hash := by
  rw [Json.recordHash, Json.str?, r.field?_hash, getD_some]

lemma ReadBack.getElem? {rs : List Json} (h : ReadBack rs J) {i : ℕ} {j : Json}
    (hj : rs[i]? = some j) : ∃ r, J[i]? = some r ∧ j.recordHash = r.hash ∧
      j.field? "seq" = some (.int r.seq) := by
  obtain ⟨hlen, hget⟩ := forall₂_iff_get.mp h
  obtain ⟨hi, rfl⟩ := List.getElem?_eq_some_iff.mp hj
  have hi' : i < J.length := hlen ▸ hi
  obtain ⟨hsame, hseq⟩ := hget i hi hi'
  refine ⟨J[i], getElem?_eq_getElem hi', ?_, hseq⟩
  rw [← recordHash_toJson]
  exact hsame.recordHash_eq

/-- The checkpoint is the witness's signature over the first `m + 1` records of a journal. -/
def Witness.Covers (W : Witness P) (checkpoint : Json) (J : List Record) (m : ℕ) : Prop :=
  ∃ first last stamp, J[0]? = some first ∧ J[m]? = some last ∧
    P.signPayload (.obj (Witness.checkpointFields first.hash (.int m) last.hash stamp W.kid)) W.sk
      W.kid = some checkpoint

variable {m : ℕ}

lemma Witness.Signed.covers {W : Witness P} {c : Witnessed} (h : W.Signed c)
    (hchain : Chained P J) (hm : m < J.length) (hread : ReadBack c.records (J.take (m + 1))) :
    W.Covers c.checkpoint J m := by
  obtain ⟨first, last, seq, stamp, hfirst, hlast, hseq, hsign⟩ := h
  have hlen : c.records.length = m + 1 := by
    rw [hread.length_eq, length_take]
    omega
  obtain ⟨r0, hr0, hhash0, -⟩ := hread.getElem? (head?_eq_getElem? ▸ hfirst)
  obtain ⟨r1, hr1, hhash1, hseq1⟩ := hread.getElem? (getLast?_eq_getElem? ▸ hlast)
  rw [hlen, Nat.add_sub_cancel] at hr1
  rw [getElem?_take_of_lt (by omega)] at hr0 hr1
  -- the last record's own position is `m`
  obtain ⟨_, hseq2, -⟩ := HashChain.valid_of_getElem? hchain hr1
  obtain rfl := mem_unique hseq hseq1
  refine ⟨r0, r1, stamp, hr0, hr1, ?_⟩
  rw [← hhash0, ← hhash1, ← hsign, hseq2, zero_add]

/-! ## The two parts of the journal -/

section

variable {J₀ rs : List Record} {S₀ S₁ : Store} {n : ℕ} {a : Attempt} {u : Bool} {w : World}

variable {W : Witness P} {checkpoint : Json}

/-- The records between the finality and the head that the checkpoint states. -/
lemma Witness.Covers.suffixOf (h : W.Covers checkpoint J m) (hseq : seq ≤ m) :
    suffixOf J seq checkpoint = some ((J.take (m + 1)).drop (seq + 1)) := by
  obtain ⟨first, last, stamp, -, hlast, hsign⟩ := h
  have hm : m < J.length := (List.getElem?_eq_some_iff.mp hlast).1
  have hpayload := (P.field?_signPayload hsign).1
  have hfield : (Json.obj (Witness.checkpointFields first.hash (.int m) last.hash stamp
      W.kid)).field? "seq" = some (.int m) := by simp [Witness.checkpointFields]
  have hrange : (seq : ℤ) ≤ (m : ℤ) ∧ (m : ℤ) < J.length := by omega
  simp only [Coordinator.suffixOf, hpayload, hfield, bind_eq_bind, bind_some,
    Json.index?, if_pos hrange, Int.toNat_natCast]

/-- The records up to the finality and the suffix make up what the checkpoint covers, and the suffix
has no record of the intent. -/
theorem FinalizedAt.suffix (h : FinalizedAt C w.journal J₀ rs S₀ S₁ n a u)
    (hchain : Chained P w.journal) (e : Ending C S₁ a rs) (hm : e.finalized.seq ≤ m) :
    J₀ ++ rs ++ (w.journal.take (m + 1)).drop (e.finalized.seq + 1) = w.journal.take (m + 1) ∧
      binding ((w.journal.take (m + 1)).drop (e.finalized.seq + 1)) a.id = [] := by
  have htake := h.take_eq hchain e
  have htake' : (w.journal.take (m + 1)).take (e.finalized.seq + 1) = J₀ ++ rs := by
    rw [take_take, min_eq_left (by omega), htake]
  refine ⟨by rw [← htake', take_append_drop], ?_⟩
  obtain ⟨J1, hj, hnone⟩ := h.later
  have hdrop : w.journal.drop (e.finalized.seq + 1) = J1 := by
    refine (append_right_inj (J₀ ++ rs)).mp ?_
    rw [← hj, ← htake, take_append_drop]
  rw [drop_take, hdrop]
  refine eq_nil_iff_forall_not_mem.mpr fun r hr => ?_
  obtain ⟨hmem, hid⟩ := mem_binding.mp hr
  have hmem' : r ∈ binding J1 a.id := mem_binding.mpr ⟨mem_of_mem_take hmem, hid⟩
  rw [hnone] at hmem'
  nomatch hmem'

/-- The member `witness` of a bundle. -/
def witnessMember (checkpoint : Json) (suffix : List Record) : Json :=
  .obj [("checkpoint", checkpoint), ("journal_suffix", .arr (suffix.map Record.toJson))]

/-- What a checkpoint adds to a bundle. -/
def witnessExtra (checkpoint : Json) (suffix : List Record) : List (PyStr × Json) :=
  [("witness", witnessMember checkpoint suffix)]

lemma witnessFields_eq (h : W.Covers checkpoint J m) (hseq : seq ≤ m) :
    witnessFields J seq (some checkpoint) =
      some (witnessExtra checkpoint ((J.take (m + 1)).drop (seq + 1))) := by
  simp only [witnessFields, h.suffixOf hseq, Option.bind_eq_bind, Option.bind_some, witnessExtra,
    witnessMember, Option.pure_def]

/-- A checkpoint over a journal that is cut in two passes `_verify_witness`. -/
theorem Witness.Covers.countersigned {before suffix : List Record} (h : W.Covers checkpoint J m)
    (hchain : Chained P J) (hparts : before ++ suffix = J.take (m + 1)) (hbefore : before ≠ [])
    {id : PyStr} (hothers : binding suffix id = []) {trust : TrustStore}
    (hkey : P.trustedKey (trust.witnessKeys.getD []) W.kid = some (P.publicRaw W.sk))
    (cert : Json) (digest : PyStr) :
    verifyWitness P (.obj (bundleFields (.str id) (before.map Record.toJson) cert digest ++
      witnessExtra checkpoint suffix)) trust = .ok .w1 := by
  obtain ⟨first, last, stamp, hfirst, hlast, hsign⟩ := h
  have hm : m < J.length := (List.getElem?_eq_some_iff.mp hlast).1
  have hlen : (before ++ suffix).length = m + 1 := by
    rw [hparts, length_take]
    omega
  have hchain' : Chained P (before ++ suffix) := hparts ▸ HashChain.chain_take hchain (m + 1)
  refine verifyWitness_eq_ok.mpr (.inr ⟨rfl, witnessMember checkpoint suffix,
    ⟨checkpoint, .obj (Witness.checkpointFields first.hash (.int m) last.hash stamp W.kid),
      before.map Record.toJson, suffix.map Record.toJson⟩,
    by simp [bundleFields, witnessExtra], ?_⟩)
  refine ⟨by simp [witnessMember], by simp [witnessMember], P.verifySigned_sign hsign hkey,
    by simp [bundleFields], ?_, ⟨.str id, by simp [bundleFields], ?_⟩,
    (P.field?_signPayload hsign).1, by simp [Witness.checkpointFields],
    ⟨.int m, by simp [Witness.checkpointFields], ?_⟩, ?_, ?_⟩
  · -- the chain goes on after the first part
    have hlinks := chain_toJson hchain'
    rw [map_append, HashChain.chain_append, zero_add] at hlinks
    exact hlinks.2
  · intro j hj
    obtain ⟨r, hr, rfl⟩ := mem_map.mp hj
    have hmine : ¬(r.intentId = id ∧ r.kind.binding = true) := by
      intro hboth
      have hmem : r ∈ binding suffix id := mem_binding.mpr ⟨hr, hboth⟩
      rw [hothers] at hmem
      exact not_mem_nil hmem
    rw [isMine_toJson]
    simpa using hmine
  · rw [← map_append, length_map, hlen]
    simp
  · have hhead : HashChain.head Json.recordHash "genesis" ((J.take (m + 1)).map Record.toJson) =
        last.hash := by
      rw [← recordHash_toJson]
      refine HashChain.head_of_getLast? ?_
      rw [getLast?_map, getLast?_eq_getElem?, length_take_of_le hm,
        Nat.succ_sub_one, getElem?_take_of_lt (Nat.lt_succ_self m), hlast]
      rfl
    simp only [← map_append, hparts, hhead]
    simp [Witness.checkpointFields]
  · have hhead : before.head? = some first := by
      rw [← head?_append_of_ne_nil before hbefore, hparts, head?_eq_getElem?,
        getElem?_take_of_lt (Nat.succ_pos m), hfirst]
    refine ⟨first.toJson, by rw [head?_map, hhead]; rfl, ?_⟩
    rw [recordHash_toJson]
    simp [Witness.checkpointFields]

end

/-! ## Completeness -/

/-- A finality of a reachable home that is valid without a checkpoint is valid under the profile W1
with every checkpoint that a trusted witness signed, in whatever run, over the home's journal up to
the finality or further. -/
theorem exported_witnessed_valid {w : World} (hw : Reachable C w) {r : Record}
    (hr : r ∈ w.journal) (hk : r.kind = .finalized) {K : List (PyStr × PyStr)}
    {bundle postRoot : Json} {budget : Option ℕ} {passed : List String}
    (hplain : exportBundle (P := P) r.intentId none ⟨w, budget⟩ = (.ok bundle, ⟨w, budget⟩))
    (hvalid : verifyBundle P bundle (C.trustStore (some K)) false =
      some (.valid .l1 (.str r.intentId) postRoot passed))
    {W : Witness P} (hkey : P.trustedKey K W.kid = some (P.publicRaw W.sk)) {tick m : ℕ}
    {events : List Witness.Event} {c : Witnessed}
    (hc : c ∈ (W.run (.create tick) events).checkpoints) (hm : m < w.journal.length)
    (hread : ReadBack c.records (w.journal.take (m + 1))) (hseq : r.seq ≤ m)
    (requireWitness : Bool) :
    ∃ witnessed, exportBundle (P := P) r.intentId (some c.checkpoint) ⟨w, budget⟩ =
        (.ok witnessed, ⟨w, budget⟩) ∧
      verifyBundle P witnessed (C.trustStore (some K)) requireWitness =
        some (.valid .w1 (.str r.intentId) postRoot (Verify.steps ++ ["witness"])) := by
  have hhome := hw.invariant.home
  have hchain := hhome.chained
  obtain ⟨J₀, rs, S₀, S₁, n, a, u, hat, hid⟩ := hhome.split_of_finalized hr hk
  obtain ⟨window, hwindow, -⟩ := hat.begins.time
  obtain ⟨e⟩ := hat.block.exists_ending hat.settled.storeFacts hat.begins
  obtain ⟨J₁, hj, -⟩ := hat.later
  have hchain₀ : Chained P (J₀ ++ rs) := (HashChain.chain_append.mp (hj ▸ hchain)).1
  obtain ⟨-, hcert⟩ :=
    e.encodable_cert hat.begins.encodable_id hchain₀ hat.block hat.begins.encodable_payload
  obtain ⟨digest, hd⟩ := P.exists_digest hcert
  -- the record is the attempt's finality
  have hfin : r = e.finalized := by
    have hmem : r ∈ (forIntent w.journal a.id).filter fun r => decide (r.kind = .finalized) := by
      simp [forIntent, hr, hid, hk]
    rw [hat.filter_finalized e, mem_singleton] at hmem
    exact hmem
  subst hfin
  rw [← hid] at hplain hvalid ⊢
  -- what was exported without the checkpoint
  have hnone : witnessFields w.journal e.finalized.seq none = some [] := rfl
  have hexport := exportBundle_eq hchain hat e hd hnone budget
  rw [append_nil] at hexport
  obtain rfl := Except.ok.inj (congrArg Prod.fst (hplain.symm.trans hexport))
  obtain ⟨hverify, -, -, -, ⟨receipt, cert, payload, hreceipt, hcert', hpayload, hroot⟩, -⟩ :=
    verifyBundle_eq_valid.mp hvalid
  have hin : InWindow window (C.clock (n + 1)) := by
    by_contra hout
    have heq := e.verify_eq (K := some K) hchain₀ hat.begins hat.block hwindow hd []
    rw [append_nil, hverify, if_neg hout] at heq
    cases heq
  -- and with it
  have hkey' : P.trustedKey ((C.trustStore (some K)).witnessKeys.getD []) W.kid =
      some (P.publicRaw W.sk) := hkey
  have hcovers := (W.signed_of_run tick events c hc).covers hchain hm hread
  obtain ⟨hparts, hothers⟩ := hat.suffix hchain e hseq
  refine ⟨_, exportBundle_eq hchain hat e hd (witnessFields_eq hcovers hseq) budget, ?_⟩
  refine verifyBundle_eq_valid.mpr ⟨?_, ?_, fun _ => rfl, by simp [bundleFields], ⟨receipt, cert,
    payload, ?_, hcert', hpayload, hroot⟩, rfl⟩
  · rw [e.verify_eq hchain₀ hat.begins hat.block hwindow hd, if_pos hin]
  · exact hcovers.countersigned hchain hparts
      (append_ne_nil_of_right_ne_nil _ (ne_nil_of_mem hat.block.record_mem)) hothers hkey'
      e.cert digest
  · rw [← hreceipt]
    simp [bundleFields]

/-! ## A witnessed home -/

section

variable {J₀ rs : List Record} {S₀ S₁ : Store} {n : ℕ} {a : Attempt} {u : Bool} {w : World}

/-- A witness that trusts the home's keys accepts a finality that is valid for the verifier. -/
lemma FinalizedAt.checkFinality_eq_ok (h : FinalizedAt C w.journal J₀ rs S₀ S₁ n a u)
    (hchain : Chained P w.journal) (e : Ending C S₁ a rs)
    (hwindow : window? (P := P) a.intent = some window)
    (hin : InWindow window (C.clock (n + 1))) {W : Witness P}
    (htrust : W.trust = C.trustStore none) :
    W.checkFinality (w.journal.map Record.toJson) e.finalized.toJson = .ok () := by
  obtain ⟨J1, hj, -⟩ := h.later
  have hchain0 : Chained P (J₀ ++ rs) := (HashChain.chain_append.mp (hj ▸ hchain)).1
  obtain ⟨-, hcert⟩ :=
    e.encodable_cert h.begins.encodable_id hchain0 h.block h.begins.encodable_payload
  obtain ⟨digest, hd⟩ := P.exists_digest hcert
  have hvalid := e.verifyBundle_eq (K := none) hchain0 h.begins h.block hwindow hd hin
  -- the records that the witness reads, in the order in which it reads them
  have hkind : e.finalized.kind = .finalized := by
    rw [Draft.kind, e.finalized_body]
    rfl
  have hbody : e.finalized.body.toJson.field? "certificate" = some e.cert := by
    rw [e.finalized_body]
    simp [Body.toJson, Detail.fields]
  have htake : Json.upTo? (w.journal.map Record.toJson) (.int (e.finalized.seq + 1)) =
      some ((J₀ ++ rs).map Record.toJson) := by
    rw [← h.take_eq hchain e, map_take]
    have hpos : Json.position (w.journal.map Record.toJson).length (e.finalized.seq + 1) =
        (e.finalized.seq + 1 : ℕ) := if_pos (by omega)
    rw [Json.upTo?, Json.index?, map_some, hpos, Int.toNat_natCast]
  simp only [Witness.checkFinality, Record.field?_kind, Record.field?_intentId, Record.field?_seq,
    Record.field?_body, hkind, (h.block.same _ e.finalized_mem).1, hbody, Json.addOne, htake, hd,
    htrust, hvalid, Checks.ofOption, Checks.ok_bind, VerifyResult.isValid, Checks.require]
  simp [Kind.text]

lemma readBack_toJson (J : List Record) : ReadBack (J.map Record.toJson) J := by
  rw [ReadBack, forall₂_map_left_iff, forall₂_same]
  exact fun r _ => ⟨rfl, r.field?_seq⟩

end

/-- The reference witness signs the journal of the reference home after its first intent. -/
lemma reference_witnessed : ∃ signed w r c, Reachable stoppedCoordinator w ∧
    run stoppedCoordinator referenceHome [(.submit signed, none)] = w ∧
    r ∈ w.journal ∧ r.kind = .finalized ∧ r.seq < w.journal.length ∧
    c ∈ (Witness.reference.run (.create 0)
      [.observe (Witness.fileOf (w.journal.map Record.toJson)) (some "t") none]).checkpoints ∧
    c.records = w.journal.map Record.toJson ∧
    ∃ bundle root, exportBundle (P := Platform.reference) r.intentId none ⟨w, none⟩ =
        (.ok bundle, ⟨w, none⟩) ∧
      verifyBundle Platform.reference bundle
        (stoppedCoordinator.trustStore (some Platform.referenceKeys)) false =
          some (.valid .l1 (.str r.intentId) root steps) := by
  obtain ⟨signed, out, s, a, hrun, -, hb, -, -, hplace⟩ := reference_finalizes (fun _ => 0)
    (fun _ => fromtimestamp_zero) le_rfl (by norm_num)
  obtain ⟨rs, hj, hblock⟩ := hplace.block
  have hchain := hplace.chained
  have hw := run_submit hrun
  have hreachable : Reachable stoppedCoordinator s.world :=
    ⟨_, _, _, [(.submit signed, none)], hw⟩
  have hat : FinalizedAt stoppedCoordinator s.world.journal [] rs referenceHome.store
      s.world.store 0 a false :=
    ⟨reference_settled _, hb, hblock, [], by simpa using hj, rfl⟩
  obtain ⟨window, hwindow, htime⟩ := hb.time
  have hzero : Platform.stamped 0 = 0 := by
    simpa using Platform.stamped_intCast (n := 0) (by norm_num)
  have hin : InWindow window (stoppedCoordinator.clock (0 + 1)) :=
    inWindow_of_timeRefusal htime hzero
  obtain ⟨e⟩ := hblock.exists_ending hat.settled.storeFacts hb
  have hmem : e.finalized ∈ s.world.journal := by
    rw [hj]
    exact e.finalized_mem
  have hkind : e.finalized.kind = .finalized := by
    rw [Draft.kind, e.finalized_body]
    rfl
  -- every record is one of the attempt's, so that its finality is the only one
  have hfinal : ∀ j ∈ s.world.journal.map Record.toJson,
      Witness.reference.checkFinality (s.world.journal.map Record.toJson) j = .ok () := by
    intro j hj'
    obtain ⟨x, hx, rfl⟩ := mem_map.mp hj'
    by_cases hkx : x.kind = .finalized
    · have hxid : x.intentId = a.id := (hblock.same x (by simpa [hj] using hx)).1
      have hxmem : x ∈ (forIntent s.world.journal a.id).filter
          fun r => decide (r.kind = .finalized) := by
        simp [forIntent, hx, hxid, hkx]
      rw [hat.filter_finalized e, mem_singleton] at hxmem
      rw [hxmem]
      exact hat.checkFinality_eq_ok hchain e hwindow hin rfl
    · refine Witness.checkFinality_of_kind x.field?_kind fun htext => hkx ?_
      exact Kind.text_injective (PyStr.ofString_injective htext)
  have hread : Witness.readJournal Platform.reference
      (Witness.fileOf (s.world.journal.map Record.toJson)) =
        .ok (s.world.journal.map Record.toJson) :=
    Witness.readJournal_eq_ok.mpr ⟨rfl, rfl, chain_toJson hchain, by simpa using ne_nil_of_mem hmem⟩
  obtain ⟨checkpoint, st, -, -, hstep, -, -⟩ := Witness.step_signs "t" (W := Witness.reference)
    (d := .create 0) hread (fun _ => Witness.extension_initial rfl _) hfinal (by decide)
    (PyStr.encodable_ofString _)
  obtain ⟨bundle, root, hexport, hverdict⟩ :=
    hat.verdict hchain hwindow (some Platform.referenceKeys) none
  rw [if_pos hin] at hverdict
  have hid : e.finalized.intentId = a.id := (hblock.same _ e.finalized_mem).1
  refine ⟨signed, s.world, e.finalized, ⟨checkpoint, _⟩, hreachable, hw, hmem, hkind, ?_, ?_, rfl,
    bundle, root, hid ▸ hexport, hid ▸ hverdict⟩
  · exact seq_lt_length hchain hmem
  · rw [Witness.run, foldl_cons, foldl_nil, hstep]
    exact mem_concat_self

/-- The finality of the reference home, exported with the reference witness's checkpoint. -/
theorem exported_witnessed_reference : ∃ (signed : Json) (w : World) (r : Record)
    (checkpoint witnessed root : Json),
    run stoppedCoordinator referenceHome [(.submit signed, none)] = w ∧
    r ∈ w.journal ∧ r.kind = .finalized ∧
    exportBundle (P := Platform.reference) r.intentId (some checkpoint) ⟨w, none⟩ =
      (.ok witnessed, ⟨w, none⟩) ∧
    verifyBundle Platform.reference witnessed
      (stoppedCoordinator.trustStore (some Platform.referenceKeys)) true =
        some (.valid .w1 (.str r.intentId) root (Verify.steps ++ ["witness"])) := by
  obtain ⟨signed, w, r, c, hreachable, hw, hr, hk, hseq, hc, hrecords, bundle, root, hexport,
    hvalid⟩ := reference_witnessed
  have hread : ReadBack c.records (w.journal.take (w.journal.length - 1 + 1)) := by
    rw [Nat.sub_add_cancel (by omega), take_length, hrecords]
    exact readBack_toJson _
  obtain ⟨witnessed, hwitnessed, hverdict⟩ := exported_witnessed_valid (W := Witness.reference)
    hreachable hr hk hexport hvalid Platform.referenceKeys_trusted hc (by omega) hread (by omega)
    true
  exact ⟨signed, w, r, c.checkpoint, witnessed, root, hw, hr, hk, hwitnessed, hverdict⟩

end VdbC1
