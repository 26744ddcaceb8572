import Cappo.VdbC1.Correctness.Recovery

/-!
# What a submission does to a settled home

`Coordinator.verdict` is the decision `_submit_locked` takes on a settled home, as a
function of the home, the clock reading and the submitted value. A submission carries its
verdict out: it answers from the journal, records one rejection, or runs the protocol to
finality.

## Main results

* `wp_admission`: `_admission` decides as `Coordinator.admitted` says;
* `wp_attempt`: an admitted intent whose precondition holds is finalized;
* `wp_submitLocked`: a submission carries out its verdict.
-/

namespace VdbC1

open Proc
open List Option Json

namespace Coordinator

variable {P : Platform} (C : Coordinator P)

/-- The decision of `_admission` on a home: the first check that fails, or the intent. -/
def admitted (w : World) (signed : Json) : Except Reason SignedIntent :=
  match SignedIntent.ofJson? signed with
  | none => .error .schema
  | some s =>
    match window? (P := P) s.intent, formRefusal s.intent with
    | none, _ => .error .schema
    | some _, some reason => .error reason
    | some window, none =>
      match C.keyRefusal s w.store.ns with
      | some reason => .error reason
      | none =>
        match timeRefusal window (C.clock w.tick) with
        | some reason => .error reason
        | none => .ok s

/-- What a submission comes to. -/
inductive Verdict where
  | replay
  | refuse (reason : Reason)
  | precondition (s : SignedIntent) (pre : Snapshot) (reason : Reason)
  | attempt (s : SignedIntent) (pre : Snapshot)

/-- The submission is rejected: not admitted, or its precondition fails. -/
def Verdict.rejects : Verdict → Bool
  | refuse _ => true
  | precondition .. => true
  | _ => false

/-- The decision on an intent id that has binding records, from the first of them. -/
def judgeBound (first : Record) (signed : Json) : Verdict :=
  if first.body.intentHash ≠ intentHashOf P signed then .refuse .intentConflict
  else if !P.verifySigned signed C.authorityKeys then .refuse .badSignature
  else .replay

/-- The decision on an admitted intent, from the state it is to be applied to. -/
def judgePrecondition (s : SignedIntent) (pre : Snapshot) : Verdict :=
  if (pre.generation : ℤ) ≠ s.intent.expectedGeneration then .precondition s pre .staleGeneration
  else if pre.root ≠ s.intent.expectedRoot then .precondition s pre .rootMismatch
  else .attempt s pre

/-- The decision of `_submit_locked` on a home; none if it needs to read a store that cannot
be read. -/
def verdict (w : World) (signed : Json) : Option Verdict :=
  match boundRecords w.journal (intentIdOf signed) with
  | first :: _ => some (C.judgeBound first signed)
  | [] =>
    match C.admitted w signed with
    | .error reason => some (.refuse reason)
    | .ok s => (w.store.snapshot P).map (judgePrecondition s)

end Coordinator

open Coordinator

variable {P : Platform} {C : Coordinator P}

/-! ## Admitted intents -/

lemma keyRefusal_eq_none {s : SignedIntent} (h : C.keyRefusal s ns = none) :
    s.intent.ns = ns ∧ s.envelope.field? "kid" = some (.str s.intent.authorityKid) ∧
      P.verifySigned s.envelope C.authorityKeys = true := by
  unfold keyRefusal at h
  split_ifs at h with h1 h2 h3 h4
  exact ⟨not_not.mp h1, not_not.mp h2, by simpa using h4⟩

/-- The payload under a signature that verifies can be encoded. -/
lemma encodable_payload_of_verified {s : SignedIntent}
    (h : P.verifySigned s.envelope C.authorityKeys = true) : s.payload.encodable = true := by
  obtain ⟨_, _, payload, _, _, m, _, _, _, hpayload, _, _, hm, _⟩ := P.verifySigned_iff.mp h
  rw [s.payload_eq] at hpayload
  rw [← P.jcs_isSome, some.inj hpayload, hm, isSome_some]

/-- An envelope of the right shape with a signature that verifies can be encoded. -/
lemma encodable_envelope_of_verified {s : SignedIntent}
    (hkeys : s.envelope.isDictOf envelopeKeys = true)
    (hkid : s.envelope.field? "kid" = some (.str s.intent.authorityKid))
    (h : P.verifySigned s.envelope C.authorityKeys = true) : s.envelope.encodable = true := by
  have hpayload := encodable_payload_of_verified h
  have hauth := encodable_field? hpayload s.reads.authorityKid
  obtain ⟨_, sig, _, _, _, _, _, halg, hsig, _, _, hraw, _, _⟩ := P.verifySigned_iff.mp h
  refine encodable_of_isDictOf hkeys fun k hk => ?_
  simp only [envelopeKeys, mem_cons, not_mem_nil, or_false] at hk
  rcases hk with rfl | rfl | rfl | rfl <;> refine ⟨PyStr.encodable_ofString _, fun v hv => ?_⟩
  · exact mem_unique halg hv ▸ PyStr.encodable_ofString _
  · exact mem_unique hkid hv ▸ hauth
  · exact mem_unique s.payload_eq hv ▸ hpayload
  · exact mem_unique hsig hv ▸ Platform.encodable_of_unb64u hraw

section

variable {signed : Json} {s : SignedIntent} (h : SignedIntent.ofJson? signed = some s)

include h

lemma payloadOf_eq : payloadOf signed = s.payload := by
  have hp := s.payload_eq
  rw [(SignedIntent.ofJson?_eq_some h).1] at hp
  rw [payloadOf, Json.get?_of_field? hp, getD_some]

lemma intentIdOf_eq : intentIdOf signed = s.intent.intentId := by
  rw [intentIdOf, payloadOf_eq h, Json.str?, s.reads.intentId, getD_some]

lemma intentHashOf_eq : intentHashOf P signed = P.digest s.payload := by
  have hread := s.reads.intentId
  rw [intentHashOf, payloadOf_eq h]
  cases hp : s.payload with
  | obj fields => rfl
  | _ => simp [hp, Json.field?] at hread

end

lemma isUuid_unknown : P.isUuid "unknown" = false := by
  have hlen : (Platform.uuidHex "unknown").length ≠ 32 := by decide
  rw [Platform.isUuid, decide_eq_false hlen, Bool.false_and]

lemma window?_eq_some (h : window? (P := P) i = some window) :
    i.bounded = true ∧ P.isUuid i.intentId = true ∧ P.parseTime i.issuedAt = some window.1 ∧
      P.parseTime i.expiresAt = some window.2 := by
  unfold window? at h
  split_ifs at h with hc
  obtain ⟨hbounded, huuid⟩ := Bool.and_eq_true_iff.mp hc
  simp only [Option.bind_eq_bind, Option.bind_eq_some_iff, Option.pure_def, Option.some.injEq] at h
  obtain ⟨issued, hissued, expires, hexpires, rfl⟩ := h
  exact ⟨hbounded, huuid, hissued, hexpires⟩

/-- What an admitted value has passed. -/
structure Admits (C : Coordinator P) (w : World) (signed : Json) (s : SignedIntent) : Prop where
  shape : SignedIntent.ofJson? signed = some s
  form : formRefusal s.intent = none
  key : C.keyRefusal s w.store.ns = none
  time : ∃ window, window? (P := P) s.intent = some window ∧
    timeRefusal window (C.clock w.tick) = none

/-- What is admitted has passed every check. -/
lemma admitted_eq_ok {w : World} {signed : Json} {s : SignedIntent}
    (h : C.admitted w signed = .ok s) : Admits C w signed s := by
  unfold admitted at h
  split at h
  · simp at h
  · rename_i s' hs
    split at h
    · simp at h
    · simp at h
    · rename_i window hwindow hform
      split at h
      · simp at h
      · rename_i hkey
        split at h
        · simp at h
        · rename_i htime
          cases h
          exact ⟨hs, hform, hkey, window, hwindow, htime⟩

/-- A home with encodable texts can be read, unless a counter is full. -/
lemma StoreFacts.full_of_snapshot {w : World} (h : StoreFacts J w.store)
    (hsnap : w.store.snapshot P = none) : Full w := by
  by_contra hfull
  have hgen : (w.store.generation : ℤ) ≤ Json.maxSafe :=
    (not_le.mp fun hle => hfull (.inr hle)).le
  obtain ⟨snap, hsome⟩ := Store.exists_snapshot (P := P) h.ns h.rows hgen
  simp [hsnap] at hsome

/-- `_admission` decides as `admitted` says; it reads the clock once to admit. -/
theorem wp_admission {J : List Record} {signed : Json} {s : Machine World}
    (hfacts : StoreFacts J s.world.store) {ok : Except Reason SignedIntent → Machine World → Prop}
    {bad : Fault → Machine World → Prop}
    (hrefused : ∀ reason k, C.admitted s.world signed = .error reason →
      ok (.error reason) ⟨{ s.world with tick := s.world.tick + k }, s.budget⟩)
    (hadmitted : ∀ si, C.admitted s.world signed = .ok si →
      ok (.ok si) ⟨{ s.world with tick := s.world.tick + 1 }, s.budget⟩)
    (hfull : Full s.world → bad .canonicalization s) : (C.admission signed).wp ok bad s := by
  unfold admission admitted at *
  cases hsi : SignedIntent.ofJson? signed with
  | none => exact hrefused _ 0 (by rw [hsi])
  | some si =>
    simp only [hsi] at hrefused hadmitted ⊢
    cases hw : window? (P := P) si.intent with
    | none => exact hrefused _ 0 (by rw [hw])
    | some window =>
      cases hf : formRefusal si.intent with
      | some reason => exact hrefused _ 0 (by rw [hw, hf])
      | none =>
        simp only [hw, hf, snapshot, wp_bind, wp_read] at hrefused hadmitted ⊢
        cases hsnap : s.world.store.snapshot P with
        | none => exact hfull (hfacts.full_of_snapshot hsnap)
        | some snap =>
          rw [wp_ofOption_some, (Store.snapshot_eq_some hsnap).1]
          cases hk : C.keyRefusal si s.world.store.ns with
          | some reason => exact hrefused _ 0 (by rw [hk])
          | none =>
            simp only [hk, readClock, wp_bind, wp_read, wp_update, wp_pure]
              at hrefused hadmitted ⊢
            cases ht : timeRefusal window (C.clock s.world.tick) with
            | some reason => exact hrefused _ 1 (by rw [ht])
            | none => exact hadmitted _ (by rw [ht])

/-! ## The protocol run -/

section Run

variable {w : World} {signed : Json} {si : SignedIntent} {pre : Snapshot}

/-- An admitted value whose id is new and whose precondition holds. -/
structure Ready (C : Coordinator P) (w : World) (signed : Json) (si : SignedIntent)
    (pre : Snapshot) : Prop extends Admits C w signed si where
  bound : boundRecords w.journal (intentIdOf signed) = []
  snapshot : w.store.snapshot P = some pre
  generation : (pre.generation : ℤ) = si.intent.expectedGeneration
  root : pre.root = si.intent.expectedRoot

/-- The PREPARED body of an attempt. -/
abbrev Snapshot.prepared (pre : Snapshot) (si : SignedIntent) (admittedAt commitment : PyStr) :
    PreparedBody :=
  ⟨si, admittedAt, pre.storeId, pre.generation, pre.root, pre.entries, commitment⟩

/-- What PREPARED takes from the platform and from the clock. -/
structure Drafted (C : Coordinator P) (w : World) (si : SignedIntent)
    (hash admittedAt commitment : PyStr) : Prop where
  hash : P.digest si.payload = some hash
  admittedAt : P.formatTime (C.clock (w.tick + 1)) = some admittedAt
  commitment : P.payloadCommitment (.str si.intent.op) (.str si.intent.key)
    (.str si.intent.value) = some commitment

variable {hash admittedAt commitment : PyStr}

namespace Ready

variable (h : Ready C w signed si pre)

include h

lemma known : intentIdOf signed ≠ "unknown" := by
  obtain ⟨window, hwindow, -⟩ := h.time
  have huuid := (window?_eq_some hwindow).2.1
  rw [intentIdOf_eq h.shape]
  intro hid
  rw [hid, isUuid_unknown] at huuid
  exact Bool.false_ne_true huuid

lemma fresh : binding w.journal (intentIdOf signed) = [] := by
  have hbound := h.bound
  rwa [boundRecords, if_pos h.known] at hbound

lemma encodable_payload : si.payload.encodable = true :=
  encodable_payload_of_verified (keyRefusal_eq_none h.key).2.2

lemma exists_hash :
    ∃ hash, intentHashOf P signed = some hash ∧ P.digest si.payload = some hash := by
  obtain ⟨hash, hhash⟩ := P.exists_digest h.encodable_payload
  exact ⟨hash, by rw [intentHashOf_eq h.shape, hhash], hhash⟩

lemma exists_commitment :
    ∃ c, P.payloadCommitment (.str si.intent.op) (.str si.intent.key) (.str si.intent.value) =
      some c := by
  have hop := encodable_field? h.encodable_payload si.reads.op
  have hkey := encodable_field? h.encodable_payload si.reads.key
  have hvalue := encodable_field? h.encodable_payload si.reads.value
  refine P.exists_digest (encodable_obj ?_)
  simp only [encodable_str] at hop hkey hvalue
  simp [hop, hkey, hvalue]

/-- The PREPARED body of the attempt can be encoded. -/
lemma encodable_prepared (hfacts : StoreFacts w.journal w.store)
    (hdrafted : Drafted C w si hash admittedAt commitment) :
    (Body.toJson ⟨some hash, .prepared (pre.prepared si admittedAt commitment)⟩).encodable =
      true := by
  obtain ⟨-, hkid, hverify⟩ := keyRefusal_eq_none h.key
  have henv : si.envelope.encodable = true := by
    refine encodable_envelope_of_verified ?_ hkid hverify
    rw [(SignedIntent.ofJson?_eq_some h.shape).1]
    exact (SignedIntent.ofJson?_eq_some h.shape).2
  have hauth := encodable_field? h.encodable_payload si.reads.authorityKid
  obtain ⟨hgen, hent, hroot⟩ := Store.encodable_of_snapshot h.snapshot
  have hstore : pre.storeId.encodable = true := by
    rw [(Store.snapshot_eq_some h.snapshot).2.1]
    exact hfacts.storeId
  simp only [encodable_str] at hauth
  simp [Body.toJson, optStr, Detail.fields, PreparedBody.fields, P.encodable_digest hdrafted.hash,
    henv, hauth, P.encodable_formatTime hdrafted.admittedAt, hstore, hgen, hroot, hent,
    P.encodable_digest hdrafted.commitment]

/-- The attempt its PREPARED record begins. -/
theorem begins {a : Attempt} (hid : a.id = intentIdOf signed)
    (hbody : a.body = pre.prepared si admittedAt commitment)
    (hdrafted : Drafted C w si a.hash admittedAt commitment) :
    Begins C w.tick w.journal w.store a := by
  have hns := (Store.snapshot_eq_some h.snapshot).1
  refine ⟨hid ▸ h.fresh, hid ▸ h.known, ?_, ?_, ?_, ?_, ?_, ?_, ?_, ?_, ?_, ?_⟩ <;>
    simp only [Attempt.intent, hbody]
  · rw [hid, intentIdOf_eq h.shape]
  · exact hdrafted.hash
  · exact h.form
  · exact h.key
  · exact h.time
  · exact hdrafted.admittedAt
  · rw [h.snapshot, ← hns]
  · exact h.generation
  · exact h.root
  · exact hdrafted.commitment

end Ready

/-- What every submission leaves, whether it returns or stops: a home with records added,
storage transactions only for intents that were prepared, and a PREPARED record only for the
submitted value, admitted at the clock reading it started with. -/
structure StepFacts (C : Coordinator P) (signed : Json) (w w' : World) : Prop where
  home : Home C w'
  grown : Grown w w'
  journal : w.journal <+: w'.journal
  executions : ∀ e ∈ w'.executions, e ∈ w.executions ∨
    ∃ r ∈ w'.journal, r.kind = .prepared ∧ r.intentId = e.1 ∧ r.body.intentHash = e.2
  prepared : ∀ r ∈ w'.journal, r.kind = .prepared → r ∈ w.journal ∨
    ∃ J S a, Begins C w.tick J S a ∧ a.record = r ∧ SignedIntent.ofJson? signed = some a.body.signed

/-- Nothing of the home has changed, whatever the clock. -/
structure Unmoved (w w' : World) : Prop where
  journal : w'.journal = w.journal
  store : w'.store = w.store
  executions : w'.executions = w.executions

lemma Unmoved.stepFacts (h : Unmoved w w') (hchain : Chained P w.journal)
    (hsettled : Settled C w.journal w.store) : StepFacts C signed w w' := by
  obtain ⟨hj, hs, he⟩ := h
  refine ⟨⟨hj ▸ hchain, .inl (by rwa [hj, hs])⟩, ?_, by rw [hj], ?_, ?_⟩
  · exact ⟨by rw [hj]; exact Nat.le_add_right _ _, by rw [hs]; exact Nat.le_add_right _ _⟩
  · exact fun e hmem => .inl (he ▸ hmem)
  · exact fun r hr _ => .inl (hj ▸ hr)

lemma Block.eq_record_of_prepared
    (h : Block C S a st rs S') (hr : r ∈ rs) (hk : r.kind = .prepared) :
    r = a.record := by
  have hhead := h.head
  cases rs with
  | nil => simp at hr
  | cons x rest =>
    rw [List.head?_cons] at hhead
    rcases mem_cons.mp hr with rfl | hr
    · exact some.inj hhead
    · refine absurd hk (st.tail_kinds_ne _ ?_)
      rw [← h.kinds]
      exact mem_map_of_mem hr

/-- The facts hold wherever the attempt of the submission has got to. -/
lemma At.stepFacts {a : Attempt} {st : Stage} {w' : World}
    (hsettled : Settled C w.journal w.store) (hb : Begins C w.tick w.journal w.store a)
    (hsi : SignedIntent.ofJson? signed = some a.body.signed)
    (hat : At C w.journal w.store a st w')
    (hexec : w'.executions = w.executions ∨
      w'.executions = w.executions ++ [(a.id, some a.hash)]) : StepFacts C signed w w' := by
  obtain ⟨rs, hj, hblock⟩ := hat.block
  have hrec : a.record ∈ w'.journal := hj ▸ mem_append_right _ hblock.record_mem
  refine ⟨Reached.home hsettled hb ⟨st, rfl, rfl, hat⟩, hat.grown le_rfl le_rfl,
    hj ▸ prefix_append _ _,
    fun e he => ?_, fun r hr hk => ?_⟩
  · rcases hexec with hexec | hexec
    · exact .inl (hexec ▸ he)
    · rw [hexec] at he
      rcases mem_append.mp he with he | he
      · exact .inl he
      · obtain rfl := mem_singleton.mp he
        exact .inr ⟨a.record, hrec, a.kind_record, rfl, by rw [a.body_eq]⟩
  · rw [hj] at hr
    rcases mem_append.mp hr with hr | hr
    · exact .inl hr
    · obtain rfl := hblock.eq_record_of_prepared hr hk
      exact .inr ⟨w.journal, w.store, a, hb, rfl, hsi⟩

/-- PREPARED is journaled. -/
lemma wp_prepare (hchain : Chained P w.journal) (hsettled : Settled C w.journal w.store)
    (h : Ready C w signed si pre) {s : Machine World}
    (hw : s.world = { w with tick := w.tick + 1 + 1 })
    (hdrafted : Drafted C w si hash admittedAt commitment) :
    (C.append (intentIdOf signed)
      ⟨some hash, .prepared (pre.prepared si admittedAt commitment)⟩).wp
      (fun _ s' => ∃ a, Begins C w.tick w.journal w.store a ∧ a.body.signed = si ∧
        a.id = intentIdOf signed ∧ a.hash = hash ∧ At C w.journal w.store a .prepared s'.world ∧
        Kept s s')
      (fun e s' => StepFacts C signed w s'.world ∧ Excused C s e s'.world) s := by
  have hid : (intentIdOf signed).encodable = true := by
    rw [intentIdOf_eq h.shape]
    exact encodable_field? h.encodable_payload si.reads.intentId
  have hjournal : s.world.journal = w.journal := by rw [hw]
  refine wp_append (.inr ?_) (fun r stamp hstamp hr _ => ?_) fun e he => ⟨?_, ?_⟩
  · rw [hjournal, h.fresh]
    rfl
  · obtain ⟨hdraft, -⟩ := nextRecord_eq_some hr
    let a : Attempt := ⟨r, pre.prepared si admittedAt commitment, hash,
      by rw [hdraft, nextDraft]⟩
    have haid : a.id = intentIdOf signed := by
      show r.intentId = _
      rw [hdraft, nextDraft]
    refine ⟨a, h.begins haid rfl hdrafted, rfl, haid, rfl,
      ⟨chained_concat (hjournal ▸ hchain) hr, [r], by rw [hjournal], ?_⟩,
      ⟨prefix_append _ _, rfl, fun hb => by simp [hb]⟩⟩
    have hbody : r.body = _ := a.body_eq
    refine ⟨by simp [Draft.kind, hbody, Detail.kind, Stage.kinds], rfl, ?_, ?_, ?_, ?_⟩
    · simp only [mem_singleton, forall_eq]
      exact ⟨rfl, by rw [hbody]⟩
    · rw [hw]
      rfl
    · simp [hbody]
    · simp [hbody]
  · rw [hw]
    exact Unmoved.stepFacts ⟨rfl, rfl, rfl⟩ hchain hsettled
  · exact he.excused (hjournal ▸ hchain) hid
      (h.encodable_prepared hsettled.storeFacts hdrafted)

/-- The COMMIT of the storage transaction takes a COMMITTING attempt to a stored one. -/
theorem Block.commit {S S' : Store} {a : Attempt} {rs : List Record}
    (h : Block C S a .committing rs S) (hc : Commits P S a S') :
    Block C S a .stored rs S' := by
  have hnone : ∀ r ∈ rs, r.body.detail.kind ∈ [Kind.prepared, .committing] :=
    fun r hr => h.kind_mem hr
  refine ⟨h.kinds, h.head, h.same, hc, fun r hr cb hcb => ?_, fun r hr cert hcert => ?_⟩
  · have := hnone r hr
    simp [hcb, Detail.kind] at this
  · have := hnone r hr
    simp [hcert, Detail.kind] at this

/-- The storage transaction of a prepared attempt: it is stored, or stopped before its
COMMIT, but never refused. -/
lemma wp_applyUpsert {J0 : List Record} {S0 : Store} {n : ℕ} {a : Attempt} {s : Machine World}
    (hs : StoreFacts J0 S0) (hb : Begins C n J0 S0 a) (hat : At C J0 S0 a .prepared s.world) :
    (C.applyUpsert a.id (some a.hash) a.intent).wp (fun _ s' => At C J0 S0 a .stored s'.world ∧
        s'.world.executions = s.world.executions ++ [(a.id, some a.hash)] ∧
        (s.budget = none → s'.budget = none))
      (fun e s' => preconditionReason e = none ∧ (∃ st, At C J0 S0 a st s'.world) ∧
        s'.world.executions = s.world.executions ++ [(a.id, some a.hash)] ∧
        Excused C s e s'.world) s := by
  obtain ⟨rs, hj, hblock⟩ := hat.block
  have hS : s.world.store = S0 := hblock.store
  have hat' : At C J0 S0 a .prepared
      { s.world with executions := s.world.executions ++ [(a.id, some a.hash)] } :=
    hat.congr rfl rfl
  have htx := hb.transaction hs
  rw [← hS] at htx
  simp only [applyUpsert, wp_bind, wp_update, wp_read]
  rcases htx with ⟨S', post, htx, hc⟩ | ⟨htx, hfull⟩
  · simp only [htx, wp_bind]
    refine wp_mono (wp_advance_plain hb (s := ⟨_, s.budget⟩) hat' .committing
      (.inl rfl) rfl rfl) (fun _ s' h => ?_) fun e s' h => ?_
    · obtain ⟨hchain, rs', hj', hblock'⟩ := h.1
      have hS' : s'.world.store = S0 := hblock'.store
      rw [wp_persist]
      refine ⟨fun hbudget => ?_, fun _ => ?_⟩
      · refine ⟨rfl, ⟨_, h.1⟩, h.2.1.executions, .inl ⟨rfl, fun hnone => ?_⟩⟩
        rw [h.2.1.budget hnone] at hbudget
        exact some_ne_none 0 hbudget.symm
      · refine ⟨⟨hchain, rs', hj', ?_⟩, h.2.1.executions, fun hnone => ?_⟩
        · rw [hS'] at hblock'
          exact hblock'.commit (hS ▸ hc)
        · rw [written, h.2.1.budget hnone, map_none]
    · refine ⟨?_, ⟨_, h.1⟩, h.2.1.executions, h.2.2⟩
      rcases h.2.2 with ⟨rfl, -⟩ | ⟨rfl, -⟩ | ⟨rfl | rfl, -⟩ <;> rfl
  · simp only [htx, wp_throw]
    exact ⟨rfl, ⟨_, hat'⟩, trivial, .inr (.inr ⟨.inr rfl, .inr hfull⟩)⟩

end Run

/-! ## The answer -/

/-- The outcome states what the journal `J` holds of the intent: the state its records
replay to, and the certificate if there is one. -/
structure Answers (J : List Record) (id : PyStr) (replayed : Bool) (out : Outcome) : Prop where
  intentId : out.intentId = id
  replayed : out.replayed = replayed
  state : stateAfter ((binding J id).map fun r => r.kind) = some out.state
  terminal : out.state.terminal = true
  certificate : ∀ cert, out.certificate = some cert ↔
    ∃ r ∈ J, r.intentId = id ∧ r.body.detail = .finalized cert

/-- The last record of a closed attempt, and what the others are not. -/
lemma Stage.closed_kinds {st : Stage} (h : st.closed = true) :
    (st.kinds.getLast? = some .finalized ∧ st.state = .finalized ∨
      st.kinds.getLast? = some .aborted ∧ st.state = .aborted) ∧
      .finalized ∉ st.kinds.dropLast := by
  decide +revert

/-- The FINALIZED record of a closed attempt is its last one. -/
lemma Block.getLast?_of_finalized {S S' : Store} {a : Attempt} {st : Stage} {rs : List Record}
    (h : Block C S a st rs S') (hst : st.closed = true) {r : Record} (hr : r ∈ rs)
    (hk : r.kind = .finalized) : rs.getLast? = some r := by
  obtain ⟨init, last, rfl⟩ : ∃ init last, rs = init ++ [last] := by
    rcases eq_nil_or_concat rs with rfl | ⟨init, last, rfl⟩
    · simp at hr
    · exact ⟨init, last, concat_eq_append⟩
  rcases mem_append.mp hr with hr | hr
  · have hdrop : init.map (fun r => r.kind) = st.kinds.dropLast := by
      rw [← h.kinds, map_append, map_singleton, dropLast_concat]
    exact absurd (hdrop ▸ hk ▸ mem_map_of_mem hr) (Stage.closed_kinds hst).2
  · rw [mem_singleton.mp hr, List.getLast?_concat]

/-- `_result` states what the journal holds of a closed attempt, and changes nothing. -/
lemma wp_result {S S' : Store} {a : Attempt} {st : Stage} {rs : List Record}
    {s : Machine World} {replayed : Bool}
    (hrs : binding s.world.journal a.id = rs) (hblock : Block C S a st rs S')
    (hst : st.closed = true) :
    (result a.id replayed).wp (fun out s' => s' = s ∧ Answers s.world.journal a.id replayed out)
      (fun _ _ => False) s := by
  obtain ⟨last, hlast⟩ : ∃ last, rs.getLast? = some last :=
    ⟨_, List.getLast?_eq_some_getLast (ne_nil_of_mem hblock.record_mem)⟩
  have hlastKind : st.kinds.getLast? = some last.kind := by
    rw [← hblock.kinds, List.getLast?_map, hlast, map_some]
  have hmem : ∀ r, r ∈ s.world.journal → r.intentId = a.id → ∀ cert,
      r.body.detail = .finalized cert → r ∈ rs ∧ r.kind = .finalized := by
    intro r hr hid cert hcert
    have hk : r.kind = .finalized := by rw [Draft.kind, hcert]; rfl
    exact ⟨hrs ▸ mem_binding.mpr ⟨hr, hid, by rw [hk]; rfl⟩, hk⟩
  have hlastMem : last ∈ s.world.journal ∧ last.intentId = a.id := by
    have := mem_of_getLast? hlast
    rw [← hrs] at this
    exact ⟨(mem_binding.mp this).1, (mem_binding.mp this).2.1⟩
  have hstate : stateAfter ((binding s.world.journal a.id).map fun r => r.kind) =
      some st.state := by
    rw [hrs, hblock.kinds, Stage.stateAfter_kinds]
  simp only [result, wp_bind, wp_read, hrs, hblock.kinds, Stage.stateAfter_kinds, hlast,
    wp_ofOption_some]
  rcases (Stage.closed_kinds hst).1 with ⟨hk, hs⟩ | ⟨hk, hs⟩
  · -- finalized: the certificate is the last record's
    obtain ⟨cert, hcert⟩ : ∃ cert, last.body.detail = .finalized cert := by
      have hlk : last.body.detail.kind = .finalized := mem_unique hlastKind hk
      cases hd : last.body.detail <;> simp [hd, Detail.kind] at hlk
      exact ⟨_, rfl⟩
    simp only [hs, hcert, wp_pure, true_and]
    refine ⟨rfl, rfl, hs ▸ hstate, rfl, fun cert' => ⟨fun h => ?_, ?_⟩⟩
    · exact ⟨last, hlastMem.1, hlastMem.2, by rw [hcert, some.inj h]⟩
    · rintro ⟨r, hr, hid, hd⟩
      obtain ⟨hr', hrk⟩ := hmem r hr hid cert' hd
      have := hblock.getLast?_of_finalized hst hr' hrk
      rw [mem_unique hlast this, hd] at hcert
      rw [Detail.finalized.inj hcert]
  · -- aborted: there is no certificate
    simp only [hs, wp_pure, true_and]
    refine ⟨rfl, rfl, hs ▸ hstate, rfl, fun cert' => ⟨fun h => by simp at h, ?_⟩⟩
    rintro ⟨r, hr, hid, hd⟩
    obtain ⟨hr', hrk⟩ := hmem r hr hid cert' hd
    have hlr := hblock.getLast?_of_finalized hst hr' hrk
    rw [mem_unique hlast hlr, hrk, hk] at hlastKind
    simp at hlastKind

/-- An admitted intent whose precondition holds is finalized. -/
theorem wp_attempt {w : World} {signed : Json} {si : SignedIntent} {pre : Snapshot}
    {budget : Option ℕ} (hchain : Chained P w.journal) (hsettled : Settled C w.journal w.store)
    (h : Ready C w signed si pre) :
    (C.attempt si (intentIdOf signed) (intentHashOf P signed) pre).wp
      (fun out s' => ∃ a, Begins C w.tick w.journal w.store a ∧ a.body.signed = si ∧
        a.id = intentIdOf signed ∧ At C w.journal w.store a (.finalized false) s'.world ∧
        s'.world.executions = w.executions ++ [(a.id, some a.hash)] ∧
        Answers s'.world.journal (intentIdOf signed) false out)
      (fun e s' => StepFacts C signed w s'.world ∧ Excused C ⟨w, budget⟩ e s'.world)
      ⟨{ w with tick := w.tick + 1 }, budget⟩ := by
  have hfacts := hsettled.storeFacts
  obtain ⟨hash, hhash, hdigest⟩ := h.exists_hash
  obtain ⟨commitment, hcommit⟩ := h.exists_commitment
  simp only [attempt, now, readClock, wp_bind, wp_read, wp_update, wp_pure,
    hhash, hcommit, wp_ofOption_some, wp_tryCatch]
  cases hadmitted : P.formatTime (C.clock (w.tick + 1)) with
  | none =>
    refine ⟨Unmoved.stepFacts ⟨rfl, rfl, rfl⟩ hchain hsettled, .inr (.inl ⟨rfl, w.tick + 1, ?_⟩)⟩
    simpa [Platform.formatTime] using hadmitted
  | some admittedAt =>
    rw [wp_ofOption_some]
    refine wp_mono (wp_prepare hchain hsettled h (s := ⟨_, budget⟩) rfl
      ⟨hdigest, hadmitted, hcommit⟩) (fun _ s' hp => ?_) fun e s' hp => hp
    obtain ⟨a, hb, rfl, haid, rfl, hat, hkept⟩ := hp
    rw [← haid]
    have hstep : ∀ {st : Stage} {w' : World}, At C w.journal w.store a st w' →
        w'.executions = w.executions ++ [(a.id, some a.hash)] → StepFacts C signed w w' :=
      fun hat' hex => hat'.stepFacts hsettled hb h.shape (.inr hex)
    refine wp_mono (wp_applyUpsert hfacts hb hat) (fun _ s'' hu => ?_) fun e s'' hu => ?_
    · -- the transaction is stored, so it is confirmed, finalized and reported
      obtain ⟨hat', hexec, hbudget⟩ := hu
      rw [hkept.executions] at hexec
      refine wp_mono (wp_confirmCommit hfacts hb (u := false) hat') (fun _ s3 hc => ?_)
        fun e s3 hc => ⟨?_, ?_⟩
      · obtain ⟨rs, hj, hblock⟩ := hc.1.block
        refine wp_mono (wp_result (hb.binding_eq hj hblock) hblock
          rfl) (fun out s4 hr => ?_) fun _ _ hF => hF.elim
        obtain ⟨rfl, hans⟩ := hr
        exact ⟨a, hb, rfl, rfl, hc.1, hc.2.1.executions.trans hexec, hans⟩
      · rcases hc.1 with hat'' | hat''
        · exact hstep hat'' (hc.2.1.executions.trans hexec)
        · exact hstep hat'' (hc.2.1.executions.trans hexec)
      · refine hc.2.2.imp_left fun hk => ⟨hk.1, fun hnone => hk.2 (hbudget (hkept.budget hnone))⟩
    · -- the transaction is never refused
      obtain ⟨hreason, ⟨st, hat'⟩, hexec, hexc⟩ := hu
      rw [hkept.executions] at hexec
      simp only [hreason, wp_throw]
      exact ⟨hstep hat' hexec, hkept.excused hexc⟩

/-! ## Rejections -/

/-- One record that belongs to no protocol run was added, and nothing else has changed. -/
structure RejectedWith (w w' : World) (r : Record) : Prop where
  journal : w'.journal = w.journal ++ [r]
  store : w'.store = w.store
  executions : w'.executions = w.executions

/-- A fault of a submission: excused, or the rejection could not be recorded because the id
cannot be encoded. -/
def SubmitExcused (C : Coordinator P) (signed : Json) (s : Machine World) (e : Fault)
    (w' : World) : Prop :=
  Excused C s e w' ∨ (e = .canonicalization ∧ (intentIdOf signed).encodable = false)

lemma encodable_optStr_intentHashOf (signed : Json) :
    (optStr (intentHashOf P signed)).encodable = true := by
  cases h : intentHashOf P signed with
  | none => rfl
  | some d =>
    unfold intentHashOf at h
    split at h
    · exact P.encodable_digest h
    · simp at h

section Reject

variable {w : World} {signed : Json} {s : Machine World} {reason : Reason}
  (hchain : Chained P w.journal) (hsettled : Settled C w.journal w.store)

include hchain hsettled

/-- A rejection adds its record, or stops with nothing recorded. -/
lemma wp_appendRejection (hd : d.kind.binding = false) (hw : Unmoved w s.world)
    (henc : (Body.toJson ⟨intentHashOf P signed, d⟩).encodable = true) :
    (C.append (intentIdOf signed) ⟨intentHashOf P signed, d⟩).wp
      (fun _ s' => (∃ r, RejectedWith w s'.world r ∧ r.intentId = intentIdOf signed ∧
        r.body = ⟨intentHashOf P signed, d⟩) ∧ Home C s'.world)
      (fun e s' => StepFacts C signed w s'.world ∧ SubmitExcused C signed s e s'.world) s := by
  refine wp_append (.inl hd) (fun r stamp hstamp hr _ => ?_) fun e hfault => ⟨?_, ?_⟩
  · obtain ⟨hdraft, -⟩ := nextRecord_eq_some hr
    have hbody : r.body = ⟨intentHashOf P signed, d⟩ := by rw [hdraft, nextDraft]
    have hkind : r.kind.binding = false := by rw [Draft.kind, hbody]; exact hd
    refine ⟨⟨r, ⟨by rw [hw.journal], hw.store, hw.executions⟩, by rw [hdraft, nextDraft], hbody⟩,
      chained_concat (hw.journal ▸ hchain) hr, .inl ?_⟩
    rw [hw.journal, hw.store]
    exact .rejected hsettled hkind
  · exact Unmoved.stepFacts ⟨hw.journal, hw.store, hw.executions⟩ hchain hsettled
  · cases hid : (intentIdOf signed).encodable with
    | true => exact .inl (hfault.excused (hw.journal ▸ hchain) hid henc)
    | false =>
      cases hfault with
      | killed h => exact .inl (.inl ⟨rfl, by simp [h]⟩)
      | clockRange h => exact .inl (.inr (.inl ⟨rfl, _, h⟩))
      | canonicalization => exact .inr ⟨rfl, hid⟩

/-- `_reject` records the reason and returns it. -/
lemma wp_reject (hw : Unmoved w s.world) :
    (C.reject (intentIdOf signed) (intentHashOf P signed) reason).wp
      (fun out s' => (∃ r, RejectedWith w s'.world r ∧ r.intentId = intentIdOf signed ∧
          r.body = ⟨intentHashOf P signed, .admissionRejected reason⟩) ∧ Home C s'.world ∧
        out = ⟨intentIdOf signed, .admissionRejected, false, none, some reason⟩)
      (fun e s' => StepFacts C signed w s'.world ∧ SubmitExcused C signed s e s'.world) s := by
  have henc : (Body.toJson ⟨intentHashOf P signed, .admissionRejected reason⟩).encodable =
      true := by
    simp [Body.toJson, Detail.fields, encodable_optStr_intentHashOf]
  simp only [reject, wp_bind, wp_pure]
  exact wp_mono (wp_appendRejection hchain hsettled rfl hw henc) (fun _ _ h => ⟨h.1, h.2, trivial⟩)
    fun _ _ h => h

/-- A failed precondition is recorded and returned. -/
lemma wp_rejectPrecondition {si : SignedIntent} {pre : Snapshot} (hadmits : Admits C w signed si)
    (hpre : w.store.snapshot P = some pre) (hw : Unmoved w s.world) :
    (C.rejectPrecondition si (intentIdOf signed) (intentHashOf P signed) pre reason).wp
      (fun out s' => (∃ r, RejectedWith w s'.world r ∧ r.intentId = intentIdOf signed ∧
          r.body = ⟨intentHashOf P signed, .preconditionRejected reason si pre⟩) ∧
        Home C s'.world ∧
        out = ⟨intentIdOf signed, .preconditionRejected, false, none, some reason⟩)
      (fun e s' => StepFacts C signed w s'.world ∧ SubmitExcused C signed s e s'.world) s := by
  obtain ⟨-, hkid, hverify⟩ := keyRefusal_eq_none hadmits.key
  obtain ⟨henv, hkeys⟩ := SignedIntent.ofJson?_eq_some hadmits.shape
  have hsi := encodable_envelope_of_verified (henv ▸ hkeys) hkid hverify
  obtain ⟨hgen, -, hroot⟩ := Store.encodable_of_snapshot hpre
  have henc : (Body.toJson ⟨intentHashOf P signed,
      .preconditionRejected reason si pre⟩).encodable = true := by
    simp [Body.toJson, Detail.fields, encodable_optStr_intentHashOf, hsi, hgen, hroot]
  simp only [rejectPrecondition, wp_bind, wp_pure]
  exact wp_mono (wp_appendRejection hchain hsettled rfl hw henc) (fun _ _ h => ⟨h.1, h.2, trivial⟩)
    fun _ _ h => h

end Reject

/-! ## Submissions -/

/-- What a submission that returned has done to the settled home `w`. -/
def CarriesOut (C : Coordinator P) (signed : Json) (w : World) (out : Outcome) (w' : World) :
    Verdict → Prop
  | .replay => w'.journal = w.journal ∧ w'.store = w.store ∧ w'.executions = w.executions ∧
    Answers w.journal (intentIdOf signed) true out
  | .refuse reason => (∃ r, RejectedWith w w' r ∧ r.intentId = intentIdOf signed ∧
      r.body = ⟨intentHashOf P signed, .admissionRejected reason⟩) ∧
    out = ⟨intentIdOf signed, .admissionRejected, false, none, some reason⟩
  | .precondition si pre reason => (∃ r, RejectedWith w w' r ∧ r.intentId = intentIdOf signed ∧
      r.body = ⟨intentHashOf P signed, .preconditionRejected reason si pre⟩) ∧
    out = ⟨intentIdOf signed, .preconditionRejected, false, none, some reason⟩
  | .attempt si _ => ∃ a, Begins C w.tick w.journal w.store a ∧ a.body.signed = si ∧
    SignedIntent.ofJson? signed = some si ∧ a.id = intentIdOf signed ∧
    At C w.journal w.store a (.finalized false) w' ∧
    w'.executions = w.executions ++ [(a.id, some a.hash)] ∧
    Answers w'.journal (intentIdOf signed) false out

/-- A submission returned, with its verdict carried out. -/
def Submitted (C : Coordinator P) (signed : Json) (s : Machine World) (out : Outcome)
    (s' : Machine World) : Prop :=
  ∃ v, C.verdict s.world signed = some v ∧ CarriesOut C signed s.world out s'.world v ∧
    Home C s'.world

/-- A submission stopped for an excuse. -/
def Stopped (C : Coordinator P) (signed : Json) (s : Machine World) (e : Fault)
    (s' : Machine World) : Prop :=
  StepFacts C signed s.world s'.world ∧ SubmitExcused C signed s e s'.world

section Submit

variable {s : Machine World} {signed : Json} (hchain : Chained P s.world.journal)
  (hsettled : Settled C s.world.journal s.world.store)

include hchain hsettled

lemma wp_submit_refuse (hv : C.verdict s.world signed = some (.refuse reason)) :
    (C.reject (intentIdOf signed) (intentHashOf P signed) reason).wp (Submitted C signed s)
      (Stopped C signed s) ⟨{ s.world with tick := s.world.tick + k }, s.budget⟩ :=
  wp_mono (wp_reject hchain hsettled ⟨rfl, rfl, rfl⟩)
    (fun _ _ h => ⟨_, hv, ⟨h.1, h.2.2⟩, h.2.1⟩) fun _ _ h => h

/-- The id is bound: a conflict, a bad signature, or the stored answer. -/
lemma wp_submitLocked_bound
    (hbound : boundRecords s.world.journal (intentIdOf signed) = first :: rest) :
    (C.submitLocked signed).wp (Submitted C signed s) (Stopped C signed s) s := by
  have hv : C.verdict s.world signed = some (C.judgeBound first signed) := by
    simp only [verdict, hbound]
  simp only [submitLocked, wp_bind, wp_read, hbound]
  unfold judgeBound at hv
  by_cases hhash : first.body.intentHash ≠ intentHashOf P signed
  · rw [if_pos hhash] at hv ⊢
    exact wp_submit_refuse hchain hsettled (k := 0) hv
  rw [if_neg hhash] at hv ⊢
  by_cases hverify : (!P.verifySigned signed C.authorityKeys) = true
  · rw [if_pos hverify] at hv ⊢
    exact wp_submit_refuse hchain hsettled (k := 0) hv
  rw [if_neg hverify] at hv ⊢
  have hbinding : binding s.world.journal (intentIdOf signed) = first :: rest := by
    unfold boundRecords at hbound
    split_ifs at hbound
    exact hbound
  rcases hsettled.binding_cases (intentIdOf signed) with hnil |
    ⟨J0, S0, n, a, st, rs, S1, -, hblock, hst, haid, hrs⟩
  · rw [hnil] at hbinding
    simp at hbinding
  · rw [← haid] at hrs ⊢
    refine wp_mono (wp_result hrs hblock hst) (fun out s' h => ?_) fun _ _ hF => hF.elim
    obtain ⟨rfl, hans⟩ := h
    exact ⟨_, hv, ⟨rfl, rfl, rfl, haid ▸ hans⟩, hchain, .inl hsettled⟩

/-- The intent is admitted: its precondition fails, or it is run. -/
lemma wp_submit_admitted {si : SignedIntent} {pre : Snapshot}
    (hbound : boundRecords s.world.journal (intentIdOf signed) = [])
    (hadmits : Admits C s.world signed si) (hsnap : s.world.store.snapshot P = some pre)
    (hv : C.verdict s.world signed = some (judgePrecondition si pre)) :
    (if (pre.generation : ℤ) ≠ si.intent.expectedGeneration then
        C.rejectPrecondition si (intentIdOf signed) (intentHashOf P signed) pre .staleGeneration
      else if pre.root ≠ si.intent.expectedRoot then
        C.rejectPrecondition si (intentIdOf signed) (intentHashOf P signed) pre .rootMismatch
      else C.attempt si (intentIdOf signed) (intentHashOf P signed) pre).wp (Submitted C signed s)
      (Stopped C signed s) ⟨{ s.world with tick := s.world.tick + 1 }, s.budget⟩ := by
  unfold judgePrecondition at hv
  by_cases hgen : (pre.generation : ℤ) ≠ si.intent.expectedGeneration
  · rw [if_pos hgen] at hv ⊢
    exact wp_mono (wp_rejectPrecondition hchain hsettled hadmits hsnap ⟨rfl, rfl, rfl⟩)
      (fun _ _ h => ⟨_, hv, ⟨h.1, h.2.2⟩, h.2.1⟩) fun _ _ h => h
  rw [if_neg hgen] at hv ⊢
  by_cases hroot : pre.root ≠ si.intent.expectedRoot
  · rw [if_pos hroot] at hv ⊢
    exact wp_mono (wp_rejectPrecondition hchain hsettled hadmits hsnap ⟨rfl, rfl, rfl⟩)
      (fun _ _ h => ⟨_, hv, ⟨h.1, h.2.2⟩, h.2.1⟩) fun _ _ h => h
  rw [if_neg hroot] at hv ⊢
  have hready : Ready C s.world signed si pre :=
    ⟨hadmits, hbound, hsnap, not_not.mp hgen, not_not.mp hroot⟩
  refine wp_mono (wp_attempt hchain hsettled hready) (fun out s' h => ?_)
    fun e s' h => ⟨h.1, .inl h.2⟩
  obtain ⟨a, hb, hsi, haid, hat, hexec, hans⟩ := h
  exact ⟨_, hv, ⟨a, hb, hsi, hadmits.shape, haid, hat, hexec, hans⟩,
    Reached.home hsettled hb ⟨_, rfl, rfl, hat⟩⟩

/-- The id is new: the value is refused, or its precondition fails, or it is run. -/
lemma wp_submitLocked_new (hbound : boundRecords s.world.journal (intentIdOf signed) = []) :
    (C.submitLocked signed).wp (Submitted C signed s) (Stopped C signed s) s := by
  have hfacts := hsettled.storeFacts
  simp only [submitLocked, wp_bind, wp_read, hbound]
  have hunreadable : ∀ s' : Machine World, Unmoved s.world s'.world → Full s'.world →
      Stopped C signed s .canonicalization s' := fun s' hw hfull =>
    ⟨hw.stepFacts hchain hsettled, .inl (.inr (.inr ⟨.inl rfl, hfull⟩))⟩
  refine wp_admission hfacts (fun reason k hadm => ?_) (fun si hadm => ?_) fun hfull => ?_
  · exact wp_submit_refuse hchain hsettled (by simp only [verdict, hbound, hadm])
  · simp only [snapshot, wp_bind, wp_read]
    cases hsnap : s.world.store.snapshot P with
    | none => exact hunreadable _ ⟨rfl, rfl, rfl⟩ (hfacts.full_of_snapshot hsnap)
    | some pre =>
      rw [wp_ofOption_some]
      exact wp_submit_admitted hchain hsettled hbound (admitted_eq_ok hadm) hsnap
        (by simp only [verdict, hbound, hadm, hsnap, map_some])
  · exact hunreadable s ⟨rfl, rfl, rfl⟩ hfull

/-- A submission to a settled home carries out its verdict, or stops for an excuse. -/
theorem wp_submitLocked :
    (C.submitLocked signed).wp (Submitted C signed s) (Stopped C signed s) s := by
  cases hbound : boundRecords s.world.journal (intentIdOf signed) with
  | cons first rest => exact wp_submitLocked_bound hchain hsettled hbound
  | nil => exact wp_submitLocked_new hchain hsettled hbound

end Submit

end VdbC1
