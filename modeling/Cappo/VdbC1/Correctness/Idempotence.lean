import Cappo.VdbC1.Correctness.Language
import Cappo.VdbC1.Correctness.Progress

/-!
# Resubmitted intents

An intent id is bound to the first payload that was prepared under it. Submitting that
payload again answers from the journal; anything else under the id is rejected; and the
store only ever executes the one payload. A submission recovers first, so an intent that a
crash left open is closed before it is answered for.

## Main results

* `reachable_resubmit`: what submitting a value does whose intent id has a PREPARED record;
* `submit_killed_prepared`: a crash can leave an intent with nothing but its PREPARED record.
-/

namespace VdbC1

open Coordinator

variable {P : Platform} {C : Coordinator P}

/-- What submitting `signed` does to the home `w` when its intent id has the PREPARED record
`r`: relative to the home `s1` that the submission's own recovery leaves, a payload with the
recorded hash and a good signature is answered from the journal and adds no record; any
other is rejected. Neither touches the store or starts a storage transaction. -/
def Resubmitted (C : Coordinator P) (signed : Json) (r : Record) (w : World)
    (s1 : Machine World) (out : Outcome) (w' : World) : Prop :=
  w'.store = w.store ∧ w'.executions = w.executions ∧
    if r.body.intentHash = intentHashOf P signed ∧ P.verifySigned signed C.authorityKeys = true then
      w'.journal = s1.world.journal ∧ Answers s1.world.journal (intentIdOf signed) true out
    else ∃ x, w'.journal = s1.world.journal ++ [x] ∧ x.kind = .admissionRejected ∧
      out.state = .admissionRejected ∧ out.certificate = none

/-- A PREPARED record of a settled home is the first binding record of its intent. -/
lemma Settled.head_of_prepared (h : Settled C J S) (hr : r ∈ J) (hk : r.kind = .prepared) :
    ∃ rest, boundRecords J r.intentId = r :: rest := by
  have hmem : r ∈ binding J r.intentId := mem_binding.mpr ⟨hr, rfl, by rw [hk]; rfl⟩
  rcases h.binding_cases r.intentId with hnil | ⟨_, _, _, a, st, rs, _, hb, hblock, -, hid, hrs⟩
  · simp [hnil] at hmem
  · rw [hrs] at hmem
    have hrec := hblock.eq_record_of_prepared hmem hk
    have hhead := hblock.head
    rw [boundRecords, if_pos (hid ▸ hb.known), hrs]
    cases rs with
    | nil => simp at hmem
    | cons x rest => exact ⟨rest, by rw [hrec, Option.some.inj hhead]⟩

variable {signed : Json} {w : World}

/-- A submission that returned, to a settled home with a PREPARED record of its intent. -/
lemma Submitted.resubmitted
    (hrec : Recovered C w s1.world) (hexec : s1.world.executions = w.executions)
    (h : Submitted C signed s1 out s') (hr : r ∈ s1.world.journal) (hk : r.kind = .prepared)
    (hid : r.intentId = intentIdOf signed) : Resubmitted C signed r w s1 out s'.world := by
  obtain ⟨rest, hbound⟩ := hrec.settled.head_of_prepared hr hk
  obtain ⟨v, hv, hc, -⟩ := h
  rw [hid] at hbound
  simp only [verdict, hbound, judgeBound, Option.some.injEq] at hv
  have hrefused : ∀ reason, CarriesOut C signed s1.world out s'.world (.refuse reason) →
      s'.world.store = w.store ∧ s'.world.executions = w.executions ∧
      ∃ x, s'.world.journal = s1.world.journal ++ [x] ∧ x.kind = .admissionRejected ∧
        out.state = .admissionRejected ∧ out.certificate = none := by
    rintro reason ⟨⟨x, hx, -, hbody⟩, rfl⟩
    exact ⟨hx.store.trans hrec.store, hx.executions.trans hexec, x, hx.journal,
      by rw [Draft.kind, hbody]; rfl, rfl, rfl⟩
  unfold Resubmitted
  split_ifs at hv with hhash hverify
  · subst hv
    rw [if_neg fun h => hhash h.1]
    exact hrefused _ hc
  · subst hv
    rw [if_neg fun h => by simp [h.2] at hverify]
    exact hrefused _ hc
  · subst hv
    obtain ⟨hj, hs, he, hans⟩ := hc
    rw [if_pos ⟨not_not.mp hhash, by simpa using hverify⟩]
    exact ⟨hs.trans hrec.store, he.trans hexec, hj, hans⟩

/-- At most one payload hash is executed under an intent id. -/
lemma Invariant.executed_once (h : Invariant C w)
    (he : e ∈ w.executions) (he' : e' ∈ w.executions) (hid : e.1 = e'.1) : e.2 = e'.2 := by
  obtain ⟨r, hr, hk, hrid, hrh⟩ := h.executed e he
  obtain ⟨r', hr', hk', hrid', hrh'⟩ := h.executed e' he'
  obtain ⟨hash, hhash⟩ := h.home.protocolLanguage.hash e.1
  have hmem : r ∈ binding w.journal e.1 := mem_binding.mpr ⟨hr, hrid, by rw [hk]; rfl⟩
  have hmem' : r' ∈ binding w.journal e.1 :=
    mem_binding.mpr ⟨hr', hrid'.trans hid.symm, by rw [hk']; rfl⟩
  rw [← hrh, ← hrh', hhash r hmem, hhash r' hmem']

/-- In every reachable state, a value whose intent id has a PREPARED record is answered from
the journal or rejected, and its submission fails only for an excuse; recovery adds records
to the intent only if it was in flight; and over the whole run at most one payload hash is
executed under an intent id. -/
theorem reachable_resubmit (C : Coordinator P) (w : World) (h : Reachable C w) :
    (∀ signed budget, ∀ r ∈ w.journal, r.kind = .prepared → r.intentId = intentIdOf signed →
      (C.submit signed).wp
        (fun out s' => ∃ report s₁, C.recover ⟨w, budget⟩ = (.ok report, s₁) ∧
          (¬InFlight w.journal r.intentId →
            forIntent s₁.world.journal r.intentId = forIntent w.journal r.intentId) ∧
          Resubmitted C signed r w s₁ out s'.world)
        (fun e s' => Excused C ⟨w, budget⟩ e s'.world) ⟨w, budget⟩) ∧
    ∀ e ∈ w.executions, ∀ e' ∈ w.executions, e.1 = e'.1 → e.2 = e'.2 := by
  have hinv := h.invariant
  refine ⟨fun signed budget r hr hk hid => ?_, fun e he e' he' => hinv.executed_once he he'⟩
  refine Proc.wp_mono (wp_submit hinv.home) (fun out s' h => ?_) fun e s' h => ?_
  · obtain ⟨report, s₁, hrun, hrec, hkept, hsub⟩ := h
    exact ⟨report, s₁, hrun, hrec.others r.intentId,
      hsub.resubmitted hrec hkept.executions (hkept.journal.subset hr) hk hid⟩
  · rcases h with ⟨-, -, -, -, hexc⟩ | ⟨_, s₁, -, -, hkept, -, hexc | ⟨-, hnot⟩⟩
    · exact hexc
    · exact hkept.excused hexc
    · -- the id is in the journal, so it can be encoded
      have henc := (r.encodable_iff.mp (encodable_of_chained hinv.home.chained hr).1).2.2.2.1
      rw [hid, hnot] at henc
      exact Bool.noConfusion henc

/-- A finalized intent on a home of the reference platform is submitted again. -/
theorem reachable_resubmit_finalized : ∃ w signed, ∃ r ∈ w.journal, r.kind = .prepared ∧
    r.intentId = intentIdOf signed ∧ Reachable stoppedCoordinator w ∧
    (stoppedCoordinator.submit signed).wp
      (fun _ s' => s'.world.store = w.store ∧ s'.world.executions = w.executions)
      (fun e s' => Excused stoppedCoordinator ⟨w, none⟩ e s'.world) ⟨w, none⟩ := by
  obtain ⟨signed, out, s, a, hrun, -, -, -, haid, hat⟩ := reference_finalizes (fun _ => 0)
    (fun _ => fromtimestamp_zero) le_rfl (by norm_num)
  obtain ⟨rs, hj, hblock⟩ := hat.block
  have hreach : Reachable stoppedCoordinator s.world :=
    ⟨_, _, _, [(.submit signed, none)], run_submit hrun⟩
  have hmem : a.record ∈ s.world.journal := hj ▸ hblock.record_mem
  refine ⟨s.world, signed, a.record, hmem, a.kind_record, haid, hreach, ?_⟩
  refine Proc.wp_mono ((reachable_resubmit _ s.world hreach).1 signed none a.record hmem
    a.kind_record haid) (fun _ _ h => ?_) fun _ _ h => h
  obtain ⟨_, _, -, -, hstore, hexec, -⟩ := h
  exact ⟨hstore, hexec⟩

/-! ## Intents left in flight -/

variable {s : Machine World}

/-- An append counts the budget down; it is killed only if none is left. -/
lemma wp_append_budget (C : Coordinator P) {id : PyStr} {body : Body} :
    (C.append id body).wp (fun _ s' => s.budget ≠ some 0 ∧ s'.budget = s.budget.map (· - 1))
      (fun e _ => e = .killed → s.budget = some 0) s := by
  simp only [append, now, readClock, Proc.wp_bind, Proc.wp_read, Proc.wp_ensure, Proc.wp_update,
    Proc.wp_pure]
  refine ⟨fun _ => ?_, fun _ he => by simp at he⟩
  cases P.formatTime (C.clock s.world.tick) with
  | none => exact fun he => by simp at he
  | some stamp =>
    rw [Proc.wp_ofOption_some]
    cases nextRecord P s.world.journal id body stamp with
    | none => exact fun he => by simp at he
    | some r =>
      rw [Proc.wp_ofOption_some, Proc.wp_persist]
      exact ⟨fun hb _ => hb, fun hb => ⟨hb, rfl⟩⟩

/-- In a clear environment the one excuse of a process that can be killed is that it was. -/
lemma Clear.eq_killed {w' : World} {e : Fault} (h : Clear C w) (hgrown : Grown w w')
    (he : Excused C s e w') : e = .killed := by
  have hj := hgrown.1
  have hg := hgrown.2
  rcases he with ⟨hk, -⟩ | he
  · exact hk
  · exact absurd (.inr he)
      (h.not_excused (s := ⟨w, none⟩) (e := e) rfl (hj.trans (by omega)) (hg.trans (by omega)))

/-- A process that is killed after one durable write leaves an intent with its PREPARED
record. -/
theorem submit_killed_prepared {si : SignedIntent} {pre : Snapshot} (hchain : Chained P w.journal)
    (hsettled : Settled C w.journal w.store) (hclear : Clear C w) (h : Ready C w signed si pre) :
    (C.submit signed).wp (fun _ _ => False)
      (fun _ s' => ∃ a, Begins C w.tick w.journal w.store a ∧ a.id = intentIdOf signed ∧
        intentHashOf P signed = some a.hash ∧ At C w.journal w.store a .prepared s'.world)
      ⟨w, some 1⟩ := by
  obtain ⟨hash, hhash, hdigest⟩ := h.exists_hash
  obtain ⟨commitment, hcommit⟩ := h.exists_commitment
  obtain ⟨admittedAt, hadmitted⟩ := P.exists_formatTime (hclear.clock (w.tick + 1))
  refine wp_submit_ready hchain hsettled h ?_
  simp only [attempt, now, readClock, Proc.wp_bind, Proc.wp_read, Proc.wp_update, Proc.wp_pure,
    hhash, hcommit, hadmitted, Proc.wp_ofOption_some, Proc.wp_tryCatch]
  refine Proc.wp_mono (Proc.wp_and (wp_prepare hchain hsettled h (s := ⟨_, some 1⟩) rfl
    ⟨hdigest, hadmitted, hcommit⟩) (wp_append_budget C)) (fun _ s' hp => ?_) fun e s' hp => ?_
  · -- PREPARED is the one write; the process is killed where it would journal COMMITTING
    obtain ⟨⟨a, hb, rfl, haid, rfl, hat, -⟩, -, hbudget⟩ := hp
    have hS : s'.world.store = w.store := hat.block.choose_spec.2.store
    rcases hb.transaction hsettled.storeFacts with ⟨S', post, htx, -⟩ | ⟨-, hfull⟩
    · have hat' : At C w.journal w.store a .prepared
          { s'.world with executions := s'.world.executions ++ [(a.id, some a.hash)] } :=
        hat.congr rfl rfl
      rw [← hS] at htx
      simp only [← haid, applyUpsert, Proc.wp_bind, Proc.wp_update, Proc.wp_read, htx]
      refine Proc.wp_mono (Proc.wp_and (wp_advance_plain hb (s := ⟨_, s'.budget⟩) hat' .committing
        (.inl rfl) rfl rfl) (wp_append_budget C)) (fun _ s'' hc => ?_) fun e s'' hc => ?_
      · exact absurd hbudget hc.2.1
      · obtain ⟨hat', hkept, hexc⟩ := hc.1
        obtain rfl := hclear.eq_killed (hat'.grown le_rfl le_rfl) hexc
        exact ⟨a, hb, rfl, rfl, hat'⟩
    · have := hclear.generation
      omega
  · obtain ⟨⟨hstep, hexc⟩, hbudget⟩ := hp
    have hzero := hbudget (hclear.eq_killed hstep.grown hexc)
    simp at hzero

/-- Submitting an intent in flight again adds records to it: the submission's own recovery
closes it. -/
lemma InFlight.forIntent_ne {id : PyStr} {s1 s' : Machine World} {out : Outcome}
    (h : InFlight w.journal id) (hrec : Recovered C w s1.world)
    (hstarts : w.journal <+: s1.world.journal) (hsub : Submitted C signed s1 out s') :
    forIntent s'.world.journal id ≠ forIntent w.journal id := by
  intro heq
  have hle : forIntent w.journal id <+: forIntent s1.world.journal id := hstarts.filter _
  have hle' : forIntent s1.world.journal id <+: forIntent s'.world.journal id :=
    (hsub.stepFacts hrec.settled).journal.filter _
  have hsame : forIntent s1.world.journal id = forIntent w.journal id :=
    (hle.eq_of_length_le (heq ▸ hle'.length_le)).symm
  refine hrec.settled.not_inFlight id ?_
  rwa [InFlight, binding, hsame]

/-- A crash left an intent with its PREPARED record; submitting the same signed payload again
adds a record to it. -/
theorem resubmit_adds_record : ∃ w signed out s', ∃ r ∈ w.journal, r.kind = .prepared ∧
    r.intentId = intentIdOf signed ∧ r.body.intentHash = intentHashOf Platform.reference signed ∧
    Platform.reference.verifySigned signed stoppedCoordinator.authorityKeys = true ∧
    Reachable stoppedCoordinator w ∧
    stoppedCoordinator.submit signed ⟨w, none⟩ = (.ok out, s') ∧
    forIntent s'.world.journal r.intentId ≠ forIntent w.journal r.intentId := by
  have hclear := reference_clear (fun _ => 0) fun _ => fromtimestamp_zero
  obtain ⟨signed, si, pre, hready, -⟩ := reference_ready 0 le_rfl (by norm_num)
    (fun _ => 0) (by norm_num) (by norm_num)
  have hwp := submit_killed_prepared (reference_home fun _ => 0).chained
    (reference_settled fun _ => 0) hclear hready
  have hverify := (keyRefusal_eq_none hready.key).2.2
  rw [(SignedIntent.ofJson?_eq_some hready.shape).1] at hverify
  rcases hrun : stoppedCoordinator.submit signed ⟨referenceHome, some 1⟩ with
    ⟨e | out, s⟩
  · obtain ⟨a, hb, haid, hhash, hat⟩ := Proc.bad_of_wp hwp hrun
    obtain ⟨rs, hj, hblock⟩ := hat.block
    have hreach : Reachable stoppedCoordinator s.world :=
      ⟨_, _, _, [(.submit signed, some 1)], run_submit hrun⟩
    have hgrown := hat.grown (w := referenceHome) le_rfl le_rfl
    have hclear' : Clear stoppedCoordinator s.world := by
      refine ⟨hclear.clock, ?_, ?_⟩
      · have : s.world.journal.length ≤ 5 := hgrown.1
        simp only [Json.maxSafe]
        omega
      · have : s.world.store.generation ≤ 1 := hgrown.2
        simp only [Json.maxSafe]
        omega
    obtain ⟨out, s', hsubmit, report, s₁, -, hrec, hkept, hsub⟩ := submit_returns
      hreach.invariant.home hclear' signed (haid ▸ hb.encodable_id)
    exact ⟨s.world, signed, out, s', a.record, hj ▸ hblock.record_mem, a.kind_record, haid,
      by rw [a.body_eq, hhash], hverify, hreach, hsubmit,
      (hat.inFlight hb rfl).forIntent_ne hrec hkept.journal hsub⟩
  · exact (Proc.ok_of_wp hwp hrun).elim

end VdbC1
