import Cappo.VdbC1.Correctness.Runs
import Cappo.VdbC1.Reference

/-!
# Calls return

Where the environment does not stand in the way (`Clear`), a call that is not killed
returns; `submit` needs besides that the intent id of the submitted value can be encoded. An
intent an authority made for the present state of the store is finalized.

## Main results

* `submit_returns`: when `submit` returns;
* `Submitted.encodable_id`: it does not return otherwise;
* `submit_finalizes`: an authority's intent on a settled home is finalized;
* `reference_finalizes`: there are homes and intents for which this happens.
-/

namespace VdbC1

open Coordinator Option Json

open Platform

variable {P : Platform} {C : Coordinator P}

/-- The environment stands in the way of no call: every clock reading has a `datetime`, and
the counters are below the largest integer RFC 8785 encodes. -/
structure Clear (C : Coordinator P) (w : World) : Prop where
  clock : ∀ n, fromtimestamp (C.clock n) ≠ none
  journal : (w.journal.length : ℤ) + 10 ≤ maxSafe
  generation : (w.store.generation : ℤ) + 2 < maxSafe

variable {s : Machine World}

lemma Clear.not_excused {w w' : World} (h : Clear C w) (hb : s.budget = none)
    (hj : w'.journal.length ≤ w.journal.length + 10)
    (hg : w'.store.generation ≤ w.store.generation + 2) : ¬Excused C s e w' := by
  have hjournal := h.journal
  have hgeneration := h.generation
  rintro (⟨-, hbudget⟩ | ⟨-, n, hn⟩ | ⟨-, hfull | hfull⟩)
  · exact hbudget hb
  · exact h.clock n hn
  · omega
  · omega

/-- `submit` returns, unless the environment or the intent id stands in the way. -/
theorem submit_returns {w : World} (h : Home C w) (hc : Clear C w) (signed : Json)
    (hid : (intentIdOf signed).encodable = true) :
    ∃ out s', C.submit signed ⟨w, none⟩ = (.ok out, s') ∧
      ∃ report s1, C.recover ⟨w, none⟩ = (.ok report, s1) ∧ Recovered C w s1.world ∧
        Kept ⟨w, none⟩ s1 ∧ Submitted C signed s1 out s' := by
  refine Proc.returns_of_wp (Proc.wp_mono (wp_submit h) (fun _ _ h => h) fun e s' hbad => ?_)
  rcases hbad with ⟨-, -, -, hgrown, hexc⟩ | ⟨report, s1, -, hrec, hkept, hstep, hexc | ⟨-, hnot⟩⟩
  · exact hc.not_excused rfl (by have := hgrown.1; simp only at this; omega)
      (by have := hgrown.2; simp only at this; omega) hexc
  · have hj := hrec.grown.1
    have hg := hrec.grown.2
    have hj' := hstep.grown.1
    have hg' := hstep.grown.2
    simp only at hj hg
    exact hc.not_excused (hkept.budget rfl) (by omega) (by omega) hexc
  · rw [hid] at hnot
    exact Bool.noConfusion hnot

/-- A submission returns only if its intent id can be encoded. -/
theorem Submitted.encodable_id {signed : Json} {s' : Machine World} {out : Outcome}
    (hchain : Chained P s.world.journal) (h : Submitted C signed s out s') :
    (intentIdOf signed).encodable = true := by
  have hmem : ∀ {J : List Record}, Chained P J → ∀ r ∈ J, r.intentId = intentIdOf signed →
      (intentIdOf signed).encodable = true := fun hJ r hr hid =>
    hid ▸ (r.encodable_iff.mp (encodable_of_chained hJ hr).1).2.2.2.1
  obtain ⟨v, hv, hc, hhome⟩ := h
  cases v with
  | replay =>
    cases hbound : boundRecords s.world.journal (intentIdOf signed) with
    | nil =>
      simp only [verdict, hbound] at hv
      cases hadm : C.admitted s.world signed with
      | error reason => simp [hadm] at hv
      | ok si =>
        simp only [hadm, map_eq_some_iff] at hv
        obtain ⟨pre, -, hv⟩ := hv
        unfold judgePrecondition at hv
        split_ifs at hv
    | cons first rest =>
      have hfirst : first ∈ boundRecords s.world.journal (intentIdOf signed) := by simp [hbound]
      unfold boundRecords at hfirst
      split_ifs at hfirst
      · obtain ⟨hr, hid, -⟩ := mem_binding.mp hfirst
        exact hmem hchain first hr hid
      · simp at hfirst
  | refuse | precondition =>
    obtain ⟨⟨r, hr, hid, -⟩, -⟩ := hc
    exact hmem hhome.chained r (by rw [hr.journal]; simp) hid
  | attempt si pre =>
    obtain ⟨a, hb, -, -, haid, -⟩ := hc
    exact haid ▸ hb.encodable_id

/-- On a settled home `recover` does nothing. -/
lemma recover_settled (hchain : Chained P s.world.journal)
    (hsettled : Settled C s.world.journal s.world.store) : C.recover s = (.ok [], s) := by
  have hwp : C.recover.wp (fun report s' => report = [] ∧ s' = s) (fun _ _ => False) s := by
    rw [recover, Proc.wp_bind]
    exact wp_load hchain (wp_recoverLocked_settled hsettled)
  obtain ⟨report, s', hrun, rfl, rfl⟩ := Proc.returns_of_wp hwp
  exact hrun

/-- The world a submission leaves. -/
lemma run_submit {w : World} {signed : Json} (h : C.submit signed ⟨w, budget⟩ = (out, s)) :
    run C w [(.submit signed, budget)] = s.world := by
  refine Proc.state_of_wp (fun s' => s'.world = s.world) ?_
  simp only [Call.proc, Proc.wp_bind, Proc.wp_pure]
  exact Proc.wp_mono (Proc.wp_of_run h) (fun _ _ h => by rw [h]) fun _ _ h => by rw [h]

/-! ## Intents of an authority -/

section Authority

variable {w : World} {signed : Json} {si : SignedIntent} {pre : Snapshot}

/-- On a settled home, an admitted intent whose id is new and whose precondition holds is
run at once. -/
lemma wp_submit_ready (hchain : Chained P w.journal)
    (hsettled : Settled C w.journal w.store) (h : Ready C w signed si pre)
    (hattempt : (C.attempt si (intentIdOf signed) (intentHashOf P signed) pre).wp ok bad
      ⟨{ w with tick := w.tick + 1 }, budget⟩) : (C.submit signed).wp ok bad ⟨w, budget⟩ := by
  obtain ⟨window, hwindow, htime⟩ := h.time
  have hns := (Store.snapshot_eq_some h.snapshot).1
  rw [submit, Proc.wp_bind]
  refine wp_load hchain ?_
  rw [Proc.wp_bind]
  refine Proc.wp_mono (wp_recoverLocked_settled hsettled) (fun _ s' hs' => ?_) fun _ _ h => h.elim
  rw [hs'.2]
  simp only [submitLocked, admission, readClock, snapshot, Proc.wp_bind, Proc.wp_read,
    Proc.wp_update, Proc.wp_pure, Proc.wp_ofOption_some, h.bound, h.shape, hwindow, h.form,
    h.snapshot, hns, h.key, htime, h.generation, h.root, ne_eq, not_true_eq_false, if_false]
  exact hattempt

/-- On a settled home, an admitted intent whose id is new and whose precondition holds is
finalized. -/
theorem submit_finalizes (hchain : Chained P w.journal) (hsettled : Settled C w.journal w.store)
    (hclear : Clear C w) (h : Ready C w signed si pre) :
    ∃ out s' a, C.submit signed ⟨w, none⟩ = (.ok out, s') ∧ out.state = .finalized ∧
      Begins C w.tick w.journal w.store a ∧ a.body.signed = si ∧ a.id = intentIdOf signed ∧
      At C w.journal w.store a (.finalized false) s'.world := by
  have hwp : (C.submit signed).wp
      (fun out s' => ∃ a, Begins C w.tick w.journal w.store a ∧ a.body.signed = si ∧
        a.id = intentIdOf signed ∧ At C w.journal w.store a (.finalized false) s'.world ∧
        Answers s'.world.journal (intentIdOf signed) false out) (fun _ _ => False) ⟨w, none⟩ := by
    refine wp_submit_ready hchain hsettled h ?_
    refine Proc.wp_mono (wp_attempt hchain hsettled h) (fun out s' hok => ?_) fun e s' hbad => ?_
    · obtain ⟨a, hb, hsi, haid, hat, -, hans⟩ := hok
      exact ⟨a, hb, hsi, haid, hat, hans⟩
    · have hj := hbad.1.grown.1
      have hg := hbad.1.grown.2
      exact hclear.not_excused rfl (by omega) (by omega) hbad.2
  obtain ⟨out, s', hrun, a, hb, hsi, haid, hat, hans⟩ := Proc.returns_of_wp hwp
  refine ⟨out, s', a, hrun, ?_, hb, hsi, haid, hat⟩
  obtain ⟨rs, hj, hblock⟩ := hat.block
  have hstate := hans.state
  rw [← haid, hb.binding_eq hj hblock, hblock.kinds, Stage.stateAfter_kinds] at hstate
  exact (some.inj hstate).symm

variable {sk : P.SecretKey}

variable {now : ℚ}

/-- What `make_intent` signs. -/
lemma makeIntent_eq_some {kid ns key value expectedRoot id : PyStr} {expectedGeneration ttl : ℤ}
    (h : P.makeIntent sk kid ns key value expectedGeneration expectedRoot ttl now id = some
      signed) :
    ∃ issuedAt expiresAt, P.formatTime now = some issuedAt ∧
      P.formatTime (roundDouble (now + ttl)) = some expiresAt ∧
      P.signPayload (Intent.payload ⟨"veklom.vdb.c1.intent/v1", id, ns, "UPSERT", key, value,
        expectedGeneration, expectedRoot, issuedAt, expiresAt, kid⟩) sk kid = some signed := by
  simp only [makeIntent, bind_eq_bind, bind_eq_some_iff] at h
  obtain ⟨issuedAt, hissued, expiresAt, hexpires, hsign⟩ := h
  exact ⟨issuedAt, expiresAt, hissued, hexpires, hsign⟩

/-- `make_intent` makes an intent of encodable texts for times that have a `datetime`. -/
lemma exists_makeIntent {kid ns key value expectedRoot id : PyStr} {expectedGeneration ttl : ℤ}
    (hnow : fromtimestamp now ≠ none)
    (hexpires : fromtimestamp (roundDouble (now + ttl)) ≠ none)
    (htexts : ∀ s ∈ [kid, ns, key, value, expectedRoot, id], s.encodable = true)
    (hgen : |expectedGeneration| ≤ maxSafe) (sk : P.SecretKey) :
    ∃ signed, P.makeIntent sk kid ns key value expectedGeneration expectedRoot ttl now id =
      some signed := by
  obtain ⟨issuedAt, hissued⟩ := P.exists_formatTime hnow
  obtain ⟨expiresAt, hexpires⟩ := P.exists_formatTime hexpires
  have henc : (Intent.payload ⟨"veklom.vdb.c1.intent/v1", id, ns, "UPSERT", key, value,
      expectedGeneration, expectedRoot, issuedAt, expiresAt, kid⟩).encodable = true := by
    simp only [List.forall_mem_cons, List.not_mem_nil, false_imp_iff, implies_true, and_true]
      at htexts
    simp [Intent.payload, htexts, hgen, P.encodable_formatTime hissued,
      P.encodable_formatTime hexpires]
  obtain ⟨signed, hsign, -⟩ := P.exists_signPayload henc sk (htexts kid (by simp))
  refine ⟨signed, ?_⟩
  simp only [makeIntent, hissued, hexpires, bind_eq_bind, bind_some, hsign]

/-- An intent a trusted authority made for the present state of the store, under an id that
is not taken, is ready to be run inside its window. -/
lemma makeIntent_ready {kid key value id : PyStr} {ttl : ℤ}
    (hpre : w.store.snapshot P = some pre) (hmade : P.makeIntent sk kid w.store.ns key value
      pre.generation pre.root ttl now id = some signed)
    (hkey : P.trustedKey C.authorityKeys kid = some (P.publicRaw sk)) (huuid : P.isUuid id = true)
    (hfresh : binding w.journal id = []) (hempty : key ≠ []) (hlen : key.length ≤ 256)
    (hvlen : value.length ≤ 65536) (htime : timeRefusal (stamped now, stamped
      (roundDouble (now + ttl))) (C.clock w.tick) = none) :
    ∃ si, Ready C w signed si pre ∧ window? (P := P) si.intent =
        some (stamped now, stamped (roundDouble (now + ttl))) ∧
      P.formatTime now = some si.intent.issuedAt ∧
      P.formatTime (roundDouble (now + ttl)) = some si.intent.expiresAt := by
  obtain ⟨issuedAt, expiresAt, hissued, hexpires, hsign⟩ := makeIntent_eq_some hmade
  have hverify := P.verifySigned_sign hsign hkey
  obtain ⟨si, hsi, hi, hkid⟩ := SignedIntent.ofJson?_signPayload hsign
  have hwindow : window? (P := P) si.intent =
      some (stamped now, stamped (roundDouble (now + ttl))) := by
    rw [hi, window?, if_pos (by simp [Intent.bounded, huuid, hempty, hlen, hvlen])]
    simp [P.parseTime_formatTime hissued, P.parseTime_formatTime hexpires]
  have hknown : (FieldMap.lookup kid C.authorityKeys).isNone = false := by
    cases hl : FieldMap.lookup kid C.authorityKeys with
    | none => simp [trustedKey, hl] at hkey
    | some _ => rfl
  refine ⟨si, ⟨⟨hsi, by rw [hi]; rfl, ?_, _, hwindow, htime⟩, ?_, hpre, by rw [hi], by rw [hi]⟩,
    hwindow, by rw [hi, hissued], by rw [hi, hexpires]⟩
  · rw [keyRefusal, (SignedIntent.ofJson?_eq_some hsi).1, hi, if_neg (not_not.mpr rfl),
      if_neg (not_not.mpr hkid), hknown, if_neg Bool.false_ne_true, hverify]
    rfl
  · rw [boundRecords, intentIdOf_eq hsi, hi, hfresh, ite_self]

end Authority

/-! ## A home on the reference platform -/

variable (clock : ℕ → ℚ)

/-- A coordinator on the reference platform that trusts one authority, the holder of the
empty key. -/
def referenceCoordinator : Coordinator reference where
  authorityKeys := referenceKeys
  finalizerSk := []
  clock := clock

/-- The one whose clock has stopped. -/
abbrev stoppedCoordinator : Coordinator reference := referenceCoordinator fun _ => 0

/-- A fresh home of the namespace `n`. -/
def referenceHome : World :=
  freshHome ⟨"n", PyStr.encodable_ofString _⟩ ⟨"s", PyStr.encodable_ofString _⟩ 0

lemma reference_home : Home (referenceCoordinator clock) referenceHome :=
  (invariant_freshHome _ _ _).home

lemma reference_settled :
    Settled (referenceCoordinator clock) referenceHome.journal referenceHome.store :=
  .fresh (PyStr.encodable_ofString _) (PyStr.encodable_ofString _)

lemma reference_clear (hclock : ∀ n, fromtimestamp (clock n) ≠ none) :
    Clear (referenceCoordinator clock) referenceHome :=
  ⟨hclock, by decide, by decide⟩

lemma fromtimestamp_zero : fromtimestamp 0 ≠ none := by
  have h := fromtimestamp_intCast (n := 0) le_rfl (by norm_num)
  rw [Int.cast_zero] at h
  rw [h]
  exact some_ne_none _

/-- The times of an intent made at second `now` to live for 300 seconds, and when it is
accepted. -/
lemma reference_times (now : ℤ) (hnow : |now| < 2 ^ 50) :
    (stamped now, stamped (roundDouble (now + (300 : ℤ)))) = ((now, now + 300) : ℚ × ℚ) ∧
    ∀ t : ℚ, now - 5 ≤ t → t < now + 300 → timeRefusal (now, now + 300) t = none := by
  have hround {n : ℤ} (hn : |n| < 2 ^ 53) : roundDouble n = n := roundDouble_intCast hn
  obtain ⟨hlo, hhi⟩ := abs_lt.mp hnow
  have hsum : ((now : ℚ) + (300 : ℤ)) = ((now + 300 : ℤ) : ℚ) := by push_cast; ring
  have hsum' : ((now : ℚ) + 300) = ((now + 300 : ℤ) : ℚ) := by push_cast; ring
  have hsmall : |now + 300| < 2 ^ 53 := abs_lt.mpr ⟨by omega, by omega⟩
  constructor
  · rw [hsum, hround hsmall, stamped_intCast hsmall,
      stamped_intCast (abs_lt.mpr ⟨by omega, by omega⟩), hsum']
  · intro t hge hlt
    have hlength : roundDouble ((now : ℚ) + 300 - now) = 300 := by
      rw [add_sub_cancel_left]
      exact_mod_cast hround (n := 300) (by norm_num)
    have hskew : roundDouble ((now : ℚ) - 5) = now - 5 := by
      have := hround (n := now - 5) (abs_lt.mpr ⟨by omega, by omega⟩)
      push_cast at this
      exact this
    simp only [timeRefusal, hlength, hskew]
    rw [if_neg (by norm_num), if_neg (by linarith), if_neg (by linarith)]

/-- The intent is valid for 300 seconds from second `now` on, and says so as `format_time`
does. -/
structure ReferenceWindow (now : ℤ) (i : Intent) : Prop where
  window : window? (P := reference) i = some ((now : ℚ), (now : ℚ) + 300)
  issued : reference.formatTime now = some i.issuedAt
  expires : reference.formatTime (now + 300 : ℤ) = some i.expiresAt

/-- An intent for the reference home that is valid for 300 seconds; it is accepted five
seconds early. -/
lemma reference_ready (now : ℤ) (hnow : 0 ≤ now) (hnow' : now < 2 ^ 32) (clock : ℕ → ℚ)
    (hge : now - 5 ≤ clock 0) (hlt : clock 0 < now + 300) :
    ∃ signed si pre, Ready (referenceCoordinator clock) referenceHome signed si pre ∧
      ReferenceWindow now si.intent := by
  have hns : (referenceHome.store.ns).encodable = true := PyStr.encodable_ofString _
  obtain ⟨pre, hpre⟩ := Store.exists_snapshot (P := reference) (s := referenceHome.store)
    hns (by simp [referenceHome, freshHome, Store.create]) (by decide)
  have hrange : ∀ n : ℤ, 0 ≤ n → n ≤ now + 300 → fromtimestamp n ≠ none :=
    fun n h h' => by
      rw [fromtimestamp_intCast h (by omega)]
      exact some_ne_none _
  have htexts : ∀ s ∈ [reference.keyId [], referenceHome.store.ns, "k",
      "v", pre.root, "00000000000000000000000000000000"],
      s.encodable = true := by
    simp [encodable_keyId, hns, (Store.encodable_of_snapshot hpre).2.2]
  have hround : roundDouble (now + (300 : ℤ)) = ((now + 300 : ℤ) : ℚ) := by
    rw [← Int.cast_add]
    exact roundDouble_intCast (abs_lt.mpr ⟨by omega, by omega⟩)
  have hexpires : fromtimestamp (roundDouble (now + (300 : ℤ))) ≠ none := by
    rw [hround]
    exact hrange _ (by omega) le_rfl
  have hgen : |(pre.generation : ℤ)| ≤ maxSafe := by
    simpa using (Store.encodable_of_snapshot hpre).1
  obtain ⟨signed, hmade⟩ := exists_makeIntent (P := reference)
    (hrange now hnow (by omega)) hexpires htexts hgen []
  obtain ⟨htimes, haccept⟩ := reference_times now (abs_lt.mpr ⟨by omega, by omega⟩)
  obtain ⟨si, hready, hwindow, hissued, htill⟩ := makeIntent_ready
    (C := referenceCoordinator clock) hpre hmade
    referenceKeys_trusted rfl rfl (by decide) (by decide) (by decide)
    (by rw [htimes]; exact haccept _ hge hlt)
  exact ⟨signed, si, pre, hready, by rw [hwindow, htimes], hissued, hround ▸ htill⟩

/-- On the reference platform an intent that is valid for 300 seconds is finalized, if the
first clock reading is at most five seconds early. -/
lemma reference_finalizes_at (now : ℤ) (hnow : 0 ≤ now) (hnow' : now < 2 ^ 32) (clock : ℕ → ℚ)
    (hclock : ∀ n, fromtimestamp (clock n) ≠ none) (hge : now - 5 ≤ clock 0)
    (hlt : clock 0 < now + 300) :
    ∃ signed out s' a,
      (referenceCoordinator clock).submit signed ⟨referenceHome, none⟩ = (.ok out, s') ∧
      out.state = .finalized ∧
      Begins (referenceCoordinator clock) 0 [] referenceHome.store a ∧
      ReferenceWindow now a.intent ∧ a.id = intentIdOf signed ∧
      At (referenceCoordinator clock) [] referenceHome.store a (.finalized false) s'.world := by
  obtain ⟨signed, si, pre, hready, hwindow⟩ := reference_ready now hnow hnow' clock hge hlt
  obtain ⟨out, s', a, hrun, hstate, hb, rfl, haid, hat⟩ := submit_finalizes
    (reference_home clock).chained (reference_settled clock) (reference_clear clock hclock) hready
  exact ⟨signed, out, s', a, hrun, hstate, hb, hwindow, haid, hat⟩

/-- On the reference platform an intent that is valid from second 0 to second 300 is
finalized, if the first clock reading lies in between. -/
theorem reference_finalizes (hclock : ∀ n, fromtimestamp (clock n) ≠ none) (hge : 0 ≤ clock 0)
    (hlt : clock 0 < 300) :
    ∃ signed out s' a,
      (referenceCoordinator clock).submit signed ⟨referenceHome, none⟩ = (.ok out, s') ∧
      out.state = .finalized ∧
      Begins (referenceCoordinator clock) 0 [] referenceHome.store a ∧
      window? (P := reference) a.intent = some (0, 300) ∧ a.id = intentIdOf signed ∧
      At (referenceCoordinator clock) [] referenceHome.store a (.finalized false) s'.world := by
  obtain ⟨signed, out, s', a, hrun, hstate, hb, hwindow, haid, hat⟩ := reference_finalizes_at
    0 le_rfl (by norm_num) clock hclock (by push_cast; linarith) (by push_cast; linarith)
  exact ⟨signed, out, s', a, hrun, hstate, hb, by simpa using hwindow.window, haid, hat⟩

end VdbC1
