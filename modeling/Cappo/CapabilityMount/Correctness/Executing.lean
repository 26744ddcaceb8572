import Cappo.CapabilityMount.Correctness.Deciding

/-!
# What a dispatch rests on

The three closures that append the events of an operation, and the call of the target. The
authorization is recorded after the decision was committed, so that the claim checks the mount
again, under its lock and against the epoch of the decision.

## Main results

* `wp_cappoEvaluator`: an ALLOW leaves the AUTHORIZED event of the operation;
* `wp_beginConsequence`: an operation is claimed on a live mount of its epoch only;
* `wp_consequence`: the target is called for a claimed operation only.
-/

namespace CapabilityMount

open VdbC1 (PyStr Json)
open Sessions.Discipline Log

variable {D : Deployment} {i : ℕ}

/-! ## Events -/

variable {w : World}

/-- What a transaction inserts is in the table when it is committed. -/
lemma Others.mem_events_committed {w1 : World} {es : List Event}
    (ho : Others i (w.wrote i (.insertEvents es)) w1) :
    ∀ e ∈ es, e ∈ (w1.committed i).db.events := by
  intro e he
  change e ∈ (db (w1.log ++ [.commit i (w1.writes i)])).events
  rw [db_concat, Entry.events_apply]
  refine List.mem_append_right _ (List.mem_flatMap.mpr ⟨.insertEvents es, ?_, he⟩)
  change _ ∈ w1.writes i
  rw [ho.writes, World.writes_wrote_self]
  exact List.mem_concat_self

variable {latest : Event}

lemma Event.continues_follow {state : ConsequenceState} {epoch : Option ℕ}
    {proof : Option ProofType} {site : Site} (hwritten : state ∈ site.nextStates)
    (hstate : latest.state.Permits state) (hsite : site ≠ .reconciler) :
    latest.Continues (latest.follow state epoch proof site) := by
  refine ⟨rfl, rfl, rfl, rfl, rfl, hwritten, ?_⟩
  unfold Event.Steps
  rwa [if_neg (show (latest.follow state epoch proof site).site ≠ .reconciler from hsite)]

/-- An event that is appended without a lock. -/
lemma legal_continued {e : Event} (hmem : latest ∈ w.db.events) (hc : latest.Continues e)
    (hstate : e.state ≠ .started) (hsite : e.site ≠ .beginConsequence) :
    Legal D i (.write (.insertEvents [e])) w := by
  refine ⟨Appended.continued hmem hc hstate hsite, fun m hm => ?_, .inl rfl⟩
  have hnil : (Write.insertEvents [e]).locks = [] := by simp [Write.locks, hsite]
  exact absurd hm (hnil ▸ List.not_mem_nil)

/-- The AUTHORIZED event of an operation of a mount. -/
def Recorded (operationId mountId : PyStr) (log : Log) : Prop :=
  ∃ e ∈ log.db.events, e.operationId = operationId ∧ e.version = 0 ∧
    e.site = .cappoEvaluator ∧ e.mountId = mountId ∧ e.authorityEpoch.isSome = true

/-- The claim of an operation of a mount. -/
def Claimed (operationId mountId : PyStr) (log : Log) : Prop :=
  ∃ e ∈ log.db.events, e.operationId = operationId ∧ e.mountId = mountId ∧
    e.state = .started ∧ e.site = .beginConsequence

variable {log : Log}

lemma Recorded.mono {o m : PyStr} {log' : Log} (h : Recorded o m log) (hpre : log <+: log') :
    Recorded o m log' := by
  obtain ⟨e, he, h⟩ := h
  exact ⟨e, events_subset hpre he, h⟩

lemma Claimed.mono {o m : PyStr} {log' : Log} (h : Claimed o m log) (hpre : log <+: log') :
    Claimed o m log' := by
  obtain ⟨e, he, h⟩ := h
  exact ⟨e, events_subset hpre he, h⟩

/-! ## The authorization -/

/-- An ALLOW leaves the AUTHORIZED event of the operation. -/
theorem wp_cappoEvaluator (row : MountRow) (c : Call) (operationId intentHash : PyStr)
    (hsingle : (w.writes i).flatMap Write.receipts = []) :
    Yields D i (D.cappoEvaluator row c operationId intentHash)
      (fun r w' => r.1 = .allow → Recorded operationId row.mount.id w'.log) w := by
  refine wp_call trivial fun latest w1 hinv1 hk1 _ => ?_
  cases latest with
  | some latest =>
    dsimp only
    split <;> exact wp_pure nofun
  | none =>
    refine wp_seq hinv1 (wp_evaluate _ (hk1.receipts.trans hsingle)) (fun e w2 hinv2 he => ?_)
    dsimp only
    split
    · next receiptId hdecision hreceipt =>
      refine wp_bind (wp_write (fun w3 _ ho3 => ?_) fun w3 _ _ _ => ?_)
      · obtain ⟨pre, ws, post, r, row', hlog, hmem, hmount, -, -, hid, hrow', hepoch⟩ :=
          (he hdecision).mono ho3.log
        refine ⟨.authorized rfl rfl rfl ⟨pre, i, ws, post, r, row', hlog, hmem,
          hreceipt.symm.trans hid, hmount, hrow', congrArg some hepoch⟩,
          fun m hm => absurd hm List.not_mem_nil, .inl rfl⟩
      · refine wp_bind (wp_commit (fun w4 _ ho4 _ => wp_pure fun _ => ?_))
        exact ⟨_, ho4.mem_events_committed _ (List.mem_singleton_self _), rfl, rfl, rfl, rfl, rfl⟩
    · next hnot =>
      refine wp_pure fun hallow => ?_
      -- an ALLOW has a receipt
      obtain ⟨_, _, _, r, _, _, _, _, _, _, hid, _⟩ := he hallow
      exact (hnot r.receiptId hallow hid).elim

/-! ## The claim -/

lemma safe_anchorConsequenceOutcome (operationId outcome : PyStr) :
    Safe D i (anchorConsequenceOutcome operationId outcome) :=
  .of_only (only_anchorConsequenceOutcome _ _ trivial trivial trivial)

/-- The fence lets an operation through if its mount is live and the epoch is the same. -/
lemma fenceRefusal_eq_none {fenceRow : Option MountRow}
    (h : fenceRefusal fenceRow latest = none) : ∃ row, fenceRow = some row ∧
      row.terminated = false ∧ ∀ epoch, latest.authorityEpoch = some epoch →
        row.authorityEpoch = epoch := by
  unfold fenceRefusal at h
  split at h
  · nomatch h
  · next row =>
    split at h
    · nomatch h
    · next hlive =>
      split at h
      · nomatch h
      · next hepoch =>
        refine ⟨row, rfl, by simpa using hlive, fun epoch heq => ?_⟩
        simpa [heq] using hepoch

variable {operationId : PyStr}

/-- An operation is claimed on a live mount of its epoch only. -/
theorem wp_beginConsequence {mountId : PyStr} (h : Recorded operationId mountId w.log) :
    Yields D i (beginConsequence mountId operationId)
      (fun owned w' => owned = true → Claimed operationId mountId w'.log) w := by
  refine wp_call trivial fun fenceRow w1 hinv1 hk1 hrow => ?_
  refine wp_call trivial fun latest w2 hinv2 hk2 hlatest => ?_
  cases latest with
  | none => exact wp_bind (wp_commit (fun _ _ _ _ => wp_pure nofun))
  | some latest =>
    dsimp only
    split
    · exact wp_bind (wp_commit (fun _ _ _ _ => wp_pure nofun))
    · next hstate =>
      rw [not_not] at hstate
      obtain ⟨hmem, hoperation⟩ := Db.mem_of_latestEvent hlatest.symm
      -- the latest event is the authorization that this session recorded
      have hrecorded := wellRecorded hinv2.audited
      obtain ⟨e, he, heo, hev, hsite, hmount, hepoch⟩ := h.mono (hk1.trans hk2).log
      obtain rfl := hrecorded.eq_of_version hmem he (hoperation.trans heo.symm)
        (((hrecorded.authorized latest hmem).mpr hstate).trans hev.symm)
      split
      · next reason _ =>
        have hc : latest.Continues (latest.follow .failed (fenceEpoch fenceRow latest)
            (some .fenceRefusal) .beginConsequenceFence) :=
          Event.continues_follow (by decide) (.inl (by rw [hstate]; decide)) nofun
        refine wp_bind (wp_tryCatch (wp_bind
          (wp_write (fun w3 _ ho3 => ?_) fun w3 hinv3 _ _ => ?_)))
        · exact legal_continued (events_subset ho3.log hmem) hc nofun nofun
        · have hafter : ∀ w', Inv D w' → Yields D i (do
              anchorConsequenceOutcome operationId "refused"
              throw (.executionTerminated reason))
              (fun owned w' => owned = true → Claimed operationId mountId w'.log)
              w' := fun w' hinv' =>
            wp_seq hinv' (safe_anchorConsequenceOutcome _ _ w' hinv')
              (fun _ _ _ _ => wp_throw trivial)
          refine wp_commit' (fun w4 _ _ hinv4 => hafter _ hinv4) fun e w4 hinv4 _ => ?_
          exact wp_rollback fun w5 hinv5 _ => hafter _ hinv5.release
      · next hfence =>
        obtain ⟨row, rfl, hlive, hsame⟩ := fenceRefusal_eq_none hfence
        obtain ⟨epoch, hepoch⟩ := Option.isSome_iff_exists.mp hepoch
        have hheld := (Held.of_answer hrow).keeps hk2
        have hc : latest.Continues (latest.follow .started (fenceEpoch (some row) latest)
            (some .optimisticClaim) .beginConsequence) :=
          Event.continues_follow (by decide) (.inl (by rw [hstate]; decide)) nofun
        refine wp_tryCatch (wp_bind (wp_write (fun w3 _ ho3 => ?_) fun w3 _ _ _ => ?_))
        · replace hheld := hheld.keeps ho3.keeps
          obtain ⟨row', hrow', heq⟩ := hheld.mount
          refine ⟨.started (events_subset ho3.log hmem) hc rfl rfl hsite rfl
            (hmount.symm ▸ hrow') ?_ ?_, fun m hm => ?_, .inl rfl⟩
          · rw [MountRow.congr_of_unconsumed_eq MountRow.terminated (fun _ => rfl) heq, hlive]
          · rw [MountRow.congr_of_unconsumed_eq MountRow.authorityEpoch (fun _ => rfl) heq,
              hsame epoch hepoch, hepoch]
          · obtain rfl := List.mem_singleton.mp hm
            exact hmount.symm ▸ hheld.lock
        · refine wp_bind (wp_commit' (fun w4 _ ho4 _ => wp_pure fun _ => ?_) fun _ w4 _ _ =>
            wp_bind (wp_rollback fun _ _ _ => wp_pure nofun))
          exact ⟨_, ho4.mem_events_committed _ (List.mem_singleton_self _), hoperation, hmount,
            rfl, rfl⟩

/-- A claim that returns has been recorded. -/
lemma wp_claim (hinv : Inv D w) (h : Recorded operationId mountId w.log) :
    Yields D i (claim mountId operationId) (fun _ w' => Claimed operationId mountId w'.log) w := by
  refine wp_bind (wp_tryCatch (wp_mono_inv' hinv (wp_beginConsequence h)
    (fun owned w1 _ howned => ?_) fun e w1 _ _ => ?_))
  · split
    · exact wp_call trivial (fun _ _ _ _ _ => wp_throw trivial)
    · next hnot => exact wp_pure (howned (by simpa using hnot))
  · -- a refusal of the fence is raised, and any other exception is no claim
    split
    · exact wp_call trivial (fun _ _ _ _ _ => wp_throw trivial)
    · refine wp_pure ?_
      rw [if_pos Bool.not_false]
      exact wp_call trivial (fun _ _ _ _ _ => wp_throw trivial)

/-! ## The report -/

/-- A report asserts an outcome, or that it is unknown. -/
lemma reportTarget_terminal (latest : ConsequenceState) (succeeded uncertain : Bool)
    (proofType : ProofType) :
    (reportTarget latest succeeded uncertain proofType).1 = .outcomeUnknown ∨
      (reportTarget latest succeeded uncertain proofType).1.terminal = true := by
  unfold reportTarget
  cases succeeded <;> (repeat' split) <;> first | exact .inl rfl | exact .inr rfl

/-- A report continues the latest event of its operation. -/
lemma safe_completionReporter (operationId : PyStr) (succeeded uncertain : Bool)
    (proofType : ProofType) :
    Safe D i (completionReporter operationId succeeded uncertain proofType) := by
  intro w _
  refine wp_call trivial fun latest w1 hinv1 hk1 hlatest => ?_
  cases latest with
  | none => exact wp_pure trivial
  | some latest =>
    obtain ⟨hmem, -⟩ := Db.mem_of_latestEvent hlatest.symm
    have htarget := reportTarget_terminal latest.state succeeded uncertain proofType
    dsimp only
    generalize reportTarget latest.state succeeded uncertain proofType = report at htarget
    obtain ⟨target, proof⟩ := report
    dsimp only at htarget ⊢
    have hwritten : target ∈ Site.completionReporter.nextStates := by
      rcases htarget with rfl | hterminal
      · decide
      · cases target <;> first | decide | nomatch hterminal
    have hne : target ≠ .started := by
      rintro rfl
      nomatch htarget
    split
    · exact wp_throw trivial
    · next hallowed =>
      split
      · exact wp_pure trivial
      · next hterminal =>
        -- a state that is asserted again is one that is not terminal
        have hstep : latest.state.Permits target := by
          rw [not_and_or, not_not, not_not] at hallowed
          refine hallowed.symm.imp_right fun heq => ?_
          subst heq
          have hunknown := htarget.resolve_right hterminal
          exact ⟨hunknown, hunknown⟩
        split
        · exact wp_throw trivial
        · have hc : latest.Continues (latest.follow target latest.authorityEpoch (some proof)
              .completionReporter) :=
            Event.continues_follow hwritten hstep nofun
          refine wp_tryCatch (wp_bind (wp_write (fun w2 _ ho2 => ?_) fun w2 _ _ _ => ?_))
          · exact legal_continued (events_subset ho2.log hmem) hc hne nofun
          · have hrollback : ∀ w', Yields D i (perform .rollback)
                (fun _ _ => True) w' := fun w' => wp_rollback fun _ _ _ => trivial
            refine wp_bind (wp_commit' (fun w3 _ _ hinv3 => ?_) fun _ w3 _ _ => hrollback w3)
            exact wp_mono_inv' hinv3 (safe_anchorConsequenceOutcome _ _ _ hinv3)
              (fun _ _ _ _ => trivial) fun _ w4 _ _ => hrollback w4

/-! ## The target -/

lemma wp_carryOut (operationId : PyStr) (hinv : Inv D w) (hfn : Yields D i fn (fun _ _ => True) w) :
    Yields D i (carryOut operationId fn) (fun _ _ => True) w := by
  have hreport : ∀ succeeded uncertain proof (outcome : Except Exn Json), Safe D i (do
        let _ ← (completionReporter operationId succeeded uncertain proof).attempt
        perform .audit
        return outcome) := by
    intro succeeded uncertain proof outcome
    refine .bind (safe_completionReporter operationId succeeded uncertain proof).attempt
      fun _ => .bind (.of_only (Sessions.Program.only_perform trivial)) fun _ => ?_
    exact .of_only trivial
  exact wp_bind (wp_attempt (wp_mono_inv' hinv hfn
    (fun result w1 hinv1 _ => hreport _ _ _ _ w1 hinv1)
    fun e w1 hinv1 _ => hreport _ _ _ _ w1 hinv1))

/-- What a request was checked for before it is decided: its target is registered, and it is the
one that the mount is bound to. -/
structure Bound (D : Deployment) (row : MountRow) (c : Call) (log : Log) : Prop where
  mount : log.db.mounts row.mount.id = some row
  adapter : (D.targetAdapters c.targetRef).isSome = true
  resource : validResource c.resource = true
  envelope : D.envelopeRefusal row.token c.operation = .ok none

variable {row : MountRow}

/-- The envelope is the same for all later rows of the mount. -/
lemma Deployment.envelopeRefusal_evolves (h : row.Evolves row')
    (o : BoundOperation) : D.envelopeRefusal row'.token o = D.envelopeRefusal row.token o := by
  unfold Deployment.envelopeRefusal Token.biscuit
  rw [h.grants, h.biscuitToken, h.packageRef]

/-- The call of the target for a request. -/
def Call.dispatch (c : Call) (row : MountRow) (operationId : PyStr) : Dispatch :=
  .execute operationId row.mount.id row.token.packageRef c.targetRef c.action c.resource c.arguments

variable {c : Call}

lemma Bound.justified {log' : Log} (h : Bound D row c log) (hlog : log'.Audited D)
    (hpre : log <+: log') (hcovers : row.token.grants.coversResource (some c.resource) = true)
    (hclaimed : Claimed operationId row.mount.id log') :
    (c.dispatch row operationId).Justified D log' := by
  refine ⟨hclaimed, h.adapter, h.resource, ?_⟩
  obtain ⟨row', hrow', hevolves⟩ := mounts_evolve hlog hpre h.mount
  exact ⟨row', hrow', hevolves.packageRef, hevolves.grants ▸ hcovers,
    (D.envelopeRefusal_evolves hevolves _).trans h.envelope⟩

/-- A permit is for a receipt that an event of the operation has. -/
lemma wp_withPermit (operationId : PyStr) : Yields D i (D.withPermit operationId)
      (fun r w' => ∀ receiptId, r = some (some receiptId) →
        ∃ e ∈ w'.db.events, e.receiptId = some receiptId) w := by
  unfold Deployment.withPermit
  split
  · exact wp_pure nofun
  · refine wp_call trivial fun latest w1 _ _ hlatest => ?_
    refine wp_bind (wp_commit (fun w2 _ ho2 hinv => wp_pure fun receiptId hr => ?_))
    obtain ⟨e, he, hreceipt⟩ := Option.bind_eq_some_iff.mp (Option.some.inj hr)
    refine ⟨e, ?_, hreceipt⟩
    have hmem := (Db.mem_of_latestEvent (hlatest.symm.trans he)).1
    exact events_subset (ho2.log.trans (List.prefix_append ..)) hmem

/-- The target is called for a claimed operation. -/
lemma wp_invokeEffect (hinv : Inv D w) (hbound : Bound D row c log) (hpre : log <+: w.log)
    (hcovers : row.token.grants.coversResource (some c.resource) = true)
    (hclaimed : Claimed operationId row.mount.id w.log) :
    Yields D i (D.invokeEffect (c.dispatch row operationId)) (fun _ _ => True) w := by
  refine wp_seq hinv (wp_log (wp_withPermit _)) (fun permitReceipt w1 hinv1 ⟨hlog1, hreceipt⟩ => ?_)
  refine wp_bind (wp_dispatch (fun w2 hinv2 ho2 => ?_) fun outcome w2 _ _ => ?_)
  · have hlog := hlog1.trans ho2.log
    have hd := hbound.justified hinv2.audited (hpre.trans hlog) hcovers (hclaimed.mono hlog)
    refine ⟨hd, fun payloads p hp => ?_⟩
    unfold Call.dispatch Dispatch.mints at hp
    dsimp only at hp
    split at hp
    · next receiptId =>
      obtain ⟨payload, -, rfl⟩ := List.mem_map.mp hp
      obtain ⟨e, he, ho, hm, -⟩ := hclaimed.mono hlog
      refine ⟨⟨e, he, ho, hm⟩, fun r hr => ?_, hbound.adapter⟩
      obtain ⟨e', he', hr'⟩ := hreceipt r (congrArg some hr)
      exact ⟨e', events_subset ho2.log he', hr'⟩
    · nomatch hp
  · cases outcome with
    | ok result => exact wp_pure trivial
    | error e => exact wp_throw trivial

/-- A request that passes the local check is for a resource that the token grants. -/
lemma wp_localEval (hinv : Inv D w) (token : Token) (terminated : Bool) (c : Call) :
    Yields D i (localEval token terminated c)
      (fun _ _ => token.grants.coversResource (some c.resource) = true) w := by
  refine wp_straight (mild_of_reading (straight_checkLive token terminated)) hinv fun _ w1 _ _ => ?_
  split
  · exact wp_call trivial fun _ _ _ _ _ => wp_throw trivial
  · split
    · exact wp_call trivial fun _ _ _ _ _ => wp_throw trivial
    · next hcovers =>
      have hreturns : token.grants.coversResource (some c.resource) = true := by simpa using hcovers
      split
      · exact wp_call trivial fun _ _ _ _ _ => wp_throw trivial
      · split
        · exact wp_call trivial fun _ _ _ _ _ => wp_throw trivial
        · exact wp_pure hreturns

/-- The target of a request is called for a claimed operation only. -/
theorem wp_consequence (operationId : PyStr) (hinv : Inv D w) (hbound : Bound D row c log)
    (hpre : log <+: w.log) (hsingle : (w.writes i).flatMap Write.receipts = []) :
    Yields D i (D.consequence row operationId c (D.invokeEffect (c.dispatch row operationId)))
      (fun _ _ => True) w := by
  refine wp_seq hinv (wp_and (Quiet.of_straight (mild_of_reading (straight_localEval row.token
    row.terminated c)) w hinv) (wp_localEval hinv row.token row.terminated c))
    fun _ w1 hinv1 ⟨hk1, hcovers⟩ => ?_
  refine wp_seq hinv1 (wp_log (wp_cappoEvaluator row c operationId _
    (hk1.receipts.trans hsingle))) (fun r w2 hinv2 ⟨hlog2, hrecorded⟩ => ?_)
  dsimp only
  split
  · exact wp_call trivial (fun _ _ _ _ _ => wp_throw trivial)
  · next hallow =>
    rw [not_not] at hallow
    refine wp_seq hinv2 (wp_log (wp_claim hinv2 (hrecorded hallow)))
      (fun _ w3 hinv3 ⟨hlog3, hclaimed⟩ => ?_)
    have hlog := (hpre.trans hk1.log).trans (hlog2.trans hlog3)
    exact wp_carryOut operationId hinv3 (wp_invokeEffect hinv3 hbound hlog hcovers hclaimed)

end CapabilityMount
