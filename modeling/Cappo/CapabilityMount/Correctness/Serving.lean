import Cappo.CapabilityMount.Correctness.Executing
import Cappo.CapabilityMount.Correctness.Redeeming
import Cappo.CapabilityMount.Correctness.Terminating

/-!
# The service under every schedule

Each request is safe for a new session, whatever the other sessions do meanwhile. So along every
schedule the log is audited, and what a session answers is what the log says of it.

## Main results

* `run_sound`: every schedule of the service keeps the discipline;
* `run_audited`: the log of every schedule is audited;
* `run_answered`: what a finished session answered.
-/

namespace CapabilityMount

open VdbC1 (PyStr Json)
open Checks
open Sessions.Discipline Sessions.Program List

variable {D : Deployment} {i : ℕ}

/-! ## Execution -/

variable {row : MountRow}

lemma adapterReason_eq_none (h : D.adapterReason q row = none) :
    (D.targetAdapters q.call.targetRef).isSome = true ∧ validResource q.call.resource = true := by
  unfold Deployment.adapterReason at h
  split at h
  · nomatch h
  · next hadapter =>
    split_ifs at h with _ _ hresource
    exact ⟨Option.isSome_of_eq_some hadapter, by simpa using hresource⟩

lemma targetReason_eq_none {q : ExecuteArgs} (h : D.targetReason q row = .ok none) :
    D.packageReason q row = none ∧ D.envelopeRefusal row.token q.call.operation = .ok none ∧
      (D.targetAdapters q.call.targetRef).isSome = true ∧ validResource q.call.resource = true := by
  unfold Deployment.targetReason at h
  split at h
  · nomatch h
  · next hpackage =>
    obtain ⟨refusal, hrefusal, h⟩ := bind_eq_ok.mp h
    cases refusal with
    | some reason => nomatch pure_eq_ok.mp h
    | none => exact ⟨hpackage, hrefusal, adapterReason_eq_none (pure_eq_ok.mp h)⟩

/-- The token of the mount was consumed before. -/
def Reason.Replayed (r : Reason) : Prop := r = .tokenReplay ∨ r = .tokenReplayReceipt

/-- What the preflight can answer: the request passes the checks of its target, or it is refused for
another reason than that the token was consumed. -/
def Deployment.Preflighted (D : Deployment) (q : ExecuteArgs) (row : MountRow) :
    Option Reason → Prop
  | none => D.targetReason q row = .ok none
  | some reason => ¬ reason.Replayed

lemma not_replayed_substrateReason (h : substrateReason q mount = some r) : ¬ r.Replayed := by
  unfold substrateReason at h
  split_ifs at h <;> cases h <;> simp [Reason.Replayed]

lemma not_replayed_epochReason (h : epochReason q row lease = some r) : ¬ r.Replayed := by
  unfold epochReason at h
  split at h <;> split_ifs at h <;> cases h <;> simp [Reason.Replayed]

lemma not_replayed_envelopeRefusal (h : D.envelopeRefusal token o = .ok (some r)) :
    ¬ r.Replayed := by
  have hreason : r = .operationEnvelopeUnverifiable ∨ r = .operationEnvelopeMismatch := by
    unfold Deployment.envelopeRefusal at h
    split at h
    · cases h
      exact .inl rfl
    · cases h
    · split at h
      · cases h
        exact .inl rfl
      · have h := Except.ok.inj h
        split_ifs at h
        exact .inl (Option.some.inj h).symm
      · split at h
        · cases h
          exact .inl rfl
        · obtain ⟨requested, -, h⟩ := bind_eq_ok.mp h
          have h := pure_eq_ok.mp h
          split_ifs at h
          exact .inr (Option.some.inj h).symm
  rcases hreason with rfl | rfl <;> simp [Reason.Replayed]

/-- The last checks of the preflight. -/
lemma preflighted_targetReason {q : ExecuteArgs} {reason : Option Reason}
    (h : D.targetReason q row = .ok reason) : D.Preflighted q row reason := by
  cases reason with
  | none => exact h
  | some r =>
    unfold Deployment.targetReason at h
    split at h
    · next hpackage =>
      cases h
      unfold Deployment.packageReason at hpackage
      split at hpackage
      · cases hpackage
      · split_ifs at hpackage <;> cases hpackage <;> simp [Deployment.Preflighted, Reason.Replayed]
    · obtain ⟨refusal, hrefusal, h⟩ := bind_eq_ok.mp h
      cases refusal with
      | some reason =>
        cases pure_eq_ok.mp h
        exact not_replayed_envelopeRefusal hrefusal
      | none =>
        have hadapter := pure_eq_ok.mp h
        unfold Deployment.adapterReason at hadapter
        split at hadapter
        · cases hadapter
          simp [Deployment.Preflighted, Reason.Replayed]
        · split_ifs at hadapter <;> cases hadapter <;>
            simp [Deployment.Preflighted, Reason.Replayed]

variable {w : World}

/-- The preflight, whatever the discipline, as long as a session may read. -/
lemma wp_preflight {Δ : Sessions.Discipline (machine D)}
    (hlegal : ∀ op w, op.Reading → Δ.legal i op w) (q : ExecuteArgs) (row : MountRow) :
    Δ.wp i (D.preflight q row) (fun reason _ => D.Preflighted q row reason) (fun _ _ => True)
      w := by
  have hread : ∀ {op : Op} {f : Val op → Proc (Option Reason)} {w : World}, op.Reading →
      (∀ v w', Δ.wp i (f v) (fun reason _ => D.Preflighted q row reason) (fun _ _ => True) w') →
      Δ.wp i (perform op >>= f) (fun reason _ => D.Preflighted q row reason)
        (fun _ _ => True) w := fun hop hf =>
    wp_bind (wp_perform fun _ _ _ => ⟨hlegal _ _ hop, fun _ _ _ =>
      ⟨fun v _ => hf v _, fun _ _ => trivial⟩⟩)
  unfold Deployment.preflight
  split
  · next hsubstrate => exact wp_pure (not_replayed_substrateReason hsubstrate)
  · refine hread trivial fun lease w1 => ?_
    split
    · next hepoch => exact wp_pure (not_replayed_epochReason hepoch)
    · refine hread trivial fun now w2 => ?_
      split
      · exact wp_pure (by simp [Deployment.Preflighted, Reason.Replayed])
      · split
        · next hreason => exact wp_pure (preflighted_targetReason hreason)
        · exact wp_throw trivial

lemma Op.Reading.legal {op : Op} (h : op.Reading) : Legal D i op w := by
  cases op with
  | write | dispatch => exact absurd h id
  | _ => trivial

/-- What a request that is refused because the token was consumed did to the mount. -/
def Cleaned (i : ℕ) (q : ExecuteArgs) (w : World) (e : Execution) (w' : World) : Prop :=
  Innocent i w → e.reason.Replayed → Concluded i q.mountId .taskComplete w'.log

lemma shouldTerminate_of_replayed {reason : Reason} (h : reason.Replayed) (m : PyStr) :
    shouldTerminate m reason = pure true := by
  rcases h with rfl | rfl <;>
    rw [shouldTerminate, if_neg (by decide), if_neg (by decide), if_neg (by decide)]

/-- The end of a request is the only place where it terminates the mount, and it does so where the
token was consumed. -/
lemma wp_finish (q : ExecuteArgs) (result : Execution) (hinv : Inv D w)
    (howned : Owned q.mountId q.owner w.log) (h : Innocent i w0 → Innocent i w) :
    Yields D i (finish q result) (Cleaned i q w0) w := by
  have hterminate : Yields D i (shouldTerminate q.mountId result.reason)
      (fun terminate _ => result.reason.Replayed → terminate = true) w := by
    by_cases hreplayed : result.reason.Replayed
    · rw [shouldTerminate_of_replayed hreplayed]
      exact wp_pure fun _ => rfl
    · have hsafe : Safe D i (shouldTerminate q.mountId result.reason) :=
        .of_only (only_shouldTerminate _ _ trivial trivial)
      exact wp_mono_inv hinv (hsafe w hinv) fun _ _ _ _ hr => absurd hr hreplayed
  refine wp_ordinary hinv (only_shouldTerminate _ _ trivial trivial) (wp_log hterminate)
    (fun terminate w1 hinv1 hinnocent ⟨hlog, hdecided⟩ => ?_)
  split
  · exact wp_seq hinv1 (wp_terminateWithInFlight _ hinv1) (fun t w2 _ hended => wp_pure
      fun h0 _ => hended.2 (hinnocent (h h0)) (howned.mono hinv1.audited hlog))
  · next hkept => exact wp_pure fun _ hr => absurd (hdecided hr) hkept

/-- A report that says the operation was replayed has terminated the mount. -/
lemma wp_report (q : ExecuteArgs) (operationId : PyStr) (invoked : Bool)
    (outcome : Except Exn Json) {w0 : World} (hinv : Inv D w)
    (howned : Owned q.mountId q.owner w.log) (h : Innocent i w0 → Innocent i w) :
    Yields D i (report q operationId invoked outcome) (Cleaned i q w0) w := by
  have hlatest : Yields D i (reportLatest q operationId invoked outcome) (Cleaned i q w0) w := by
    refine wp_call_ordinary hinv trivial trivial fun latest w1 hinv1 hinnocent hk1 _ => ?_
    have hfinish : ∀ result, Yields D i (finish q result) (Cleaned i q w0) w1 :=
      fun result => wp_finish q result hinv1 (howned.mono hinv1.audited hk1.log)
        fun h0 => hinnocent (h h0)
    dsimp only
    split
    · exact hfinish _
    · split
      · exact hfinish _
      · exact wp_throw trivial
    · exact hfinish _
  unfold report
  split
  · exact hlatest
  · split
    · exact hlatest
    · exact wp_throw trivial

/-- `execute_consequence`. -/
lemma wp_executeConsequence (q : ExecuteArgs) (hinv : Inv D w)
    (hsingle : (w.writes i).flatMap Write.receipts = []) :
    Yields D i (D.executeConsequence q) (Cleaned i q w) w := by
  refine wp_call_ordinary hinv trivial trivial fun random w1 hinv1 hi1 hk1 _ => ?_
  dsimp only
  generalize (q.operationId.filter fun o => o ≠ []).getD random = operationId
  refine wp_call_ordinary hinv1 trivial trivial fun row w2 hinv2 hi2 hk2 hrow => ?_
  -- an answer for another reason says nothing of the mount
  have hcommit : ∀ (e : Execution) (w' : World), ¬ e.reason.Replayed → Yields D i (do
        perform .commit
        return e) (Cleaned i q w) w' :=
    fun e w' hreason => wp_bind (wp_commit (fun _ _ _ _ => wp_pure fun _ hr => absurd hr hreason))
  cases row with
  | none => exact hcommit _ w2 (by simp [Reason.Replayed])
  | some row =>
    dsimp only
    split
    · exact hcommit _ w2 (by simp [Reason.Replayed])
    · next howner =>
      have howned : Owned q.mountId q.owner w2.log := ⟨row, hrow.1.symm, by simpa using howner⟩
      refine wp_ordinary hinv2 (ordinary_of_common (only_of_reading (straight_preflight q row)))
        (wp_and (Quiet.of_straight (mild_of_reading (straight_preflight q row)) w2 hinv2)
          (wp_preflight (fun _ _ h => h.legal) q row))
        (fun reason w3 hinv3 hi3 ⟨hk3, hchecked⟩ => ?_)
      cases reason with
      | some reason => exact hcommit _ w3 hchecked
      | none =>
        refine wp_ordinary hinv3 (ordinary_of_common (only_of_reading (straight_recorded q)))
          (Quiet.of_straight (mild_of_reading (straight_recorded q)) w3 hinv3)
          (fun recorded w4 hinv4 hi4 hk4 => ?_)
        have hi : Innocent i w → Innocent i w4 := fun h0 => hi4 (hi3 (hi2 (hi1 h0)))
        cases recorded with
        | some latest =>
          refine hcommit _ w4 ?_
          dsimp only
          split_ifs <;> simp [Reason.Replayed]
        | none =>
          have hid : row.mount.id = q.mountId := by
            obtain ⟨hrowId, hgenuine⟩ := Log.genuine_of_mounts hinv2.audited hrow.1.symm
            exact hgenuine.id.trans hrowId
          obtain ⟨-, henvelope, hadapter, hresource⟩ := targetReason_eq_none hchecked
          have hbound : Bound D row q.call w2.log :=
            ⟨hid ▸ hrow.1.symm, hadapter, hresource, henvelope⟩
          have hk := hk3.trans hk4
          have hconsequence := wp_consequence operationId hinv4 hbound hk.log
            (((hk1.trans hk2).trans hk).receipts.trans hsingle)
          refine wp_bind (wp_attempt (wp_mono_inv' hinv4
            (wp_innocent (only_consequence (fun _ => Op.Common.ordinary) row operationId q.call _
              fun _ _ => trivial) (wp_log hconsequence))
            (fun outcome w5 hinv5 h => ?_) fun e w5 hinv5 h => ?_))
          · exact wp_report q operationId true outcome hinv5
              (howned.mono hinv5.audited (hk.log.trans h.2.1)) fun h0 => h.1 (hi h0)
          · exact wp_report q operationId false (.error e) hinv5
              (howned.mono hinv5.audited (hk.log.trans h.2.1)) fun h0 => h.1 (hi h0)

/-! ## Epochs, handovers and start claims -/

/-- An update of a row that the session holds. -/
theorem Held.legal {m : PyStr} (h : Held i m row w) {u : MountUpdate} (hu : row.Admits u) :
    Legal D i (.write (.updateMount m u)) w := by
  obtain ⟨row', hrow', heq⟩ := h.mount
  refine ⟨⟨row', hrow', hu.congr heq⟩, fun m' hm' => ?_, .inl rfl⟩
  obtain rfl := mem_singleton.mp hm'
  exact h.lock

/-- The row is locked and live. -/
lemma wp_liveRow (m : PyStr) (owner : Owner) : Yields D i (liveRow m owner)
      (fun row w' => Held i m row w' ∧ row.terminated = false) w := by
  have hthrow : ∀ (e : Exn) (w' : World), Yields D i (do
      perform .commit
      throw e) (fun row w'' => Held i m row w'' ∧ row.terminated = false) w' :=
    fun e w' => wp_bind (wp_commit (fun _ _ _ _ => wp_throw trivial))
  refine wp_call trivial fun row w1 _ _ hrow => ?_
  cases row with
  | none => exact hthrow _ w1
  | some row =>
    dsimp only
    split
    · exact hthrow _ w1
    · split
      · exact hthrow _ w1
      · next hlive => exact wp_pure ⟨.of_answer hrow, by simpa using hlive⟩

lemma safe_advanceEpoch (m : PyStr) (owner : Owner) : Safe D i (advanceEpoch m owner) := by
  intro w hinv
  refine wp_seq hinv (wp_liveRow m owner) fun row w1 _ ⟨hheld, hlive⟩ => ?_
  refine wp_bind (wp_write (fun w2 _ ho2 => ?_) fun w2 _ _ hinv2 => ?_)
  · exact (hheld.keeps ho2.keeps).legal ⟨hlive, rfl⟩
  · refine wp_straight (straight_alignLease _ _) hinv2 (fun _ w3 _ _ => ?_)
    exact wp_bind (wp_commit (fun _ _ _ _ => wp_pure trivial))

lemma safe_handoverIncarnation (q : HandoverArgs) : Safe D i (D.handoverIncarnation q) := by
  intro w hinv
  refine wp_seq hinv (wp_liveRow q.mountId q.owner) fun row w1 _ ⟨hheld, hlive⟩ => ?_
  refine wp_call trivial fun tokenId w2 _ hk2 _ => ?_
  refine wp_call trivial fun nonce w3 _ hk3 _ => ?_
  dsimp only
  split
  · exact wp_throw trivial
  · split
    · exact wp_throw trivial
    · refine wp_bind (wp_write (fun w4 _ ho4 => ?_) fun w4 _ _ hinv4 => ?_)
      · exact (hheld.keeps ((hk2.trans hk3).trans ho4.keeps)).legal ⟨hlive, rfl⟩
      · refine wp_straight (straight_alignLease _ _) hinv4 (fun _ w5 _ _ => ?_)
        refine wp_call trivial fun _ w6 _ _ _ => ?_
        exact wp_bind (wp_commit (fun _ _ _ _ => wp_pure trivial))

/-- The claim is written under the lock of its mount. -/
lemma wp_claimStartRow (hheld : Held i q.mountId row w) :
    Yields D i (claimStartRow q row) (fun _ _ => True) w := by
  unfold claimStartRow
  split
  · exact wp_pure trivial
  · split
    · exact wp_pure trivial
    · refine wp_call trivial fun now w1 _ hk1 _ => ?_
      split
      · exact wp_pure trivial
      · split
        · exact wp_pure trivial
        · split
          · exact wp_pure trivial
          · split
            · exact wp_pure trivial
            · split
              · exact wp_pure trivial
              · next hunclaimed =>
                refine wp_bind (wp_write (fun w2 _ ho2 => ?_) fun _ _ _ _ => wp_pure trivial)
                exact (hheld.keeps (hk1.trans ho2.keeps)).legal
                  (show row.startClaimOperationId = none by simpa using hunclaimed)

lemma safe_claimStart (q : ClaimStartArgs) : Safe D i (claimStart q) := by
  intro w _
  refine wp_call trivial fun row w1 hinv1 _ hrow => ?_
  cases row with
  | none => exact wp_bind (wp_commit (fun _ _ _ _ => wp_pure trivial))
  | some row =>
    have hrest : ∀ (r : Except Exn (Decision × Reason)) (w' : World), Yields D i
        (perform .commit >>= fun _ => .done r) (fun _ _ => True) w' := by
      intro r w'
      refine wp_bind (wp_commit (fun _ _ _ _ => ?_))
      cases r with
      | ok answer => exact wp_pure trivial
      | error e => exact wp_throw trivial
    exact wp_bind (wp_attempt (wp_mono_inv' hinv1 (wp_claimStartRow (.of_answer hrow))
      (fun answer w2 _ _ => hrest (.ok answer) w2) fun e w2 _ _ => hrest (.error e) w2))

/-! ## Mounts -/

lemma wp_storeMount (caller executor : PyStr)
    (now : ℤ) (hgenuine : Genuine D (newRow q mount token)) :
    Yields D i (storeMount q mount token caller executor now) (fun _ _ => True) w := by
  refine wp_call trivial fun anchor w1 _ _ _ => ?_
  split
  · exact wp_bind (wp_rollback fun _ _ _ => wp_pure trivial)
  · refine wp_bind (wp_write (fun w2 _ _ => ?_) fun w2 _ _ _ => ?_)
    · exact ⟨hgenuine, fun _ hm => absurd hm not_mem_nil, .inl rfl⟩
    · exact wp_bind (wp_commit (fun _ _ _ _ => wp_pure trivial))

/-- The row that is inserted is genuine. -/
lemma safe_mountPackage
    (hpackage : D.packages ref = some package) (q : MountArgs) (ids : MountIds) :
    Safe D i (D.mountPackage package q ids) := by
  intro w _
  refine wp_call trivial fun now w1 _ _ _ => ?_
  split
  · exact wp_pure trivial
  · exact wp_throw trivial
  · next mount token hmount =>
    split
    · exact wp_throw trivial
    · next genesis hgenesis =>
      dsimp only
      split
      · exact wp_bind (wp_rollback fun _ _ _ => wp_pure trivial)
      · obtain ⟨head, -, rfl⟩ := Option.map_eq_some_iff.mp hgenesis
        obtain ⟨htoken, hconfers⟩ := Deployment.mount_eq_ok hmount
        exact wp_storeMount _ _ _
          ⟨rfl, rfl, rfl, htoken, ref, package, q.policy, hpackage, { hconfers with }⟩

lemma safe_requestMount (q : MountArgs) : Safe D i (D.requestMount q) := by
  have hdenied : ∀ reason, Safe D i (mountDenied reason) := fun reason =>
    .of_only (only_call trivial fun _ => only_call trivial fun _ =>
      only_pure _)
  unfold Deployment.requestMount
  split
  · exact hdenied _
  · split
    · exact hdenied _
    · next package hpackage =>
      have hfresh : Safe D i (perform .fresh) := .of_only (only_perform trivial)
      exact .bind hfresh fun _ => .bind hfresh fun _ => .bind hfresh fun _ =>
        .bind hfresh fun _ => safe_mountPackage hpackage q _

/-! ## The recorder and the reconciler -/

/-- What the recorder begins is started, under the receipt. -/
lemma wp_recorderBegin (q : BeginArgs) : Yields D i (recorderBegin q)
      (fun _ w' => ∃ e ∈ w'.db.events, e.operationId = q.operationId ∧ e.state = .started ∧
        e.site = .recorderBegin ∧ e.receiptId = some q.receiptId) w := by
  refine wp_call trivial fun receipt w1 _ _ hreceipt => ?_
  cases receipt with
  | none => exact wp_throw trivial
  | some receipt =>
    dsimp only
    split
    · exact wp_throw trivial
    · refine wp_call trivial fun latest w2 _ hk2 _ => ?_
      cases latest with
      | some latest => exact wp_throw trivial
      | none =>
        have hmem := mem_of_find?_eq_some hreceipt.symm
        have hid : receipt.receiptId = q.receiptId := by
          simpa using List.find?_some hreceipt.symm
        refine wp_bind (wp_write (fun w3 _ ho3 => ?_) fun w3 _ _ _ => ?_)
        · refine ⟨.recorded (Log.receipts_subset (hk2.log.trans ho3.log) hmem) rfl rfl
            ⟨rfl, rfl, rfl, rfl, rfl, mem_cons_self, .inl mem_cons_self⟩
            rfl rfl rfl rfl rfl rfl,
            fun _ hm => absurd hm not_mem_nil, .inl rfl⟩
        · refine wp_commit (fun w4 _ ho4 _ => ?_)
          exact ⟨recorderEvent q receipt .started 1, ho4.mem_events_committed _
            (mem_cons_of_mem _ (mem_singleton_self _)), rfl, rfl, rfl,
            congrArg some hid⟩

lemma completionTarget_mem (succeeded uncertain : Bool) (proofType : ProofType) :
    (completionTarget succeeded uncertain proofType).1 ∈ Site.recorderComplete.nextStates := by
  cases succeeded <;> cases uncertain <;> exact of_decide_eq_true rfl

/-- The recorder continues the latest event of its operation. -/
lemma safe_recorderComplete (operationId : PyStr) (succeeded uncertain : Bool)
    (proofType : ProofType) :
    Safe D i (recorderComplete operationId succeeded uncertain proofType) := by
  intro w _
  refine wp_call trivial fun latest w1 _ _ hlatest => ?_
  cases latest with
  | none => exact wp_throw trivial
  | some latest =>
    dsimp only
    split
    · exact wp_throw trivial
    · next hstarted =>
      rw [not_not] at hstarted
      have hwritten := completionTarget_mem succeeded uncertain proofType
      generalize completionTarget succeeded uncertain proofType = completion at hwritten
      obtain ⟨target, proof⟩ := completion
      dsimp only at hwritten ⊢
      split
      · exact wp_throw trivial
      · next htarget =>
        rw [not_not] at htarget
        have hne : target ≠ .started := by
          rintro rfl
          exact absurd htarget (by decide)
        have hmem := (Db.mem_of_latestEvent hlatest.symm).1
        refine wp_bind (wp_write (fun w2 _ ho2 => ?_) fun _ _ _ _ =>
          wp_commit (fun _ _ _ _ => trivial))
        exact legal_continued (Log.events_subset ho2.log hmem)
          (Event.continues_follow hwritten (.inl (hstarted ▸ htarget)) nofun) hne nofun

lemma safe_lifecycleExecute (q : BeginArgs) (completionProof : Option ProofType) :
    Safe D i (lifecycleExecute q completionProof) := by
  have hcomplete : ∀ succeeded uncertain proof (r : Except Exn Json), Safe D i
      (recorderComplete q.operationId succeeded uncertain proof >>= fun _ => .done r) :=
    fun _ _ _ r => .bind (safe_recorderComplete _ _ _ _) fun _ => .of_only trivial
  intro w hinv
  refine wp_seq hinv (wp_recorderBegin q) fun _ w1 _ h => ?_
  obtain ⟨e, he, hstarted⟩ := h
  refine wp_bind (wp_dispatch (fun w2 _ ho2 => ?_) fun outcome w2 hinv2 _ => ?_)
  · refine ⟨⟨e, Log.events_subset ho2.log he, hstarted⟩, fun _ _ hp => ?_⟩
    cases hp
  · cases outcome with
    | error e => exact hcomplete _ _ _ (.error e) w2 hinv2
    | ok result =>
      cases completionProof with
      | none => exact hcomplete _ _ _ (.error .invariantViolation) w2 hinv2
      | some proof => exact hcomplete _ _ _ (.ok result) w2 hinv2

/-- A reconciliation continues the latest event of its operation. -/
lemma safe_reconcileExecution (executionId : PyStr) :
    Safe D i (reconcileExecution executionId) := by
  intro w _
  refine wp_call trivial fun latest w1 _ _ hlatest => ?_
  cases latest with
  | none => exact wp_pure trivial
  | some latest =>
    dsimp only
    split
    · exact wp_pure trivial
    · next hstate =>
      refine wp_call trivial fun answer w2 _ hk2 _ => ?_
      cases answer with
      | missing | failed => exact wp_pure trivial
      | evidence body =>
        dsimp only
        split
        · exact wp_pure trivial
        · refine wp_bind (wp_write (fun w3 _ ho3 => ?_) fun _ _ _ _ => wp_bind
            (wp_commit (fun _ _ _ _ => wp_pure trivial)))
          have hmem := Log.events_subset (hk2.log.trans ho3.log) (hlatest latest rfl)
          exact legal_continued hmem
            ⟨rfl, rfl, rfl, rfl, rfl, mem_cons_self, by simpa using hstate, rfl⟩ nofun nofun

/-! ## Requests -/

/-- What the log says of an answer of session `i`. -/
def Answered (D : Deployment) (i : ℕ) (r : Response) (w : World) : Prop :=
  match r with
  | .evaluation q e => e.decision = .allow → Granted D i q e w.log
  | .redemption q decision _ => decision = .allow → Redeemed D i q w.log
  | .termination q t => t.decision = .allow → t.reason ≠ .terminatedInFlight →
      Settled q.mountId w.log
  | .execution q e => e.reason.Replayed → Concluded i q.mountId .taskComplete w.log
  | _ => True

/-- The others do not change what an answer means. -/
theorem Answered.others {r : Response} {w' : World} (h : Answered D i r w) (ho : Others i w w') :
    Answered D i r w' := by
  cases r with
  | evaluation | redemption => exact fun hallow => (h hallow).mono ho.log
  | termination q t => exact fun hallow hreason => (h hallow hreason).mono ho.log
  | execution q e => exact fun hreason => (h hreason).others ho
  | _ => trivial

lemma Unused.innocent (h : Unused i w) : Innocent i w where
  entries e he _ ht := h.own e he ht.session
  writes _ _ hmem := absurd hmem (h.writes ▸ not_mem_nil)

/-- Every request is safe for a new session. -/
lemma wp_handle (request : Request) (hinv : Inv D w) (hunused : Unused i w) :
    Yields D i (D.handle request) (Answered D i) w := by
  have hsingle : (w.writes i).flatMap Write.receipts = [] := by rw [hunused.writes]; rfl
  have hsafe : ∀ {α : Type} {p : Proc α} {f : α → Proc Response}, Safe D i p →
      (∀ a w', Yields D i (f a) (Answered D i) w') →
      Yields D i (p >>= f) (Answered D i) w :=
    fun hp hf => wp_seq hinv (hp w hinv) (fun a w' _ _ => hf a w')
  cases request with
  | requestMount q => exact hsafe (safe_requestMount q) fun _ _ => wp_pure trivial
  | evaluate q =>
    exact wp_seq hinv (wp_evaluate q hsingle) (fun _ _ _ h => wp_pure h)
  | execute q =>
    exact wp_seq hinv (wp_executeConsequence q hinv hsingle)
      (fun _ _ _ h => wp_pure (h hunused.innocent))
  | redeem q =>
    exact wp_seq hinv (wp_redeemConsequence q) (fun _ _ _ h => wp_pure h)
  | terminate q =>
    exact wp_seq hinv (wp_terminateWithInFlight q hinv) (fun _ _ _ h => wp_pure h.1)
  | advanceEpoch m owner => exact hsafe (safe_advanceEpoch m owner) fun _ _ => wp_pure trivial
  | handover q => exact hsafe (safe_handoverIncarnation q) fun _ _ => wp_pure trivial
  | claimStart q => exact hsafe (safe_claimStart q) fun _ _ => wp_pure trivial
  | completionReport o succeeded uncertain proof =>
    exact hsafe (safe_completionReporter o succeeded uncertain proof) fun _ _ => wp_pure trivial
  | recorderBegin q =>
    exact wp_seq hinv (wp_recorderBegin q) (fun _ _ _ _ => wp_pure trivial)
  | recorderComplete o succeeded uncertain proof =>
    exact hsafe (safe_recorderComplete o succeeded uncertain proof) fun _ _ => wp_pure trivial
  | lifecycleExecute q proof =>
    exact hsafe (safe_lifecycleExecute q proof) fun _ _ => wp_pure trivial
  | reconcile executionId =>
    exact hsafe (safe_reconcileExecution executionId) fun _ _ => wp_pure trivial
  | seedSequence =>
    exact hsafe (.of_only (only_call trivial fun _ => only_perform trivial))
      fun _ _ => wp_pure trivial

lemma wp_serve (request : Request) (hinv : Inv D w) (hunused : Unused i w) :
    Yields D i (D.serve request) (Answered D i) w := by
  refine wp_bind (wp_attempt (wp_mono_inv' hinv (wp_handle request hinv hunused)
    (fun response w1 _ h => ?_) fun e w1 _ _ => ?_))
  · refine wp_bind (wp_rollback fun w2 _ ho2 => wp_pure ?_)
    have h2 := Answered.others h ho2
    exact h2
  · exact wp_bind (wp_rollback fun w2 _ _ => wp_throw trivial)

/-! ## Schedules -/

lemma sound_start : (discipline D).Sound (Answered D) Deployment.start where
  inv := ⟨AuditLog.audited_nil, fun _ _ hx => absurd hx not_mem_nil,
    fun _ _ hx => absurd hx not_mem_nil, fun _ => Nat.zero_le 1⟩
  unused _ _ := ⟨rfl, fun _ he => nomatch he⟩
  safe _ _ hp := nomatch hp

variable {c : Config} {es : Schedule}

/-- Every schedule of the service keeps the discipline. -/
theorem run_sound (hrun : D.run es = some c) : (discipline D).Sound (Answered D) c :=
  sound (fun q _ _ hinv hunused => wp_serve q hinv hunused)
    (fun _ _ _ _ h ho _ => Answered.others h ho) sound_start hrun

/-- The log of every schedule is audited. -/
theorem run_audited (hrun : D.run es = some c) : c.shared.log.Audited D :=
  (run_sound hrun).inv.audited

/-- What a finished session answered. -/
theorem run_answered (hrun : D.run es = some c) {r : Response}
    (hresult : c.result i = some (.ok r)) :
    Answered D i r c.shared :=
  (run_sound hrun).post_of_result hresult

/-- Whatever happens next, the log only grows. -/
lemma next_log {ρ α : Type} {program : ρ → Proc α} {c c' : Sessions.Config Op Val Exn World α}
    {e : Sessions.Event ρ Answer Environment}
    (hnext : c.next (machine D) program e = some c') : c.shared.log <+: c'.shared.log := by
  cases Sessions.Config.next_spec hnext with
  | start | kill => exact prefix_refl _
  | step active exec => exact exec_log _ exec
  | @environment e w' act =>
    cases e <;> cases act <;> exact prefix_append ..

/-- A schedule that goes on, of any programs of the service. -/
lemma config_run_log {ρ α : Type} {program : ρ → Proc α}
    {c c' : Sessions.Config Op Val Exn World α} {es : List (Sessions.Event ρ Answer Environment)}
    (hrun : c.run (machine D) program es = some c') : c.shared.log <+: c'.shared.log := by
  induction es generalizing c with
  | nil =>
    cases hrun
    exact prefix_refl _
  | cons e es ih =>
    obtain ⟨c1, hnext, hrest⟩ := Option.bind_eq_some_iff.mp hrun
    exact (next_log hnext).trans (ih hrest)

/-- A schedule that goes on. -/
lemma run_log {es' : Schedule} {c' : Config}
    (hrun : D.run es = some c) (hrun' : D.run (es ++ es') = some c') :
    c.shared.log <+: c'.shared.log := by
  rw [Deployment.run, Sessions.Config.run_append _ _ hrun] at hrun'
  exact config_run_log hrun'

end CapabilityMount
