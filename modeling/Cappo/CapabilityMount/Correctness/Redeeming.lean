import Cappo.CapabilityMount.Correctness.Rules

/-!
# What a redemption rests on

`redeem_consequence` reads the operation to find its mount, locks the mount, and reads the
operation again. Under the lock the operation cannot be claimed any more. So an operation that is
found started was already started when the mount was found live and not expired.

## Main results

* `latestEvent_of_later`: the two reads under the lock speak of one moment;
* `wp_redeemConsequence`: an ALLOW is the commit of a redemption that was found to be due.
-/

namespace CapabilityMount

open VdbC1 (PyStr)
open Sessions.Discipline Sessions.Program

variable {D : Deployment} {i : ℕ}

/-- An operation that is found started under the lock of its mount was so since the lock was
taken, if it had an event then. -/
theorem latestEvent_of_later {log log' : Log} (hlog : log'.Audited D) (hpre : log <+: log')
    {first latest : Event} (hfirst : first ∈ log.db.events)
    (hlatest : log'.db.latestEvent first.operationId = some latest)
    (hstarted : latest.state = .started) (hfenced : Fenced first.mountId log log') :
    log.db.latestEvent first.operationId = some latest ∧ latest.mountId = first.mountId := by
  obtain ⟨hmem, ho⟩ := Db.mem_of_latestEvent hlatest
  have hrecorded := Log.wellRecorded hlog
  have hmount := (hrecorded.same hmem (Log.events_subset hpre hfirst) ho).2.1
  have hthere : latest ∈ log.db.events := by
    rcases Log.started_cases hlog hmem hstarted with hsite | ⟨-, hevery⟩
    · exact hfenced.claims latest hmem hsite hmount
    · exact hevery log hpre first hfirst ho.symm
  refine ⟨?_, hmount⟩
  obtain ⟨suffix, rfl⟩ := hpre
  rw [← ho]
  refine Db.latestEvent_eq_some (Log.wellRecorded hlog.left) hthere fun e he heo => ?_
  exact Db.le_of_latestEvent hlatest (Log.events_subset (List.prefix_append ..) he) (heo.trans ho)

/-- Session `i` found the operation redeemable, at a moment after its own first commit. -/
def FoundRedeemable (i : ℕ) (r : Redemption) (log : Log) : Prop :=
  ∃ moment : Log, moment <+: log ∧ (∃ e ∈ moment, e.session = some i) ∧
    ∃ latest row, Redeemable moment r latest row

lemma FoundRedeemable.mono (h : FoundRedeemable i r log)
    (hpre : log <+: log') : FoundRedeemable i r log' := by
  obtain ⟨moment, hle, h⟩ := h
  exact ⟨moment, hle.trans hpre, h⟩

/-- An ALLOW was given: the redemption was found to be due and was committed, on a request that
the target signed. -/
def Redeemed (D : Deployment) (i : ℕ) (q : RedeemArgs) (log : Log) : Prop :=
  ∃ pre ws post r pinned, log = pre ++ Entry.commit i ws :: post ∧ .insertRedemption r ∈ ws ∧
    r.operationId = q.operationId ∧ r.payloadSha256 = q.payloadSha256 ∧
    q.sinkRef = some r.sinkRef ∧ D.pinnedKey r.sinkRef = some pinned ∧
    D.signatureVerifies q r.sinkRef pinned = some true ∧ FoundRedeemable i r pre

variable {q : RedeemArgs}

lemma Redeemed.mono (h : Redeemed D i q log) (hpre : log <+: log') : Redeemed D i q log' := by
  obtain ⟨pre, ws, post, r, pinned, rfl, h⟩ := h
  obtain ⟨suffix, rfl⟩ := hpre
  exact ⟨pre, ws, post ++ suffix, r, pinned, by rw [List.append_assoc, List.cons_append], h⟩

/-- The request is signed by the key that is pinned for its target. -/
structure Signed (D : Deployment) (q : RedeemArgs) (sinkRef : PyStr) : Prop where
  sink : q.sinkRef = some sinkRef
  signature : ∃ pinned, D.pinnedKey sinkRef = some pinned ∧
    D.signatureVerifies q sinkRef pinned = some true

variable {w : World}

lemma wp_refuse (q : RedeemArgs) (reason : Reason) (record : Bool) :
    Yields D i (refuse q reason record) (fun r w' => r.1 = .allow → Redeemed D i q w'.log) w := by
  refine wp_bind (wp_rollback fun w1 hinv1 _ => ?_)
  split
  · have hsafe : Safe D i (anchorConsequenceOutcome q.operationId "redeem_refused") :=
      .of_only (only_anchorConsequenceOutcome _ _ trivial trivial trivial)
    exact wp_seq hinv1.release (hsafe _ hinv1.release) (fun _ _ _ _ => wp_pure nofun)
  · exact wp_pure nofun

variable {sinkRef : PyStr}

/-- A permit that matches is redeemed once. -/
lemma wp_redeemMatched (hsigned : Signed D q sinkRef)
    (hfound : FoundRedeemable i (q.redemption latest mountId sinkRef) w.log)
    (hredeems : ∀ w', Inv D w' → Others i w w' → Redeems w'.log (q.redemption latest mountId
      sinkRef)) (hlock : w.locks mountId = some i) :
    Yields D i (redeemMatched q latest mountId sinkRef)
      (fun r w' => r.1 = .allow → Redeemed D i q w'.log) w := by
  refine wp_bind (wp_write (fun w1 hinv1 ho1 => ⟨hredeems w1 hinv1 ho1, fun m hm => ?_, .inl rfl⟩)
    fun w1 _ ho1 _ => ?_)
  · obtain rfl := List.mem_singleton.mp hm
    exact ho1.locks _ hlock
  · refine wp_bind (wp_attempt (wp_commit' (fun w2 _ ho2 _ => wp_pure fun _ => ?_)
      fun e w2 _ _ => ?_))
    · obtain ⟨pinned, hpinned, hverifies⟩ := hsigned.signature
      refine ⟨w2.log, w2.writes i, [], q.redemption latest mountId sinkRef, pinned, rfl, ?_, rfl,
        rfl, hsigned.sink, hpinned, hverifies, hfound.mono (ho1.log.trans ho2.log)⟩
      rw [ho2.writes, World.writes_wrote_self]
      exact List.mem_concat_self
    · cases e with
      | integrity => exact wp_refuse q _ _
      | _ => exact wp_throw trivial

/-- The redemption under the lock of the mount. -/
lemma wp_redeemLocked (hsigned : Signed D q sinkRef) (hfirst : first ∈ w.db.events)
    (ho : first.operationId = q.operationId) (hheld : Held i first.mountId row w)
    (hown : ∃ e ∈ w.log, e.session = some i) :
    Yields D i (redeemLocked q key row first.mountId sinkRef)
      (fun r w' => r.1 = .allow → Redeemed D i q w'.log) w := by
  unfold redeemLocked
  split
  · exact wp_refuse q _ _
  · next hlive =>
    refine wp_call trivial fun now w1 hinv1 hk1 hnow => ?_
    split
    · exact wp_refuse q _ _
    · next hexpiry =>
      refine wp_call trivial fun latest w2 hinv2 hk2 hlatest => ?_
      cases latest with
      | none => exact wp_throw trivial
      | some latest =>
        dsimp only
        split
        · exact wp_refuse q _ _
        · next hstarted =>
          rw [not_not] at hstarted
          refine wp_call trivial fun matched w3 hinv3 hk3 hmatched => ?_
          split
          · exact wp_refuse q _ _
          · next htrue =>
            have hheld1 := hheld.keeps hk1
            obtain ⟨row1, hrow1, heq1⟩ := hheld1.mount
            obtain ⟨hlatest1, hmount⟩ := latestEvent_of_later hinv2.audited hk2.log
              (Log.events_subset hk1.log hfirst) (ho ▸ hlatest.symm) hstarted
              (hk2.fenced _ hheld1.lock)
            -- the moment at which the clock was read
            have hredeemable : Redeemable w1.log
                (q.redemption latest first.mountId sinkRef) latest row1 := {
              latestEvent := (congrArg w1.log.db.latestEvent ho).symm.trans hlatest1
              started := hstarted
              receiptId := rfl
              mountId := hmount
              mount := hrow1
              live := by
                rw [MountRow.congr_of_unconsumed_eq MountRow.terminated (fun _ => rfl) heq1]
                simpa using hlive
              unexpired := by
                rw [MountRow.congr_of_unconsumed_eq MountRow.expiresAt (fun _ => rfl) heq1, ← hnow]
                exact not_le.mp hexpiry }
            obtain ⟨e, he, hsession⟩ := hown
            have hfound : FoundRedeemable i (q.redemption latest first.mountId sinkRef) w3.log :=
              ⟨w1.log, hk2.log.trans hk3.log, ⟨e, hk1.log.subset he, hsession⟩, latest, row1,
                hredeemable⟩
            refine wp_redeemMatched hsigned hfound (fun w4 hinv4 ho4 => ?_)
              ((hk2.trans hk3).locks _ hheld1.lock)
            have hk := (hk2.trans hk3).trans ho4.keeps
            obtain ⟨p, hp, hmessage⟩ := hmatched (by simpa using htrue)
            obtain ⟨row4, hrow4, heq4⟩ := (hheld1.keeps hk).mount
            refine ⟨⟨w1.log.length, latest, row1, hk.log.length_le, ?_⟩, ⟨row4, hrow4, ?_⟩,
              ⟨p, Log.permits_subset ho4.log hp, hmessage⟩⟩
            · rwa [← List.prefix_iff_eq_take.mp hk.log]
            · rw [MountRow.congr_of_unconsumed_eq MountRow.terminated (fun _ => rfl) heq4]
              simpa using hlive

/-- Only what a permit was minted for is redeemed. -/
lemma wp_redeemAuthenticated (key : VdbC1.Bytes) (hsigned : Signed D q sinkRef) :
    Yields D i (redeemAuthenticated q key sinkRef)
      (fun r w' => r.1 = .allow → Redeemed D i q w'.log) w := by
  refine wp_call trivial fun first w1 _ _ hfirst => ?_
  cases first with
  | none => exact wp_refuse q _ _
  | some first =>
    obtain ⟨hmem, ho⟩ := Db.mem_of_latestEvent hfirst.symm
    dsimp only
    split
    · exact wp_refuse q _ _
    · refine wp_bind (wp_commit (fun w2 _ ho2 _ => ?_))
      refine wp_call trivial fun row w3 _ hk3 hrow => ?_
      cases row with
      | none => exact wp_refuse q _ _
      | some row =>
        have hlog := (ho2.log.trans (List.prefix_append ..)).trans hk3.log
        refine wp_redeemLocked hsigned (Log.events_subset hlog hmem) ho (.of_answer hrow)
          ⟨_, hk3.log.subset List.mem_concat_self, rfl⟩

/-- An ALLOW of `redeem_consequence` is the commit of a redemption. -/
theorem wp_redeemConsequence (q : RedeemArgs) : Yields D i (D.redeemConsequence q)
      (fun r w' => r.1 = .allow → Redeemed D i q w'.log) w := by
  unfold Deployment.redeemConsequence
  split
  · exact wp_refuse q _ _
  · exact wp_refuse q _ _
  · next hsink =>
    split
    · exact wp_refuse q _ _
    · next pinned hpinned =>
      split
      · exact wp_throw trivial
      · exact wp_refuse q _ _
      · next hverifies =>
        refine wp_redeemAuthenticated _ ⟨?_, pinned, hpinned, hverifies⟩
        exact (Option.filter_eq_some_iff.mp hsink).1

end CapabilityMount
