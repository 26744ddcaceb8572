import Cappo.CapabilityMount.Correctness.History

/-!
# The fence of a mount

The decision on an operation, its AUTHORIZED event, its claim and its redemption are separate
transactions, and the mount's lock is free in between. A termination or a new epoch still stops
what has not been claimed, because the claim and the redemption look at the mount again under its
lock.

## Main results

* `Log.claim_before_termination`, `Log.redemption_before_termination`: what a terminated mount
  no longer allows;
* `Log.epoch_of_claim`: from the ALLOW to the claim, the epoch of the mount is one and the same;
* `run_fence`: the fence of a mount under every schedule.
-/

namespace CapabilityMount

open VdbC1 (PyStr)
open List Log

variable {D : Deployment} {log pre : Log} {m : PyStr}

/-! ## Claims -/

variable {e : Event} {i : ℕ} {ws : List Write}

/-- An event is there once its commit is. -/
lemma Log.mem_events_of_after (hafter : p ++ [.commit i ws] <+: pre)
    (hes : .insertEvents es ∈ ws) (he : e ∈ es) :
    e ∈ pre.db.events := by
  refine events_subset hafter ?_
  rw [db_concat, Entry.events_apply]
  exact mem_append_right _ (mem_flatMap.mpr ⟨_, hes, he⟩)

/-- A claim that was not there at some moment was committed later, behind the fence. -/
lemma Log.claimedAt_of_not_mem (hlog : log.Audited D) (hpre : pre <+: log)
    (he : e ∈ log.db.events) (hsite : e.site = .beginConsequence) (hnew : e ∉ pre.db.events) :
    ∃ later latest row, pre <+: later ∧ later <+: log ∧ ClaimedAt later latest e row := by
  obtain ⟨p, i, ws, q, es, rfl, hes, hmem, happended⟩ := appended_of_event hlog he
  have hle : pre <+: p := by
    refine (AuditLog.before_or_after hpre).resolve_right fun hafter => hnew ?_
    exact mem_events_of_after hafter hes hmem
  cases happended.role hmem with
  | authorized _ _ site | recorder _ site => nomatch site.symm.trans hsite
  | claimed _ _ _ claim => exact ⟨p, _, _, hle, prefix_append .., claim⟩
  | continued _ _ site => exact absurd hsite site

/-- A mount that is terminated is not live later. -/
lemma Terminated.not_live (h : Terminated m pre) (hlog : log.Audited D) (hpre : pre <+: log)
    (hrow : log.db.mounts m = some row) : row.terminated ≠ false := by
  obtain ⟨row0, hrow0, hterminated⟩ := h
  rw [terminated_mono hlog hpre hrow0 hterminated hrow]
  exact Bool.true_eq_false.mp

/-- No operation of a terminated mount is claimed. -/
theorem Log.claim_before_termination (hlog : log.Audited D) (hpre : pre <+: log)
    (hterminated : Terminated m pre) (he : e ∈ log.db.events) (hm : e.mountId = m)
    (hsite : e.site = .beginConsequence) : e ∈ pre.db.events := by
  by_contra hnew
  obtain ⟨later, latest, row, hle, hle', hclaimed⟩ :=
    claimedAt_of_not_mem hlog hpre he hsite hnew
  obtain ⟨rest, rfl⟩ := hle'
  exact hterminated.not_live hlog.left hle (hm ▸ hclaimed.mount) hclaimed.live

/-- What the mount's target is called for was claimed before the mount was terminated. -/
lemma Log.dispatch_before_termination (hlog : log.Audited D) (hterminated : Terminated m pre)
    (hrest : log = pre ++ rest)
    (hdispatched : .dispatched i (.execute operationId m packageRef targetRef action resource
      arguments) ∈ rest) :
    ∃ e ∈ pre.db.events, e.operationId = operationId ∧ e.mountId = m ∧ e.state = .started := by
  obtain ⟨before, after, rfl⟩ := append_of_mem hdispatched
  rw [← append_assoc] at hrest
  obtain ⟨⟨e, he, ho, hm, hstarted, hsite⟩, -⟩ := hlog _ _ after hrest
  rw [hrest] at hlog
  exact ⟨e, claim_before_termination hlog.left (prefix_append ..) hterminated he hm hsite,
    ho, hm, hstarted⟩

/-! ## Epochs -/

/-- The ALLOW behind an authorization. -/
lemma Log.decided_of_authorized (hlog : log.Audited D) (he : e ∈ log.db.events)
    (hstate : e.state = .authorized) (hsite : e.site = .cappoEvaluator) : Decided log e := by
  obtain ⟨p, i, ws, q, es, rfl, hes, hmem, happended⟩ := appended_of_event hlog he
  cases happended.role hmem with
  | authorized _ _ _ decided => exact decided.mono (prefix_append ..)
  | claimed continues | continued continues => exact absurd hstate continues.notAuthorized
  | recorder _ site => nomatch site.symm.trans hsite

/-- The epoch of a mount never goes back. -/
lemma Log.epoch_mono (hlog : log.Audited D) (hpre : pre <+: log)
    (hrow : pre.db.mounts m = some row) (hrow' : log.db.mounts m = some row') :
    row.authorityEpoch ≤ row'.authorityEpoch := by
  obtain ⟨row1, hrow1, hevolves⟩ := mounts_evolve hlog hpre hrow
  obtain rfl := Option.mem_unique hrow1 hrow'
  exact hevolves.authorityEpoch

/-- Between the ALLOW of a receipt and a claim under that receipt, the mount has the epoch that
it had when the ALLOW was committed. -/
theorem Log.epoch_of_claim (hlog : log.Audited D) (hpre : pre <+: log) {p q : Log} {r : Receipt}
    (hallow : pre = p ++ .commit i ws :: q) (hr : .insertReceipt r ∈ ws) {row row' : MountRow}
    (hrow : p.db.mounts e.mountId = some row) (hrow' : pre.db.mounts e.mountId = some row')
    (he : e ∈ log.db.events) (hreceipt : e.receiptId = some r.receiptId)
    (hsite : e.site = .beginConsequence) (hnew : e ∉ pre.db.events) :
    row'.authorityEpoch = row.authorityEpoch := by
  obtain ⟨later, latest, rowc, hle, hle', hclaimed⟩ :=
    claimedAt_of_not_mem hlog hpre he hsite hnew
  obtain ⟨rest, rfl⟩ := hle'
  have hlater := hlog.left
  -- the authorization rests on the same ALLOW
  obtain ⟨p', i', ws', q', r', row0, hallow', hr', hreceipt', hmount', hrow0, hepoch0⟩ :=
    decided_of_authorized hlater hclaimed.mem hclaimed.authorized hclaimed.site
  have hid : r.receiptId = r'.receiptId := Option.some.inj
    (hreceipt.symm.trans (hclaimed.receiptId.trans hreceipt'))
  obtain ⟨between, rfl⟩ := hle
  have hsplit : pre ++ between = p ++ .commit i ws :: (q ++ between) := by
    rw [hallow, append_assoc, cons_append]
  obtain ⟨rfl, -⟩ := commit_unique hlater hsplit hallow' hr hr'
    (Write.excludes_insertReceipt hid) (Write.excludes_insertReceipt hid.symm)
  rw [← hclaimed.mountId] at hrow0
  obtain rfl := Option.mem_unique hrow hrow0
  -- and the epochs at the ALLOW and at the claim enclose the one in between
  have hlower := epoch_mono hlater.left (hallow ▸ prefix_append ..) hrow hrow'
  have hupper := epoch_mono hlater (prefix_append ..) hrow' hclaimed.mount
  have hsame : row.authorityEpoch = rowc.authorityEpoch :=
    Option.mem_unique hepoch0 hclaimed.epoch
  omega

/-! ## Redemptions -/

variable {r : Redemption}

/-- What a redemption is justified by when it is committed. -/
lemma Log.redeems_of_commit (hlog : log.Audited D)
    (hsplit : log = p ++ .commit i ws :: q) (hr : .insertRedemption r ∈ ws) :
    Redeems p r := (hlog p _ q hsplit).1 _ hr

/-- No operation of a terminated mount is redeemed. -/
theorem Log.redemption_before_termination (hlog : log.Audited D) (hpre : pre <+: log)
    (hterminated : Terminated m pre) {p q : Log} (hsplit : log = p ++ .commit i ws :: q)
    (hr : .insertRedemption r ∈ ws) (hm : r.mountId = m) : p ++ [.commit i ws] <+: pre := by
  obtain ⟨row, hrow, hlive⟩ := (redeems_of_commit hlog hsplit hr).mount
  subst hsplit
  refine (AuditLog.before_or_after hpre).resolve_left fun hbefore => ?_
  exact hterminated.not_live hlog.left hbefore (hm ▸ hrow) hlive

/-- The mount of a redeemed operation. -/
lemma Redeems.mountId_eq (h : Redeems pre r) (hlog : log.Audited D) (hpre : pre <+: log)
    (he : e ∈ log.db.events) (ho : e.operationId = r.operationId) : e.mountId = r.mountId := by
  obtain ⟨n, latest, row, -, hredeemable⟩ := h.decided
  obtain ⟨hmem, hlatest⟩ := Db.mem_of_latestEvent hredeemable.latestEvent
  have hread := take_prefix n pre
  have hmem' := events_subset (hread.trans hpre) hmem
  rw [((wellRecorded hlog).same he hmem' (ho.trans hlatest.symm)).2.1, hredeemable.mountId]

/-! ## Schedules -/

/-- The fence under every schedule, from a state `c` on. If a mount is terminated there, no
operation of it is claimed any more, its target is called for operations only that were started
there, and an ALLOW to redeem one was committed before. If the epoch of the mount there is another
than the one at which an ALLOW was decided, no operation is started under that ALLOW any more. -/
theorem run_fence {es es' : Schedule}
    {c c' : Config} (hrun : D.run es = some c)
    (hrun' : D.run (es ++ es') = some c') (m : PyStr) :
    (Terminated m c.shared.log →
      (∀ e ∈ c'.shared.db.events, e.mountId = m → e.site = .beginConsequence →
        e ∈ c.shared.db.events) ∧
      (∀ rest : Log, c'.shared.log = c.shared.log ++ rest →
        ∀ i operationId packageRef targetRef action resource arguments,
          .dispatched i (.execute operationId m packageRef targetRef action resource arguments) ∈
            rest →
          ∃ e ∈ c.shared.db.events, e.operationId = operationId ∧ e.mountId = m ∧
            e.state = .started) ∧
      ∀ i q reason, c'.result i = some (.ok (.redemption q .allow reason)) →
        (∃ e ∈ c'.shared.db.events, e.operationId = q.operationId ∧ e.mountId = m) →
        c.sessions i ≠ .unused ∧ ∃ r ∈ c.shared.db.redemptions, r.operationId = q.operationId) ∧
    ∀ (p q : Log) i ws r row row', c.shared.log = p ++ .commit i ws :: q →
      .insertReceipt r ∈ ws → p.db.mounts m = some row → c.shared.db.mounts m = some row' →
      row'.authorityEpoch ≠ row.authorityEpoch →
      ∀ e ∈ c'.shared.db.events, e.mountId = m → e.receiptId = some r.receiptId →
        e.state = .started → e.site ≠ .recorderBegin → e ∈ c.shared.db.events := by
  have hlog := run_audited hrun'
  have hpre := run_log hrun hrun'
  refine ⟨fun hterminated => ⟨fun e => claim_before_termination hlog hpre hterminated,
    fun rest hrest i o p t a r args => dispatch_before_termination hlog hterminated hrest,
    ?_⟩, ?_⟩
  · -- the commit of the redemption is an entry of the session from before the termination
    rintro i q reason hresult ⟨e, he, ho, hm⟩
    obtain ⟨p, ws, rest, r, pinned, hsplit, hr, hop, -⟩ := run_answered hrun' hresult rfl
    have hredeems := redeems_of_commit hlog hsplit hr
    have hmount := hredeems.mountId_eq hlog (hsplit ▸ prefix_append ..) he (ho.trans hop.symm)
    have hbefore := redemption_before_termination hlog hpre hterminated hsplit hr
      (hmount.symm.trans hm)
    have hentry : Entry.commit i ws ∈ c.shared.log :=
      hbefore.subset mem_concat_self
    refine ⟨fun hunused => ((run_sound hrun).unused i hunused).own _ hentry rfl, r, ?_, hop⟩
    change r ∈ c.shared.log.db.redemptions
    rw [Db.grows_redemptions.log_db]
    exact mem_flatMap.mpr ⟨_, mem_flatMap.mpr ⟨_, hentry, hr⟩, mem_singleton_self r⟩
  · intro p q i ws r row row' hsplit hr hrow hrow' hne e he hm hreceipt hstarted hsite
    subst hm
    by_contra hnew
    have hbegin := (started_cases hlog he hstarted).resolve_right fun h => hsite h.1
    exact hne (epoch_of_claim hlog hpre hsplit hr hrow hrow' he hreceipt hbegin hnew)

/-- A mount that is terminated between the AUTHORIZED event and the claim: the claim is refused. -/
theorem run_fence_refused :
    let before := Sample.mounted ++ Sample.allowed 2 "o" ++
      Sample.steps 2 (Sample.oks 2) ++ Sample.terminated 3
    ∃ c c', Sample.deployment.run before = some c ∧
      Sample.deployment.run (before ++ Sample.steps 2 (Sample.oks 4)) = some c' ∧
      Terminated Sample.mountId c.shared.log ∧
      (history c'.shared.db.events "o").map Event.state =
        [.authorized, .failed] ∧
      ∀ e ∈ c'.shared.db.events, e.mountId = Sample.mountId → e.site = .beginConsequence →
        e ∈ c.shared.db.events := by
  intro before
  obtain ⟨c, hrun, hterminated⟩ := Sample.exists_run before
    (fun c => (c.shared.db.mounts Sample.mountId).map MountRow.terminated = some true)
    (by decide +kernel)
  obtain ⟨c', hrun', hstates⟩ := Sample.exists_run (before ++ Sample.steps 2 (Sample.oks 4))
    (fun c => (history c.shared.db.events "o").map Event.state =
      [.authorized, .failed]) (by decide +kernel)
  have hfence : Terminated Sample.mountId c.shared.log := Option.map_eq_some_iff.mp hterminated
  exact ⟨c, c', hrun, hrun', hfence, hstates,
    ((run_fence hrun hrun' Sample.mountId).1 hfence).1⟩

end CapabilityMount
