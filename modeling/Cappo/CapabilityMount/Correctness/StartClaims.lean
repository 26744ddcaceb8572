import Cappo.CapabilityMount.Correctness.SingleUse
import Cappo.CapabilityMount.Correctness.Vouching

/-!
# Start claims

`claim_start` grants one operation the right to start work under a mount. The claim is one
transaction, the revocation another, and the execution a third; what holds across them is read off
the log. The operation of an execution is the claimed one, unless the claimed id is empty: then
`execute_consequence` takes it for a missing one and draws a new id.

## Main definitions

* `Deployment.Serves`: a session that serves a request in a run;
* `Requested`: what the preflight of a request found, for an event that the request recorded;
* `StartGranted`: what an ALLOW of `claim_start` rests on.

## Main results

* `requested_of_records`: an operation is authorized for the request that the session serves;
* `start_claim_exclusive`: one operation of a mount has the claim, and no other is authorized.
-/

namespace CapabilityMount

open VdbC1 (PyStr Json)
open Sessions.Discipline
open Sessions.Program

variable {D : Deployment} {i : ℕ} {w w' : World}
  {c c' : Config}

/-- Session `i` is started for a request at `c`, in a run that has come to `c'`. -/
structure Deployment.Serves (D : Deployment) (i : ℕ) (request : Request)
    (c c' : Config) : Prop where
  before : ∃ es, D.run es = some c
  after : ∃ es, c.run (machine D) D.serve (.start i request :: es) = some c'

lemma Deployment.Serves.audited (h : D.Serves i request c c') : c'.shared.log.Audited D := by
  obtain ⟨es, hrun⟩ := h.before
  obtain ⟨es', hserve⟩ := h.after
  have hwhole : D.run (es ++ .start i request :: es') = some c' := by
    rw [Deployment.run, Sessions.Config.run_append _ _ hrun]
    exact hserve
  exact run_audited hwhole

/-! ## Executions -/

/-- Session `i` has recorded an event. -/
def Log.Records (i : ℕ) (e : Event) (log : Log) : Prop :=
  ∃ entry ∈ log, entry.session = some i ∧ ∃ x ∈ entry.writes, e ∈ x.events

instance (i : ℕ) (e : Event) (log : Log) : Decidable (log.Records i e) :=
  inferInstanceAs (Decidable (∃ entry ∈ log, entry.session = some i ∧ ∃ x ∈ entry.writes, _))

/-- An event that authorizes an operation for a request: the request passed the checks of its target
on the row that the mount had at some moment, and the event has the request's intent and, unless
that is missing or empty, its operation id. -/
def Requested (D : Deployment) (q : ExecuteArgs) (e : Event) (log : Log) : Prop :=
  ∃ (pre : Log) (row : MountRow), pre <+: log ∧ pre.db.mounts q.mountId = some row ∧
    D.targetReason q row = .ok none ∧ e.mountId = row.mount.id ∧
    (∀ o, q.operationId = some o → o ≠ [] → e.operationId = o) ∧
    e.intentHash = D.intentHash row.token.mountId row.token.executionId q.call

/-- The voucher of a session that serves an `execute`. -/
def Requested.voucher (D : Deployment) (i : ℕ) (q : ExecuteArgs) : Voucher where
  ok j x log := j = i → ∀ e ∈ x.events, e.state = .authorized → Requested D q e log
  mono h hlog hj e he hstate := by
    obtain ⟨pre, row, hpre, hrow⟩ := h hj e he hstate
    exact ⟨pre, row, hpre.trans hlog, hrow⟩
  sequence _ _ _ _ he := nomatch he

lemma Op.Unauthorizing.vouched {op : Op} (h : op.Unauthorizing) {q : ExecuteArgs} {x : Write}
    (hx : op = .write x) (log : Log) : (Requested.voucher D i q).ok i x log := by
  subst hx
  intro _ e he hstate
  cases x with
  | insertEvents es => exact absurd hstate (h e he)
  | _ => nomatch he

/-- What `execute_consequence` authorizes is the operation that was requested. -/
lemma wp_executeConsequence_requested (q : ExecuteArgs) :
    ((Requested.voucher D i q).discipline D).yields i (D.executeConsequence q) (fun _ _ => True)
      w := by
  have hunauthorizing : ∀ {α : Type} {p : Proc α} {w : World},
      (Requested.voucher D i q).Inv w → p.Only Op.Unauthorizing →
      ((Requested.voucher D i q).discipline D).yields i p (fun _ _ => True) w :=
    fun hinv hp => wp_mono_inv hinv (Voucher.wp_of_only
      (hp.mono fun op hop x hx log _ => hop.vouched hx log) (List.prefix_refl _))
      (fun _ _ _ _ => trivial)
  have hdenied : ∀ operationId reason, (preflightDenied operationId reason).Only Op.Unauthorizing :=
    fun _ _ => only_call trivial fun _ => only_pure _
  refine Voucher.wp_call (fun _ => Op.noConfusion) fun _ _ random w1 _ _ _ => ?_
  refine Voucher.wp_call (fun _ => Op.noConfusion) fun w2 a row w3 _ hinv3 hexec => ?_
  rcases lockMount_cases hexec with ⟨hr, -⟩ | ⟨hr, -⟩ | ⟨row, hr, hrow, -, rfl⟩
  · nomatch hr
  · cases hr
    exact hunauthorizing hinv3 (hdenied _ _)
  · cases hr
    dsimp only
    split
    · exact hunauthorizing hinv3 (hdenied _ _)
    · have hreading : ∀ {α : Type} {p : Proc α}, p.Straight Op.Reading →
          p.Only Op.Unauthorizing := fun hp =>
        (only_of_reading hp).mono fun _ => Op.Common.unauthorizing
      refine wp_seq hinv3 (wp_and (wp_preflight (fun op w hop x hx =>
        (hop.mild.common.unauthorizing).vouched hx _) q row) (Voucher.wp_of_only
          ((hreading (straight_preflight q row)).mono fun op hop x hx log _ => hop.vouched hx log)
          (List.prefix_refl w2.log))) (fun reason w4 hinv4 ⟨hchecked, hlog⟩ => ?_)
      cases reason with
      | some reason => exact hunauthorizing hinv4 (hdenied _ _)
      | none =>
        -- what follows authorizes nothing, or the operation that was checked
        refine wp_mono_inv hinv4 (Voucher.wp_of_only (only_bind
          ((hreading (straight_recorded q)).mono fun op hop x hx log _ => hop.vouched hx log)
          fun latest => ?_) hlog) (fun _ _ _ _ => trivial)
        cases latest with
        | some latest =>
          exact only_bind (only_perform fun _ hx => Op.noConfusion hx) fun _ => only_pure _
        | none =>
          refine only_authorizeAndExecute (fun op hop x hx log _ => hop.vouched hx log) row q _ ?_
          rintro epoch receiptId x hx log hpre - e he -
          cases hx
          obtain rfl := List.mem_singleton.mp he
          refine ⟨w2.log, row, hpre, hrow, hchecked, rfl, fun o ho hne => ?_, rfl⟩
          change (q.operationId.filter fun o => o ≠ []).getD random = o
          simp [Option.filter, ho, hne]

/-- An operation is authorized for the request that the session serves. -/
theorem requested_of_records {q : ExecuteArgs} (h : D.Serves i (.execute q) c c') {e : Event}
    (he : c'.shared.log.Records i e) (hstate : e.state = .authorized) :
    Requested D q e c'.shared.log := by
  obtain ⟨es, hrun⟩ := h.before
  obtain ⟨es', hserve⟩ := h.after
  obtain ⟨entry, hentry, hsession, x, hx, hex⟩ := he
  obtain ⟨-, hok, -⟩ := Voucher.served (V := Requested.voucher D i q) (R := fun _ _ => True)
    (fun j x log hj hji => absurd hji hj) (fun _ _ => trivial) hrun hserve fun hinv _ =>
      wp_seq hinv (wp_executeConsequence_requested q) (fun _ _ _ _ => wp_pure trivial)
  cases entry with
  | commit j ws =>
    cases hsession
    exact hok ws hentry x hx rfl e hex hstate
  | _ => nomatch hx

/-! ## Claims -/

/-- The row that a claim is decided on, at two moments: when it is read, and when the clock is. -/
structure Claimable (q : ClaimStartArgs) (row : MountRow) (log0 log : Log) : Prop where
  terminated : row.terminated = false
  nonceConsumed : row.nonceConsumed = false
  moments : ∃ pre pre' : Log, log0 <+: pre ∧ pre <+: pre' ∧ pre' <+: log ∧
    pre.db.mounts q.mountId = some row ∧ pre'.now < row.expiresAt

/-- What an ALLOW of `claim_start` to session `i` rests on, and what it leaves: between the request
and the commit of the session, the row that it read was live, its token was not consumed and it had
not expired; and the mount has the claim. -/
structure StartGranted (i : ℕ) (q : ClaimStartArgs) (log0 log : Log) : Prop where
  decided : ∃ (before : Log) (ws : List Write) (row : MountRow),
    before ++ [.commit i ws] <+: log ∧ Claimable q row log0 before
  claimed : ∃ row, log.db.mounts q.mountId = some row ∧
    row.startClaimOperationId = some q.operationId

variable {q : ClaimStartArgs} {row : MountRow}

lemma Claimable.mono {log0 log log' : Log} (h : Claimable q row log0 log) (hlog : log <+: log') :
    Claimable q row log0 log' where
  terminated := h.terminated
  nonceConsumed := h.nonceConsumed
  moments := by
    obtain ⟨pre, pre', h0, hpre, hpre', hrow⟩ := h.moments
    exact ⟨pre, pre', h0, hpre, hpre'.trans hlog, hrow⟩

/-- The claim was there, or session `i` has committed it. -/
def Granting (i : ℕ) (q : ClaimStartArgs) (log0 log : Log) : Prop :=
  ∃ (before : Log) (ws : List Write) (row : MountRow), before ++ [.commit i ws] <+: log ∧
    Claimable q row log0 before ∧ (row.startClaimOperationId = some q.operationId ∨
      .updateMount q.mountId (.claimStart q.operationId) ∈ ws)

/-- The voucher of a session that serves a `claim_start`: it updates the mount in one way. -/
def StartGranted.voucher (i : ℕ) (q : ClaimStartArgs) : Voucher where
  ok j x _ := j = i → ∀ u, x = .updateMount q.mountId u → u = .claimStart q.operationId
  mono h _ := h
  sequence _ _ _ _ h := Write.noConfusion h

/-- A start is granted to the operation that holds the claim, or takes it. -/
lemma wp_claimStartRow_granting (hrow : w.db.mounts q.mountId = some row) (hlog : log0 <+: w.log) :
    ((StartGranted.voucher i q).discipline D).yields i (claimStartRow q row)
      (fun a w' => a.1 = .allow → Claimable q row log0 w'.log ∧
        (row.startClaimOperationId = some q.operationId ∨
          .updateMount q.mountId (.claimStart q.operationId) ∈ w'.writes i)) w := by
  unfold claimStartRow
  split
  · exact wp_pure nofun
  · split
    · exact wp_pure nofun
    · next hterminated =>
      refine Voucher.wp_call (fun _ => Op.noConfusion) fun w1 a now w2 ho _ hexec => ?_
      obtain ⟨hnow, rfl⟩ := Prod.mk.inj (Option.some.inj hexec)
      cases hnow
      split
      · exact wp_pure nofun
      · next hexpires =>
        split
        · exact wp_pure nofun
        · next hconsumed =>
          have hclaimable : Claimable q row log0 w1.log := {
            terminated := by simpa using hterminated
            nonceConsumed := by simpa using hconsumed
            moments := ⟨w.log, w1.log, hlog, ho.log, List.prefix_rfl, hrow, not_le.mp hexpires⟩ }
          split
          · exact wp_pure nofun
          · split
            · next hclaimed => exact wp_pure fun _ => ⟨hclaimable, .inl hclaimed⟩
            · split
              · exact wp_pure nofun
              · refine wp_bind (wp_perform fun w2 ho2 _ => ⟨fun x hx _ u hu => ?_, fun a w3 _ =>
                  ⟨fun v hexec => wp_pure fun _ => ?_, fun _ _ => trivial⟩⟩)
                · cases hx
                  exact (Write.updateMount.inj hu).2.symm
                · cases hexec
                  refine ⟨hclaimable.mono ho2.log, .inr ?_⟩
                  rw [World.writes_wrote_self]
                  exact List.mem_concat_self

lemma wp_claimStart_granting (q : ClaimStartArgs) :
    ((StartGranted.voucher i q).discipline D).yields i (claimStart q)
      (fun a w' => a.1 = .allow → Granting i q w.log w'.log) w := by
  refine Voucher.wp_call (fun _ => Op.noConfusion) fun w1 a row w2 ho hinv2 hexec => ?_
  rcases lockMount_cases hexec with ⟨hr, -⟩ | ⟨hr, -⟩ | ⟨row, hr, hrow, -, rfl⟩
  · nomatch hr
  · cases hr
    exact Voucher.wp_call (fun _ => Op.noConfusion) fun _ _ _ _ _ _ _ => wp_pure nofun
  · cases hr
    refine wp_bind (wp_attempt (wp_mono_inv' hinv2 (wp_claimStartRow_granting hrow ho.log)
      (fun answer w3 _ h => ?_) fun e w3 _ _ => ?_))
    · refine Voucher.wp_call (fun _ => Op.noConfusion) fun w4 a v w5 ho4 _ hexec =>
        wp_pure fun hallow => ?_
      obtain ⟨hclaimable, hclaim⟩ := h hallow
      rcases commit_cases hexec with ⟨⟨e, hr⟩, -⟩ | ⟨-, -, rfl⟩
      · nomatch hr
      · exact ⟨w4.log, w4.writes i, row, List.prefix_rfl, hclaimable.mono ho4.log,
          hclaim.imp_right fun hmem => ho4.writes ▸ hmem⟩
    · exact Voucher.wp_call (fun _ => Op.noConfusion) fun _ _ _ _ _ _ _ => wp_throw trivial

/-- What the session has seen and done, read off the log. -/
theorem Granting.granted {log0 log : Log} (h : Granting i q log0 log) (hlog : log.Audited D)
    (hok : ∀ ws, .commit i ws ∈ log → ∀ u, .updateMount q.mountId u ∈ ws → u = .claimStart
      q.operationId) :
    StartGranted i q log0 log := by
  obtain ⟨before, ws, row, hcommit, hclaimable, hclaim⟩ := h
  refine ⟨⟨before, ws, row, hcommit, hclaimable⟩, ?_⟩
  -- the claim lasts from when it was there first
  obtain ⟨first, row1, hfirst, hrow1, hclaimed⟩ : ∃ (first : Log) (row1 : MountRow),
      first <+: log ∧ first.db.mounts q.mountId = some row1 ∧
        row1.startClaimOperationId = some q.operationId := by
    rcases hclaim with hclaimed | hmem
    · obtain ⟨pre, pre', -, hpre, hpre', hrow, -⟩ := hclaimable.moments
      exact ⟨pre, row, ((hpre.trans hpre').trans (List.prefix_append ..)).trans hcommit, hrow,
        hclaimed⟩
    · have hws : Entry.commit i ws ∈ log := hcommit.subset List.mem_concat_self
      obtain ⟨after, hafter⟩ := hcommit
      obtain ⟨hjustified, haccepts, -⟩ := hlog before _ after
        (by rw [← hafter, List.append_assoc]; rfl)
      obtain ⟨row0, hrow0, -⟩ := hjustified _ hmem
      obtain ⟨row1, hrow1, hclaimed⟩ := Db.mounts_foldl_apply_of_mem
        (P := fun row => row.startClaimOperationId = some q.operationId) haccepts hrow0
        (fun u hu _ _ => hok ws hws u hu ▸ rfl) (.inr ⟨_, hmem, fun _ => rfl⟩)
      refine ⟨before ++ [.commit i ws], row1, ⟨after, hafter⟩, ?_, hclaimed⟩
      rw [Log.db_concat]
      exact hrow1
  obtain ⟨row', hrow', hevolves⟩ := Log.mounts_evolve hlog hfirst hrow1
  exact ⟨row', hrow', hevolves.startClaim _ hclaimed⟩

/-- What an ALLOW of `claim_start` says. -/
lemma startGranted_of_result (h : D.Serves i (.claimStart q) c c')
    (hresult : c'.result i = some (.ok (.startClaim .allow reason))) :
    StartGranted i q c.shared.log c'.shared.log := by
  obtain ⟨es, hrun⟩ := h.before
  obtain ⟨es', hserve⟩ := h.after
  obtain ⟨-, hok, hserved⟩ := Voucher.served (V := StartGranted.voucher i q)
    (R := fun r log => ∀ reason, r = .startClaim .allow reason → Granting i q c.shared.log log)
    (fun j x log hj hji => absurd hji hj) (fun h ho reason hr => by
      obtain ⟨before, ws, row, hcommit, h⟩ := h reason hr
      exact ⟨before, ws, row, hcommit.trans ho.log, h⟩) hrun hserve fun hinv _ =>
      wp_seq hinv (wp_claimStart_granting q) (fun a w1 _ h => wp_pure fun reason hr =>
        h (Response.startClaim.inj hr).1)
  exact ((hserved _ hresult).2 reason rfl).granted h.audited fun ws hws u hu =>
    hok ws hws _ hu rfl u rfl

/-- A package that asks for the claim: the operation id that was checked is the claimed one. -/
lemma startClaim_of_packageReason {q : ExecuteArgs}
    (h : D.packageReason q row = none) (hpackage : D.packages row.token.packageRef = some package)
    (hrequires : package.requiresStartClaim = true) :
    ∃ o, q.operationId = some o ∧ row.startClaimOperationId = some o := by
  unfold Deployment.packageReason at h
  rw [hpackage] at h
  dsimp only at h
  split at h
  · nomatch h
  · next hnot =>
    rw [hrequires] at hnot
    simp only [true_and, not_or, Option.isNone_iff_eq_none, ne_eq, not_not] at hnot
    obtain ⟨o, ho⟩ := Option.ne_none_iff_exists'.mp hnot.1
    exact ⟨o, ho, hnot.2.trans ho⟩

/-- Start claims are exclusive, in every run. An ALLOW of `claim_start` rests on a mount that was
live and not expired and on a token that was not consumed before the session's commit, and two
ALLOWs on one mount are for one operation. If the package asks for the claim, an operation that a
session authorizes through `execute_consequence` is the claimed one, unless the claimed id is
empty. -/
theorem start_claim_exclusive (c : Config) :
    (∀ i q c₁ reason, D.Serves i (.claimStart q) c₁ c →
      c.result i = some (.ok (.startClaim .allow reason)) →
      StartGranted i q c₁.shared.log c.shared.log) ∧
    (∀ i j q q' c₁ c₂ reason reason', D.Serves i (.claimStart q) c₁ c →
      D.Serves j (.claimStart q') c₂ c →
      c.result i = some (.ok (.startClaim .allow reason)) →
      c.result j = some (.ok (.startClaim .allow reason')) → q.mountId = q'.mountId →
      q.operationId = q'.operationId) ∧
    ∀ i q c₁ e, D.Serves i (.execute q) c₁ c → c.shared.log.Records i e →
      e.state = .authorized → ∀ row package, c.shared.db.mounts q.mountId = some row →
      D.packages row.token.packageRef = some package → package.requiresStartClaim = true →
      row.startClaimOperationId = some e.operationId ∨ row.startClaimOperationId = some [] := by
  refine ⟨fun i q c₁ reason => startGranted_of_result, ?_, ?_⟩
  · intro i j q q' c₁ c₂ reason reason' hi hj hresult hresult' hm
    obtain ⟨row, hrow, hclaimed⟩ := (startGranted_of_result hi hresult).claimed
    obtain ⟨row', hrow', hclaimed'⟩ := (startGranted_of_result hj hresult').claimed
    obtain rfl := Option.some.inj (hrow.symm.trans (hm ▸ hrow'))
    exact Option.mem_unique hclaimed hclaimed'
  · intro i q c₁ e h he hstate row package hrow hpackage hrequires
    obtain ⟨pre, row₀, hpre, hrow₀, hchecked, -, hoperation, -⟩ := requested_of_records h he hstate
    obtain ⟨row', hrow', hevolves⟩ := Log.mounts_evolve h.audited hpre hrow₀
    obtain rfl := Option.mem_unique hrow' hrow
    obtain ⟨o, ho, hclaimed⟩ := startClaim_of_packageReason (targetReason_eq_none hchecked).1
      (hevolves.packageRef ▸ hpackage) hrequires
    by_cases hempty : o = []
    · exact .inr (hempty ▸ hevolves.startClaim o hclaimed)
    · exact .inl (hoperation o ho hempty ▸ hevolves.startClaim o hclaimed)

namespace Sample

/-- The sample deployment, with a package that asks for a start claim. -/
def claiming : Deployment :=
  { deployment with
    packages := fun p =>
      if p = package.id then some { package with requiresStartClaim := true } else none }

/-- The mount, and a claim of its start. -/
def startClaimed (operationId : PyStr) : Schedule :=
  mounted ++ .start 2 (.claimStart {
    mountId, tokenId := "t", nonce := "n", operationId, owner }) ::
  steps 2 (oks 5)

/-- A request, up to the AUTHORIZED event. -/
def authorizing (operationId random : PyStr) : Schedule :=
  .start 3 (.execute (executeArgs operationId)) ::
  steps 3 (.identifier random :: oks 17 ++ confirmed :: oks 9)

def authorizedEvent (operationId : PyStr) : Event :=
  { startedEvent operationId with
    state := .authorized, version := 0, completionProofType := none, site := .cappoEvaluator }

end Sample

open Sample

theorem start_claim_exclusive_claimed : ∃ c₁ c row,
    Sample.claiming.Serves 3 (.execute (Sample.executeArgs (PyStr.ofString "o"))) c₁ c ∧
    c.shared.log.Records 3 (Sample.authorizedEvent (PyStr.ofString "o")) ∧
    c.shared.db.mounts Sample.mountId = some row ∧
    (row.startClaimOperationId = some (PyStr.ofString "o") ∨
      row.startClaimOperationId = some []) := by
  obtain ⟨c₁, c, hrun, hserve, hrecords, hmount⟩ := claiming.exists_served
    (startClaimed (PyStr.ofString "o")) (authorizing (PyStr.ofString "o") [])
    (fun c => c.shared.log.Records 3 (authorizedEvent (PyStr.ofString "o")) ∧
      (c.shared.db.mounts mountId).any
        (fun row => row.token.packageRef = package.id) = true) (by decide +kernel)
  obtain ⟨row, hrow, hpackage⟩ := (Option.any_eq_true ..).mp hmount
  have hserves : claiming.Serves 3
      (.execute (executeArgs (PyStr.ofString "o"))) c₁ c := ⟨⟨_, hrun⟩, _, hserve⟩
  refine ⟨c₁, c, row, hserves, hrecords, hrow, ?_⟩
  exact (start_claim_exclusive c).2.2 3 _ c₁ _ hserves hrecords rfl row
    { package with requiresStartClaim := true } hrow
    (if_pos (of_decide_eq_true hpackage)) rfl

/-- The empty id is claimed, and another operation is authorized. -/
theorem start_claim_empty : ∃ c₁ c,
    Sample.claiming.Serves 3 (.execute (Sample.executeArgs [])) c₁ c ∧
    c.result 2 = some (.ok (.startClaim .allow .startClaimed)) ∧
    (c.shared.db.mounts Sample.mountId).any (fun row =>
      (Sample.claiming.packages row.token.packageRef).any
        CapabilityPackage.requiresStartClaim) = true ∧
    (c.shared.db.mounts Sample.mountId).bind MountRow.startClaimOperationId = some [] ∧
    c.shared.log.Records 3 (Sample.authorizedEvent "other") := by
  obtain ⟨c₁, c, hrun, hserve, h⟩ := claiming.exists_served (startClaimed [])
    (authorizing [] "other")
    (fun c => c.result 2 = some (.ok (.startClaim .allow .startClaimed)) ∧
      (c.shared.db.mounts mountId).any (fun row =>
        (claiming.packages row.token.packageRef).any
          CapabilityPackage.requiresStartClaim) = true ∧
      (c.shared.db.mounts mountId).bind MountRow.startClaimOperationId = some [] ∧
      c.shared.log.Records 3 (authorizedEvent "other")) (by decide +kernel)
  exact ⟨c₁, c, ⟨⟨_, hrun⟩, _, hserve⟩, h⟩

end CapabilityMount
