import Cappo.CapabilityMount.Correctness.SingleUse

/-!
# What a mount is authority for

An ALLOW is for an action and a resource that the lease, the signed token and the package have in
common, and that the grants of the mount name. The grants are computed when the mount is made:
a bound operation narrows the writes and the resources to its own, and the approval gates are
those of the granted writes. Neither looks at the granted reads.

## Main results

* `run_authority`: effective authority is the meet, and every ALLOW is within it;
* `run_boundEnvelope`: a bound mount dispatches the bound operation only;
* `run_externalSend`: an ALLOW of a granted write has the evidence that the policy asks for;
* `run_boundOperation`: what a bound mount can be allowed.
-/

namespace CapabilityMount

open VdbC1 (PyStr)
open List

variable {D : Deployment} {log : Log}

/-! ## The meet -/

/-- Whether a resource is covered by an intersection is whether it is covered by both sets. After
any schedule, an ALLOW of `evaluate` is the commit of its receipt; and for every receipt, at its
commit, if the mount has a lease, then the action is allowed by the lease, by the signed token and
by the package, and the resource is covered by the lease and by the signed token. -/
theorem run_authority {es : Schedule}
    {c : Config} (hrun : D.run es = some c) :
    (∀ (resource : Option PyStr) (set1 set2 : List PyStr),
      resourceIn resource (resourceIntersection set1 set2) = true ↔
        resourceIn resource set1 = true ∧ resourceIn resource set2 = true) ∧
    (∀ i q e, c.result i = some (.ok (.evaluation q e)) → e.decision = .allow →
      ∃ (pre : Log) (ws : List Write) (post : Log) (r : Receipt),
        c.shared.log = pre ++ .commit i ws :: post ∧ .insertReceipt r ∈ ws ∧
        r.mountId = q.mountId ∧ r.action = q.action ∧ r.resource = q.resource) ∧
    ∀ (pre : Log) i ws post r, c.shared.log = pre ++ .commit i ws :: post →
      .insertReceipt r ∈ ws → ∃ row, pre.db.mounts r.mountId = some row ∧
        ∀ lease, pre.db.leases r.mountId = some lease →
          lease.Covers D row.token r.action r.resource := by
  refine ⟨resourceIn_intersection, fun i q e hresult hallow => ?_,
    fun pre i ws post r hsplit hr => ?_⟩
  · obtain ⟨pre, ws, post, r, row, hsplit, hgrant⟩ := run_answered hrun hresult hallow
    exact ⟨pre, ws, post, r, hsplit, hgrant.receipt, hgrant.mountId, hgrant.action,
      hgrant.resource⟩
  · obtain ⟨row, hallowed⟩ := (run_audited hrun pre _ post hsplit).1 _ hr
    exact ⟨row, hallowed.mount, hallowed.authority⟩

namespace Sample

/-- What `evaluated` answers. -/
def evaluation (anchorId : PyStr) : Evaluation where
  decision := .allow
  reason := .allowed
  anchor := { status := .confirmed, anchorId := some anchorId }
  receiptId := some ("rcpt_" ++ anchorId)
  authorityEpoch := 1

end Sample

/-- The lease of the sample mount covers what is allowed. -/
theorem run_authority_evaluated : ∃ c, Sample.deployment.run (Sample.mounted ++
      Sample.evaluated 2 "t" "n" "1") =
        some c ∧
    ∃ (pre : Log) (ws : List Write) (post : Log) (r : Receipt) (row : MountRow),
      c.shared.log = pre ++ .commit 2 ws :: post ∧ .insertReceipt r ∈ ws ∧
      pre.db.mounts r.mountId = some row ∧
      ∀ lease, pre.db.leases r.mountId = some lease →
        lease.Covers Sample.deployment row.token r.action r.resource := by
  obtain ⟨c, hrun, hresult⟩ := Sample.exists_run (Sample.mounted ++
      Sample.evaluated 2 "t" "n" "1")
    (fun c => c.result 2 = some (.ok (.evaluation
      (Sample.evaluateArgs "t" "n")
      (Sample.evaluation "1")))) (by decide +kernel)
  obtain ⟨-, hanswer, hcovers⟩ := run_authority hrun
  obtain ⟨pre, ws, post, r, hsplit, hr, -⟩ := hanswer 2 _ _ hresult rfl
  obtain ⟨row, hrow, hlease⟩ := hcovers pre 2 ws post r hsplit hr
  exact ⟨c, hrun, pre, ws, post, r, row, hsplit, hr, hrow, hlease⟩

/-! ## What a mount was made for -/

variable {lease : Lease} {row : MountRow}

/-- A mount is inserted once. -/
lemma Log.insertMount_unique (hlog : log.Audited D)
    (h : .insertMount row lease ∈ log.writes) (h' : .insertMount row' lease' ∈ log.writes)
    (hid : row.mountId = row'.mountId) : row = row' := by
  have hle := Log.insertsMount_le_one hlog row'.mountId
  rw [countP_eq_length_filter] at hle
  have hmem : .insertMount row lease ∈ log.writes.filter (Write.insertsMount row'.mountId) :=
    mem_filter.mpr ⟨h, decide_eq_true hid⟩
  have hmem' : .insertMount row' lease' ∈ log.writes.filter (Write.insertsMount row'.mountId) :=
    mem_filter.mpr ⟨h', decide_eq_true rfl⟩
  obtain ⟨x, hx⟩ := length_eq_one_iff.mp (le_antisymm hle (length_pos_of_mem hmem))
  rw [hx, mem_singleton] at hmem hmem'
  exact (Write.insertMount.inj (hmem.trans hmem'.symm)).1

variable {row₀ : MountRow}

/-- The row of a mount has the scope, the package and the grants that it was inserted with. -/
lemma Log.inserted_of_mounts (hlog : log.Audited D) (hinsert : .insertMount row₀ lease ∈ log.writes)
    (hrow : log.db.mounts row₀.mountId = some row) :
    row.mount.scope = row₀.mount.scope ∧ row.token.packageRef = row₀.token.packageRef ∧
      row.token.grants = row₀.token.grants := by
  refine Log.mounts_induction (P := fun m row => m = row₀.mountId →
    row.mount.scope = row₀.mount.scope ∧ row.token.packageRef = row₀.token.packageRef ∧
      row.token.grants = row₀.token.grants) hlog
    (fun row _ h _ hid => ?_) (fun m u row _ h hid => ?_) (fun m row h => h) hrow rfl
  · rw [Log.insertMount_unique hlog h hinsert hid]
    exact ⟨rfl, rfl, rfl⟩
  · cases u <;> exact h hid

/-- The row of a mount at an earlier moment has what the inserted row has, too. -/
lemma Log.inserted_of_prefix (hlog : log.Audited D)
    (hinsert : .insertMount row₀ lease ∈ log.writes) {pre : Log} (hpre : pre <+: log)
    (hrow : pre.db.mounts row₀.mountId = some row) :
    row.mount.scope = row₀.mount.scope ∧ row.token.packageRef = row₀.token.packageRef ∧
      row.token.grants = row₀.token.grants := by
  obtain ⟨row', hrow', hevolves⟩ := Log.mounts_evolve hlog hpre hrow
  obtain ⟨hscope, hpackage, hgrants⟩ := Log.inserted_of_mounts hlog hinsert hrow'
  exact ⟨hevolves.scope.symm.trans hscope, hevolves.packageRef.symm.trans hpackage,
    hevolves.grants.symm.trans hgrants⟩

namespace Sample

/-- The mounts that were inserted. -/
def insertions (log : Log) : List (MountRow × Lease) :=
  log.writes.filterMap fun | .insertMount row lease => some (row, lease) | _ => none

lemma mem_insertions (h : (row, lease) ∈ insertions log) : .insertMount row lease ∈ log.writes := by
  obtain ⟨x, hx, heq⟩ := mem_filterMap.mp h
  cases x with
  | insertMount row' lease' =>
    cases heq
    exact hx
  | _ => nomatch heq

end Sample

/-- After any schedule: what `execute_consequence` dispatched under a mount that was made for one
operation is that operation, whatever the order in which the members of the arguments are given. -/
theorem run_boundEnvelope (hsha : D.Sha256Injective) {es : Schedule}
    {c : Config} (hrun : D.run es = some c)
    {row : MountRow} {lease : Lease} (hinsert : .insertMount row lease ∈ c.shared.log.writes)
    {o : BoundOperation} (hbound : row.mount.scope.operation = some o) :
    ∀ i operationId packageRef targetRef action resource arguments,
      .dispatched i (.execute operationId row.mountId packageRef targetRef action resource
        arguments) ∈ c.shared.log →
      packageRef = row.token.packageRef ∧ targetRef = o.targetRef ∧ action = o.action ∧
        resource = o.resource ∧ JsonText.sorted arguments = JsonText.sorted o.arguments := by
  intro i operationId packageRef targetRef action resource arguments hdispatched
  have hlog := run_audited hrun
  obtain ⟨pre, post, hsplit⟩ := append_of_mem hdispatched
  obtain ⟨-, -, -, row₁, hrow₁, hpackage, -, hrefusal⟩ := hlog pre _ post hsplit
  have hpre : pre <+: c.shared.log := hsplit ▸ prefix_append ..
  -- the row at the dispatch is bound to the operation of the row that was inserted
  obtain ⟨hscope, href, -⟩ := Log.inserted_of_prefix hlog hinsert hpre hrow₁
  have hoperation : row₁.mount.scope.operation = some o := by rw [hscope, hbound]
  have hgenuine := (Log.genuine_of_mounts (hsplit ▸ hlog).left hrow₁).2
  obtain ⟨_, _, _, -, hconfers⟩ := hgenuine.grants
  obtain ⟨-, -, digest, hdigest, henvelope⟩ := hconfers.operation hoperation
  -- so that the request and the operation have one digest
  have hrequest := Deployment.envelopeRefusal_eq_none hdigest hrefusal
  obtain ⟨-, htarget, haction, hresource, harguments⟩ :=
    Deployment.operationEnvelopeDigest_inj hsha hrequest henvelope
  exact ⟨hpackage.symm.trans href, htarget, haction, hresource, harguments⟩

/-- The operation of the sample mount is dispatched. -/
theorem run_boundEnvelope_executed : ∃ c row lease, Sample.deployment.run (Sample.mounted ++
      Sample.executed 2 "o") = some c ∧ Sample.deployment.Sha256Injective ∧
    .insertMount row lease ∈ c.shared.log.writes ∧
    row.mount.scope.operation = some Sample.operation ∧
    ∃ i operationId packageRef targetRef action resource arguments,
      .dispatched i (.execute operationId row.mountId packageRef targetRef action resource
        arguments) ∈ c.shared.log ∧ targetRef = Sample.operation.targetRef := by
  obtain ⟨c, hrun, ⟨⟨row, lease⟩, hinsert, hid, hbound⟩, hdispatched⟩ := Sample.exists_run
    (Sample.mounted ++ Sample.executed 2 "o")
    (fun c => (∃ x ∈ Sample.insertions c.shared.log, x.1.mountId = Sample.mountId ∧
        x.1.mount.scope.operation = some Sample.operation) ∧
      .dispatched 2 (.execute "o" Sample.mountId Sample.package.id
        Sample.operation.targetRef Sample.operation.action Sample.operation.resource
        Sample.operation.arguments) ∈ c.shared.log) (by decide +kernel)
  have hsha : Sample.deployment.Sha256Injective := fun s t digest hs ht =>
    (Option.some.inj hs).trans (Option.some.inj ht).symm
  change row.mountId = Sample.mountId at hid
  rw [← hid] at hdispatched
  have htarget := (run_boundEnvelope hsha hrun (Sample.mem_insertions hinsert) hbound 2 _ _ _ _ _ _
    hdispatched).2.1
  exact ⟨c, row, lease, hrun, hsha, Sample.mem_insertions hinsert, hbound, 2, _, _, _, _, _, _,
    hdispatched, htarget⟩

/-! ## The gates -/

/-- The actions that a package lists for a gate. -/
def CapabilityPackage.gated (package : CapabilityPackage) : EvidenceKind → List PyStr
  | .humanApproval => package.externalSendActions
  | .suppressionCheck => package.suppressionRequiredActions

/-- Whether a policy asks for evidence of a kind. -/
def MountPolicy.asks (policy : MountPolicy) : EvidenceKind → Bool
  | .humanApproval => policy.requireHumanApprovalForExternalSend
  | .suppressionCheck => policy.requireSuppressionCheck

/-- The gates of the actions that are granted as writes are those that the package lists. -/
lemma requires_of_confers (h : D.Confers package requested scope token)
    (hlisted : action ∈ package.gated kind)
    (hasks : (effectivePolicy package requested).asks kind = true)
    (hwrite : action ∈ token.grants.writes) : token.requires action kind = true := by
  rw [← h.policy] at hasks
  have hfilter : action ∈ (package.gated kind).filter fun a => a ∈ token.grants.writes :=
    mem_filter.mpr ⟨hlisted, decide_eq_true hwrite⟩
  cases kind with
  | humanApproval =>
    have hmem : action ∈ token.grants.externalSend := h.externalSend ▸ hfilter
    exact Bool.and_eq_true_iff.mpr ⟨decide_eq_true hmem, hasks⟩
  | suppressionCheck =>
    have hmem : action ∈ token.grants.suppressionRequired := h.suppressionRequired ▸ hfilter
    exact Bool.and_eq_true_iff.mpr ⟨decide_eq_true hmem, hasks⟩

/-- What a commit consumes was not consumed before. -/
lemma Log.not_mem_of_consumeEvidence (hlog : log.Audited D)
    (hsplit : log = pre ++ Entry.commit i ws :: post)
    (hjti : .consumeEvidence jti ∈ ws) : .consumeEvidence jti ∉ pre.writes := by
  intro hmem
  obtain ⟨vs, haccepts⟩ := Db.accepts_of_mem (hlog pre _ post hsplit).2.1 hjti
  rw [Write.excludes_consumeEvidence jti pre vs hmem] at haccepts
  nomatch haccepts

/-- After any schedule, every ALLOW of `evaluate` was committed when the mount was made of a
registered package; and for each gate: if the package lists the action, the effective policy asks
for the evidence, and the action was granted as a write, then the request carried evidence that
verified for its principal, mount, action and nonce, and that this ALLOW and no earlier one
consumed. -/
theorem run_externalSend {es : Schedule}
    {c : Config} (hrun : D.run es = some c) :
    ∀ i q e, c.result i = some (.ok (.evaluation q e)) → e.decision = .allow →
      ∃ (pre : Log) (ws : List Write) (post : Log) (row : MountRow),
        c.shared.log = pre ++ .commit i ws :: post ∧ pre.db.mounts q.mountId = some row ∧
        (∃ ref package requested, D.packages ref = some package ∧
          D.Confers package requested row.mount.scope row.token) ∧
        ∀ package requested kind, D.Confers package requested row.mount.scope row.token →
          q.action ∈ package.gated kind → (effectivePolicy package requested).asks kind = true →
          q.action ∈ row.token.grants.writes →
          ∃ jti, Verified D q row.mount kind jti pre ∧ .consumeEvidence jti ∈ ws ∧
            .consumeEvidence jti ∉ pre.writes := by
  intro i q e hresult hallow
  have hlog := run_audited hrun
  obtain ⟨pre, ws, post, r, row, hsplit, hgrant⟩ := run_answered hrun hresult hallow
  have hgenuine := (Log.genuine_of_mounts (hsplit ▸ hlog).left hgrant.mount).2
  refine ⟨pre, ws, post, row, hsplit, hgrant.mount, hgenuine.grants,
    fun package requested kind hconfers hlisted hasks hwrite => ?_⟩
  obtain ⟨jti, hverified, hjti⟩ := hgrant.evidence kind
    (requires_of_confers hconfers hlisted hasks hwrite)
  exact ⟨jti, hverified, hjti, Log.not_mem_of_consumeEvidence hlog hsplit hjti⟩

namespace Sample

/-- A package with two writes that are sent outside, one of which is also a read. -/
def mailing : CapabilityPackage where
  id := package.id
  reads := ["export"]
  writes := [operation.action, "export"]
  externalSendActions := [operation.action, "export"]
  targetRef := package.targetRef
  uniqueActions := by decide
  classifiedActions := by decide

/-- What the payload of a valid approval says. -/
def approval : List (PyStr × VdbC1.Json) := [("v", .int 1), ("kind", .str "human_approval"),
  ("principal", .str owner.principal),
  ("mount_id", .str mountId),
  ("action", .str operation.action),
  ("nonce_hash", .str "n"),
  ("scope_hash", .str []),
  ("jti", .str "j"),
  ("iat", .str "0"),
  ("exp", .str "1")]

/-- A deployment with that package, in which the token `"a"` is the approval. -/
def mailingDeployment : Deployment :=
  { deployment with
    packages := fun p => if p = mailing.id then some mailing else none
    authorityContext := fun biscuit => (deployment.authorityContext biscuit).map fun context =>
      { context with allowedActions := mailing.externalSendActions }
    evidencePayload := fun _ token =>
      .ok (if token = "a" then some approval else none)
    parseTime := fun text => .ok (some (if text = "0" then 0 else 1)) }

/-- A request for an action, with an approval token. -/
def approvedArgs (action : PyStr) (approvalToken : Option PyStr) : EvaluateArgs :=
  { evaluateArgs "t" "n" with action, approvalToken }

/-- An `evaluate` that allows, after so many calls. -/
def approved (i : ℕ) (q : EvaluateArgs) (calls : ℕ) : Schedule :=
  .start i (.evaluate q) ::
  steps i (oks calls ++ .anchored { status := .confirmed, anchorId := some [] } :: oks 8)

end Sample

/-- The write is allowed with the approval, which is consumed. -/
theorem run_externalSend_approved :
    let q := Sample.approvedArgs Sample.operation.action (some "a")
    ∃ c e, Sample.mailingDeployment.run (Sample.mounted ++ Sample.approved 2 q 13) = some c ∧
      c.result 2 = some (.ok (.evaluation q e)) ∧ e.decision = .allow ∧
      ∃ (pre : Log) (ws : List Write) (post : Log) (row : MountRow) (package : CapabilityPackage)
        (requested : MountPolicy) (jti : PyStr),
        c.shared.log = pre ++ .commit 2 ws :: post ∧ pre.db.mounts q.mountId = some row ∧
        Sample.mailingDeployment.Confers package requested row.mount.scope row.token ∧
        q.action ∈ package.gated .humanApproval ∧
        (effectivePolicy package requested).asks .humanApproval = true ∧
        q.action ∈ row.token.grants.writes ∧
        Verified Sample.mailingDeployment q row.mount .humanApproval jti pre ∧
        .consumeEvidence jti ∈ ws ∧ .consumeEvidence jti ∉ pre.writes := by
  intro q
  obtain ⟨c, hrun, hresult, ⟨row₀, lease⟩, hinsert, hid, hwrites⟩ :=
    Sample.mailingDeployment.exists_run (Sample.mounted ++ Sample.approved 2 q 13)
    (fun c => c.result 2 = some (.ok (.evaluation q (Sample.evaluation []))) ∧
      ∃ x ∈ Sample.insertions c.shared.log, x.1.mountId = q.mountId ∧
        x.1.token.grants.writes = [Sample.operation.action]) (by decide +kernel)
  dsimp only at hid hwrites
  obtain ⟨pre, ws, post, row, hsplit, hrow, ⟨ref, package, requested, hpackage, hconfers⟩,
    hevidence⟩ := run_externalSend hrun 2 q _ hresult rfl
  -- there is one package, and its policy is the default one
  have hmailing : package = Sample.mailing := by
    change (if ref = Sample.mailing.id then some Sample.mailing else none) = some package
      at hpackage
    split at hpackage
    · exact (Option.some.inj hpackage).symm
    · nomatch hpackage
  subst hmailing
  have hpre : pre <+: c.shared.log := hsplit ▸ prefix_append ..
  obtain ⟨-, -, hgrants⟩ := Log.inserted_of_prefix (run_audited hrun)
    (Sample.mem_insertions hinsert) hpre (hid.symm ▸ hrow)
  have hwrite : q.action ∈ row.token.grants.writes := by
    rw [hgrants, hwrites]
    exact mem_singleton_self _
  have hlisted : q.action ∈ Sample.mailing.gated .humanApproval := by decide
  obtain ⟨jti, hverified, hjti, hnew⟩ :=
    hevidence Sample.mailing requested .humanApproval hconfers hlisted rfl hwrite
  exact ⟨c, _, hrun, hresult, rfl, pre, ws, post, row, Sample.mailing, requested, jti, hsplit,
    hrow, hconfers, hlisted, rfl, hwrite, hverified, hjti, hnew⟩

/-- An action that the package sends outside, and that the mount was granted as a read only, is
allowed without any evidence, although the policy asks for an approval: the gates are computed from
the granted writes. -/
theorem externalSend_ungated :
    let q := Sample.approvedArgs "export" none
    ∃ c e, Sample.mailingDeployment.run (Sample.mounted ++ Sample.approved 2 q 10) = some c ∧
      c.result 2 = some (.ok (.evaluation q e)) ∧ e.decision = .allow ∧
      q.action ∈ Sample.mailing.externalSendActions ∧
      (∃ row, c.shared.db.mounts q.mountId = some row ∧ row.token.packageRef = Sample.mailing.id ∧
        row.token.policy.requireHumanApprovalForExternalSend = true) ∧
      q.approvalToken = none := by
  intro q
  obtain ⟨c, hrun, hresult, hpolicy⟩ := Sample.mailingDeployment.exists_run
    (Sample.mounted ++ Sample.approved 2 q 10)
    (fun c => c.result 2 = some (.ok (.evaluation q (Sample.evaluation []))) ∧
      (c.shared.db.mounts q.mountId).map (fun row => (row.token.packageRef,
        row.token.policy.requireHumanApprovalForExternalSend)) = some (Sample.mailing.id, true))
    (by decide +kernel)
  obtain ⟨row, hrow, heq⟩ := Option.map_eq_some_iff.mp hpolicy
  obtain ⟨hpackage, hasks⟩ := Prod.mk.inj heq
  exact ⟨c, _, hrun, hresult, rfl, by decide, ⟨row, hrow, hpackage, hasks⟩, rfl⟩

/-! ## Bound operations -/

/-- An action that is granted is a read or a write, and not blocked. -/
lemma Grants.allows_iff {grants : Grants} {action : PyStr} : grants.allows action = true ↔
      action ∉ grants.blocked ∧ (action ∈ grants.reads ∨ action ∈ grants.writes) := by
  unfold Grants.allows
  split
  · next hblocked => exact ⟨fun h => absurd h Bool.false_ne_true, fun h => absurd hblocked h.1⟩
  · next hblocked => simp [hblocked]

/-- After any schedule, whatever was allowed on a mount that was made for one operation is for the
resource of the operation; and if no other action is granted as a read, it is for the action of
the operation. -/
theorem run_boundOperation {es : Schedule}
    {c : Config} (hrun : D.run es = some c)
    {row : MountRow} {lease : Lease} (hinsert : .insertMount row lease ∈ c.shared.log.writes)
    {o : BoundOperation} (hbound : row.mount.scope.operation = some o) :
    (∀ i q e, c.result i = some (.ok (.evaluation q e)) → e.decision = .allow →
      ∃ r ∈ c.shared.db.receipts, r.mountId = q.mountId ∧ r.action = q.action ∧
        r.resource = q.resource) ∧
    ∀ r ∈ c.shared.db.receipts, r.mountId = row.mountId → r.resource = some o.resource ∧
      ((∀ a ∈ row.token.grants.reads, a ∉ row.token.grants.blocked → a = o.action) →
        r.action = o.action) := by
  have hlog := run_audited hrun
  refine ⟨fun i q e hresult hallow => ?_, fun r hr hid => ?_⟩
  · obtain ⟨pre, ws, post, r, row', hsplit, hgrant⟩ := run_answered hrun hresult hallow
    refine ⟨r, ?_, hgrant.mountId, hgrant.action, hgrant.resource⟩
    rw [World.db, Log.receipts_db, hsplit, Log.writes_append]
    exact mem_flatMap.mpr ⟨_, mem_append_right _ (mem_append_left _ hgrant.receipt),
      mem_singleton_self r⟩
  · obtain ⟨pre, i, ws, post, row₁, hsplit, -, hallowed⟩ := Log.allowed_of_receipt hlog hr
    have hpre : pre <+: c.shared.log := hsplit ▸ prefix_append ..
    have hrow₁ := hallowed.mount
    rw [hid] at hrow₁
    obtain ⟨hscope, -, hgrants⟩ := Log.inserted_of_prefix hlog hinsert hpre hrow₁
    obtain ⟨_, _, _, -, hconfers⟩ := (Log.genuine_of_mounts (hsplit ▸ hlog).left hrow₁).2.grants
    obtain ⟨hwrites, hresources, -⟩ := hconfers.operation (hscope ▸ hbound)
    constructor
    · have hcovers := hallowed.coversResource
      rw [Grants.coversResource, hresources] at hcovers
      cases hresource : r.resource with
      | none =>
        rw [hresource] at hcovers
        exact absurd hcovers Bool.false_ne_true
      | some resource =>
        rw [hresource] at hcovers
        exact congrArg some (mem_singleton.mp (of_decide_eq_true hcovers))
    · intro honly
      obtain ⟨hblocked, hgranted⟩ := Grants.allows_iff.mp hallowed.allows
      rw [hgrants] at hblocked
      rcases hgranted with hread | hwrite
      · rw [hgrants] at hread
        exact honly r.action hread hblocked
      · rw [hwrites] at hwrite
        exact mem_singleton.mp hwrite

/-- On the sample mount, which grants no reads, the action is the one of the operation. -/
theorem run_boundOperation_evaluated : ∃ c row lease, Sample.deployment.run (Sample.mounted ++
      Sample.evaluated 2 "t" "n" "1") =
        some c ∧
    .insertMount row lease ∈ c.shared.log.writes ∧
    row.mount.scope.operation = some Sample.operation ∧ row.token.grants.reads = [] ∧
    ∃ r ∈ c.shared.db.receipts, r.mountId = row.mountId ∧
      r.resource = some Sample.operation.resource ∧ r.action = Sample.operation.action := by
  obtain ⟨c, hrun, ⟨⟨row, lease⟩, hinsert, hid, hbound, hreads⟩, r, hr, hmount⟩ :=
    Sample.exists_run (Sample.mounted ++
      Sample.evaluated 2 "t" "n" "1")
    (fun c => (∃ x ∈ Sample.insertions c.shared.log, x.1.mountId = Sample.mountId ∧
        x.1.mount.scope.operation = some Sample.operation ∧ x.1.token.grants.reads = []) ∧
      ∃ r ∈ c.shared.db.receipts, r.mountId = Sample.mountId) (by decide +kernel)
  dsimp only at hid hbound hreads
  have hsame : r.mountId = row.mountId := hmount.trans hid.symm
  obtain ⟨hresource, haction⟩ :=
    (run_boundOperation hrun (Sample.mem_insertions hinsert) hbound).2 r hr hsame
  refine ⟨c, row, lease, hrun, Sample.mem_insertions hinsert, hbound, hreads, r, hr, hsame,
    hresource, haction fun a ha => ?_⟩
  rw [hreads] at ha
  nomatch ha

/-- A mount that is made for one operation is allowed another action, which the package grants as
a read. -/
theorem boundOperation_exceeded :
    let q := Sample.approvedArgs "export" none
    ∃ c e row, Sample.mailingDeployment.run (Sample.mounted ++ Sample.approved 2 q 10) = some c ∧
      c.result 2 = some (.ok (.evaluation q e)) ∧ e.decision = .allow ∧
      c.shared.db.mounts q.mountId = some row ∧
      row.mount.scope.operation = some Sample.operation ∧ q.action ≠ Sample.operation.action := by
  intro q
  obtain ⟨c, hrun, hresult, hbound⟩ := Sample.mailingDeployment.exists_run
    (Sample.mounted ++ Sample.approved 2 q 10)
    (fun c => c.result 2 = some (.ok (.evaluation q (Sample.evaluation []))) ∧
      (c.shared.db.mounts q.mountId).map (fun row => row.mount.scope.operation) =
        some (some Sample.operation)) (by decide +kernel)
  obtain ⟨row, hrow, heq⟩ := Option.map_eq_some_iff.mp hbound
  exact ⟨c, _, row, hrun, hresult, rfl, hrow, heq, by decide⟩

end CapabilityMount
