import Cappo.CapabilityMount.Correctness.Replay
import Cappo.Lib.AuditLog

/-!
# What justifies an entry of the log

Every entry of the log is justified by the entries before it: a receipt by the state of its
mount and the authority behind it, an event by the event that it follows, a redemption by the
permit and the target, a dispatch by the claim of its operation. The statements about all
interleavings follow from this alone.

## Main results

* `Log.mounts_evolve`: a mount keeps its identity, and terminations and epochs last;
* `Log.genuine_of_mounts`: every row was made by `request_mount`;
* `Log.commit_unique`: of two writes that exclude each other, one is committed.
-/

namespace CapabilityMount

open VdbC1 (PyStr Json)
open List Option Function Log

/-! ## Justifications -/

/-- A lease, with the signed token and the package, covers an action on a resource. -/
structure Lease.Covers (D : Deployment) (token : Token) (lease : Lease) (action : PyStr)
    (resource : Option PyStr) : Prop where
  leaseAction : action ∈ lease.allowedActions
  leaseResource : resourceIn resource lease.allowedResources = true
  signed : ∃ biscuit context, token.biscuit = some biscuit ∧
    D.authorityContext biscuit = some context ∧ action ∈ context.allowedActions ∧
    resourceIn resource context.allowedResources = true
  package : ∀ p, D.packages token.packageRef = some p →
    action ∈ p.reads ++ p.writes ++ p.externalSendActions

/-- A receipt of an ALLOW for the mount in its present state. -/
structure Allowed (D : Deployment) (log : Log) (r : Receipt) (row : MountRow) : Prop where
  mount : log.db.mounts r.mountId = some row
  live : row.terminated = false
  tokenId : r.tokenId = row.tokenId
  decision : r.decision = .allow
  first : ∀ r' ∈ log.db.receipts, r'.mountId = r.mountId → r'.tokenId ≠ r.tokenId
  receiptId : r.receiptId ≠ []
  allows : row.token.grants.allows r.action = true
  coversResource : row.token.grants.coversResource r.resource = true
  authority : ∀ lease, log.db.leases r.mountId = some lease →
    lease.Covers D row.token r.action r.resource

/-- The ALLOW behind an AUTHORIZED event was committed when the mount had the event's epoch. -/
def Decided (log : Log) (e : Event) : Prop :=
  ∃ pre i ws post r row, log = pre ++ Entry.commit i ws :: post ∧ .insertReceipt r ∈ ws ∧
    e.receiptId = some r.receiptId ∧ r.mountId = e.mountId ∧
    pre.db.mounts e.mountId = some row ∧ e.authorityEpoch = some row.authorityEpoch

/-- The transition table has the step, or it repeats that the outcome is unknown. -/
def ConsequenceState.Permits (latest next : ConsequenceState) : Prop :=
  next ∈ latest.transitions ∨ latest = .outcomeUnknown ∧ next = .outcomeUnknown

/-- A step from one event to the next. The reconciler does not look at the table. -/
def Event.Steps (latest e : Event) : Prop :=
  if e.site = .reconciler then latest.state.reconcilable = true ∧ e.state = .reconciledSucceeded
  else latest.state.Permits e.state

/-- The states that an operation goes on to at a site. -/
def Site.nextStates : Site → List ConsequenceState
  | cappoEvaluator => []
  | beginConsequence | recorderBegin => [.started]
  | beginConsequenceFence => [.failed]
  | completionReporter | recorderComplete =>
    [.succeeded, .failed, .outcomeUnknown, .reconciledSucceeded, .reconciledFailed]
  | reconciler => [.reconciledSucceeded]

/-- An event that may follow another one of its operation. -/
structure Event.Continues (latest e : Event) : Prop where
  operationId : e.operationId = latest.operationId
  intentHash : e.intentHash = latest.intentHash
  version : e.version = latest.version + 1
  mountId : e.mountId = latest.mountId
  executionId : e.executionId = latest.executionId
  written : e.state ∈ e.site.nextStates
  steps : latest.Steps e

namespace Event.Continues

variable {latest e : Event}

/-- Only an operation that is authorized, started or of unknown outcome goes on, and never to
authorized. -/
theorem states (h : latest.Continues e) : latest.state.terminal = false ∧ e.state ≠ .authorized ∧
    (e.state = .started → latest.state = .authorized) := by
  have hsteps := h.steps
  unfold Event.Steps ConsequenceState.Permits at hsteps
  split at hsteps
  · cases hlatest : latest.state <;>
      simp_all [ConsequenceState.terminal, ConsequenceState.reconcilable]
  · cases hlatest : latest.state <;> cases hstate : e.state <;>
      simp_all [ConsequenceState.terminal, ConsequenceState.transitions]

lemma notAuthorized (h : latest.Continues e) : e.state ≠ .authorized := h.states.2.1

lemma authorized (h : latest.Continues e) (hstate : e.state = .started) :
    latest.state = .authorized := h.states.2.2 hstate

end Event.Continues

/-- The events that a writer may append. -/
inductive Appended (log : Log) : List Event → Prop
  /-- The record of an ALLOW. -/
  | authorized {e : Event} (version : e.version = 0) (state : e.state = .authorized)
      (site : e.site = .cappoEvaluator) (decided : Decided log e) : Appended log [e]
  /-- The claim of an operation, behind the fence of its mount. -/
  | started {latest e : Event} {row : MountRow} (mem : latest ∈ log.db.events)
      (continues : latest.Continues e) (state : e.state = .started)
      (receiptId : e.receiptId = latest.receiptId) (site : latest.site = .cappoEvaluator)
      (site' : e.site = .beginConsequence)
      (mount : log.db.mounts e.mountId = some row) (live : row.terminated = false)
      (epoch : latest.authorityEpoch = some row.authorityEpoch) : Appended log [e]
  /-- A later event of an operation. -/
  | continued {latest e : Event} (mem : latest ∈ log.db.events) (continues : latest.Continues e)
      (state : e.state ≠ .started) (site : e.site ≠ .beginConsequence) : Appended log [e]
  /-- The two events of the recorder. -/
  | recorded {a s : Event} {r : Receipt} (mem : r ∈ log.db.receipts) (versions : a.version = 0)
      (state : a.state = .authorized) (continues : a.Continues s) (started : s.state = .started)
      (mountId : a.mountId = r.mountId) (receiptId : a.receiptId = some r.receiptId)
      (receiptId' : s.receiptId = some r.receiptId) (site : a.site = .recorderBegin)
      (site' : s.site = .recorderBegin) : Appended log [a, s]

/-- The permit that a redemption rests on. -/
def Redemption.permit (r : Redemption) : Permit where
  operationId := r.operationId
  mountId := r.mountId
  receiptId := r.receiptId
  payloadSha256 := r.payloadSha256
  targetRef := r.sinkRef

/-- A moment at which an operation may be redeemed: it is started, and its mount is neither
terminated nor expired. -/
structure Redeemable (log : Log) (r : Redemption) (latest : Event) (row : MountRow) : Prop where
  latestEvent : log.db.latestEvent r.operationId = some latest
  started : latest.state = .started
  receiptId : r.receiptId = latest.receiptId
  mountId : latest.mountId = r.mountId
  mount : log.db.mounts r.mountId = some row
  live : row.terminated = false
  unexpired : log.now < row.expiresAt

/-- A redemption that was decided after `n` entries of the log. The mount has not been terminated
since. -/
structure Redeems (log : Log) (r : Redemption) : Prop where
  decided : ∃ n latest row, n ≤ log.length ∧ Redeemable (log.take n) r latest row
  mount : ∃ row, log.db.mounts r.mountId = some row ∧ row.terminated = false
  minted : ∃ p ∈ log.permits, permitMessage p = permitMessage r.permit

/-- A row as `request_mount` makes it. -/
structure Genuine (D : Deployment) (row : MountRow) : Prop where
  tokenId : row.token.tokenId = row.tokenId
  nonce : row.token.nonce = row.tokenNonce
  id : row.mount.id = row.mountId
  tokenMount : row.token.mountId = row.mountId
  grants : ∃ ref package requested, D.packages ref = some package ∧
    D.Confers package requested row.mount.scope row.token

variable (D : Deployment) (log : Log)

/-- What a write rests on when its transaction is committed. -/
def Write.Justified : Write → Prop
  | insertMount row _ => Genuine D row
  | updateMount m u => ∃ row, log.db.mounts m = some row ∧ row.Admits u
  | insertEvents es => Appended log es
  | insertReceipt r => ∃ row, Allowed D log r row
  | insertRedemption r => Redeems log r
  | updateLease _ _ | consumeEvidence _ | seedSequence | incrementSequence => True

/-- What justifies the call of a target: the operation was claimed, and the request is one that
the mount grants, and the one that it is bound to. -/
def Dispatch.Justified : Dispatch → Prop
  | execute operationId mountId packageRef targetRef action resource arguments =>
    (∃ e ∈ log.db.events, e.operationId = operationId ∧ e.mountId = mountId ∧
      e.state = .started ∧ e.site = .beginConsequence) ∧
    (D.targetAdapters targetRef).isSome = true ∧ validResource resource = true ∧
    ∃ row, log.db.mounts mountId = some row ∧ row.token.packageRef = packageRef ∧
      row.token.grants.coversResource (some resource) = true ∧
      D.envelopeRefusal row.token { targetRef, action, resource, arguments } = .ok none
  | executor operationId receiptId =>
    ∃ e ∈ log.db.events, e.operationId = operationId ∧ e.state = .started ∧
      e.site = .recorderBegin ∧ e.receiptId = some receiptId

/-- What a minted permit names: an operation of the mount, a receipt of an event, and a
registered target. -/
structure Permit.Justified (D : Deployment) (log : Log) (p : Permit) : Prop where
  operation : ∃ e ∈ log.db.events, e.operationId = p.operationId ∧ e.mountId = p.mountId
  receipt : ∀ receiptId, p.receiptId = some receiptId →
    ∃ e ∈ log.db.events, e.receiptId = some receiptId
  target : (D.targetAdapters p.targetRef).isSome = true

/-- What an entry rests on when it is made. -/
def Entry.Justified : Entry → Prop
  | commit _ ws => (∀ w ∈ ws, w.Justified D log) ∧ log.db.acceptsAll ws = true ∧
      (log.tokenIds ++ ws.filterMap Write.tokenId?).Nodup ∧
      (ws.flatMap Write.receipts).length ≤ 1
  | dispatched _ d => d.Justified D log
  | minted p => p.Justified D log
  | anchored _ _ _ | nonceReset _ | ticked _ => True

/-- Every entry of the log is justified. -/
abbrev Log.Audited : Prop :=
  AuditLog.Audited (Entry.Justified D) log

variable {D : Deployment}

/-! ## Where a write was committed -/

variable {log : Log}

/-- What was written was written by a commit. -/
lemma Log.exists_commit (h : x ∈ log.writes) :
    ∃ pre i ws post, log = pre ++ Entry.commit i ws :: post ∧ x ∈ ws := by
  obtain ⟨e, he, hx⟩ := mem_flatMap.mp h
  obtain ⟨pre, post, rfl⟩ := append_of_mem he
  cases e with
  | commit i ws => exact ⟨pre, i, ws, post, rfl, hx⟩
  | _ => nomatch hx

/-- Every receipt was an ALLOW when it was committed. -/
lemma Log.allowed_of_receipt (hlog : log.Audited D) (hr : r ∈ log.db.receipts) :
    ∃ pre i ws post row, log = pre ++ Entry.commit i ws :: post ∧
      .insertReceipt r ∈ ws ∧ Allowed D pre r row := by
  rw [receipts_db] at hr
  obtain ⟨x, hx, hrx⟩ := mem_flatMap.mp hr
  obtain ⟨pre, i, ws, post, rfl, hmem⟩ := exists_commit hx
  cases x with
  | insertReceipt r' =>
    obtain rfl := mem_singleton.mp hrx
    obtain ⟨row, hrow⟩ := (hlog pre _ post rfl).1 _ hmem
    exact ⟨pre, i, ws, post, row, rfl, hmem, hrow⟩
  | _ => nomatch hrx

variable {ws : List Write}

/-- A write of an accepted transaction is accepted after some of the others. -/
lemma Db.accepts_of_mem {db : Db} {x : Write} (haccepts : db.acceptsAll ws = true) (hx : x ∈ ws) :
    ∃ vs : List Write, (vs.foldl Db.apply db).accepts x = true := by
  induction ws generalizing db with
  | nil => nomatch hx
  | cons w ws ih =>
    rw [Db.acceptsAll, Bool.and_eq_true] at haccepts
    rcases mem_cons.mp hx with rfl | hx
    · exact ⟨[], haccepts.1⟩
    · obtain ⟨vs, h⟩ := ih haccepts.2 hx
      exact ⟨w :: vs, h⟩

/-- A write is refused wherever the other one has been made. -/
def Write.Excludes (x x' : Write) : Prop :=
  ∀ (log : Log) (vs : List Write), x ∈ log.writes → (vs.foldl Db.apply log.db).accepts x' = false

/-- Of two writes that exclude each other, only one is ever committed. -/
theorem Log.commit_unique {p p' : Log} {i i' : ℕ} {ws' : List Write} {q q' : List Entry}
    {x x' : Write} (hlog : log.Audited D) (h : log = p ++ Entry.commit i ws :: q)
    (h' : log = p' ++ Entry.commit i' ws' :: q') (hx : x ∈ ws) (hx' : x' ∈ ws')
    (hexcludes : x.Excludes x') (hexcludes' : x'.Excludes x) : p = p' ∧ i = i' := by
  -- the later of the two would not have been accepted
  have hnot : ∀ {a b rest : Log} {j j' : ℕ} {us us' : List Write} {y y' : Write},
      log = b ++ Entry.commit j' us' :: rest → y ∈ us → y' ∈ us' → y.Excludes y' →
      ¬ a ++ [Entry.commit j us] <+: b := by
    rintro a b rest j j' us us' y y' hsplit hy hy' hexcludes ⟨between, rfl⟩
    obtain ⟨vs, haccepts⟩ := Db.accepts_of_mem (hlog _ _ rest hsplit).2.1 hy'
    have hmem : y ∈ writes (a ++ [Entry.commit j us] ++ between) :=
      mem_flatMap.mpr ⟨.commit j us, by simp, hy⟩
    rw [hexcludes _ vs hmem] at haccepts
    nomatch haccepts
  obtain ⟨hp, hcommit⟩ := AuditLog.eq_of_not_before (h.symm.trans h')
    (hnot h' hx hx' hexcludes) (hnot h hx' hx hexcludes')
  exact ⟨hp, (Entry.commit.inj hcommit).1⟩

/-- Two receipts with one id. -/
lemma Write.excludes_insertReceipt (h : r.receiptId = r'.receiptId) :
    (insertReceipt r).Excludes (.insertReceipt r') := by
  intro log vs hmem
  refine decide_eq_false fun haccepts => (haccepts r ?_).1 h
  exact Db.grows_receipts.mem_of_written hmem (mem_singleton_self r) vs

/-- Two redemptions of one operation. -/
lemma Write.excludes_insertRedemption (h : r.operationId = r'.operationId) :
    (insertRedemption r).Excludes (.insertRedemption r') := by
  intro log vs hmem
  refine decide_eq_false fun haccepts => haccepts r ?_ h
  exact Db.grows_redemptions.mem_of_written hmem (mem_singleton_self r) vs

/-- Evidence is consumed once. -/
lemma Write.excludes_consumeEvidence (jti : PyStr) :
    (consumeEvidence jti).Excludes (.consumeEvidence jti) := by
  intro log vs hmem
  refine decide_eq_false fun hnot => hnot ?_
  exact Db.grows_evidence.mem_of_written hmem (mem_singleton_self jti) vs

/-! ## Mounts -/

variable {m : PyStr} {row : MountRow}

/-- One justified entry and a mount that was there before. -/
theorem Entry.mounts_evolve {e : Entry} (he : e.Justified D log)
    (hrow : log.db.mounts m = some row) :
    ∃ row', (e.apply log.db).mounts m = some row' ∧ row.Evolves row' := by
  cases e with
  | commit i ws =>
    obtain ⟨hws, haccepts, -, -⟩ := he
    refine Db.mounts_foldl_apply haccepts hrow fun u hu => ?_
    obtain ⟨row', hrow', hadmits⟩ := hws _ hu
    obtain rfl := mem_unique hrow hrow'
    exact hadmits
  | nonceReset m' =>
    rw [Entry.apply]
    by_cases hm : m = m'
    · subst hm
      refine ⟨row.unconsumed, ?_, { MountRow.Evolves.refl row with }⟩
      change Function.update log.db.mounts m _ m = _
      rw [update_self, hrow, map_some]
    · refine ⟨row, ?_, .refl row⟩
      change Function.update log.db.mounts m' _ m = _
      rw [update_of_ne hm, hrow]
  | anchored | dispatched | minted | ticked => exact ⟨row, hrow, .refl row⟩

/-- A mount along an audited log. -/
theorem Log.mounts_evolve {pre : Log} (hlog : log.Audited D) (hpre : pre <+: log)
    (hrow : pre.db.mounts m = some row) :
    ∃ row', log.db.mounts m = some row' ∧ row.Evolves row' := by
  obtain ⟨suffix, rfl⟩ := hpre
  induction suffix using List.reverseRecOn with
  | nil => exact ⟨row, by rwa [append_nil], .refl row⟩
  | append_singleton suffix e ih =>
    rw [← append_assoc] at hlog ⊢
    obtain ⟨row1, hrow1, hevolves1⟩ := ih hlog.left
    obtain ⟨row2, hrow2, hevolves2⟩ := Entry.mounts_evolve (hlog _ e [] rfl) hrow1
    exact ⟨row2, by rw [db_concat, hrow2], hevolves1.trans hevolves2⟩

/-- A termination is final. -/
lemma Log.terminated_mono {pre : Log} (hlog : log.Audited D) (hpre : pre <+: log)
    {row' : MountRow} (hrow : pre.db.mounts m = some row) (hterminated : row.terminated = true)
    (hrow' : log.db.mounts m = some row') :
    row'.terminated = true := by
  obtain ⟨row1, hrow1, hevolves⟩ := mounts_evolve hlog hpre hrow
  obtain rfl := mem_unique hrow1 hrow'
  exact hevolves.terminated hterminated

variable {P : PyStr → MountRow → Prop}

/-- What is true of every row that a transaction leaves, if it is of the rows before it, of those
it inserts, and kept by every update. -/
lemma Db.mounts_foldl_induction {db : Db} (hdb : ∀ m row, db.mounts m = some row → P m row)
    (hinsert : ∀ row lease, Write.insertMount row lease ∈ ws → P row.mountId row)
    (hupdate : ∀ m u row, Write.updateMount m u ∈ ws → P m row → P m (u.apply row))
    (hrow : (ws.foldl apply db).mounts m = some row) : P m row := by
  induction ws generalizing db with
  | nil => exact hdb m row hrow
  | cons w ws ih =>
    rw [foldl_cons] at hrow
    refine ih (fun m' row' hrow' => ?_) (fun r l hr => hinsert r l (mem_cons_of_mem _ hr))
      (fun m u r hu => hupdate m u r (mem_cons_of_mem _ hu)) hrow
    cases w with
    | insertMount new lease =>
      by_cases hm : m' = new.mountId
      · subst hm
        change Function.update db.mounts new.mountId (some new) new.mountId = _ at hrow'
        rw [update_self] at hrow'
        obtain rfl := some.inj hrow'
        exact hinsert new lease mem_cons_self
      · rw [Db.mounts_insertMount_of_ne hm] at hrow'
        exact hdb m' row' hrow'
    | updateMount m1 u =>
      by_cases hm : m' = m1
      · subst hm
        rw [Db.mounts_updateMount_self] at hrow'
        obtain ⟨row0, hrow0, rfl⟩ := map_eq_some_iff.mp hrow'
        exact hupdate m' u row0 mem_cons_self (hdb m' row0 hrow0)
      · rw [Db.mounts_updateMount_of_ne hm] at hrow'
        exact hdb m' row' hrow'
    | _ => exact hdb m' row' hrow'

/-- What is true of every row of an audited log, if it is of the rows that `request_mount` makes
and kept by every update that was written. -/
lemma Log.mounts_induction (hlog : log.Audited D) (hinsert : ∀ row lease, .insertMount row lease
      ∈ log.writes → Genuine D row → P row.mountId row)
    (hupdate : ∀ m u row, .updateMount m u ∈ log.writes → P m row → P m (u.apply row))
    (hreset : ∀ m row, P m row → P m row.unconsumed) (hrow : log.db.mounts m = some row) :
    P m row := by
  -- along the log, whose writes are all among those of the whole
  suffices hall : log.writes ⊆ log.writes → ∀ m row, log.db.mounts m = some row → P m row from
    hall (List.Subset.refl _) m row hrow
  refine AuditLog.Audited.induction (motive := fun log' : Log => log'.writes ⊆ log.writes →
    ∀ m row, log'.db.mounts m = some row → P m row) hlog (fun _ m row h => nomatch h) ?_
  intro pre e _ he ih hsub m row hrow
  rw [writes_append] at hsub
  have ih := ih fun x hx => hsub (mem_append_left _ hx)
  rw [db_concat] at hrow
  cases e with
  | commit i ws =>
    have hws : ∀ x ∈ ws, x ∈ log.writes := fun x hx =>
      hsub (mem_append_right _ (mem_flatMap.mpr ⟨_, mem_singleton_self _, hx⟩))
    exact Db.mounts_foldl_induction ih (fun r l hr => hinsert r l (hws _ hr) (he.1 _ hr))
      (fun m u r hu => hupdate m u r (hws _ hu)) hrow
  | nonceReset m' =>
    change Function.update (db pre).mounts m' _ m = _ at hrow
    by_cases hm : m = m'
    · subst hm
      rw [update_self] at hrow
      obtain ⟨row0, hrow0, rfl⟩ := map_eq_some_iff.mp hrow
      exact hreset m row0 (ih m row0 hrow0)
    · rw [update_of_ne hm] at hrow
      exact ih m row hrow
  | anchored | dispatched | minted | ticked => exact ih m row hrow

/-- Every row is under its own id, and as `request_mount` made it in what never changes. -/
theorem Log.genuine_of_mounts (hlog : log.Audited D) (hrow : log.db.mounts m = some row) :
    row.mountId = m ∧ Genuine D row := by
  refine mounts_induction (P := fun m row => row.mountId = m ∧ Genuine D row) hlog
    (fun row _ _ h => ⟨rfl, h⟩) (fun m u row _ h => ?_) (fun m row h => ⟨h.1, { h.2 with }⟩) hrow
  cases u with
  | consumeNonce | terminate | advance | claimStart => exact ⟨h.1, { h.2 with }⟩
  | handover epoch tokenId nonce incarnation previous head decision reason =>
    obtain ⟨ref, package, requested, hpackage, hgrants⟩ := h.2.grants
    exact ⟨h.1, { h.2 with
      tokenId := rfl
      nonce := rfl
      grants := ⟨ref, package, requested, hpackage, { hgrants with }⟩ }⟩

/-! ## Leases -/

/-- The lease of a mount along an audited log. -/
theorem Log.leases_evolve {pre : Log} (hlog : log.Audited D) (hpre : pre <+: log)
    (hmount : (pre.db.mounts m).isSome = true) :
    (pre.db.leases m = none → log.db.leases m = none) ∧
    ∀ lease, pre.db.leases m = some lease →
      ∃ lease', log.db.leases m = some lease' ∧ lease.SameBounds lease' := by
  obtain ⟨suffix, rfl⟩ := hpre
  induction suffix using List.reverseRecOn with
  | nil =>
    rw [append_nil]
    exact ⟨fun h => h, fun lease h => ⟨lease, h, rfl, rfl⟩⟩
  | append_singleton suffix e ih =>
    rw [← append_assoc] at hlog ⊢
    obtain ⟨hnone, hsome⟩ := ih hlog.left
    rw [db_concat]
    cases e with
    | commit i ws =>
      obtain ⟨-, haccepts, -, -⟩ := hlog _ _ [] rfl
      obtain ⟨row, hrow⟩ := isSome_iff_exists.mp hmount
      obtain ⟨row', hrow', -⟩ := mounts_evolve hlog.left (prefix_append pre suffix) hrow
      obtain ⟨hnone', hsome'⟩ :=
        Db.leases_foldl_apply haccepts (isSome_of_eq_some hrow')
      refine ⟨fun h => hnone' (hnone h), fun lease h => ?_⟩
      obtain ⟨lease1, h1, hb1⟩ := hsome lease h
      obtain ⟨lease2, h2, hb2⟩ := hsome' lease1 h1
      exact ⟨lease2, h2, hb2.1.trans hb1.1, hb2.2.trans hb1.2⟩
    | nonceReset | anchored | dispatched | minted | ticked => exact ⟨hnone, hsome⟩

/-- The lease at a later moment has the bounds of the one at an earlier moment. -/
lemma Log.lease_of_later {pre : Log} (hlog : log.Audited D) (hpre : pre <+: log)
    (hmount : (pre.db.mounts m).isSome = true) {lease' : Lease}
    (hlease' : log.db.leases m = some lease') :
    ∃ lease, pre.db.leases m = some lease ∧ lease.SameBounds lease' := by
  obtain ⟨hnone, hsome⟩ := leases_evolve hlog hpre hmount
  cases hlease : pre.db.leases m with
  | none => nomatch (hnone hlease).symm.trans hlease'
  | some lease =>
    obtain ⟨lease1, hlease1, hbounds⟩ := hsome lease hlease
    obtain rfl := mem_unique hlease1 hlease'
    exact ⟨lease, rfl, hbounds⟩

/-- What a lease covers depends on its bounds only. -/
lemma Lease.Covers.sameBounds {token : Token} {lease lease' : Lease} {action : PyStr}
    {resource : Option PyStr} (h : lease.Covers D token action resource)
    (hbounds : lease.SameBounds lease') : lease'.Covers D token action resource where
  leaseAction := hbounds.allowedActions ▸ h.leaseAction
  leaseResource := hbounds.allowedResources ▸ h.leaseResource
  signed := h.signed
  package := h.package

end CapabilityMount
