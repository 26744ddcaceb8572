import Cappo.CapabilityMount.Correctness.Fence

/-!
# What can be used once

A mount's token decides one action: `evaluate` consumes its nonce and, since a consumed nonce can
be reset in the database, looks for a receipt of the token as well. A handover issues another
token. An operation is redeemed once, by a target that presents a permit of the service.

## Main results

* `Log.nodup_tokenIds_receipts`: no token has two receipts;
* `Log.receipts_le_handovers`: a mount has at most one receipt more than handovers;
* `run_singleUse`, `run_redemption`: both under every schedule.
-/

namespace CapabilityMount

open VdbC1 (PyStr)
open List Option Log

variable {D : Deployment} {log pre : Log}

/-! ## Tokens -/

/-- The mount and the token id, if the write issues a token. -/
def Write.issue? : Write → Option (PyStr × PyStr)
  | insertMount row _ => some (row.mountId, row.tokenId)
  | updateMount m (.handover _ tokenId _ _ _ _ _ _) => some (m, tokenId)
  | _ => none

/-- The tokens that were issued, with their mounts. -/
def Log.issues (log : Log) : List (PyStr × PyStr) := log.writes.filterMap Write.issue?

/-- The write inserts a mount. -/
def Write.insertsMount (m : PyStr) : Write → Bool
  | insertMount row _ => row.mountId = m
  | _ => false

/-- The write starts the next incarnation of a mount. -/
def Write.handsOver (m : PyStr) : Write → Bool
  | updateMount m' (.handover _ _ _ _ _ _ _ _) => m' = m
  | _ => false

/-- The number of committed handovers of a mount. -/
def Log.handovers (log : Log) (m : PyStr) : ℕ := log.writes.countP (Write.handsOver m)

lemma Write.map_issue? (x : Write) : x.issue?.map Prod.snd = x.tokenId? := by
  cases x with
  | updateMount m u => cases u <;> rfl
  | _ => rfl

lemma Log.tokenIds_eq (log : Log) : log.tokenIds = log.issues.map Prod.snd := by
  have hissue : (fun x : Write => x.issue?.map Prod.snd) = Write.tokenId? :=
    funext Write.map_issue?
  have hentry : Entry.tokenIds = fun e : Entry => e.writes.filterMap Write.tokenId? := by
    funext e
    cases e <;> rfl
  rw [issues, map_filterMap, hissue, writes, tokenIds, hentry, filterMap_flatMap]

lemma Log.issues_subset (hpre : pre <+: log) : pre.issues ⊆ log.issues := by
  obtain ⟨rest, rfl⟩ := hpre
  rw [issues, issues, writes_append, filterMap_append]
  exact subset_append_left _ _

/-- Token ids are never issued twice. -/
lemma Log.nodup_tokenIds (hlog : log.Audited D) : log.tokenIds.Nodup := by
  refine AuditLog.Audited.induction (motive := fun log : Log => log.tokenIds.Nodup) hlog
    nodup_nil fun pre e _ he ih => ?_
  rw [tokenIds, flatMap_append, flatMap_singleton]
  cases e with
  | commit i ws => exact he.2.2.1
  | _ => exact (append_nil (tokenIds pre)).symm ▸ ih

/-- A token belongs to one mount. -/
lemma Log.issue_unique (hlog : log.Audited D)
    (h : (m, tokenId) ∈ log.issues) (h' : (m', tokenId) ∈ log.issues) : m = m' := by
  have hnodup := nodup_tokenIds hlog
  rw [tokenIds_eq] at hnodup
  exact congrArg Prod.fst (inj_on_of_nodup_map hnodup h h' rfl)

/-- The present token of a mount was issued for it. -/
lemma Log.mem_issues_of_mounts (hlog : log.Audited D)
    (hrow : log.db.mounts m = some row) : (m, row.tokenId) ∈ log.issues := by
  refine mounts_induction (P := fun m row => (m, row.tokenId) ∈ log.issues) hlog
    (fun row lease hmem _ => mem_filterMap.mpr ⟨_, hmem, rfl⟩) (fun m u row hmem h => ?_)
    (fun _ _ h => h) hrow
  cases u with
  | handover epoch tokenId nonce incarnation previous head decision reason =>
    exact mem_filterMap.mpr ⟨_, hmem, rfl⟩
  | consumeNonce | terminate | advance | claimStart => exact h

/-! ## Receipts -/

/-- The token of a receipt was issued for its mount. -/
lemma Log.mem_issues_of_receipt (hlog : log.Audited D)
    (hr : r ∈ log.db.receipts) : (r.mountId, r.tokenId) ∈ log.issues := by
  obtain ⟨p, i, ws, q, row, rfl, -, hallowed⟩ := allowed_of_receipt hlog hr
  rw [hallowed.tokenId]
  exact issues_subset (prefix_append ..) (mem_issues_of_mounts hlog.left hallowed.mount)

/-- No token has two receipts. -/
theorem Log.nodup_tokenIds_receipts (hlog : log.Audited D) :
    (log.db.receipts.map Receipt.tokenId).Nodup := by
  refine AuditLog.Audited.induction
    (motive := fun log : Log => (log.db.receipts.map Receipt.tokenId).Nodup) hlog
    nodup_nil fun pre e hpre he ih => ?_
  rw [db_concat, Db.grows_receipts.entry_apply, map_append]
  cases e with
  | commit i ws =>
    obtain ⟨hws, -, -, hsingle⟩ := he
    change (_ ++ (ws.flatMap Write.receipts).map Receipt.tokenId).Nodup
    refine nodup_append.mpr ⟨ih, ?_, ?_⟩
    · -- a transaction inserts one receipt at most
      match hreceipts : ws.flatMap Write.receipts with
      | [] => exact nodup_nil
      | [r] => exact nodup_singleton _
      | r :: r' :: rs =>
        rw [hreceipts, length_cons, length_cons] at hsingle
        omega
    · intro t ht t' ht' heq
      obtain ⟨r, hr, rfl⟩ := mem_map.mp ht
      obtain ⟨r', hr', rfl⟩ := mem_map.mp ht'
      obtain ⟨x, hx, hrx⟩ := mem_flatMap.mp hr'
      cases x with
      | insertReceipt r1 =>
        obtain rfl := mem_singleton.mp hrx
        obtain ⟨row, hallowed⟩ := hws _ hx
        -- one token belongs to one mount, and the mount's token had no receipt
        have hissued := mem_issues_of_mounts hpre.left hallowed.mount
        rw [← hallowed.tokenId, ← heq] at hissued
        exact hallowed.first r hr
          (issue_unique hpre.left (mem_issues_of_receipt hpre.left hr) hissued) heq
      | _ => nomatch hrx
  | _ => simpa [Entry.writes] using ih

/-! ## Handovers -/

/-- One if the mount is there. -/
def Db.mountCount (db : Db) (m : PyStr) : ℕ := if (db.mounts m).isSome then 1 else 0

lemma Db.mountCount_mono {db db' : Db} {m : PyStr}
    (h : (db.mounts m).isSome = true → (db'.mounts m).isSome = true) :
    db.mountCount m ≤ db'.mountCount m := by
  unfold mountCount
  split_ifs with h1 h2
  · exact le_rfl
  · exact absurd (h h1) h2
  · exact Nat.zero_le 1
  · exact le_rfl

/-- A mount is inserted at most once. -/
lemma Db.countP_insertsMount {db : Db} {ws : List Write} (m : PyStr)
    (haccepts : db.acceptsAll ws = true) :
    db.mountCount m + ws.countP (Write.insertsMount m) ≤ (ws.foldl apply db).mountCount m := by
  induction ws generalizing db with
  | nil => exact le_rfl
  | cons w ws ih =>
    rw [acceptsAll, Bool.and_eq_true] at haccepts
    rw [foldl_cons, countP_cons]
    have hrest := ih haccepts.2
    suffices hstep : db.mountCount m + (if Write.insertsMount m w = true then 1 else 0) ≤
        (db.apply w).mountCount m by omega
    split
    · next hinserts =>
      cases w with
      | insertMount row lease =>
        obtain rfl := of_decide_eq_true hinserts
        have hnone : db.mounts row.mountId = none := isNone_iff_eq_none.mp haccepts.1
        rw [mountCount, mountCount, hnone]
        change 0 + 1 ≤ if (Function.update db.mounts row.mountId (some row) row.mountId).isSome
          then 1 else 0
        rw [Function.update_self]
        exact le_rfl
      | _ => exact absurd hinserts Bool.false_ne_true
    · exact mountCount_mono fun h => mounts_isSome_apply h w

/-- A mount is inserted at most once. -/
lemma Log.insertsMount_le_one (hlog : log.Audited D) (m : PyStr) :
    log.writes.countP (Write.insertsMount m) ≤ 1 := by
  have hle : log.writes.countP (Write.insertsMount m) ≤ log.db.mountCount m := by
    refine AuditLog.Audited.induction (motive := fun log : Log =>
      log.writes.countP (Write.insertsMount m) ≤ log.db.mountCount m) hlog
      (Nat.zero_le _) fun pre e _ he ih => ?_
    rw [writes_append, countP_append, db_concat]
    cases e with
    | commit i ws =>
      have hcommit := Db.countP_insertsMount m he.2.1
      have hws : writes [Entry.commit i ws] = ws := flatMap_singleton ..
      rw [hws]
      exact (Nat.add_le_add_right ih _).trans hcommit
    | nonceReset m' =>
      refine ih.trans (Db.mountCount_mono fun h => ?_)
      change (Function.update (db pre).mounts m' _ m).isSome = true
      by_cases hm : m = m'
      · subst hm
        rwa [Function.update_self, isSome_map]
      · rwa [Function.update_of_ne hm]
    | _ => exact ih
  refine hle.trans ?_
  unfold Db.mountCount
  split <;> decide

/-- The tokens of a mount: one for the mount, one for each handover. -/
lemma Log.issues_le_handovers (hlog : log.Audited D) (m : PyStr) :
    (log.issues.filter fun issue => issue.1 = m).length ≤ 1 + log.handovers m := by
  have hcount : ∀ ws : List Write,
      ((ws.filterMap Write.issue?).filter fun issue => issue.1 = m).length =
        ws.countP (Write.insertsMount m) + ws.countP (Write.handsOver m) := by
    intro ws
    rw [← countP_eq_length_filter, countP_filterMap]
    induction ws with
    | nil => rfl
    | cons w ws ih =>
      rw [countP_cons, countP_cons, countP_cons, ih]
      have hw : (if (w.issue?.map fun issue => decide (issue.1 = m)).getD false = true
          then 1 else 0) = (if Write.insertsMount m w = true then 1 else 0) +
            if Write.handsOver m w = true then 1 else 0 := by
        cases w with
        | insertMount row lease => rfl
        | updateMount m' u => cases u <;> simp [Write.issue?, Write.insertsMount, Write.handsOver]
        | _ => rfl
      omega
  rw [issues, hcount, handovers]
  exact Nat.add_le_add_right (insertsMount_le_one hlog m) _

/-- A mount has at most one receipt more than handovers. -/
theorem Log.receipts_le_handovers (hlog : log.Audited D) (m : PyStr) :
    (log.db.receipts.filter fun r => r.mountId = m).length ≤ 1 + log.handovers m := by
  have hnodup : ((log.db.receipts.filter fun r => r.mountId = m).map Receipt.tokenId).Nodup :=
    (nodup_tokenIds_receipts hlog).sublist (filter_sublist.map _)
  -- the tokens of the receipts are among those issued for the mount
  have hsub : (log.db.receipts.filter fun r => r.mountId = m).map Receipt.tokenId ⊆
      (log.issues.filter fun issue => issue.1 = m).map Prod.snd := by
    intro t ht
    obtain ⟨r, hr, rfl⟩ := mem_map.mp ht
    obtain ⟨hmem, hm⟩ := mem_filter.mp hr
    refine mem_map.mpr ⟨(r.mountId, r.tokenId), mem_filter.mpr ⟨?_, hm⟩, rfl⟩
    exact mem_issues_of_receipt hlog hmem
  have hle := hnodup.length_le_of_subset hsub
  rw [length_map, length_map] at hle
  exact hle.trans (issues_le_handovers hlog m)

/-- After any schedule, with nonces reset at any moments, no token has two ALLOW receipts, and a
mount has at most one ALLOW receipt more than committed handovers. -/
theorem run_singleUse {es : Schedule}
    {c : Config} (hrun : D.run es = some c) :
    ((c.shared.db.receipts.filter fun r => r.decision = .allow).map Receipt.tokenId).Nodup ∧
    ∀ m, (c.shared.db.receipts.filter fun r => r.mountId = m ∧ r.decision = .allow).length ≤
      1 + c.shared.log.handovers m := by
  have hlog := run_audited hrun
  refine ⟨(nodup_tokenIds_receipts hlog).sublist (filter_sublist.map _), fun m => ?_⟩
  refine le_trans (List.Sublist.length_le ?_) (receipts_le_handovers hlog m)
  refine monotone_filter_right _ fun r hr => ?_
  simp only [Bool.decide_and, Bool.and_eq_true] at hr
  exact hr.1

namespace Sample

def evaluateArgs (tokenId nonce : PyStr) : EvaluateArgs where
  mountId := mountId
  action := operation.action
  resource := some operation.resource
  tokenId := tokenId
  nonce := nonce
  ownerPrincipal := owner.principal
  ownerWorkspace := owner.workspace

/-- An `evaluate` that allows, from its start to its answer. -/
def evaluated (i : ℕ) (tokenId nonce anchorId : PyStr) : Schedule :=
  .start i (.evaluate (evaluateArgs tokenId nonce)) ::
  steps i (oks 10 ++ .anchored { status := .confirmed, anchorId := some anchorId } :: oks 8)

/-- A handover to a new token. -/
def handedOver (i : ℕ) (tokenId nonce : PyStr) : Schedule :=
  .start i (.handover { mountId, decisionHash := [], reason := [], owner }) ::
  steps i (.ok :: .identifier tokenId :: .identifier nonce :: oks 3 ++ confirmed :: oks 2)

/-- The token is used; its nonce is reset, and it is presented again in vain; the mount is handed
over to another token, which is used. -/
def presentedAgain : Schedule :=
  mounted ++ evaluated 2 "t" "n" "1" ++
  .environment (.resetNonce mountId) ::
  .start 3 (.evaluate (evaluateArgs "t" "n")) ::
  steps 3 (oks 3 ++ confirmed :: oks 2) ++
  handedOver 4 "u" "k" ++
  evaluated 5 "u" "k" "2"

end Sample

/-- The bound is reached: two receipts after one handover. -/
theorem run_singleUse_presentedAgain : ∃ c,
    Sample.deployment.run Sample.presentedAgain = some c ∧
    (c.shared.db.receipts.map Receipt.tokenId = [PyStr.ofString "t", PyStr.ofString "u"] ∧
      c.shared.log.handovers Sample.mountId = 1) ∧
    (c.shared.db.receipts.filter fun r => r.mountId = Sample.mountId ∧
      r.decision = .allow).length ≤ 1 + 1 := by
  obtain ⟨c, hrun, htokens⟩ := Sample.exists_run Sample.presentedAgain
    (fun c => c.shared.db.receipts.map Receipt.tokenId =
        [PyStr.ofString "t", PyStr.ofString "u"] ∧
      c.shared.log.handovers Sample.mountId = 1) (by decide +kernel)
  have hle := (run_singleUse hrun).2 Sample.mountId
  rw [htokens.2] at hle
  exact ⟨c, hrun, htokens, hle⟩

/-! ## Permits -/

/-- A permit names what was there when it was minted. -/
lemma Log.permit_justified (hlog : log.Audited D) (hp : p ∈ log.permits) : p.Justified D log := by
  obtain ⟨e, he, hminted⟩ := mem_filterMap.mp hp
  obtain ⟨before, after, rfl⟩ := append_of_mem he
  cases e with
  | minted p' =>
    cases hminted
    exact (hlog before _ after rfl).mono (prefix_append ..)
  | _ => nomatch hminted

/-- A claim carries the receipt of an ALLOW. -/
lemma Log.receiptId_of_started (hlog : log.Audited D) (he : e ∈ log.db.events)
    (hstate : e.state = .started) : ∃ receiptId, e.receiptId = some receiptId ∧ receiptId ≠ [] := by
  obtain ⟨p, i, ws, q, es, rfl, hes, hmem, happended⟩ := appended_of_event hlog he
  cases happended.role hmem with
  | authorized _ state => nomatch state.symm.trans hstate
  | claimed _ _ _ claim =>
    obtain ⟨p', i', ws', q', r, row, hsplit, hr, hreceipt, -⟩ :=
      decided_of_authorized hlog.left claim.mem claim.authorized claim.site
    obtain ⟨row', hallowed⟩ := (hlog.left p' _ q' hsplit).1 _ hr
    exact ⟨r.receiptId, claim.receiptId.trans hreceipt, hallowed.receiptId⟩
  | continued _ state => exact absurd hstate state
  | recorder mem _ _ _ _ receiptId =>
    obtain ⟨_, _, _, _, row, -, -, hallowed⟩ := allowed_of_receipt hlog.left mem
    exact ⟨_, receiptId, hallowed.receiptId⟩

/-- Registered targets and the operation, mount and receipt ids of events have no newline. -/
structure NewlineFree (D : Deployment) (log : Log) : Prop where
  targets : ∀ t, (D.targetAdapters t).isSome = true → newline ∉ t
  operations : ∀ e ∈ log.db.events, newline ∉ e.operationId
  mounts : ∀ e ∈ log.db.events, newline ∉ e.mountId
  receipts : ∀ e ∈ log.db.events, ∀ receiptId, e.receiptId = some receiptId → newline ∉ receiptId

lemma NewlineFree.before (h : NewlineFree D log) (hpre : pre <+: log) : NewlineFree D pre where
  targets := h.targets
  operations e he := h.operations e (events_subset hpre he)
  mounts e he := h.mounts e (events_subset hpre he)
  receipts e he := h.receipts e (events_subset hpre he)

lemma Permit.Justified.plain {p : Permit} (h : p.Justified D log) (hfree : NewlineFree D log) :
    p.Plain := by
  obtain ⟨e, he, ho, hm⟩ := h.operation
  refine ⟨ho ▸ hfree.operations e he, hm ▸ hfree.mounts e he, ?_, hfree.targets _ h.target⟩
  cases hr : p.receiptId with
  | none => exact not_mem_nil
  | some receiptId =>
    obtain ⟨e', he', hreceipt⟩ := h.receipt receiptId hr
    exact hfree.receipts e' he' receiptId hreceipt

/-- What is redeemed is what a permit was minted for. -/
lemma Redeems.permit_mem {r : Redemption} (h : Redeems log r) (hlog : log.Audited D)
    (hfree : NewlineFree D log) (htarget : (D.targetAdapters r.sinkRef).isSome = true) :
    r.permit ∈ log.permits := by
  obtain ⟨n, latest, row, -, hredeemable⟩ := h.decided
  obtain ⟨p, hp, hmessage⟩ := h.minted
  obtain ⟨hmem, ho⟩ := Db.mem_of_latestEvent hredeemable.latestEvent
  have hread := take_prefix n log
  have hmem := events_subset hread hmem
  obtain ⟨receiptId, hreceipt, hne⟩ := receiptId_of_started hlog hmem hredeemable.started
  have hr : r.receiptId = some receiptId := hredeemable.receiptId.trans hreceipt
  have hplain : r.permit.Plain := {
    operationId := by
      change newline ∉ r.operationId
      exact ho ▸ hfree.operations latest hmem
    mountId := by
      change newline ∉ r.mountId
      exact hredeemable.mountId ▸ hfree.mounts latest hmem
    receiptId := by
      change newline ∉ r.receiptId.getD []
      rw [hr]
      exact hfree.receipts latest hmem receiptId hreceipt
    targetRef := hfree.targets _ htarget }
  have hjustified := permit_justified hlog hp
  obtain ⟨hop, hmount, hreceipts, hpayload, htargets⟩ :=
    permitMessage_injective (hjustified.plain hfree) hplain hmessage
  -- an empty receipt would be read for a missing one, but the claim has a receipt
  have hsame : p.receiptId = r.receiptId := by
    change p.receiptId.getD [] = r.receiptId.getD [] at hreceipts
    rw [hr, getD_some] at hreceipts
    cases hpr : p.receiptId with
    | none =>
      rw [hpr] at hreceipts
      exact absurd hreceipts.symm hne
    | some receiptId' =>
      rw [hpr, getD_some] at hreceipts
      rw [hr, hreceipts]
  have hp' : p = r.permit := by
    cases p
    simp_all [Redemption.permit]
  exact hp' ▸ hp

/-- A pinned key belongs to a registered target. -/
lemma isSome_of_pinnedKey (h : D.pinnedKey sinkRef = some pinned) :
    (D.targetAdapters sinkRef).isSome = true := by
  obtain ⟨hbind, -⟩ := filter_eq_some_iff.mp h
  obtain ⟨adapter, hadapter, -⟩ := bind_eq_some_iff.mp hbind
  exact isSome_of_eq_some hadapter

/-- After any schedule, no operation has been redeemed twice. Every ALLOW is the commit of a
redemption by its session; after the call had begun there was a moment at which the operation was
started and its mount neither terminated nor expired, and the mount was not terminated at the
commit; the request was signed with the key pinned for the target; and the service had minted a
permit for this operation, mount, receipt, payload and target. -/
theorem run_redemption {es : Schedule}
    {c : Config} (hrun : D.run es = some c)
    (hfree : NewlineFree D c.shared.log) :
    (∀ i j q q' reason reason', c.result i = some (.ok (.redemption q .allow reason)) →
      c.result j = some (.ok (.redemption q' .allow reason')) →
      q.operationId = q'.operationId → i = j) ∧
    ∀ i q reason, c.result i = some (.ok (.redemption q .allow reason)) →
      ∃ (pre : Log) (ws : List Write) (post : Log) (r : Redemption),
        c.shared.log = pre ++ .commit i ws :: post ∧ .insertRedemption r ∈ ws ∧
        r.operationId = q.operationId ∧ r.payloadSha256 = q.payloadSha256 ∧
        q.sinkRef = some r.sinkRef ∧
        (∃ moment latest row, moment <+: pre ∧ (∃ e ∈ moment, e.session = some i) ∧
          Redeemable moment r latest row) ∧
        (∃ row, pre.db.mounts r.mountId = some row ∧ row.terminated = false) ∧
        (∃ pinned, D.pinnedKey r.sinkRef = some pinned ∧
          D.signatureVerifies q r.sinkRef pinned = some true) ∧
        r.permit ∈ pre.permits := by
  have hlog := run_audited hrun
  constructor
  · intro i j q q' reason reason' hi hj hop
    obtain ⟨p, ws, rest, r, pinned, hsplit, hr, ho, -⟩ := run_answered hrun hi rfl
    obtain ⟨p', ws', rest', r', pinned', hsplit', hr', ho', -⟩ := run_answered hrun hj rfl
    have hid : r.operationId = r'.operationId := ho.trans (hop.trans ho'.symm)
    exact (commit_unique hlog hsplit hsplit' hr hr' (Write.excludes_insertRedemption hid)
      (Write.excludes_insertRedemption hid.symm)).2
  · intro i q reason hi
    obtain ⟨p, ws, rest, r, pinned, hsplit, hr, ho, hpayload, hsink, hpinned, hverifies, moment,
      hmoment, hown, latest, row, hredeemable⟩ := run_answered hrun hi rfl
    have hredeems := redeems_of_commit hlog hsplit hr
    have hpre : p <+: c.shared.log := hsplit ▸ prefix_append ..
    have hlog' : Log.Audited D (p ++ .commit i ws :: rest) := hsplit ▸ hlog
    exact ⟨p, ws, rest, r, hsplit, hr, ho, hpayload, hsink,
      ⟨moment, latest, row, hmoment, hown, hredeemable⟩, hredeems.mount,
      ⟨pinned, hpinned, hverifies⟩,
      hredeems.permit_mem hlog'.left (hfree.before hpre) (isSome_of_pinnedKey hpinned)⟩

namespace Sample

/-- The permit that the target asks for. -/
def permit : Permit where
  operationId := "o"
  mountId := mountId
  receiptId := some "rcpt_"
  payloadSha256 := "d"
  targetRef := operation.targetRef

def redeemArgs : RedeemArgs where
  operationId := permit.operationId
  permit := "veklom-consequence-permit-v2\n" ++ permitMessage permit
  payloadSha256 := permit.payloadSha256
  sinkRef := some permit.targetRef

/-- The operation is dispatched, and the target redeems it: up to the decision. -/
def redeeming : Schedule :=
  mounted ++ allowed 2 permit.operationId ++ claimed 2 ++ dispatched 2 permit.payloadSha256 ++
  .start 3 (.redeem redeemArgs) :: steps 3 (oks 6)

end Sample

theorem run_redemption_redeemed : ∃ c,
    Sample.deployment.run (Sample.redeeming ++ Sample.steps 3 (Sample.oks 3)) = some c ∧
    NewlineFree Sample.deployment c.shared.log ∧
    c.result 3 = some (.ok (.redemption Sample.redeemArgs .allow .redeemed)) ∧
    ∃ (pre : Log) (ws : List Write) (post : Log) (r : Redemption),
      c.shared.log = pre ++ .commit 3 ws :: post ∧ .insertRedemption r ∈ ws ∧
      r.permit ∈ pre.permits := by
  obtain ⟨c, hrun, hresult, hevents⟩ := Sample.exists_run
    (Sample.redeeming ++ Sample.steps 3 (Sample.oks 3))
    (fun c => c.result 3 = some (.ok (.redemption Sample.redeemArgs .allow .redeemed)) ∧
      ∀ e ∈ c.shared.db.events, newline ∉ e.operationId ∧ newline ∉ e.mountId ∧
        newline ∉ e.receiptId.getD []) (by decide +kernel)
  have hfree : NewlineFree Sample.deployment c.shared.log := {
    targets := by
      intro t ht
      by_cases hmail : t = Sample.operation.targetRef
      · rw [hmail]
        decide +kernel
      · have hnone : Sample.deployment.targetAdapters t = none := if_neg hmail
        rw [hnone] at ht
        nomatch ht
    operations := fun e he => (hevents e he).1
    mounts := fun e he => (hevents e he).2.1
    receipts := by
      intro e he receiptId hreceipt
      have hnot := (hevents e he).2.2
      rwa [hreceipt, getD_some] at hnot }
  obtain ⟨pre, ws, post, r, hsplit, hr, -, -, -, -, -, -, hpermit⟩ :=
    (run_redemption hrun hfree).2 3 _ _ hresult
  exact ⟨c, hrun, hfree, hresult, pre, ws, post, r, hsplit, hr, hpermit⟩

/-- An ALLOW for an operation that has succeeded when the redemption is committed: the report of
the outcome does not take the mount's lock, and comes between the decision and the commit. -/
theorem run_redemption_after_report : ∃ c, Sample.deployment.run
      (Sample.redeeming ++ Sample.steps 2 (Sample.oks 3) ++ Sample.steps 3 (Sample.oks 3)) =
        some c ∧
    c.result 3 = some (.ok (.redemption Sample.redeemArgs .allow .redeemed)) ∧
    ∃ (pre : Log) (ws : List Write) (post : Log) (r : Redemption),
      c.shared.log = pre ++ .commit 3 ws :: post ∧ .insertRedemption r ∈ ws ∧
      (pre.db.latestEvent r.operationId).map Event.state = some .succeeded := by
  obtain ⟨c, hrun, hresult, hlast⟩ := Sample.exists_run
    (Sample.redeeming ++ Sample.steps 2 (Sample.oks 3) ++ Sample.steps 3 (Sample.oks 3))
    (fun c => c.result 3 = some (.ok (.redemption Sample.redeemArgs .allow .redeemed)) ∧
      c.shared.log.dropLast ++ [.commit 3 [.insertRedemption {
        operationId := Sample.permit.operationId
        mountId := Sample.permit.mountId
        receiptId := Sample.permit.receiptId
        payloadSha256 := Sample.permit.payloadSha256
        sinkRef := Sample.permit.targetRef }]] = c.shared.log ∧
      ((db c.shared.log.dropLast).latestEvent Sample.permit.operationId).map Event.state =
        some .succeeded) (by decide +kernel)
  exact ⟨c, hrun, hresult, c.shared.log.dropLast, _, [], _, hlast.1.symm, mem_singleton_self _,
    hlast.2⟩

end CapabilityMount
