import Cappo.CapabilityMount.Correctness.Rules

/-!
# What an ALLOW rests on

`evaluate` locks the mount first, and every check that follows is made under the lock. So when
the receipt of an ALLOW is committed, the mount is still live, the token has no earlier receipt,
and the action and the resource are covered by the lease, the signed token and the package.

## Main results

* `wp_evaluate`: an ALLOW of `evaluate` is the commit of its receipt.
-/

namespace CapabilityMount

open VdbC1 (PyStr)
open Sessions.Discipline List

variable {D : Deployment} {i : ℕ}

/-! ## What the checks establish -/

lemma quiet_liveVerdict (q : EvaluateArgs) (row : MountRow) : Quiet D i (D.liveVerdict q row) := by
  have hprofile := mild_of_reading (straight_profileVerdict (D := D) q row)
  refine .bind (.tryCatch (.of_straight hprofile) rfl fun e => ?_) fun verdict => .pure _
  cases e with
  | tokenExpired | executionTerminated | policy => exact .pure _
  | _ => exact .throw _

variable {w : World}

/-- A token that passes its checks is the one of a live mount, and has no receipt. -/
lemma wp_tokenReason (q : EvaluateArgs) (row : MountRow) :
    Yields D i (tokenReason q row) (fun reason w' => Keeps i w w' ∧
      (reason = none → row.terminated = false ∧
        ∀ r ∈ w'.db.receipts, r.tokenId ≠ row.tokenId)) w := by
  unfold tokenReason
  split
  · exact wp_pure ⟨.refl i w, nofun⟩
  · next hlive =>
    refine wp_call trivial fun now w1 _ hk1 _ => ?_
    split
    · exact wp_pure ⟨hk1, nofun⟩
    · split
      · split <;> exact wp_pure ⟨hk1, nofun⟩
      · next htoken =>
        refine wp_call trivial fun prior w2 hinv2 hk2 hprior => ?_
        split
        · exact wp_pure ⟨hk1.trans hk2, nofun⟩
        · next hnone =>
          refine wp_pure ⟨hk1.trans hk2, fun _ => ⟨by simpa using hlive, fun r hr heq => ?_⟩⟩
          -- every receipt is an ALLOW, so that this one would have been found
          obtain ⟨_, _, _, _, _, _, _, hallowed⟩ := Log.allowed_of_receipt hinv2.audited hr
          have hid : q.tokenId = row.tokenId := by
            simp only [Bool.or_eq_true, not_or] at htoken
            simpa using htoken.1.2
          refine hnone (hprior ▸ any_eq_true.mpr ⟨r, hr, ?_⟩)
          simp [heq, hid, hallowed.decision]

variable {q : EvaluateArgs} {row : MountRow}

/-- What the effective authority grants, the lease covers. -/
lemma covers_of_checkEffective (hbiscuit : row.token.biscuit = some biscuit)
    (hcontext : D.authorityContext biscuit = some context)
    (h : D.checkEffective q row lease context now = .ok ()) :
    lease.Covers D row.token q.action q.resource := by
  obtain ⟨effective, heffective, h⟩ := Checks.bind_eq_ok.mp h
  obtain ⟨_, haction, h⟩ := Checks.bind_eq_ok.mp h
  obtain ⟨_, -, hresource⟩ := Checks.bind_eq_ok.mp h
  have hactions := Lease.mem_actions_of_evaluateAuthority heffective
    (of_decide_eq_true (Checks.require_eq_ok.mp haction))
  have hresources := (Lease.resourceIn_evaluateAuthority heffective).mp
    (Checks.require_eq_ok.mp hresource)
  refine ⟨hactions.1, hresources.1.1, ⟨biscuit, context, hbiscuit, hcontext, hactions.2.1,
    hresources.1.2⟩, fun p hp => ?_⟩
  have hpackage := hactions.2.2
  rw [Deployment.packageAuthority, hp] at hpackage
  exact hpackage

/-- A mount that passes the check of its authority has no lease, or one that covers the
request. -/
lemma wp_authorityReason (q : EvaluateArgs) (hheld : Held i q.mountId row w) :
    Yields D i (D.authorityReason q row) (fun reason w' => Keeps i w w' ∧
      (reason = none → ∀ lease, w'.db.leases q.mountId = some lease →
        lease.Covers D row.token q.action q.resource)) w := by
  refine wp_call trivial fun seen w1 hinv1 hk1 hseen => ?_
  cases seen with
  | none =>
    refine wp_pure ⟨hk1, fun _ lease hlease => ?_⟩
    obtain ⟨_, hnone, -⟩ := hseen lease hlease
    nomatch hnone
  | some seen =>
    dsimp only
    split
    · exact wp_pure ⟨hk1, nofun⟩
    · next context hcontext =>
      obtain ⟨biscuit, hbiscuit, hcontext⟩ := Option.bind_eq_some_iff.mp hcontext
      refine wp_call trivial fun now w2 hinv2 hk2 _ => ?_
      split
      · next hok =>
        refine wp_pure ⟨hk1.trans hk2, fun _ lease hlease => ?_⟩
        have hmount := (hheld.keeps hk1).isSome
        obtain ⟨lease1, hlease1, hbounds⟩ :=
          Log.lease_of_later hinv2.audited hk2.log hmount hlease
        obtain ⟨_, heq, hbounds1⟩ := hseen lease1 hlease1
        cases heq
        have hcovers := covers_of_checkEffective hbiscuit hcontext hok
        exact (hcovers.sameBounds hbounds1).sameBounds hbounds
      · exact wp_pure ⟨hk1.trans hk2, nofun⟩

/-! ## Evidence -/

/-- Whether the token's policy asks for evidence of a kind. -/
def Token.requires (token : Token) (action : PyStr) : EvidenceKind → Bool
  | .humanApproval =>
    action ∈ token.grants.externalSend && token.policy.requireHumanApprovalForExternalSend
  | .suppressionCheck =>
    action ∈ token.grants.suppressionRequired && token.policy.requireSuppressionCheck

/-- The evidence of a kind that a request presents. -/
def EvaluateArgs.evidence (q : EvaluateArgs) : EvidenceKind → Option PyStr
  | .humanApproval => q.approvalToken
  | .suppressionCheck => q.suppressionEvidence

/-- At some moment of the log, the evidence that a request presents verified for it. -/
def Verified (D : Deployment) (q : EvaluateArgs) (mount : Mount) (kind : EvidenceKind)
    (jti : PyStr) (log : Log) : Prop :=
  ∃ moment : Log, moment <+: log ∧
    D.verifyEvidence kind (q.evidence kind) q.ownerPrincipal mount q.action q.nonce moment.now =
      .ok (some jti)

lemma Verified.mono (h : Verified D q mount kind jti log) (hpre : log <+: log') :
    Verified D q mount kind jti log' := by
  obtain ⟨moment, hmoment, h⟩ := h
  exact ⟨moment, hmoment.trans hpre, h⟩

/-- What the profile and the gates establish for an ALLOW. -/
structure Cleared (D : Deployment) (q : EvaluateArgs) (row : MountRow) (evidence : List PyStr)
    (log : Log) : Prop where
  allows : row.token.grants.allows q.action = true
  coversResource : row.token.grants.coversResource q.resource = true
  verified : ∀ kind, row.token.requires q.action kind = true →
    ∃ jti ∈ evidence, Verified D q row.mount kind jti log

variable {evidence : List PyStr}

lemma Cleared.mono (h : Cleared D q row evidence log) (hpre : log <+: log') :
    Cleared D q row evidence log' where
  allows := h.allows
  coversResource := h.coversResource
  verified kind hkind := by
    obtain ⟨jti, hjti, hverified⟩ := h.verified kind hkind
    exact ⟨jti, hjti, hverified.mono hpre⟩

/-- A gate lets evidence pass that verifies. -/
lemma wp_evidenceGate (q : EvaluateArgs) (row : MountRow) (kind : EvidenceKind)
    (required : Bool) (notVerified replayed : Reason) :
    Yields D i (D.evidenceGate q row kind required (q.evidence kind) notVerified replayed)
      (fun r w' => w.log <+: w'.log ∧ ∀ jtis, r = .ok jtis → required = true →
        ∃ jti ∈ jtis, Verified D q row.mount kind jti w'.log) w := by
  unfold Deployment.evidenceGate
  split
  · next hrequired =>
    refine wp_pure ⟨prefix_rfl, fun _ _ h => ?_⟩
    rw [h] at hrequired
    nomatch hrequired
  · refine wp_call trivial fun now w1 _ hk1 hnow => ?_
    split
    · exact wp_throw trivial
    · exact wp_pure ⟨hk1.log, nofun⟩
    · next jti hjti =>
      refine wp_call trivial fun consumed w2 _ hk2 _ => ?_
      split
      · exact wp_pure ⟨(hk1.trans hk2).log, nofun⟩
      · refine wp_pure ⟨(hk1.trans hk2).log, fun jtis hjtis _ => ?_⟩
        cases hjtis
        refine ⟨jti, mem_singleton_self jti, w1.log, hk2.log, ?_⟩
        rw [← hnow]
        exact hjti

/-- An action is cleared by the evidence that its policy asks for. -/
lemma wp_evidenceVerdict (hinv : Inv D w) (hallows : row.token.grants.allows q.action = true)
    (hcovers : row.token.grants.coversResource q.resource = true) :
    Yields D i (D.evidenceVerdict q row) (fun verdict w' => verdict.decision = .allow →
      Cleared D q row verdict.evidence w'.log) w := by
  have hdeny : ∀ reason w1, Yields D i (do perform .audit; return Verdict.deny reason)
      (fun verdict w' => verdict.decision = .allow → Cleared D q row verdict.evidence w'.log)
      w1 := fun reason w1 =>
    wp_call trivial (fun _ _ _ _ _ => wp_pure nofun)
  refine wp_seq hinv (wp_evidenceGate q row .humanApproval ..)
    fun approval w1 hinv1 ⟨_, happroval⟩ => ?_
  cases approval with
  | error reason => exact hdeny reason w1
  | ok approval =>
    refine wp_seq hinv1 (wp_evidenceGate q row .suppressionCheck ..)
      fun suppression w2 _ ⟨hlog2, hsuppression⟩ => ?_
    cases suppression with
    | error reason => exact hdeny reason w2
    | ok suppression =>
      refine wp_pure fun _ => ⟨hallows, hcovers, fun kind hkind => ?_⟩
      cases kind with
      | humanApproval =>
        obtain ⟨jti, hjti, hverified⟩ := happroval approval rfl hkind
        exact ⟨jti, mem_append_left _ hjti, hverified.mono hlog2⟩
      | suppressionCheck =>
        obtain ⟨jti, hjti, hverified⟩ := hsuppression suppression rfl hkind
        exact ⟨jti, mem_append_right _ hjti, hverified⟩

lemma wp_profileVerdict (q : EvaluateArgs) (row : MountRow) (hinv : Inv D w) :
    Yields D i (D.profileVerdict q row) (fun verdict w' => verdict.decision = .allow →
      Cleared D q row verdict.evidence w'.log) w := by
  refine wp_straight (mild_of_reading (straight_checkLive ..)) hinv (fun _ w1 hinv1 _ => ?_)
  dsimp only
  split
  · exact wp_call trivial (fun _ _ _ _ _ => wp_pure nofun)
  · next hallows =>
    split
    · exact wp_call trivial (fun _ _ _ _ _ => wp_pure nofun)
    · next hcovers =>
      exact wp_evidenceVerdict hinv1 (by simpa using hallows) (by simpa using hcovers)

/-- An ALLOW of the profile is for an action and a resource that are granted, with the evidence
that the policy asks for. -/
lemma wp_liveVerdict (q : EvaluateArgs) (row : MountRow) (hinv : Inv D w) :
    Yields D i (D.liveVerdict q row) (fun verdict w' => verdict.decision = .allow →
      Cleared D q row verdict.evidence w'.log) w := by
  have hrest : ∀ (verdict : Verdict) w', (verdict.decision = .allow →
      Cleared D q row verdict.evidence w'.log) → Yields D i
        (pure (if row.terminated then .deny .terminated else verdict) : Proc Verdict)
        (fun verdict w' => verdict.decision = .allow → Cleared D q row verdict.evidence w'.log)
        w' := by
    intro verdict w' h
    split
    · exact wp_pure nofun
    · exact wp_pure h
  refine wp_bind (wp_tryCatch (wp_mono_inv' hinv (wp_profileVerdict q row hinv)
    (fun verdict w' _ h => hrest verdict w' h) fun e w' _ _ => ?_))
  cases e with
  | tokenExpired | executionTerminated | policy => exact hrest _ w' nofun
  | _ => exact wp_throw trivial

/-- The lease can only turn an ALLOW into a DENY. -/
lemma wp_leaseVerdict (q : EvaluateArgs) (verdict : Verdict) : Yields D i (D.leaseVerdict q verdict)
      (fun v _ => v.decision = .allow → v = verdict) w := by
  refine wp_call trivial fun lease w1 _ _ _ => ?_
  cases lease with
  | none => exact wp_pure fun _ => rfl
  | some lease =>
    refine wp_call trivial fun now w2 hinv2 _ _ => ?_
    have hrest : ∀ (online : Bool) (v : Verdict) w3, (v.decision = .allow → v = verdict) →
        Yields D i
          (if !online && v.decision = .allow then Deployment.offlineVerdict q lease v else pure v)
          (fun v _ => v.decision = .allow → v = verdict) w3 := by
      intro online v w3 hv
      split
      · unfold Deployment.offlineVerdict
        split
        · exact wp_pure nofun
        · split
          · exact wp_pure nofun
          · split
            · exact wp_pure nofun
            · exact wp_bind (wp_write
                (fun w4 _ _ => Write.Free.legal (x := .updateLease _ _) trivial w4)
                fun _ _ _ _ => wp_pure hv)
      · exact wp_pure hv
    have hverdict : (if lease.expiresAt < now then Verdict.deny .leaseExpired
        else verdict).decision = .allow →
        (if lease.expiresAt < now then Verdict.deny .leaseExpired else verdict) = verdict := by
      split
      · exact nofun
      · exact fun _ => rfl
    dsimp only
    split
    · exact wp_call trivial (fun online w3 _ _ _ => hrest online _ w3 hverdict)
    · exact hrest true _ w2 hverdict

/-- The evidence of an ALLOW is consumed in its transaction. -/
lemma wp_consumeEvidence (jtis : List PyStr) : Yields D i (consumeEvidence jtis)
      (fun _ w' => ∀ jti ∈ jtis, .consumeEvidence jti ∈ w'.writes i) w := by
  induction jtis generalizing w with
  | nil => exact wp_pure fun _ h => nomatch h
  | cons jti jtis ih =>
    refine wp_bind (wp_write (fun w1 _ _ => Write.Free.legal (x := .consumeEvidence jti) trivial w1)
      fun w1 _ _ hinv1 => ?_)
    refine wp_mono_inv hinv1 (wp_and (Quiet.of_straight (straight_consumeEvidence jtis) _ hinv1)
      ih) (fun _ w2 _ ⟨hk, hrest⟩ jti' hjti' => ?_)
    rcases mem_cons.mp hjti' with rfl | hmem
    · refine hk.writes.subset ?_
      rw [World.writes_wrote_self]
      exact mem_concat_self
    · exact hrest jti' hmem

/-! ## The decision -/

/-- What is known when an ALLOW is recorded. -/
structure Permitted (D : Deployment) (i : ℕ) (q : EvaluateArgs) (row : MountRow) (w : World) :
    Prop where
  held : Held i q.mountId row w
  live : row.terminated = false
  first : ∀ r ∈ w.db.receipts, r.mountId = q.mountId → r.tokenId ≠ row.tokenId
  authority : ∀ lease, w.db.leases q.mountId = some lease →
    lease.Covers D row.token q.action q.resource
  single : (w.writes i).flatMap Write.receipts = []

lemma Permitted.keeps (h : Permitted D i q row w) (hinv : Inv D w')
    (hk : Keeps i w w') : Permitted D i q row w' where
  held := h.held.keeps hk
  live := h.live
  first r hr hm := h.first r ((hk.fenced _ h.held.lock).receipts r hr hm) hm
  authority lease' hlease' := by
    obtain ⟨lease, hlease, hbounds⟩ :=
      Log.lease_of_later hinv.audited hk.log h.held.isSome hlease'
    exact (h.authority lease hlease).sameBounds hbounds
  single := hk.receipts.trans h.single

/-- The receipt that is written then is one of an ALLOW. -/
theorem Permitted.allowed (hinv : Inv D w) (h : Permitted D i q row w)
    (hcleared : Cleared D q row evidence w.log) (anchor : AnchorResult) (now : ℤ)
    (index : Option ℕ) :
    ∃ row', Allowed D w.log
      { D.allowReceipt q row anchor now with merkleLeafIndex := index } row' := by
  obtain ⟨row', hrow', heq⟩ := h.held.mount
  have htoken := MountRow.congr_of_unconsumed_eq MountRow.token (fun _ => rfl) heq
  have htokenId := MountRow.congr_of_unconsumed_eq MountRow.tokenId (fun _ => rfl) heq
  have hlive := MountRow.congr_of_unconsumed_eq MountRow.terminated (fun _ => rfl) heq
  have hid : row.token.tokenId = row.tokenId := by
    rw [← htoken, ← htokenId]
    exact (Log.genuine_of_mounts hinv.audited hrow').2.tokenId
  refine ⟨row', hrow', hlive.trans h.live, hid.trans htokenId.symm, rfl, ?_, ?_,
    htoken ▸ hcleared.allows, htoken ▸ hcleared.coversResource, ?_⟩
  · intro r hr hm
    change r.tokenId ≠ row.token.tokenId
    rw [hid]
    exact h.first r hr hm
  · exact append_ne_nil_of_left_ne_nil (by decide) _
  · rw [htoken]
    exact h.authority

/-! ## Evaluation -/

/-- The commit of an ALLOW: its receipt, at the epoch that is returned, with the evidence that
the policy of the mount asks for. -/
structure Grant (D : Deployment) (q : EvaluateArgs) (e : Evaluation) (pre : Log)
    (ws : List Write) (r : Receipt) (row : MountRow) : Prop where
  receipt : .insertReceipt r ∈ ws
  mountId : r.mountId = q.mountId
  action : r.action = q.action
  resource : r.resource = q.resource
  receiptId : e.receiptId = some r.receiptId
  mount : pre.db.mounts q.mountId = some row
  authorityEpoch : e.authorityEpoch = row.authorityEpoch
  evidence : ∀ kind, row.token.requires q.action kind = true →
    ∃ jti, Verified D q row.mount kind jti pre ∧ .consumeEvidence jti ∈ ws

/-- An ALLOW was given. -/
def Granted (D : Deployment) (i : ℕ) (q : EvaluateArgs) (e : Evaluation) (log : Log) : Prop :=
  ∃ pre ws post r row, log = pre ++ Entry.commit i ws :: post ∧ Grant D q e pre ws r row

lemma Granted.mono (h : Granted D i q e log) (hpre : log <+: log') : Granted D i q e log' := by
  obtain ⟨pre, ws, post, r, row, rfl, h⟩ := h
  obtain ⟨suffix, rfl⟩ := hpre
  exact ⟨pre, ws, post ++ suffix, r, row, by rw [append_assoc, cons_append], h⟩

/-- The leaf index of a receipt is all that is assigned. -/
lemma wp_assignMerkleLeafIndex (receipt : Receipt) :
    Yields D i (assignMerkleLeafIndex receipt) (fun r w' => Keeps i w w' ∧
      ∃ index, r = { receipt with merkleLeafIndex := index }) w := by
  unfold assignMerkleLeafIndex
  split
  · exact wp_pure ⟨.refl i w, receipt.merkleLeafIndex, rfl⟩
  · exact wp_pure ⟨.refl i w, receipt.merkleLeafIndex, rfl⟩
  · refine wp_call trivial fun rowcount w1 _ hk1 _ => ?_
    split
    · exact wp_throw trivial
    · refine wp_call trivial fun next w2 _ hk2 _ => ?_
      exact wp_pure ⟨hk1.trans hk2, _, rfl⟩

/-- An ALLOW is recorded with all that it rests on. -/
lemma wp_recordAllow (anchor : AnchorResult) (h : Permitted D i q row w)
    (hcleared : Cleared D q row evidence w.log)
    (hconsumed : ∀ jti ∈ evidence, .consumeEvidence jti ∈ w.writes i) :
    Yields D i (D.recordAllow q row anchor)
      (fun e w' => e.decision = .allow → Granted D i q e w'.log) w := by
  -- the nonce
  refine wp_bind (wp_write (fun w1 hinv1 ho1 => ?_) fun w1 hinv1 ho1 hinv => ?_)
  · obtain ⟨row', hrow', -⟩ := (h.held.keeps ho1.keeps).mount
    refine ⟨⟨row', hrow', trivial⟩, fun m hm => ?_, .inl rfl⟩
    rw [mem_singleton.mp hm]
    exact ho1.locks _ h.held.lock
  have hk1 := ho1.keeps.trans (.wrote (x := .updateMount q.mountId .consumeNonce) rfl)
  refine wp_call trivial fun now w2 hinv2 hk2 _ => ?_
  refine wp_seq hinv2 (wp_assignMerkleLeafIndex _) fun receipt w3 hinv3 ⟨hk3, index, hr⟩ => ?_
  have hk := hk1.trans (hk2.trans hk3)
  replace h := h.keeps hinv3 hk
  replace hcleared := hcleared.mono hk.log
  -- the receipt
  refine wp_bind (wp_write (fun w4 hinv4 ho4 => ?_) fun w4 hinv4 ho4 hinv5 => ?_)
  · replace h := h.keeps hinv4 ho4.keeps
    refine ⟨hr ▸ h.allowed hinv4 (hcleared.mono ho4.log) anchor now index, fun m hm => ?_,
      .inr h.single⟩
    rw [mem_singleton.mp hm, hr]
    exact h.held.lock
  have hheld := (h.keeps hinv4 ho4.keeps).held
  -- both are committed together, with the evidence
  refine wp_bind (wp_commit (fun w5 hinv5 ho5 hinv6 => ?_))
  refine wp_call trivial fun _ w6 _ hk6 _ => ?_
  refine wp_pure fun _ => Granted.mono ?_ hk6.log
  obtain ⟨row', hrow', heq⟩ := (hheld.wrote.keeps ho5.keeps).mount
  have htoken := MountRow.congr_of_unconsumed_eq MountRow.token (fun _ => rfl) heq
  have hmount := MountRow.congr_of_unconsumed_eq MountRow.mount (fun _ => rfl) heq
  have hepoch := MountRow.congr_of_unconsumed_eq MountRow.authorityEpoch (fun _ => rfl) heq
  have hwrites : w5.writes i = w3.writes i ++ [.insertReceipt receipt] := by
    rw [ho5.writes, World.writes_wrote_self, ho4.writes]
  refine ⟨w5.log, w5.writes i, [], receipt, row', rfl, ?_, hr ▸ rfl, hr ▸ rfl, hr ▸ rfl, rfl,
    hrow', hepoch.symm, fun kind hkind => ?_⟩
  · rw [hwrites]
    exact mem_concat_self
  · rw [htoken] at hkind
    obtain ⟨jti, hjti, hverified⟩ := hcleared.verified kind hkind
    refine ⟨jti, ?_, ?_⟩
    · rw [hmount]
      exact hverified.mono (ho4.log.trans ho5.log)
    · rw [hwrites]
      exact mem_append_left _ (hk.writes.subset (hconsumed jti hjti))

lemma wp_denied (q : EvaluateArgs) (reason : Reason) : Yields D i (denied q reason)
      (fun e w' => e.decision = .allow → Granted D i q e w'.log) w := by
  refine wp_call trivial fun anchor w1 _ _ _ => ?_
  exact wp_bind (wp_commit (fun _ _ _ _ => wp_pure nofun))

/-- A verdict of ALLOW becomes a grant, and nothing else does. -/
lemma wp_conclude (verdict : Verdict) (hinv : Inv D w) (h : Permitted D i q row w)
    (hcleared : verdict.decision = .allow → Cleared D q row verdict.evidence w.log) :
    Yields D i (D.conclude q row verdict)
      (fun e w' => e.decision = .allow → Granted D i q e w'.log) w := by
  unfold Deployment.conclude
  split
  · next hallow =>
    refine wp_seq hinv (wp_and (Quiet.of_straight (straight_consumeEvidence _) w hinv)
      (wp_consumeEvidence verdict.evidence)) (fun _ w1 hinv1 ⟨hk1, hconsumed⟩ => ?_)
    refine wp_call trivial fun anchor w2 hinv2 hk2 _ => ?_
    have hk := hk1.trans hk2
    split
    · exact wp_bind (wp_rollback fun _ _ _ => wp_pure nofun)
    · exact wp_recordAllow anchor (h.keeps hinv2 hk) ((hcleared hallow).mono hk.log)
        fun jti hjti => hk2.writes.subset (hconsumed jti hjti)
  · exact wp_denied q _

/-- The decision on a row that is locked. -/
lemma wp_evaluateRow (hinv : Inv D w) (hheld : Held i q.mountId row w)
    (hsingle : (w.writes i).flatMap Write.receipts = []) :
    Yields D i (D.evaluateRow q row)
      (fun e w' => e.decision = .allow → Granted D i q e w'.log) w := by
  refine wp_seq hinv (wp_tokenReason q row) fun reason w1 hinv1 ⟨hk1, htoken⟩ => ?_
  cases reason with
  | some reason => exact wp_denied q reason
  | none =>
    refine wp_straight (mild_of_reading (straight_budgetReason q)) hinv1
      (fun reason w2 hinv2 hk2 => ?_)
    cases reason with
    | some reason => exact wp_denied q reason
    | none =>
      have hheld2 := hheld.keeps (hk1.trans hk2)
      refine wp_seq hinv2 (wp_authorityReason q hheld2) fun reason w3 hinv3 ⟨hk3, hauthority⟩ => ?_
      cases reason with
      | some reason => exact wp_denied q reason
      | none =>
        obtain ⟨hlive, hfirst⟩ := htoken rfl
        have hk := hk2.trans hk3
        have hpermitted : Permitted D i q row w3 := {
          held := hheld2.keeps hk3
          live := hlive
          first := fun r hr hm =>
            hfirst r ((hk.fenced _ (hheld.keeps hk1).lock).receipts r hr hm)
          authority := hauthority rfl
          single := (hk1.trans hk).receipts.trans hsingle }
        refine wp_seq hinv3 (wp_and (quiet_liveVerdict q row w3 hinv3) (wp_liveVerdict q row hinv3))
          (fun verdict w4 hinv4 ⟨hk4, hcleared⟩ => ?_)
        have hquiet : Quiet D i (D.leaseVerdict q verdict) :=
          .of_straight (straight_leaseVerdict q verdict)
        refine wp_seq hinv4 (wp_and (hquiet w4 hinv4) (wp_leaseVerdict q verdict))
          (fun verdict' w5 hinv5 ⟨hk5, heq⟩ => ?_)
        refine wp_conclude verdict' hinv5 (hpermitted.keeps hinv5 (hk4.trans hk5)) fun hallow => ?_
        obtain rfl := heq hallow
        exact (hcleared hallow).mono hk5.log

/-- An ALLOW of `evaluate` is the commit of its receipt. -/
theorem wp_evaluate (q : EvaluateArgs) (hsingle : (w.writes i).flatMap Write.receipts = []) :
    Yields D i (D.evaluate q) (fun e w' => e.decision = .allow → Granted D i q e w'.log) w := by
  refine wp_call trivial fun row w1 hinv1 hk1 hrow => ?_
  cases row with
  | none => exact wp_denied q _
  | some row =>
    dsimp only
    split
    · exact wp_denied q _
    · exact wp_evaluateRow hinv1 (.of_answer hrow) (hk1.receipts.trans hsingle)

end CapabilityMount
