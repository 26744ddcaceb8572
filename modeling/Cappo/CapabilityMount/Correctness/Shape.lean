import Cappo.CapabilityMount.Service

/-!
# What the programs are made of

Which calls a program can make, read off its text. Checks are straight: they call nothing that
ends the transaction, and have no handlers. And no step of an execution before its end calls
for the termination of the mount.

## Main results

* `straight_profileVerdict`, `straight_preflight` and so on: the checks are straight;
* `only_consequence`: deciding and carrying out a consequence terminates no mount.
-/

namespace CapabilityMount

open VdbC1 (PyStr Json)
open Sessions.Program

variable {D : Deployment}

/-! ## Kinds of calls -/

/-- The writes that rest on nothing. -/
def Write.Free : Write → Prop
  | updateLease _ _ | consumeEvidence _ | seedSequence | incrementSequence => True
  | _ => False

/-- The calls that end no transaction and need no justification. -/
def Op.Quiet : Op → Prop
  | .commit | .rollback | .dispatch _ _ | .write _ => False
  | _ => True

/-- The calls that read, and leave the transaction as it is. -/
def Op.Reading : Op → Prop
  | .write _ | .updateSequence | .markRevoked _ | .anchor _ => False
  | op => op.Quiet

/-- The calls that neither end a transaction nor terminate a mount, and need no
justification. -/
def Op.Mild : Op → Prop
  | .write x => x.Free
  | .anchor (.terminate _ _ _) => False
  | op => op.Quiet

/-- The calls that need no justification. -/
def Op.Free : Op → Prop
  | .write x => x.Free
  | .dispatch _ _ => False
  | _ => True

/-- The calls that do not terminate a mount. -/
def Op.Ordinary : Op → Prop
  | .write (.updateMount _ (.terminate _)) => False
  | _ => True

/-- The calls that authorize no operation. -/
def Op.Unauthorizing : Op → Prop
  | .write (.insertEvents es) => ∀ e ∈ es, e.state ≠ .authorized
  | _ => True

/-- The calls that do not terminate a mount and authorize no operation. -/
def Op.Common : Op → Prop
  | .write (.updateMount _ (.terminate _)) => False
  | .write (.insertEvents es) => ∀ e ∈ es, e.state ≠ .authorized
  | _ => True

variable {op : Op}

lemma Op.Reading.mild (h : op.Reading) : op.Mild := by
  cases op with
  | write | anchor => nomatch h
  | updateSequence | markRevoked => trivial
  | _ => exact h

lemma Op.Mild.common (h : op.Mild) : op.Common := by
  cases op with
  | write x =>
    cases x with
    | updateMount | insertEvents => exact absurd h id
    | _ => trivial
  | _ => trivial

lemma Op.Common.ordinary (h : op.Common) : op.Ordinary := by
  cases op with
  | write x =>
    cases x with
    | updateMount m u => cases u <;> exact h
    | _ => trivial
  | _ => trivial

lemma Op.Common.unauthorizing (h : op.Common) : op.Unauthorizing := by
  cases op with
  | write x =>
    cases x with
    | insertEvents es => exact h
    | _ => trivial
  | _ => trivial

variable {α : Type}

/-- A straight program of mild calls terminates and authorizes nothing. -/
lemma only_of_straight {p : Proc α} (h : p.Straight Op.Mild) : p.Only Op.Common :=
  h.only.mono fun _ => Op.Mild.common

lemma ordinary_of_common {p : Proc α} (h : p.Only Op.Common) : p.Only Op.Ordinary :=
  h.mono fun _ => Op.Common.ordinary

/-- A straight program that only reads. -/
lemma mild_of_reading {p : Proc α} (h : p.Straight Op.Reading) : p.Straight Op.Mild :=
  h.mono fun _ => Op.Reading.mild

lemma only_of_reading {p : Proc α} (h : p.Straight Op.Reading) : p.Only Op.Common :=
  only_of_straight (mild_of_reading h)

/-! ## Checks -/

lemma straight_checkLive (token : Token) (terminated : Bool) :
    (checkLive token terminated).Straight Op.Reading := by
  refine .next trivial fun revoked => ?_
  split
  · exact .next trivial fun _ => .throw _
  · refine .next trivial fun now => ?_
    split
    · exact .next trivial fun _ => .throw _
    · exact .pure ()

variable (m : PyStr) (q : EvaluateArgs) (row : MountRow)

lemma straight_tokenReason : (tokenReason q row).Straight Op.Reading := by
  unfold tokenReason
  split
  · exact .pure _
  · refine .next trivial fun now => ?_
    split
    · exact .pure _
    · split
      · split <;> exact .pure _
      · refine .next trivial fun prior => ?_
        split <;> exact .pure _

lemma straight_budgetReason : (budgetReason q).Straight Op.Reading :=
  .next trivial fun _ => .pure _

lemma straight_authorityReason : (D.authorityReason q row).Straight Op.Reading := by
  refine .next trivial fun lease => ?_
  cases lease with
  | none => exact .pure _
  | some lease =>
    dsimp only
    split
    · exact .pure _
    · refine .next trivial fun now => ?_
      split <;> exact .pure _

lemma straight_evidenceGate (kind : EvidenceKind)
    (required : Bool) (evidence : Option PyStr) (notVerified replayed : Reason) :
    (D.evidenceGate q row kind required evidence notVerified replayed).Straight Op.Reading := by
  unfold Deployment.evidenceGate
  split
  · exact .pure _
  · refine .next trivial fun now => ?_
    split
    · exact .throw _
    · exact .pure _
    · refine .next trivial fun consumed => ?_
      split <;> exact .pure _

lemma straight_evidenceVerdict : (D.evidenceVerdict q row).Straight Op.Reading := by
  refine .bind (straight_evidenceGate ..) fun approval => ?_
  cases approval with
  | error reason => exact .next trivial fun _ => .pure _
  | ok approval =>
    refine .bind (straight_evidenceGate ..) fun suppression => ?_
    cases suppression with
    | error reason => exact .next trivial fun _ => .pure _
    | ok suppression => exact .pure _

lemma straight_profileVerdict : (D.profileVerdict q row).Straight Op.Reading := by
  refine .bind (straight_checkLive ..) fun _ => ?_
  dsimp only
  split
  · exact .next trivial fun _ => .pure _
  · split
    · exact .next trivial fun _ => .pure _
    · exact straight_evidenceVerdict q row

lemma straight_offlineVerdict (lease : Lease) (verdict : Verdict) :
    (Deployment.offlineVerdict q lease verdict).Straight Op.Mild := by
  unfold Deployment.offlineVerdict
  split
  · exact .pure _
  · split
    · exact .pure _
    · split
      · exact .pure _
      · exact .next trivial fun _ => .pure _

lemma straight_leaseVerdict (verdict : Verdict) : (D.leaseVerdict q verdict).Straight Op.Mild := by
  refine .next trivial fun lease => ?_
  cases lease with
  | none => exact .pure _
  | some lease =>
    refine .next trivial fun now => ?_
    have hrest : ∀ (online : Bool) (verdict : Verdict), Sessions.Program.Straight Op.Mild
        (if !online && verdict.decision = .allow then Deployment.offlineVerdict q lease verdict
          else pure verdict) := by
      intro online verdict
      split
      · exact straight_offlineVerdict q lease verdict
      · exact .pure _
    dsimp only
    split
    · exact .next trivial fun online => hrest online _
    · exact .bind (.pure true) fun online => hrest online _

lemma straight_consumeEvidence (jtis : List PyStr) : (consumeEvidence jtis).Straight Op.Mild := by
  induction jtis with
  | nil => exact .pure ()
  | cons jti jtis ih => exact .next trivial fun _ => ih

lemma straight_assignMerkleLeafIndex (receipt : Receipt) :
    (assignMerkleLeafIndex receipt).Straight Op.Mild := by
  unfold assignMerkleLeafIndex
  split
  · exact .pure _
  · exact .pure _
  · refine .next trivial fun rowcount => ?_
    split
    · exact .throw _
    · exact .next trivial fun next => .pure _

lemma straight_localEval (token : Token) (terminated : Bool) (c : Call) :
    (localEval token terminated c).Straight Op.Reading := by
  refine .bind (straight_checkLive token terminated) fun _ => ?_
  split
  · exact .next trivial fun _ => .throw _
  · split
    · exact .next trivial fun _ => .throw _
    · split
      · exact .next trivial fun _ => .throw _
      · split
        · exact .next trivial fun _ => .throw _
        · exact .pure ()

lemma straight_preflight (q : ExecuteArgs) (row : MountRow) :
    (D.preflight q row).Straight Op.Reading := by
  unfold Deployment.preflight
  split
  · exact .pure _
  · refine .next trivial fun lease => ?_
    split
    · exact .pure _
    · refine .next trivial fun now => ?_
      split
      · exact .pure _
      · split
        · exact .pure _
        · exact .throw _

lemma straight_recorded (q : ExecuteArgs) : (Deployment.recorded q).Straight Op.Reading := by
  unfold Deployment.recorded
  split
  · exact .pure _
  · exact .perform trivial

lemma straight_revokeLease : (revokeLease m).Straight Op.Mild := by
  refine .next trivial fun lease => ?_
  cases lease with
  | none => exact .pure _
  | some lease =>
    dsimp only
    split
    · split
      · exact .perform trivial
      · exact .throw _
    · exact .pure _

lemma straight_alignLease (epoch : ℕ) : (alignLease m epoch).Straight Op.Mild := by
  refine .next trivial fun lease => ?_
  cases lease with
  | none => exact .pure _
  | some lease =>
    dsimp only
    split
    · exact .perform trivial
    · exact .pure _

/-! ## Deciding and carrying out -/

lemma only_liveVerdict : (D.liveVerdict q row).Only Op.Common := by
  refine only_bind (only_tryCatch (only_of_reading (straight_profileVerdict q row)) fun e => ?_)
    fun verdict => only_pure _
  cases e <;> trivial

lemma only_denied (reason : Reason) : (denied q reason).Only Op.Common :=
  only_call trivial fun _ => only_call trivial fun _ => only_pure _

lemma only_recordAllow (anchor : AnchorResult) : (D.recordAllow q row anchor).Only Op.Common :=
  only_call trivial fun _ => only_call trivial fun _ =>
    only_bind (only_of_straight (straight_assignMerkleLeafIndex _)) fun _ =>
      only_call trivial fun _ => only_call trivial fun _ =>
        only_call trivial fun _ => only_pure _

lemma only_conclude (verdict : Verdict) : (D.conclude q row verdict).Only Op.Common := by
  unfold Deployment.conclude
  split
  · refine only_bind (only_of_straight (straight_consumeEvidence _)) fun _ =>
      only_call trivial fun anchor => ?_
    split
    · exact only_call trivial fun _ => only_pure _
    · exact only_recordAllow q row anchor
  · exact only_denied q _

lemma only_evaluate : (D.evaluate q).Only Op.Common := by
  refine only_call trivial fun row => ?_
  cases row with
  | none => exact only_denied q _
  | some row =>
    dsimp only
    split
    · exact only_denied q _
    · refine only_bind (only_of_reading (straight_tokenReason q row)) fun reason => ?_
      cases reason with
      | some reason => exact only_denied q reason
      | none =>
        refine only_bind (only_of_reading (straight_budgetReason q)) fun reason => ?_
        cases reason with
        | some reason => exact only_denied q reason
        | none =>
          refine only_bind (only_of_reading (straight_authorityReason q row)) fun reason => ?_
          cases reason with
          | some reason => exact only_denied q reason
          | none =>
            exact only_bind (only_liveVerdict q row) fun verdict =>
              only_bind (only_of_straight (straight_leaseVerdict q verdict)) fun verdict =>
                only_conclude q row verdict

variable {P : Op → Prop}

/-- The record of an ALLOW is the one call that authorizes an operation. -/
lemma only_cappoEvaluator (hP : ∀ op, op.Common → P op) (row : MountRow) (c : Call)
    (operationId intentHash : PyStr) (hauthorized : ∀ epoch receiptId, P (.write (.insertEvents
      [Deployment.authorizedEvent row c operationId intentHash epoch receiptId]))) :
    (D.cappoEvaluator row c operationId intentHash).Only P := by
  refine only_bind (only_perform (hP _ trivial)) fun latest => ?_
  cases latest with
  | some latest =>
    dsimp only
    split <;> exact only_pure _
  | none =>
    refine only_bind ((only_evaluate _).mono hP) fun e => ?_
    dsimp only
    split
    · exact only_bind (only_perform (hauthorized _ _)) fun _ =>
        only_bind (only_perform (hP _ trivial)) fun _ => only_pure _
    · exact only_pure _

lemma only_anchorConsequenceOutcome (operationId outcome : PyStr)
    (hanchor : P (.anchor (.consequence operationId outcome))) (hcommit : P .commit)
    (hrollback : P .rollback) : (anchorConsequenceOutcome operationId outcome).Only P :=
  only_tryCatch (only_bind (only_perform hanchor) fun _ => only_perform hcommit)
    fun _ => only_perform hrollback

lemma only_beginConsequence (mountId operationId : PyStr) :
    (beginConsequence mountId operationId).Only Op.Common := by
  refine only_call trivial fun fenceRow =>
    only_call trivial fun latest => ?_
  cases latest with
  | none => exact only_call trivial fun _ => only_pure _
  | some latest =>
    dsimp only
    split
    · exact only_call trivial fun _ => only_pure _
    · split
      · refine only_bind (only_tryCatch (only_bind
          (only_perform (List.forall_mem_singleton.mpr nofun)) fun _ =>
            only_perform trivial) fun _ => only_perform trivial) fun _ => ?_
        exact only_bind (only_anchorConsequenceOutcome _ _ trivial trivial trivial)
          fun _ => only_throw _
      · exact only_tryCatch (only_bind (only_perform (List.forall_mem_singleton.mpr nofun)) fun _ =>
            only_call trivial fun _ => only_pure _)
          fun _ => only_call trivial fun _ => only_pure _

lemma only_claim (mountId operationId : PyStr) : (claim mountId operationId).Only Op.Common := by
  refine only_bind (only_tryCatch (only_beginConsequence _ _) fun e => ?_) fun owned => ?_
  · split
    · exact only_call trivial fun _ => only_throw _
    · exact only_pure _
  · split
    · exact only_call trivial fun _ => only_throw _
    · exact only_pure _

lemma reportTarget_ne_authorized (latest : ConsequenceState) (succeeded uncertain : Bool)
    (proofType : ProofType) :
    (reportTarget latest succeeded uncertain proofType).1 ≠ .authorized := by
  unfold reportTarget
  split_ifs <;> exact nofun

lemma only_completionReporter (operationId : PyStr) (succeeded uncertain : Bool)
    (proofType : ProofType) :
    (completionReporter operationId succeeded uncertain proofType).Only Op.Common := by
  refine only_call trivial fun latest => ?_
  cases latest with
  | none => exact only_pure _
  | some latest =>
    dsimp only
    split
    · exact only_throw _
    · split
      · exact only_pure _
      · split
        · exact only_throw _
        · exact only_tryCatch (only_bind (only_perform
            (List.forall_mem_singleton.mpr (reportTarget_ne_authorized _ _ _ _))) fun _ =>
            only_call trivial fun _ =>
              only_anchorConsequenceOutcome _ _ trivial trivial trivial)
            fun _ => only_perform trivial

lemma only_carryOut (operationId : PyStr) (hfn : fn.Only Op.Common) :
    (carryOut operationId fn).Only Op.Common := by
  refine only_bind (only_attempt hfn) fun outcome => ?_
  cases outcome with
  | error | ok =>
    exact only_bind (only_attempt (only_completionReporter ..)) fun _ =>
      only_call trivial fun _ => only_pure _

lemma only_invokeEffect (d : Dispatch) : (D.invokeEffect d).Only Op.Common := by
  refine only_bind ?_ fun permitReceipt => only_call trivial fun outcome => ?_
  · unfold Deployment.withPermit
    split
    · exact only_pure _
    · exact only_call trivial fun _ => only_call trivial fun _ =>
        only_pure _
  · cases outcome with
    | ok result => exact only_pure _
    | error e => exact only_throw _

/-- Deciding and carrying out a consequence terminates no mount. -/
theorem only_consequence (hP : ∀ op, op.Common → P op) (row : MountRow) (operationId : PyStr)
    (c : Call) (d : Dispatch) (hauthorized : ∀ epoch receiptId, P (.write (.insertEvents
      [Deployment.authorizedEvent row c operationId (D.intentHash row.token.mountId
      row.token.executionId c) epoch receiptId]))) :
    (D.consequence row operationId c (D.invokeEffect d)).Only P := by
  refine only_bind ((only_of_reading (straight_localEval _ _ c)).mono hP) fun _ =>
    only_bind (only_cappoEvaluator hP row c operationId _ hauthorized) fun r => ?_
  dsimp only
  split
  · exact only_bind (only_perform (hP _ trivial)) fun _ => only_throw _
  · exact only_bind ((only_claim _ _).mono hP) fun _ =>
      (only_carryOut _ (only_invokeEffect d)).mono hP

/-! ## The end of an execution -/

lemma only_settleInFlight (polls : ℕ) : (settleInFlight m polls).Only Op.Common := by
  induction polls with
  | zero =>
    exact only_call trivial fun _ => only_call trivial fun _ =>
      only_pure _
  | succ polls ih =>
    refine only_call trivial fun _ => only_call trivial fun _ => ?_
    split
    · exact only_pure _
    · exact ih

lemma only_terminateWithInFlight (q : TerminateArgs) :
    (terminateWithInFlight q).Only Op.Unauthorizing := by
  have hdenied : ∀ reason, (terminateDenied q reason).Only Op.Unauthorizing := fun _ =>
    only_call trivial fun _ => only_call trivial fun _ => only_pure _
  have hsettled : ∀ reason, (settled q reason).Only Op.Unauthorizing := fun _ =>
    only_bind ((only_settleInFlight ..).mono fun _ => Op.Common.unauthorizing) fun _ => only_pure _
  refine only_call trivial fun row => ?_
  cases row with
  | none => exact hdenied _
  | some row =>
    dsimp only
    split
    · exact hdenied _
    · split
      · exact only_call trivial fun _ => hsettled _
      · refine only_call trivial fun anchor => ?_
        split
        · exact only_call trivial fun _ => only_pure _
        · exact only_call trivial fun _ => only_call trivial fun _ =>
            only_bind ((only_of_straight (straight_revokeLease _)).mono fun _ =>
              Op.Common.unauthorizing) fun _ => only_call trivial fun _ => hsettled _

lemma only_shouldTerminate (reason : Reason) (hread : P (.inFlight m))
    (hcommit : P .commit) : (shouldTerminate m reason).Only P := by
  unfold shouldTerminate
  split
  · exact only_pure _
  · split
    · exact only_pure _
    · split
      · exact only_bind (only_perform hread) fun _ => only_bind (only_perform hcommit) fun _ =>
          only_pure _
      · exact only_pure _

lemma only_finish (q : ExecuteArgs) (result : Execution) :
    (finish q result).Only Op.Unauthorizing := by
  refine only_bind (only_shouldTerminate _ _ trivial trivial) fun terminate => ?_
  split
  · exact only_bind (only_terminateWithInFlight _) fun _ => only_pure _
  · exact only_pure _

lemma only_report (q : ExecuteArgs) (operationId : PyStr) (invoked : Bool)
    (outcome : Except Exn Json) :
    (report q operationId invoked outcome).Only Op.Unauthorizing := by
  have hlatest : (reportLatest q operationId invoked outcome).Only Op.Unauthorizing := by
    refine only_call trivial fun latest => ?_
    dsimp only
    split
    · exact only_finish _ _
    · split
      · exact only_finish _ _
      · exact only_throw _
    · exact only_finish _ _
  unfold report
  split
  · exact hlatest
  · split
    · exact hlatest
    · exact only_throw _

/-- After the preflight, the one call that authorizes an operation is the record of an ALLOW. -/
lemma only_authorizeAndExecute (hP : ∀ op, op.Unauthorizing → P op) (row : MountRow)
    (q : ExecuteArgs) (operationId : PyStr) (hauthorized : ∀ epoch receiptId, P (.write
      (.insertEvents [Deployment.authorizedEvent row q.call operationId (D.intentHash
      row.token.mountId row.token.executionId q.call) epoch receiptId]))) :
    (D.authorizeAndExecute row q operationId).Only P := by
  refine only_bind (only_attempt (only_consequence (fun op h => hP op h.unauthorizing) row
    operationId q.call _ hauthorized)) fun outcome => ?_
  cases outcome with
  | ok | error => exact (only_report ..).mono hP

end CapabilityMount
