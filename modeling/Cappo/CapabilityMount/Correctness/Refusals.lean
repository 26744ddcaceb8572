import Cappo.CapabilityMount.Correctness.SingleUse
import Cappo.CapabilityMount.Correctness.Void
import Cappo.CapabilityMount.Correctness.Vouching

/-!
# Refusals are inert

What a session leaves in the log when its request is refused: commits of empty transactions and
anchored refusals, which change no table. `evaluate` may have written to its transaction before it
is refused, and rolls it back; `execute_consequence` writes nothing before it enters the binding.

## Main results

* `evaluate_denied_inert`: a denied evaluation consumes nothing;
* `execute_refused_inert`: a refusal before the binding is as if the request had not been made.
-/

namespace CapabilityMount

open VdbC1 (PyStr Json)
open Sessions.Discipline Function
open Sessions.Program

variable {D : Deployment} {i : ℕ} {w w' : World} {α β : Type}

/-! ## What is left behind -/

/-- All that a session has left in the log changes nothing. -/
def Idle (i : ℕ) (log : Log) : Prop := ∀ e ∈ log, e.session = some i → e.Void

/-- The log without the entries of a session. -/
def Log.without (i : ℕ) (log : Log) : Log := log.filter fun e => e.session ≠ some i

lemma Idle.apart (h : Idle i w.log) (ho : Apart i w w') : Idle i w'.log :=
  fun e he hs => h e (ho.own e he hs) hs

lemma Idle.concat (h : Idle i log) (he : e.Void) : Idle i (log ++ [e]) :=
  List.forall_mem_append.mpr ⟨h, List.forall_mem_singleton.mpr fun _ => he⟩

/-- A session that has left nothing in the log and nothing in its transaction. -/
structure Clean (i : ℕ) (w : World) : Prop where
  idle : Idle i w.log
  writes : w.writes i = []

lemma Fresh.clean (h : Fresh i w) : Clean i w where
  idle e he hs := absurd hs (h.own e he)
  writes := h.writes

lemma Idle.release (h : Idle i w.log) : Clean i (w.release i) :=
  ⟨h, World.writes_release_self⟩

lemma Clean.apart (h : Clean i w) (ho : Apart i w w') : Clean i w' :=
  ⟨h.idle.apart ho, ho.writes.trans h.writes⟩

/-- The calls that write nothing to the transaction, and call no target. -/
def Op.Plain : Op → Prop
  | .write _ | .updateSequence | .markRevoked _ | .dispatch _ _ => False
  | _ => True

variable {op : Op}

lemma Op.Reading.plain (h : op.Reading) : op.Plain := by
  cases op with
  | write | updateSequence | markRevoked | dispatch => exact absurd h id
  | _ => trivial

lemma Clean.effect (h : Clean i w) (hop : op.Plain) (heffect : Effect i w op w') : Clean i w' := by
  cases heffect with
  | unchanged => exact h
  | released => exact h.idle.release
  | locked m free => exact ⟨h.idle, h.writes⟩
  | committed accepts fresh =>
    refine ⟨?_, World.writes_release_self⟩
    rw [World.committed, h.writes]
    exact h.idle.concat rfl
  | anchored e r => exact ⟨h.idle.concat trivial, h.writes⟩
  | _ => exact absurd hop id

/-! ## Denied evaluations -/

section Evaluate

variable {Q : β → World → Prop}

variable {p : Proc α}

/-- A program of plain calls keeps a session clean, even if it raises. -/
lemma wp_plain (hp : p.Only Op.Plain) (h : Clean i w) :
    (Voucher.anything.discipline D).wp i p (fun _ => Clean i) (fun _ => Clean i) w := by
  induction p generalizing w with
  | done r => cases r <;> exact h
  | call op next ih =>
    intro w1 ho _
    refine ⟨fun _ _ => trivial, fun a r w2 hexec => ih r (hp.2 r) ?_⟩
    exact (h.apart ho).effect hp.1 (exec_effect hexec)

lemma wp_bind_plain (hp : p.Only Op.Plain) (h : Clean i w)
    (hf : ∀ a w', Clean i w' → (Voucher.anything.discipline D).yields i (f a) Q w') :
    (Voucher.anything.discipline D).yields i (p >>= f) Q w :=
  wp_seq Voucher.inv_anything (wp_plain hp h) (fun a w' _ hw' => hf a w' hw')

lemma only_plain (h : p.Straight Op.Reading) : p.Only Op.Plain :=
  h.only.mono fun _ => Op.Reading.plain

variable (q : EvaluateArgs)

lemma only_plain_denied (reason : Reason) : (denied q reason).Only Op.Plain :=
  only_call trivial fun _ => only_call trivial fun _ => only_pure _

lemma only_plain_liveVerdict (row : MountRow) : (D.liveVerdict q row).Only Op.Plain := by
  refine only_bind (only_tryCatch (only_plain (straight_profileVerdict q row)) fun e => ?_)
    fun verdict => only_pure _
  cases e <;> trivial

/-- A write keeps what is in the log. -/
lemma wp_write_idle (h : Idle i w.log) :
    (Voucher.anything.discipline D).yields i (perform (.write x)) (fun _ w' => Idle i w'.log)
      w := by
  refine wp_perform fun w1 ho _ => ⟨fun _ _ => trivial, fun a w2 _ => ⟨fun v hexec => ?_,
    fun _ _ => trivial⟩⟩
  cases hexec
  have hlog : Idle i w1.log := h.apart ho
  exact hlog

/-- Only an ALLOW in offline operation has written something. -/
lemma wp_offlineVerdict_clean (lease : Lease) (hallow : verdict.decision = .allow) (h : Clean i w) :
    (Voucher.anything.discipline D).yields i (Deployment.offlineVerdict q lease verdict)
      (fun v w' => Idle i w'.log ∧ (v.decision = .deny → Clean i w')) w := by
  unfold Deployment.offlineVerdict
  split
  · exact wp_pure ⟨h.idle, fun _ => h⟩
  · split
    · exact wp_pure ⟨h.idle, fun _ => h⟩
    · split
      · exact wp_pure ⟨h.idle, fun _ => h⟩
      · refine wp_seq Voucher.inv_anything (wp_write_idle h.idle)
          (fun _ w1 _ hidle => wp_pure ⟨hidle, fun hdeny => ?_⟩)
        nomatch hallow.symm.trans hdeny

/-- A lease that denies leaves nothing. -/
lemma wp_leaseVerdict_clean (verdict : Verdict) (h : Clean i w) :
    (Voucher.anything.discipline D).yields i (D.leaseVerdict q verdict)
      (fun v w' => Idle i w'.log ∧ (v.decision = .deny → Clean i w')) w := by
  refine wp_bind_plain (only_perform trivial) h fun lease w1 h1 => ?_
  cases lease with
  | none => exact wp_pure ⟨h1.idle, fun _ => h1⟩
  | some lease =>
    refine wp_bind_plain (only_perform trivial) h1 fun now w2 h2 => ?_
    have hrest : ∀ (online : Bool) (verdict : Verdict) (w3 : World), Clean i w3 →
        (Voucher.anything.discipline D).yields i (if !online && verdict.decision = .allow then
          Deployment.offlineVerdict q lease verdict else pure verdict)
          (fun v w' => Idle i w'.log ∧ (v.decision = .deny → Clean i w')) w3 := by
      intro online verdict w3 h3
      split
      · next hoffline =>
        refine wp_offlineVerdict_clean q lease ?_ h3
        simp only [Bool.and_eq_true, decide_eq_true_eq] at hoffline
        exact hoffline.2
      · exact wp_pure ⟨h3.idle, fun _ => h3⟩
    dsimp only
    split
    · exact wp_bind_plain (only_perform trivial) h2 fun online w3 => hrest online _ w3
    · exact wp_bind_plain (only_pure true) h2 fun online w3 => hrest online _ w3

lemma wp_consumeEvidence_idle (jtis : List PyStr) (h : Idle i w.log) :
    (Voucher.anything.discipline D).yields i (consumeEvidence jtis) (fun _ w' => Idle i w'.log)
      w := by
  induction jtis generalizing w with
  | nil => exact wp_pure h
  | cons jti jtis ih =>
    exact wp_seq Voucher.inv_anything (wp_write_idle h) (fun _ _ _ hidle => ih hidle)

/-- What is left of a decision that is a DENY in the end: an ALLOW that is not anchored is rolled
back. -/
lemma wp_conclude_clean (row : MountRow) (verdict : Verdict)
    (hidle : Idle i w.log) (hclean : verdict.decision = .deny → Clean i w) :
    (Voucher.anything.discipline D).yields i (D.conclude q row verdict)
      (fun e w' => e.decision = .deny → Clean i w') w := by
  unfold Deployment.conclude
  split
  · refine wp_seq Voucher.inv_anything (wp_consumeEvidence_idle _ hidle) fun _ w1 _ hidle1 => ?_
    refine Voucher.wp_call (fun _ => Op.noConfusion) fun w2 a anchor w3 ho2 _ hexec => ?_
    have hidle2 : Idle i w2.log := hidle1.apart ho2
    have hidle3 : Idle i w3.log := by
      rcases anchor_cases hexec with ⟨-, rfl⟩ | ⟨result, -, rfl⟩
      · exact hidle2
      · exact hidle2.concat trivial
    split
    · refine Voucher.wp_call (fun _ => Op.noConfusion) fun w4 a v w5 ho4 _ hexec =>
        wp_pure fun _ => ?_
      cases hexec
      exact (hidle3.apart ho4).release
    · -- nothing after this point returns a DENY
      exact wp_whatever fun _ _ => wp_whatever fun _ _ => wp_whatever fun _ _ =>
        wp_whatever fun _ _ => wp_whatever fun _ _ => wp_whatever fun _ _ => wp_pure nofun
  · next hdeny =>
    exact wp_mono_inv Voucher.inv_anything (wp_plain (only_plain_denied q _) (hclean hdeny))
      (fun _ _ _ h _ => h)

/-- An evaluation that denies leaves nothing. -/
lemma wp_evaluate_clean (h : Clean i w) : (Voucher.anything.discipline D).yields i (D.evaluate q)
      (fun e w' => e.decision = .deny → Clean i w') w := by
  have hdenied : ∀ (reason : Reason) (w : World), Clean i w →
      (Voucher.anything.discipline D).yields i (denied q reason)
        (fun e w' => e.decision = .deny → Clean i w') w := fun reason w h =>
    wp_mono_inv Voucher.inv_anything (wp_plain (only_plain_denied q reason) h) (fun _ _ _ h _ => h)
  refine wp_bind_plain (only_perform trivial) h fun row w1 h1 => ?_
  cases row with
  | none => exact hdenied _ w1 h1
  | some row =>
    dsimp only
    split
    · exact hdenied _ w1 h1
    · refine wp_bind_plain (only_plain (straight_tokenReason q row)) h1 fun reason w2 h2 => ?_
      cases reason with
      | some reason => exact hdenied reason w2 h2
      | none =>
        refine wp_bind_plain (only_plain (straight_budgetReason q)) h2 fun reason w3 h3 => ?_
        cases reason with
        | some reason => exact hdenied reason w3 h3
        | none =>
          refine wp_bind_plain (only_plain (straight_authorityReason q row)) h3
            fun reason w4 h4 => ?_
          cases reason with
          | some reason => exact hdenied reason w4 h4
          | none =>
            refine wp_bind_plain (only_plain_liveVerdict q row) h4 fun verdict w5 h5 => ?_
            exact wp_seq Voucher.inv_anything (wp_leaseVerdict_clean q verdict h5)
              (fun verdict w6 _ h6 => wp_conclude_clean q row verdict h6.1 h6.2)

end Evaluate

/-- A denied evaluation consumes nothing: whatever other sessions do meanwhile, no entry of the
session changes a table, so that the tables are those that the other entries make. -/
theorem evaluate_denied_inert {es es' : Schedule}
    {c c' : Config} {q : EvaluateArgs} {e : Evaluation}
    (hrun : D.run es = some c)
    (hserve : c.run (machine D) D.serve (.start i (.evaluate q) :: es') = some c')
    (hresult : c'.result i = some (.ok (.evaluation q e))) (hdeny : e.decision = .deny) :
    (∀ pre entry post, c'.shared.log = pre ++ entry :: post → entry.session = some i →
      Log.db (pre ++ [entry]) = Log.db pre) ∧
    c'.shared.db = (c'.shared.log.without i).db := by
  have hidle : Idle i c'.shared.log := by
    refine ((Voucher.served (V := .anything)
      (R := fun r log => ∀ q e, r = .evaluation q e → e.decision = .deny → Idle i log)
      (fun _ _ _ _ => trivial) (fun h ho q e hr hd => (h q e hr hd).apart ho) hrun hserve
      fun _ hfresh => ?_).2.2 _ hresult).2 q e rfl hdeny
    refine wp_seq Voucher.inv_anything (wp_evaluate_clean q hfresh.clean)
      (fun e' w' _ h => wp_pure ?_)
    intro q₁ e₁ hr hd
    cases hr
    exact (h hd).idle
  refine ⟨fun pre entry post hlog hs => ?_, Eq.symm (Log.db_filter fun e he hp =>
    hidle e he (by simpa using hp))⟩
  have hvoid := hidle entry (hlog ▸ List.mem_append_right _ List.mem_cons_self) hs
  rw [Log.db_concat, hvoid.apply]

namespace Sample

/-- An evaluation that ends in an anchor which is not confirmed. -/
def unconfirmed : Schedule :=
  .start 2 (.evaluate (evaluateArgs "t" "n")) ::
  steps 2 (oks 10 ++ .anchored { status := .unconfirmed } :: oks 2)

end Sample

/-- The decision is ALLOW, and the answer is DENY. -/
theorem evaluate_denied_inert_unconfirmed : ∃ c c' q e,
    Sample.deployment.run Sample.mounted = some c ∧
    c.run (machine Sample.deployment) Sample.deployment.serve Sample.unconfirmed = some c' ∧
    c'.result 2 = some (.ok (.evaluation q e)) ∧ e.decision = .deny ∧
    e.reason = .pglAnchorUnconfirmed ∧ c'.shared.db = (c'.shared.log.without 2).db := by
  obtain ⟨c, c', hrun, hserve, hresult⟩ := Sample.deployment.exists_served Sample.mounted
    Sample.unconfirmed (fun c => c.result 2 = some (.ok (.evaluation
      (Sample.evaluateArgs "t" "n") {
        decision := .deny
        reason := .pglAnchorUnconfirmed
        anchor := { status := .unconfirmed } }))) (by decide +kernel)
  exact ⟨c, c', _, _, hrun, hserve, hresult, rfl, rfl,
    (evaluate_denied_inert hrun hserve hresult rfl).2⟩

/-! ## Refusals before the binding -/

/-- What `serve` makes of a program. -/
def closing (p : Proc Response) : Proc Response := do
  let r ← p.attempt
  perform .rollback
  match r with
  | .ok response => return response
  | .error e => throw e

/-- The session that serves an `execute` is about to enter the binding. -/
def Deployment.AtBinding (D : Deployment) (q : ExecuteArgs) (p : Proc Response) : Prop :=
  ∃ row operationId,
    p = closing (do return .execution q (← D.authorizeAndExecute row q operationId))

/-- Before the binding there are plain calls only. -/
lemma until_executeConsequence (q : ExecuteArgs)
    (hB : ∀ row operationId, B (D.authorizeAndExecute row q operationId)) :
    (D.executeConsequence q).Until B Op.Plain := by
  have hdenied : ∀ operationId reason, (preflightDenied operationId reason).Only Op.Plain :=
    fun _ _ => only_call trivial fun _ => only_pure _
  refine .bind (only_perform trivial) fun random => .bind (only_perform trivial) fun row => ?_
  cases row with
  | none => exact .of_only (hdenied _ _)
  | some row =>
    dsimp only
    split
    · exact .of_only (hdenied _ _)
    · refine .bind (only_plain (straight_preflight q row)) fun reason => ?_
      cases reason with
      | some reason => exact .of_only (hdenied _ _)
      | none =>
        refine .bind (only_plain (straight_recorded q)) fun latest => ?_
        cases latest with
        | some latest =>
          exact .of_only (only_call trivial fun _ => only_pure _)
        | none => exact .stop (hB row _)

lemma until_serve (q : ExecuteArgs) : (D.serve (.execute q)).Until (D.AtBinding q) Op.Plain := by
  refine Sessions.Program.Until.context
    (C := fun p => closing (p >>= fun e => pure (.execution q e))) (fun _ _ => rfl) (fun r => ?_)
    (until_executeConsequence q fun row operationId => ⟨row, operationId, rfl⟩)
  cases r with
  | ok | error => exact .of_only ⟨trivial, fun r => by cases r <;> trivial⟩

lemma World.release_release (w : World) : (w.release i).release i = w.release i := by
  have hlocks : ∀ lock : Option ℕ, (if (if lock = some i then none else lock) = some i then none
      else if lock = some i then none else lock) = if lock = some i then none else lock := by
    intro lock
    split_ifs <;> simp_all
  unfold World.release
  simp only [hlocks, update_idem]

lemma World.release_locked (hfree : w.locks m = none ∨ w.locks m = some i) :
    (w.locked i m).release i = w.release i := by
  have hlocks : ((w.locked i m).release i).locks = (w.release i).locks := by
    funext m'
    change (if Function.update w.locks m (some i) m' = some i then none
      else Function.update w.locks m (some i) m') = if w.locks m' = some i then none else w.locks m'
    by_cases hm : m' = m
    · subst hm
      rw [update_self, if_pos rfl]
      rcases hfree with h | h <;> simp [h]
    · rw [update_of_ne hm]
  exact congrArg (fun locks => { w.release i with locks }) hlocks

/-- A session without locks and without writes has nothing to give back. -/
lemma Free.release_eq (h : Free i w) (hwrites : w.writes i = []) : w.release i = w := by
  have hlocks : (w.release i).locks = w.locks := funext fun m => if_neg (h.locks m)
  have hsequence : (w.release i).sequenceLock = w.sequenceLock := if_neg h.sequenceLock
  have hupdate : (w.release i).writes = w.writes := by
    change Function.update w.writes i [] = w.writes
    rw [← hwrites, update_eq_self]
  calc w.release i = { w with
          locks := (w.release i).locks
          sequenceLock := (w.release i).sequenceLock
          writes := (w.release i).writes } := rfl
    _ = w := by rw [hlocks, hsequence, hupdate]

/-- What is left of a session with plain calls, but for its locks. -/
def Vanishes (i : ℕ) (w w' : World) : Prop :=
  Clean i w → Clean i w' ∧ w'.log.Same w.log ∧ w'.release i = (w.release i).withLog w'.log

lemma Vanishes.trans {w1 w2 w3 : World} (h1 : Vanishes i w1 w2) (h2 : Vanishes i w2 w3) :
    Vanishes i w1 w3 := by
  intro hclean
  obtain ⟨hclean2, hsame2, hrelease2⟩ := h1 hclean
  obtain ⟨hclean3, hsame3, hrelease3⟩ := h2 hclean2
  refine ⟨hclean3, hsame3.trans hsame2, ?_⟩
  rw [hrelease3, hrelease2]
  rfl

lemma Effect.vanishes (heffect : Effect i w op w') (hop : op.Plain) : Vanishes i w w' := by
  intro h
  refine ⟨h.effect hop heffect, ?_⟩
  cases heffect with
  | unchanged => exact ⟨.refl _, rfl⟩
  | released => exact ⟨.refl _, World.release_release w⟩
  | locked m free => exact ⟨.refl _, World.release_locked free⟩
  | committed accepts fresh =>
    refine ⟨?_, congrArg (World.withLog · _) (World.release_release w)⟩
    exact Log.Same.concat (e := .commit i (w.writes i)) h.writes
  | anchored e r => exact ⟨Log.Same.concat (e := .anchored i e r) trivial, rfl⟩
  | _ => exact absurd hop id

variable {es' : Schedule} {q : ExecuteArgs}

/-- A session that serves an `execute` stays clean until it enters the binding, whatever the others
do. -/
lemma clean_of_never {c c' : Config}
    (hactive : c.sessions i = .active (D.serve (.execute q))) (hclean : Clean i c.shared)
    (hserve : c.run (machine D) D.serve es' = some c') (hnever : ∀ es1 c1 p, es1 <+: es' → c.run
      (machine D) D.serve es1 = some c1 → c1.sessions i = .active p → ¬ D.AtBinding q p) :
    Clean i c'.shared := by
  refine Sessions.Config.run_until (P := Op.Plain) (R := fun w w' => Clean i w → Clean i w')
    (fun _ h => h) (fun h1 h2 h => h2 (h1 h)) (fun hop hexec h => h.effect hop (exec_effect hexec))
    (fun e _ he c c1 hnext h => ?_) (hactive ▸ nofun) (fun p hp => ?_) hnever hserve hclean
  · cases hnext with
    | start unused => exact h
    | @step j answer op next r w active exec =>
      refine h.apart ((exec_effect exec).apart fun hij => he answer ?_)
      rw [hij]
    | kill j =>
      by_cases hij : i = j
      · subst hij
        exact h.idle.release
      · exact h.apart (.of_eq rfl (World.writes_release_of_ne hij) .release)
    | environment act => exact h.apart (Environment.apart act)
  · obtain rfl := Sessions.Status.active.inj (hactive.symm.trans hp)
    exact until_serve q

/-- The same for a session that is alone: it vanishes. -/
lemma vanishes_of_never {c c' : Config} (hactive : c.sessions i = .active (D.serve (.execute q)))
    (hserve : c.run (machine D) D.serve es' = some c') (halone : ∀ e ∈ es', e.session = some i)
    (hnever : ∀ es1 c1 p, es1 <+: es' → c.run (machine D) D.serve es1 = some c1 → c1.sessions i =
      .active p → ¬ D.AtBinding q p) : Vanishes i c.shared c'.shared := by
  refine Sessions.Config.run_until (P := Op.Plain) (R := Vanishes i)
    (fun _ h => ⟨h, .refl _, rfl⟩) .trans (fun hop hexec => (exec_effect hexec).vanishes hop)
    (fun e hmem he c c1 hnext => ?_) (hactive ▸ nofun) (fun p hp => ?_) hnever hserve
  · have hsession := halone e hmem
    cases hnext with
    | start unused => exact fun h => ⟨h, .refl _, rfl⟩
    | @step j answer op next r w active exec =>
      obtain rfl : j = i := Option.some.inj hsession
      exact absurd rfl (he answer)
    | kill j =>
      obtain rfl : j = i := Option.some.inj hsession
      have heffect : Effect j c.shared .rollback (c.shared.release j) := .released _
      exact heffect.vanishes trivial
    | environment act => nomatch hsession
  · obtain rfl := Sessions.Status.active.inj (hactive.symm.trans hp)
    exact until_serve q

/-- Whatever the other sessions can do after one configuration they can do after another one, with
the same answers and the same tables. -/
def Deployment.Admits (D : Deployment) (i : ℕ) (c c' : Config) : Prop :=
  ∀ es d, (∀ e ∈ es, e.session ≠ some i) → c.run (machine D) D.serve es = some d →
    ∃ es' d', c'.run (machine D) D.serve es' = some d' ∧ d'.shared.db = d.shared.db ∧
      ∀ j, j ≠ i → d'.sessions j = d.sessions j

lemma Alike.admits {c c' : Config} (h : Alike i c c') : D.Admits i c c' := by
  intro es d hes hrun
  obtain ⟨es', d', hrun', h'⟩ := h.run hes hrun
  exact ⟨es', d', hrun', h'.log.db, h'.sessions⟩

/-- A request that is not taken into the binding leaves nothing behind, whatever the other sessions
do meanwhile: none of its entries is the call of a target, and none changes a table. If it was
served alone, all that follows is as if it had not been made. -/
theorem execute_refused_inert {es es' : Schedule} {q : ExecuteArgs}
    {c c' : Config} (hrun : D.run es = some c)
    (hserve : c.run (machine D) D.serve (.start i (.execute q) :: es') = some c')
    (hbefore : ∀ es₁ c₁ p, es₁ <+: es' →
      c.run (machine D) D.serve (.start i (.execute q) :: es₁) = some c₁ →
      c₁.sessions i = .active p → ¬ D.AtBinding q p) :
    (∀ pre entry post, c'.shared.log = pre ++ entry :: post → entry.session = some i →
      (∀ d, entry ≠ .dispatched i d) ∧ Log.db (pre ++ [entry]) = Log.db pre) ∧
    ∀ r, c'.result i = some (.ok r) → (∀ e ∈ es', e.session = some i) →
      D.Admits i c c' ∧ D.Admits i c' c := by
  obtain ⟨hfresh, -, hserved⟩ := Voucher.served (V := .anything) (R := fun _ _ => True)
    (fun _ _ _ _ => trivial) (fun _ _ => trivial) hrun hserve
    fun _ _ => wp_whatever fun _ _ => wp_pure trivial
  obtain ⟨c₁, hnext, hrest⟩ := Option.bind_eq_some_iff.mp hserve
  -- the session has been started, and nothing else has happened
  obtain ⟨hshared, hactive, hothers⟩ : c₁.shared = c.shared ∧
      c₁.sessions i = .active (D.serve (.execute q)) ∧
      ∀ j, j ≠ i → c₁.sessions j = c.sessions j := by
    cases Sessions.Config.next_spec hnext with
    | start unused =>
      exact ⟨rfl, update_self .., fun j hj => update_of_ne hj ..⟩
  have hnever : ∀ es₁ c₂ p, es₁ <+: es' → c₁.run (machine D) D.serve es₁ = some c₂ →
      c₂.sessions i = .active p → ¬ D.AtBinding q p := by
    intro es₁ c₂ p hes hrun₂
    refine hbefore es₁ c₂ p hes ?_
    rw [Sessions.Config.run, hnext]
    exact hrun₂
  have hclean₁ : Clean i c₁.shared := hshared ▸ hfresh.clean
  refine ⟨fun pre entry post hlog hs => ?_, fun r hresult halone => ?_⟩
  · have hclean := clean_of_never hactive hclean₁ hrest hnever
    have hvoid := hclean.idle entry (hlog ▸ List.mem_append_right _ List.mem_cons_self) hs
    refine ⟨?_, by rw [Log.db_concat, hvoid.apply]⟩
    rintro d rfl
    exact hvoid
  · obtain ⟨hclean, hsame, hrelease⟩ := vanishes_of_never hactive hrest halone hnever hclean₁
    rw [hshared] at hsame hrelease
    rw [(hserved r hresult).1.release_eq hclean.writes, hfresh.release_eq hfresh.writes] at hrelease
    have halike : Alike i c c' := ⟨hsame, hrelease, fun j hj =>
      (Sessions.Config.run_sessions halone hrest hj).trans (hothers j hj)⟩
    exact ⟨halike.admits, halike.symm.admits⟩

/-- The binding begins with the question whether the mount is revoked. -/
def asksRevocation : Proc Response → Bool
  | .call (.isRevoked _) _ => true
  | _ => false

/-- A session that is at this question. -/
def isAsking : Sessions.Status Op Val Exn Response → Bool
  | .active p => asksRevocation p
  | _ => false

lemma Deployment.AtBinding.asksRevocation {p : Proc Response} (h : D.AtBinding q p) :
    asksRevocation p = true := by
  obtain ⟨row, operationId, rfl⟩ := h
  rfl

namespace Sample

/-- A request with another nonce. -/
def mismatchedArgs : ExecuteArgs := { executeArgs "o" with nonce := [] }

def mismatched : Schedule := steps 2 (.identifier [] :: oks 5)

end Sample

/-- A request with a wrong nonce: after it, the mount serves as before. -/
theorem execute_refused_inert_mismatched : ∃ c c' r,
    Sample.deployment.run Sample.mounted = some c ∧
    c.run (machine Sample.deployment) Sample.deployment.serve
      (.start 2 (.execute Sample.mismatchedArgs) :: Sample.mismatched) = some c' ∧
    c'.result 2 = some (.ok (.execution Sample.mismatchedArgs r)) ∧ r.reason = .tokenMismatch ∧
    Sample.deployment.Admits 2 c c' := by
  obtain ⟨c, c', hrun, hserve, hresult⟩ := Sample.deployment.exists_served Sample.mounted
    (.start 2 (.execute Sample.mismatchedArgs) :: Sample.mismatched)
    (fun c => c.result 2 = some (.ok (.execution Sample.mismatchedArgs {
      operationId := "o"
      decision := .deny
      reason := .tokenMismatch }))) (by decide +kernel)
  have hasks : ∀ n, n ≤ 6 → (Sample.deployment.run Sample.mounted).all (fun c =>
      (c.run (machine Sample.deployment) Sample.deployment.serve
        (.start 2 (.execute Sample.mismatchedArgs) :: Sample.mismatched.take n)).all fun c₁ =>
          !isAsking (c₁.sessions 2)) = true := by decide +kernel
  refine ⟨c, c', _, hrun, hserve, hresult, rfl, ((execute_refused_inert hrun hserve
    fun es₁ c₁ p hes hrun₁ hp hat => ?_).2 _ hresult (by decide)).1⟩
  have hlength : es₁.length ≤ 6 := hes.length_le
  have hnot := hasks es₁.length hlength
  rw [hrun, ← List.prefix_iff_eq_take.mp hes] at hnot
  simp only [Option.all_some, hrun₁, hp, isAsking, hat.asksRevocation] at hnot
  cases hnot

end CapabilityMount
