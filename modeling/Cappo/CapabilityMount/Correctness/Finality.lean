import Cappo.CapabilityMount.Correctness.Fence

/-!
# The end of a mount

A termination answers after it has polled the event log. At the moment of the poll the mount was
terminated and had nothing in flight, but two steps of other sessions are not behind the fence: the
AUTHORIZED event of an ALLOW that was committed before, and what the lifecycle recorder begins under
a receipt. And an operation whose outcome was reported by somebody else may still be dispatched by
the session that claimed it. Without such steps the answer is final (`run_final`).

A request that is denied because the token was consumed ends the mount like any other: if it finds
the mount live, it asks for the anchor of a termination, and only the answer keeps it from stopping
the operation of the request that consumed the token (`run_losing_replay`).

## Main results

* `Log.inFlight_eq_nil`: a terminated mount with nothing in flight stays so;
* `run_final`: the answer of a termination is final if every step is orderly;
* `run_losing_replay`: when a losing replay terminates the mount.
-/

namespace CapabilityMount

open VdbC1 (PyStr)
open List

variable {D : Deployment} {log pre : Log} {m o : PyStr}

/-! ## What is in flight -/

/-- The operations in flight are those whose latest event is authorized or started. -/
lemma Db.mem_inFlightOperations {db : Db} (hdb : WellRecorded db.events) :
    o ∈ db.inFlightOperations m ↔
      ∃ e, db.latestEvent o = some e ∧ e.mountId = m ∧ e.state.inFlight = true := by
  -- the events of an operation are all of one mount
  have hevents : ∀ e ∈ db.events, e.operationId = o → e.mountId = m →
      (db.events.filter fun e => e.mountId = m).filter (fun e => e.operationId = o) =
        history db.events o := by
    intro e he ho hm
    rw [filter_filter, history]
    refine filter_congr fun e' he' => ?_
    by_cases ho' : e'.operationId = o
    · have hm' : e'.mountId = m := (hdb.same he' he (ho'.trans ho.symm)).2.1.trans hm
      rw [decide_eq_true ho', decide_eq_true hm', Bool.and_true]
    · rw [decide_eq_false ho', Bool.false_and]
  unfold inFlightOperations
  rw [mem_filter, mem_dedup, mem_map]
  constructor
  · rintro ⟨⟨e, he, ho⟩, hany⟩
    obtain ⟨he, hm⟩ := mem_filter.mp he
    rw [hevents e he ho (of_decide_eq_true hm)] at hany
    obtain ⟨latest, hlatest, hstate⟩ := (Option.any_eq_true _ _).mp hany
    obtain ⟨hmem, ho'⟩ := mem_of_latestEvent hlatest
    refine ⟨latest, hlatest, ?_, hstate⟩
    exact (hdb.same hmem he (ho'.trans ho.symm)).2.1.trans (of_decide_eq_true hm)
  · rintro ⟨e, hlatest, hm, hstate⟩
    obtain ⟨he, ho⟩ := mem_of_latestEvent hlatest
    refine ⟨⟨e, mem_filter.mpr ⟨he, decide_eq_true hm⟩, ho⟩, ?_⟩
    rw [hevents e he ho hm]
    exact (Option.any_eq_true _ _).mpr ⟨e, hlatest, hstate⟩

/-- An operation of a mount that has a record at some moment is in flight later only if it is in
flight then. -/
lemma Log.inFlight_of_later (hlog : log.Audited D) (hpre : pre <+: log)
    {first : Event} (hfirst : first ∈ pre.db.events) (ho : first.operationId = o)
    (h : o ∈ log.db.inFlightOperations m) : o ∈ pre.db.inFlightOperations m := by
  have hrecorded := Log.wellRecorded hlog
  have hrecorded' : WellRecorded pre.db.events := by
    obtain ⟨rest, rfl⟩ := hpre
    exact Log.wellRecorded hlog.left
  rw [Db.mem_inFlightOperations hrecorded] at h
  rw [Db.mem_inFlightOperations hrecorded']
  obtain ⟨e, hlatest, hm, hstate⟩ := h
  obtain ⟨he, heo⟩ := Db.mem_of_latestEvent hlatest
  cases hlatest' : pre.db.latestEvent o with
  | none => exact absurd ho (Db.latestEvent_eq_none hlatest' hfirst)
  | some e' =>
    obtain ⟨he', heo'⟩ := Db.mem_of_latestEvent hlatest'
    have hmem' := Log.events_subset hpre he'
    have hle : e'.version ≤ e.version := Db.le_of_latestEvent hlatest hmem' heo'
    have hm' : e'.mountId = m := (hrecorded.same hmem' he (heo'.trans heo.symm)).2.1.trans hm
    refine ⟨e', rfl, hm', ?_⟩
    -- the first event is authorized, and only the second one can be started
    have hversion : e.version ≤ 1 := by
      cases hs : e.state with
      | authorized => exact ((hrecorded.authorized e he).mpr hs).trans_le (Nat.zero_le 1)
      | started => exact (hrecorded.version_started he hs).le
      | _ => rw [hs] at hstate; nomatch hstate
    rcases Nat.lt_or_ge e'.version e.version with hlt | hge
    · have hzero : e'.version = 0 := by omega
      rw [(hrecorded.authorized e' hmem').mp hzero]
      rfl
    · rw [hrecorded.eq_of_version hmem' he (heo'.trans heo.symm) (Nat.le_antisymm hle hge)]
      exact hstate

/-! ## Orderly steps -/

/-- The call of a target is for an operation of the mount. -/
def Dispatch.IsOf (d : Dispatch) (m : PyStr) (log : Log) : Prop :=
  ∃ e ∈ log.db.events, e.operationId = d.operationId ∧ e.mountId = m

/-- An entry after which the answer of a termination still holds: operations are authorized while
the mount is not terminated, and a target is called while its operation is recorded as started. -/
def Entry.Orderly (m : PyStr) (log : Log) : Entry → Prop
  | commit _ ws => ∀ w ∈ ws, ∀ e ∈ w.events, e.mountId = m → e.state = .authorized →
      ¬ Terminated m log
  | dispatched _ d => d.IsOf m log →
      (log.db.latestEvent d.operationId).map Event.state = some .started
  | anchored _ _ _ | minted _ | nonceReset _ | ticked _ => True

instance (m : PyStr) (log : Log) : Decidable (Terminated m log) :=
  decidable_of_iff ((log.db.mounts m).any MountRow.terminated = true)
    (by simp [Terminated, Option.any_eq_true])

instance (d : Dispatch) (m : PyStr) (log : Log) : Decidable (d.IsOf m log) :=
  inferInstanceAs (Decidable (∃ e ∈ _, _))

instance (m : PyStr) (log : Log) (e : Entry) : Decidable (e.Orderly m log) := by
  cases e <;> unfold Entry.Orderly <;> infer_instance

/-- No operation of a terminated mount is recorded for the first time. -/
lemma Log.first_of_orderly (hlog : log.Audited D) (hpre : pre <+: log)
    (hterminated : Terminated m pre) (horderly : AuditLog.Audited (Entry.Orderly m) log)
    {first : Event} (hfirst : first ∈ log.db.events) (hm : first.mountId = m)
    (hstate : first.state = .authorized) : first ∈ pre.db.events := by
  obtain ⟨p, i, ws, q, es, rfl, hes, hmem, -⟩ := Log.appended_of_event hlog hfirst
  rcases AuditLog.before_or_after hpre with hle | hle
  · exact absurd (hterminated.mono hlog.left hle) (horderly p _ q rfl _ hes first hmem hm hstate)
  · exact Log.mem_events_of_after hle hes hmem

/-- A terminated mount with nothing in flight stays so. -/
theorem Log.inFlight_eq_nil (hlog : log.Audited D) (hpre : pre <+: log)
    (hterminated : Terminated m pre) (hsettled : pre.db.inFlightOperations m = [])
    (horderly : AuditLog.Audited (Entry.Orderly m) log) : log.db.inFlightOperations m = [] := by
  refine eq_nil_iff_forall_not_mem.mpr fun o ho => ?_
  have hrecorded := Log.wellRecorded hlog
  obtain ⟨e, hlatest, hm, -⟩ := (Db.mem_inFlightOperations hrecorded).mp ho
  obtain ⟨he, heo⟩ := Db.mem_of_latestEvent hlatest
  obtain ⟨first, hfirst, hversion, hop, hmount⟩ :=
    hrecorded.exists_first (f := Event.mountId) (fun _ _ hc => hc.mountId) e he
  have hmem := Log.first_of_orderly hlog hpre hterminated horderly hfirst (hmount.trans hm)
    ((hrecorded.authorized first hfirst).mp hversion)
  have hbefore := Log.inFlight_of_later hlog hpre hmem (hop.trans heo) ho
  rw [hsettled] at hbefore
  nomatch hbefore

/-- And none of its operations is dispatched. -/
lemma Log.not_dispatched (hlog : log.Audited D) (hterminated : Terminated m pre)
    (hsettled : pre.db.inFlightOperations m = [])
    (horderly : AuditLog.Audited (Entry.Orderly m) log) {p rest : Log} {j : ℕ} {d : Dispatch}
    (hsplit : log = p ++ .dispatched j d :: rest) (hpre : pre <+: p) : ¬ d.IsOf m p := by
  intro hof
  subst hsplit
  have hstarted := horderly p _ rest rfl hof
  obtain ⟨latest, hlatest, hstate⟩ := Option.map_eq_some_iff.mp hstarted
  obtain ⟨hmem, ho⟩ := Db.mem_of_latestEvent hlatest
  obtain ⟨e, he, heo, hm⟩ := hof
  have hrecorded := Log.wellRecorded hlog.left
  have hin : d.operationId ∈ p.db.inFlightOperations m := by
    refine (Db.mem_inFlightOperations hrecorded).mpr ⟨latest, hlatest, ?_, by rw [hstate]; rfl⟩
    exact (hrecorded.same hmem he (ho.trans heo.symm)).2.1.trans hm
  rw [Log.inFlight_eq_nil hlog.left hpre hterminated hsettled horderly.left] at hin
  nomatch hin

/-- Once a termination has answered that nothing is in flight, nothing of the mount is in flight at
any later moment, and none of its operations is dispatched, in every schedule of orderly steps. -/
theorem run_final {es es' : Schedule}
    {c c' : Config} (hrun : D.run es = some c)
    (hrun' : D.run (es ++ es') = some c') {i : ℕ} {q : TerminateArgs} {t : Termination}
    (hresult : c.result i = some (.ok (.termination q t))) (hallow : t.decision = .allow)
    (hreason : t.reason = .terminated ∨ t.reason = .alreadyTerminated)
    (horderly : AuditLog.Audited (Entry.Orderly q.mountId) c'.shared.log) :
    c'.shared.db.inFlightOperations q.mountId = [] ∧
      ∀ p j d rest, c'.shared.log = p ++ .dispatched j d :: rest → c.shared.log <+: p →
        ¬ d.IsOf q.mountId p := by
  have hlog := run_audited hrun'
  have hne : t.reason ≠ .terminatedInFlight := by
    rcases hreason with h | h <;> rw [h] <;> exact nofun
  obtain ⟨pre, hpre, hterminated, hsettled⟩ := run_answered hrun hresult hallow hne
  refine ⟨?_, fun p j d rest hsplit hle => ?_⟩
  · exact Log.inFlight_eq_nil hlog (hpre.trans (run_log hrun hrun')) hterminated hsettled horderly
  · exact Log.not_dispatched hlog hterminated hsettled horderly hsplit (hpre.trans hle)

namespace Sample

/-- A termination of a mount that is terminated already. -/
def terminatedAgain (i : ℕ) : Schedule :=
  .start i (.terminate { mountId, reason := .explicitTerminate, owner }) :: steps i (oks 5)

/-- The lifecycle executor begins an operation under the receipt of the mount, and calls its
delegate. -/
def delegated (i : ℕ) (operationId : PyStr) : Schedule :=
  .start i (.lifecycleExecute { receiptId := "rcpt_", operationId, intentHash := [] } none) ::
  steps i (oks 4 ++ [.outcome (.ok .null) []])

end Sample

/-- The answer to a termination after an operation was carried out is final. -/
theorem run_final_executed :
    let before := Sample.mounted ++ Sample.executed 2 "o" ++
      Sample.terminatedAgain 3
    ∃ c c', Sample.deployment.run before = some c ∧
      Sample.deployment.run (before ++ [.environment (.tick 5)]) = some c' ∧
      c.result 3 = some (.ok (.termination
        { mountId := Sample.mountId, reason := .explicitTerminate, owner := Sample.owner }
        { decision := .allow, reason := .alreadyTerminated })) ∧
      c'.shared.db.inFlightOperations Sample.mountId = [] := by
  intro before
  obtain ⟨c, hrun, hresult⟩ := Sample.exists_run before
    (fun c => c.result 3 = some (.ok (.termination
        { mountId := Sample.mountId, reason := .explicitTerminate, owner := Sample.owner }
        { decision := .allow, reason := .alreadyTerminated }))) (by decide +kernel)
  obtain ⟨c', hrun', horderly⟩ := Sample.exists_run (before ++ [.environment (.tick 5)])
    (fun c => AuditLog.Audited (Entry.Orderly Sample.mountId) c.shared.log) (by decide +kernel)
  exact ⟨c, c', hrun, hrun', hresult,
    (run_final hrun hrun' hresult rfl (.inr rfl) horderly).1⟩

/-- After a termination has answered that nothing is in flight, the lifecycle executor starts an
operation under a receipt of the mount, and dispatches it. -/
theorem run_not_final :
    let before := Sample.mounted ++ Sample.allowed 2 "o" ++ Sample.terminated 3
    ∃ c c', Sample.deployment.run before = some c ∧
      Sample.deployment.run (before ++ Sample.delegated 4 "p") = some c' ∧
      c.result 3 = some (.ok (.termination
        { mountId := Sample.mountId, reason := .explicitTerminate, owner := Sample.owner }
        { decision := .allow, reason := .terminated })) ∧
      c'.shared.db.inFlightOperations Sample.mountId = [PyStr.ofString "p"] ∧
      .dispatched 4 (.executor "p" "rcpt_") ∈ c'.shared.log ∧
      .dispatched 4 (.executor "p" "rcpt_") ∉ c.shared.log := by
  intro before
  obtain ⟨c, hrun, hresult, hnew⟩ := Sample.exists_run before
    (fun c => c.result 3 = some (.ok (.termination
        { mountId := Sample.mountId, reason := .explicitTerminate, owner := Sample.owner }
        { decision := .allow, reason := .terminated })) ∧
      .dispatched 4 (.executor "p" "rcpt_") ∉ c.shared.log)
    (by decide +kernel)
  obtain ⟨c', hrun', hinFlight, hdispatched⟩ := Sample.exists_run
    (before ++ Sample.delegated 4 "p")
    (fun c => c.shared.db.inFlightOperations Sample.mountId = [PyStr.ofString "p"] ∧
      .dispatched 4 (.executor "p" "rcpt_") ∈ c.shared.log)
    (by decide +kernel)
  exact ⟨c, c', hrun, hrun', hresult, hinFlight, hdispatched, hnew⟩

/-! ## Losing replays -/

/-- After `found`, session `i` asks for the anchor of the termination that ends its request. -/
def Log.AsksAfter (log found : Log) (i : ℕ) (m : PyStr) (r : AnchorResult) : Prop :=
  found ++ [.anchored i (.terminate m .allow (.unmount .taskComplete)) r] <+: log

/-- After `found`, where the mount is terminated, session `i` commits. -/
def Log.FindsTerminated (log found : Log) (i : ℕ) (m : PyStr) : Prop :=
  Terminated m found ∧ ∃ ws, found ++ [.commit i ws] <+: log

/-- In every schedule, a request that is refused because the token was consumed asks for the anchor
of a termination, unless it finds the mount terminated. It leaves the mount as it is exactly if it
finds it terminated or the anchor is not accepted. -/
theorem run_losing_replay {es : Schedule}
    {c : Config} (hrun : D.run es = some c) {i : ℕ}
    {q : ExecuteArgs} {e : Execution} (hresult : c.result i = some (.ok (.execution q e)))
    (hreason : e.reason = .tokenReplay ∨ e.reason = .tokenReplayReceipt) :
    ∃ found : Log,
      (c.shared.log.FindsTerminated found i q.mountId ∨
        ¬ Terminated q.mountId found ∧ ∃ r, c.shared.log.AsksAfter found i q.mountId r) ∧
      ((∀ entry ∈ c.shared.log, ¬ entry.Terminates i q.mountId) ↔
        Terminated q.mountId found ∨
          ∃ r, c.shared.log.AsksAfter found i q.mountId r ∧ r.accepted = false) := by
  have hconcluded : Concluded i q.mountId .taskComplete c.shared.log :=
    run_answered hrun hresult hreason
  cases hconcluded with
  | already found ws commits terminated own =>
    exact ⟨found, .inl ⟨terminated, ws, commits⟩, iff_of_true own (.inl terminated)⟩
  | asked found r asks live own =>
    refine ⟨found, .inr ⟨live, r, asks⟩, fun hnot => ?_, ?_⟩
    · refine .inr ⟨r, asks, Bool.eq_false_iff.mpr fun haccepted => ?_⟩
      obtain ⟨entry, hentry, hterminates⟩ := own.mpr haccepted
      exact hnot entry hentry hterminates
    · rintro (hterminated | ⟨r', hasks', hrefused⟩) entry hentry hterminates
      · exact live hterminated
      · -- the entry after `found` is the session's own question
        have hsame := (prefix_of_prefix_length_le asks hasks' (by simp)).eq_of_length (by simp)
        have hr : r = r' :=
          (Entry.anchored.inj (singleton_inj.mp (append_cancel_left hsame))).2.2
        rw [← hr, own.mp ⟨entry, hentry, hterminates⟩] at hrefused
        cases hrefused

namespace Sample

/-- Operation `o` is authorized. -/
def authorized : Schedule :=
  mounted ++ allowed 2 "o" ++ steps 2 (oks 2)

/-- A request for operation `p` with the same token, up to the answer to the anchor of the
termination. -/
def losing (i : ℕ) (answer : Answer) : Schedule :=
  .start i (.execute (executeArgs "p")) ::
  steps i (.identifier [] :: oks 9 ++ confirmed :: oks 4 ++ [answer])

/-- The answer to a losing replay. -/
def lost (terminated : Bool) : Execution where
  operationId := "p"
  decision := .deny
  reason := .tokenReplay
  terminated

/-- Whatever follows, there is a moment at which operation `o` is in flight. -/
lemma winner (hrun : deployment.run (authorized ++ es) = some c) : ∃ moment : Log,
      moment <+: c.shared.log ∧ ∃ o ∈ moment.db.inFlightOperations mountId, o ≠ "p" := by
  obtain ⟨c0, hrun0, hinFlight⟩ := exists_run authorized
    (fun c => ∃ o ∈ c.shared.db.inFlightOperations mountId, o ≠ "p")
    (by decide +kernel)
  exact ⟨c0.shared.log, run_log hrun0 hrun, hinFlight⟩

end Sample

/-- The termination is not anchored: the mount is live, and the operation is authorized. -/
theorem run_losing_replay_unanchored :
    let es := Sample.authorized ++ (Sample.losing 3 (.anchored { status := .unconfirmed }) ++
      Sample.steps 3 (Sample.oks 2))
    ∃ c, Sample.deployment.run es = some c ∧
      c.result 3 = some (.ok (.execution (Sample.executeArgs "p") (Sample.lost false))) ∧
      ∀ entry ∈ c.shared.log, ¬ entry.Terminates 3 Sample.mountId := by
  intro es
  obtain ⟨c, hrun, hresult, hown⟩ := Sample.exists_run es
    (fun c => c.result 3 = some (.ok (.execution (Sample.executeArgs "p")
        (Sample.lost false))) ∧
      ∀ entry ∈ c.shared.log, entry.session = some 3 →
        entry = .anchored 3 (.terminate Sample.mountId .allow (.unmount .taskComplete))
          { status := .unconfirmed } ∨
        entry = .anchored 3 (.actionDecision Sample.mountId .deny .tokenReplay)
          { status := .confirmed } ∨ entry = .commit 3 []) (by decide +kernel)
  obtain ⟨found, hfound, hiff⟩ := run_losing_replay hrun hresult (.inl rfl)
  refine ⟨c, hrun, hresult, hiff.mpr (hfound.imp And.left ?_)⟩
  rintro ⟨-, r, hasks⟩
  refine ⟨r, hasks, ?_⟩
  rcases hown _ (hasks.subset mem_concat_self) rfl with heq | heq | heq
  · cases heq
    rfl
  · exact absurd (Entry.anchored.inj heq).2.1 nofun
  · cases heq

/-- The termination is anchored: the claim of the authorized operation is refused. -/
theorem losing_replay_terminates :
    let es := Sample.authorized ++ (Sample.losing 3 Sample.confirmed ++
      Sample.steps 3 (Sample.oks 8))
    ∃ c c', Sample.deployment.run es = some c ∧
      (∃ moment : Log, moment <+: c.shared.log ∧
        ∃ o ∈ moment.db.inFlightOperations Sample.mountId, o ≠ "p") ∧
      c.result 3 = some (.ok (.execution (Sample.executeArgs "p") (Sample.lost true))) ∧
      Terminated Sample.mountId c.shared.log ∧
      Sample.deployment.run (es ++ Sample.steps 2 (Sample.oks 4)) = some c' ∧
      (history c'.shared.db.events "o").map Event.state =
        [.authorized, .failed] := by
  intro es
  obtain ⟨c, hrun, hresult, hterminated⟩ := Sample.exists_run es
    (fun c => c.result 3 = some (.ok (.execution (Sample.executeArgs "p")
        (Sample.lost true))) ∧ Terminated Sample.mountId c.shared.log) (by decide +kernel)
  obtain ⟨c', hrun', hstates⟩ := Sample.exists_run (es ++ Sample.steps 2 (Sample.oks 4))
    (fun c => (history c.shared.db.events "o").map Event.state =
      [.authorized, .failed]) (by decide +kernel)
  exact ⟨c, c', hrun, Sample.winner hrun, hresult, hterminated, hrun', hstates⟩

end CapabilityMount
