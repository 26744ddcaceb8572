import Cappo.CapabilityMount.Correctness.Rules

/-!
# What the answer of a termination says

`terminate_with_in_flight` fences the mount and then polls the event log. That it answers
"terminated" means that at one moment after the fence no operation of the mount was in flight.
The session itself terminates a mount that it finds live exactly if the anchor of the termination,
which it then asks for, is accepted.

## Main definitions

* `Settled`: a moment at which a mount is terminated and has nothing in flight;
* `Innocent`: a session that has not begun a termination;
* `Concluded`: how the termination of a mount by a session ends.

## Main results

* `wp_terminateWithInFlight`: what the answer says, and what the session did.
-/

namespace CapabilityMount

open VdbC1 (PyStr)
open Sessions.Discipline Sessions.Program List

variable {D : Deployment} {i : ℕ} {α β : Type}

/-! ## Terminated mounts -/

/-- A mount is terminated. -/
def Terminated (m : PyStr) (log : Log) : Prop :=
  ∃ row, log.db.mounts m = some row ∧ row.terminated = true

variable {m : PyStr}

lemma Terminated.mono {log log' : Log} (h : Terminated m log) (hlog : log'.Audited D)
    (hpre : log <+: log') : Terminated m log' := by
  obtain ⟨row, hrow, hterminated⟩ := h
  obtain ⟨row', hrow', hevolves⟩ := Log.mounts_evolve hlog hpre hrow
  exact ⟨row', hrow', hevolves.terminated hterminated⟩

/-- At some moment the mount was terminated and none of its operations was in flight. -/
def Settled (m : PyStr) (log : Log) : Prop :=
  ∃ pre : Log, pre <+: log ∧ Terminated m pre ∧ pre.db.inFlightOperations m = []

lemma Settled.mono (h : Settled m log) (hpre : log <+: log') : Settled m log' := by
  obtain ⟨pre, hle, h⟩ := h
  exact ⟨pre, hle.trans hpre, h⟩

/-- A transaction that terminates a mount leaves it terminated. -/
lemma Db.terminated_foldl_apply {db : Db} {ws : List Write} {row : MountRow}
    (haccepts : db.acceptsAll ws = true) (hrow : db.mounts m = some row) {epoch : ℕ}
    (h : .updateMount m (.terminate epoch) ∈ ws) :
    ∃ row', (ws.foldl apply db).mounts m = some row' ∧ row'.terminated = true :=
  mounts_foldl_apply_of_mem (P := fun row => row.terminated = true) haccepts hrow
    (fun u _ cur hcur => by cases u <;> first | rfl | exact hcur) (.inr ⟨_, h, fun _ => rfl⟩)

/-! ## What a session did -/

/-- Session `i` commits a termination of the mount. -/
def Entry.Terminates (i : ℕ) (m : PyStr) (e : Entry) : Prop :=
  ∃ ws epoch, e = .commit i ws ∧ .updateMount m (.terminate epoch) ∈ ws

variable {e : Entry}

lemma Entry.Terminates.session (h : e.Terminates i m) : e.session = some i := by
  obtain ⟨ws, epoch, rfl, -⟩ := h
  rfl

/-- A session that has not begun a termination. -/
structure Innocent (i : ℕ) (w : World) : Prop where
  entries : ∀ e ∈ w.log, ∀ m, ¬ e.Terminates i m
  writes : ∀ m epoch, .updateMount m (.terminate epoch) ∉ w.writes i

/-- How a termination of the mount by session `i` ends. The mount was terminated when the session
read it, and the session commits and leaves it at that; or it was not, and the session asks for the
anchor of the termination and terminates the mount exactly if the anchor is accepted. -/
inductive Concluded (i : ℕ) (m : PyStr) (reason : UnmountReason) (log : Log) : Prop
  | already (found : Log) (ws : List Write) (commits : found ++ [.commit i ws] <+: log)
      (terminated : Terminated m found) (own : ∀ e ∈ log, ¬ e.Terminates i m)
  | asked (found : Log) (r : AnchorResult)
      (asks : found ++ [.anchored i (.terminate m .allow (.unmount reason)) r] <+: log)
      (live : ¬ Terminated m found) (own : (∃ e ∈ log, e.Terminates i m) ↔ r.accepted = true)

/-- A mount that an owner has. -/
def Owned (m : PyStr) (owner : Owner) (log : Log) : Prop :=
  ∃ row, log.db.mounts m = some row ∧ row.isOwnedBy owner = true

lemma Owned.mono {owner : Owner} {log log' : Log} (h : Owned m owner log)
    (hlog : log'.Audited D) (hpre : log <+: log') : Owned m owner log' := by
  obtain ⟨row, hrow, howned⟩ := h
  obtain ⟨row', hrow', hevolves⟩ := Log.mounts_evolve hlog hpre hrow
  refine ⟨row', hrow', ?_⟩
  rwa [MountRow.isOwnedBy, MountRow.ownedBy, hevolves.mountId, hevolves.ownerPrincipal,
    hevolves.ownerWorkspace]

variable {w : World}

lemma Concluded.others {w' : World} (h : Concluded i m reason w.log) (ho : Others i w w') :
    Concluded i m reason w'.log := by
  have hown : (∃ e ∈ w'.log, e.Terminates i m) ↔ ∃ e ∈ w.log, e.Terminates i m :=
    ⟨fun ⟨e, he, ht⟩ => ⟨e, ho.own e he ht.session, ht⟩,
      fun ⟨e, he, ht⟩ => ⟨e, ho.log.subset he, ht⟩⟩
  cases h with
  | already found ws commits terminated own =>
    exact .already found ws (commits.trans ho.log) terminated fun e he ht =>
      own e (ho.own e he ht.session) ht
  | asked found r asks live own =>
    exact .asked found r (asks.trans ho.log) live (hown.trans own)

section

variable (h : Innocent i w)

include h

lemma Innocent.others (ho : Others i w w') : Innocent i w' where
  entries e he m ht := h.entries e (ho.own e he ht.session) m ht
  writes := ho.writes ▸ h.writes

lemma Innocent.release : Innocent i (w.release i) where
  entries := h.entries
  writes _ _ := World.writes_release_self (w := w) ▸ not_mem_nil

/-- An entry that is no termination. -/
theorem Innocent.append (he : ∀ m, ¬ e.Terminates i m) : Innocent i (w.append e) where
  entries := forall_mem_append.mpr ⟨h.entries, forall_mem_singleton.mpr he⟩
  writes := h.writes

/-- The commit of a session that has not begun a termination. -/
theorem Innocent.committed : Innocent i (w.committed i) := by
  refine h.release.append fun m => ?_
  rintro ⟨ws, epoch, heq, hmem⟩
  rw [← (Entry.commit.inj heq).2] at hmem
  exact h.writes m epoch hmem

lemma Innocent.wrote
    (hx : ∀ m epoch, x ≠ .updateMount m (.terminate epoch)) : Innocent i (w.wrote i x) where
  entries := h.entries
  writes m epoch hmem := by
    rw [World.writes_wrote_self, mem_append, mem_singleton] at hmem
    rcases hmem with hmem | hmem
    · exact h.writes m epoch hmem
    · exact hx m epoch hmem.symm

/-- What is anchored is no termination. -/
lemma Innocent.anchored (e : AnchorEvent) (r : AnchorResult) :
    Innocent i (w.append (.anchored i e r)) :=
  h.append fun _ ⟨_, _, heq, _⟩ => Entry.noConfusion heq

end

/-- A call that does not terminate a mount. -/
theorem Innocent.effect {w' : World} {op : Op} (hop : op.Ordinary) (heffect : Effect i w op w')
    (h : Innocent i w) : Innocent i w' := by
  cases heffect with
  | unchanged => exact h
  | released => exact h.release
  | locked | revoked => exact { h with }
  | incremented => exact { h.wrote (x := .incrementSequence) nofun with }
  | wrote x =>
    refine h.wrote ?_
    rintro m epoch rfl
    exact hop
  | committed accepts fresh => exact h.committed
  | anchored e r => exact h.anchored e r
  | dispatched d permitReceipt payloads =>
    refine ⟨fun e he m => ?_, h.writes⟩
    rcases mem_append.mp he with he | he
    · exact h.entries e he m
    · rintro ⟨ws, epoch, rfl, -⟩
      simp at he

variable {E : Exn → World → Prop}

/-- A program of such calls. -/
lemma wp_innocent (honly : p.Only Op.Ordinary) {Q : α → World → Prop}
    (hp : (discipline D).wp i p Q E w) :
    (discipline D).wp i p (fun a w' => (Innocent i w → Innocent i w') ∧ Q a w')
      (fun e w' => (Innocent i w → Innocent i w') ∧ E e w') w :=
  wp_only (R := fun w w' => Innocent i w → Innocent i w') (fun _ h => h)
    (fun _ _ _ h1 h2 h => h2 (h1 h)) (fun _ _ ho _ h => h.others ho)
    (fun _ _ _ _ _ hop _ _ hexec h => h.effect hop (exec_effect hexec)) honly hp

variable {Q : β → World → Prop}

/-- A program of such calls, and what follows it. -/
lemma wp_ordinary {p : Proc α} {f : α → Proc β} (hinv : Inv D w) (honly : p.Only Op.Ordinary)
    {R : α → World → Prop} {F : Exn → World → Prop} (hp : (discipline D).wp i p R F w)
    (hf : ∀ a w', Inv D w' → (Innocent i w → Innocent i w') → R a w' → Yields D i (f a) Q w') :
    Yields D i (p >>= f) Q w :=
  wp_seq hinv (wp_innocent honly hp) fun a w' hinv' h => hf a w' hinv' h.1 h.2

/-- A quiet call of this kind, and what follows it. -/
lemma wp_call_ordinary {op : Op} {f : Val op → Proc β} (hinv : Inv D w) (hop : op.Quiet)
    (hordinary : op.Ordinary) (hf : ∀ v w', Inv D w' → (Innocent i w → Innocent i w') →
      Keeps i w w' → op.Says i v w' → Yields D i (f v) Q w') :
    Yields D i (perform op >>= f) Q w := by
  have hcall : Yields D i (perform op) (fun v w' => Keeps i w w' ∧ op.Says i v w') w :=
    wp_quiet hop (fun _ _ _ hk hsays => ⟨hk, hsays⟩) fun _ _ _ _ _ => trivial
  exact wp_ordinary hinv (only_perform hordinary) hcall
    fun v w' hinv' hinnocent h => hf v w' hinv' hinnocent h.1 h.2

/-! ## The programs -/

/-- The poll of a terminated mount: it was empty at the moment of the read. -/
lemma wp_settleInFlight (m : PyStr) (polls : ℕ) (h : Terminated m w.log) :
    Yields D i (settleInFlight m polls)
      (fun inFlight w' => inFlight = [] → Settled m w'.log) w := by
  induction polls generalizing w with
  | zero =>
    refine wp_call trivial fun inFlight w1 hinv1 hk1 hread => ?_
    refine wp_bind (wp_commit (fun w2 _ ho2 _ => wp_pure fun hnil => ?_))
    exact ⟨w1.log, ho2.log.trans (prefix_append ..), h.mono hinv1.audited hk1.log,
      hread.symm.trans hnil⟩
  | succ polls ih =>
    refine wp_call trivial fun inFlight w1 hinv1 hk1 hread => ?_
    have h1 := h.mono hinv1.audited hk1.log
    refine wp_bind (wp_commit (fun w2 _ ho2 hinv2 => ?_))
    have hlog : w1.log <+: (w2.committed i).log := ho2.log.trans (prefix_append ..)
    split
    · exact wp_pure fun hnil => ⟨w1.log, hlog, h1, hread.symm.trans hnil⟩
    · exact ih (h1.mono hinv2.audited hlog)

/-- The answer after the fence. -/
lemma wp_settled (q : TerminateArgs) (reason : Reason) (hinv : Inv D w)
    (h : Terminated q.mountId w.log) :
    Yields D i (settled q reason)
      (fun t w' => (t.reason ≠ .terminatedInFlight → Settled q.mountId w'.log) ∧
        (Innocent i w → Innocent i w') ∧ w.log <+: w'.log) w := by
  refine wp_ordinary hinv (ordinary_of_common (only_settleInFlight _ _))
    (wp_log (wp_settleInFlight _ _ h))
    (fun inFlight w1 _ hinnocent ⟨hlog, hsettled⟩ => wp_pure ⟨fun hne => hsettled ?_, hinnocent,
      hlog⟩)
  by_contra hnot
  have hempty : inFlight.isEmpty = false := by simpa using hnot
  exact hne (by rw [hempty]; rfl)

/-- What the answer of a termination says, and what the session did. -/
def Ended (i : ℕ) (q : TerminateArgs) (w : World) (t : Termination) (w' : World) : Prop :=
  (t.decision = .allow → t.reason ≠ .terminatedInFlight → Settled q.mountId w'.log) ∧
    (Innocent i w → Owned q.mountId q.owner w.log → Concluded i q.mountId q.reason w'.log)

/-- A row that the session holds is as live as when it was read. -/
lemma Held.not_terminated {row : MountRow} (h : Held i m row w) (hlive : row.terminated = false) :
    ¬ Terminated m w.log := by
  rintro ⟨row', hrow', hterminated⟩
  obtain ⟨row'', hrow'', heq⟩ := h.mount
  obtain rfl := Option.some.inj (hrow'.symm.trans hrow'')
  rw [MountRow.congr_of_unconsumed_eq MountRow.terminated (fun _ => rfl) heq, hlive] at hterminated
  cases hterminated

/-- The fence. -/
lemma wp_terminateRow {q : TerminateArgs} {row : MountRow} (hheld : Held i q.mountId row w)
    (hlive : row.terminated = false) : Yields D i (terminateRow q row) (Ended i q w) w := by
  refine wp_bind (wp_anchor (fun r w1 hinv1 ho1 hinv => ?_))
  have hheld1 : Held i q.mountId row (w1.append (.anchored i
      (.terminate q.mountId .allow (.unmount q.reason)) r)) := (hheld.keeps ho1.keeps).anchored
  have hlive1 := (hheld.keeps ho1.keeps).not_terminated hlive
  split
  · next hrefused =>
    refine wp_bind (wp_rollback fun w2 _ ho2 => wp_pure ⟨nofun, fun h _ => ?_⟩)
    have hinnocent := (((h.others ho1).anchored _ r).others ho2).release
    refine .asked w1.log r ho2.log hlive1 (iff_of_false ?_ (by simpa using hrefused))
    rintro ⟨e, he, hterminates⟩
    exact hinnocent.entries e he _ hterminates
  · next haccepted =>
    refine wp_bind (wp_write (fun w2 _ ho2 => ?_) fun w2 _ ho2 hinv2 => ?_)
    · obtain ⟨row', hrow', heq⟩ := (hheld1.keeps ho2.keeps).mount
      refine ⟨⟨row', hrow', ?_⟩, fun m hm => ?_, .inl rfl⟩
      · change row.epoch + 1 = row'.epoch + 1
        rw [MountRow.congr_of_unconsumed_eq MountRow.epoch (fun _ => rfl) heq]
      · obtain rfl := mem_singleton.mp hm
        exact (hheld1.keeps ho2.keeps).lock
    · have hheld2 := (hheld1.keeps ho2.keeps).wrote (x := .updateMount q.mountId
        (.terminate (row.epoch + 1)))
      refine wp_call trivial fun _ w3 hinv3 hk3 _ => ?_
      refine wp_straight (straight_revokeLease _) hinv3 fun _ w4 hinv4 hk4 => ?_
      refine wp_bind (wp_commit_accepted (fun w5 _ ho5 haccepts hinv5 => ?_) fun _ _ _ _ => trivial)
      have hk := (hk3.trans hk4).trans ho5.keeps
      have hmem : Write.updateMount q.mountId (.terminate (row.epoch + 1)) ∈ w5.writes i := by
        refine hk.writes.subset ?_
        rw [World.writes_wrote_self]
        exact mem_concat_self
      obtain ⟨row', hrow', -⟩ := (hheld2.keeps hk).mount
      have hterminated : Terminated q.mountId (w5.committed i).log := by
        change Terminated _ (w5.log ++ [.commit i (w5.writes i)])
        unfold Terminated
        rw [Log.db_concat]
        exact Db.terminated_foldl_apply haccepts hrow' hmem
      refine wp_mono_inv hinv5 (wp_settled q .terminated hinv5 hterminated)
        (fun t w6 _ ⟨hsettled, _, hlog⟩ => ⟨fun _ => hsettled, fun _ _ => ?_⟩)
      -- the anchor was accepted, and the termination is committed
      refine .asked w1.log r (((ho2.log.trans hk.log).trans (prefix_append ..)).trans hlog) hlive1
        (iff_of_true ⟨.commit i (w5.writes i), hlog.subset mem_concat_self, w5.writes i, _, rfl,
          hmem⟩ (by simpa using haccepted))

/-- A termination that is refused, of a mount that the caller does not have. -/
lemma wp_terminateDenied (q : TerminateArgs) (reason : Reason)
    (h : ¬ Owned q.mountId q.owner w0.log) :
    Yields D i (terminateDenied q reason) (Ended i q w0) w :=
  wp_call trivial (fun _ _ _ _ _ => wp_bind (wp_commit (fun _ _ _ _ =>
    wp_pure ⟨nofun, fun _ howned => absurd howned h⟩)))

/-- `terminate_with_in_flight`. -/
theorem wp_terminateWithInFlight (q : TerminateArgs) (hinv : Inv D w) :
    Yields D i (terminateWithInFlight q) (Ended i q w) w := by
  refine wp_call_ordinary hinv trivial trivial fun row w1 hinv1 hinnocent hk1 hrow => ?_
  have hdenied : (∀ row', row = some row' → row'.isOwnedBy q.owner = false) →
      ¬ Owned q.mountId q.owner w.log := by
    intro hnone howned
    obtain ⟨row', hrow', howned'⟩ := howned.mono hinv1.audited hk1.log
    exact absurd ((hnone row' (hrow.1.trans hrow')).symm.trans howned') (by decide)
  cases row with
  | none =>
    exact wp_terminateDenied q _ (hdenied fun _ heq => absurd heq.symm (Option.some_ne_none _))
  | some row =>
    dsimp only
    split
    · next hother =>
      refine wp_terminateDenied q _ (hdenied fun row' heq => ?_)
      obtain rfl := Option.some.inj heq
      simpa using hother
    · split
      · next hterminated =>
        -- the mount is terminated already
        have hfound : Terminated q.mountId w1.log := ⟨row, hrow.1.symm, hterminated⟩
        have hcommit : Yields D i (perform .commit) (fun _ w' => ∃ found ws,
            w'.log = found ++ [.commit i ws] ∧ Terminated q.mountId found) w1 :=
          wp_commit fun w2 hinv2 ho2 _ =>
            ⟨w2.log, w2.writes i, rfl, hfound.mono hinv2.audited ho2.log⟩
        have honly : (perform .commit).Only Op.Ordinary := only_perform trivial
        refine wp_ordinary hinv1 honly hcommit
          (fun _ w2 hinv2 hinnocent2 ⟨found, ws, hlog, hfound⟩ => ?_)
        have hafter := hfound.mono hinv2.audited (hlog ▸ prefix_append ..)
        exact wp_mono_inv hinv2 (wp_settled q .alreadyTerminated hinv2 hafter)
          (fun t w3 _ ⟨hsettled, hinnocent3, hlog3⟩ => ⟨fun _ => hsettled, fun h0 _ =>
            .already found ws (hlog ▸ hlog3) hfound fun e he =>
              (hinnocent3 (hinnocent2 (hinnocent h0))).entries e he q.mountId⟩)
      · next hlive =>
        exact wp_mono_inv hinv1 (wp_terminateRow (.of_answer hrow) (by simpa using hlive))
          (fun t w2 _ h => ⟨h.1, fun h0 howned =>
            h.2 (hinnocent h0) (howned.mono hinv1.audited hk1.log)⟩)

end CapabilityMount
