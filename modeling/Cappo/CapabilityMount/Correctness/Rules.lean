import Cappo.CapabilityMount.Correctness.Discipline
import Cappo.CapabilityMount.Correctness.Shape

/-!
# Rules for the calls of a session

The rules by which a program of the service is verified. In a transaction, a session keeps its
locks and what they protect (`Keeps`), and learns from each answer (`Op.Says`). After a commit
or an exception only what the log says is known.

## Main results

* `wp_quiet`: a call that ends no transaction and needs no justification;
* `wp_write`, `wp_commit`, `wp_rollback`, `wp_dispatch`: the other calls;
* `wp_log`: the log of a program only grows.
-/

namespace CapabilityMount

open VdbC1 (PyStr)
open List Option

variable {D : Deployment} {i : ℕ} {α β : Type}

/-! ## In a transaction -/

/-- What a session has of an earlier moment of its transaction. -/
structure Keeps (i : ℕ) (w w' : World) : Prop where
  log : w.log <+: w'.log
  locks : ∀ m, w.locks m = some i → w'.locks m = some i
  fenced : ∀ m, w.locks m = some i → Fenced m w.log w'.log
  writes : w.writes i <+: w'.writes i
  receipts : (w'.writes i).flatMap Write.receipts = (w.writes i).flatMap Write.receipts

lemma Others.keeps {w w' : World} (h : Others i w w') : Keeps i w w' :=
  ⟨h.log, h.locks, h.fenced, h.writes ▸ prefix_rfl, by rw [h.writes]⟩

variable {x : Write}

namespace Keeps

variable {w w1 w2 : World}

lemma refl (i : ℕ) (w : World) : Keeps i w w := (Others.refl i w).keeps

lemma trans (h1 : Keeps i w w1) (h2 : Keeps i w1 w2) : Keeps i w w2 where
  log := h1.log.trans h2.log
  locks m hm := h2.locks m (h1.locks m hm)
  fenced m hm := (h1.fenced m hm).trans (h2.fenced m (h1.locks m hm))
  writes := h1.writes.trans h2.writes
  receipts := h2.receipts.trans h1.receipts

lemma wrote (hx : x.receipts = []) : Keeps i w (w.wrote i x) where
  log := prefix_rfl
  locks _ hm := hm
  fenced m _ := .refl m _
  writes := World.writes_wrote_self x ▸ prefix_append ..
  receipts := by
    rw [World.writes_wrote_self, flatMap_append, flatMap_singleton, hx, append_nil]

end Keeps

/-- A session holds the lock of a mount, whose row is as given but for the consumed flag. -/
structure Held (i : ℕ) (m : PyStr) (row : MountRow) (w : World) : Prop where
  lock : w.locks m = some i
  mount : ∃ row', w.db.mounts m = some row' ∧ row'.unconsumed = row.unconsumed

variable {m : PyStr} {row : MountRow}

lemma Held.keeps {w w' : World} (h : Held i m row w) (hk : Keeps i w w') : Held i m row w' where
  lock := hk.locks m h.lock
  mount := by
    obtain ⟨row1, hrow1, heq1⟩ := h.mount
    obtain ⟨row2, hrow2, heq2⟩ := (hk.fenced m h.lock).mounts row1 hrow1
    exact ⟨row2, hrow2, heq2.trans heq1⟩

lemma Held.wrote {w : World} (h : Held i m row w) : Held i m row (w.wrote i x) :=
  ⟨h.lock, h.mount⟩

/-- What is anchored changes no table. -/
theorem Held.anchored {w : World} {e : AnchorEvent} {r : AnchorResult} (h : Held i m row w) :
    Held i m row (w.append (.anchored i e r)) where
  lock := h.lock
  mount := by
    obtain ⟨row', hrow', heq⟩ := h.mount
    exact ⟨row', (congrArg (fun db => db.mounts m) (Log.db_concat ..)).trans hrow', heq⟩

lemma Held.isSome {w : World} (h : Held i m row w) : (w.db.mounts m).isSome = true := by
  obtain ⟨row', hrow', -⟩ := h.mount
  exact isSome_of_eq_some hrow'

/-- The row of a locking read. -/
lemma Held.of_answer {w : World}
    (h : some row = w.db.mounts m ∧ ((some row).isSome = true → w.locks m = some i)) :
    Held i m row w :=
  ⟨h.2 rfl, row, h.1.symm, rfl⟩

/-! ## What an answer says -/

/-- What a session learns from the answer to a call. -/
def Op.Says (i : ℕ) : (op : Op) → Val op → World → Prop
  | .lockMount m, v, w => v = w.db.mounts m ∧ (v.isSome = true → w.locks m = some i)
  | .lease m, v, w => ∀ lease, w.db.leases m = some lease →
      ∃ seen, v = some seen ∧ seen.SameBounds lease
  | .latestEvent operationId, v, w => v = w.db.latestEvent operationId
  | .latestOfExecution _, v, w => ∀ e, v = some e → e ∈ w.db.events
  | .inFlight m, v, w => v = w.db.inFlightOperations m
  | .receipt receiptId, v, w => v = w.db.receipts.find? fun r => r.receiptId = receiptId
  | .priorReceipt tokenId, v, w =>
    v = w.db.receipts.any fun r => r.tokenId = tokenId && r.decision = .allow
  | .now, v, w => v = w.log.now
  | .permitMatches _ _ permit, v, w =>
    v = true → ∃ p ∈ w.log.permits, permitMessage p = permitMessage permit
  | .anchor e, v, w => .anchored i e v ∈ w.log
  | _, _, _ => True

variable {op : Op}

section Answers

variable {w w' : World} {a : Answer}

/-- A lease that is seen as it was earlier has the bounds of the present one. -/
lemma says_lease (hinv : Inv D w) (m : PyStr) : (Op.lease m).Says i (w.leaseSeen m a) w := by
  intro lease hlease
  unfold World.leaseSeen
  split
  · next n =>
    cases hseen : (Log.db (w.log.take n)).leases m with
    | none => exact ⟨lease, hlease, rfl, rfl⟩
    | some seen =>
      refine ⟨seen, rfl, ?_⟩
      have hmount := Log.mounts_isSome_of_lease (isSome_of_eq_some hseen)
      have hread := take_prefix n w.log
      obtain ⟨-, hsome⟩ := Log.leases_evolve hinv.audited hread hmount
      obtain ⟨lease', hlease', hbounds⟩ := hsome seen hseen
      obtain rfl := mem_unique hlease' hlease
      exact hbounds
  · exact ⟨lease, hlease, rfl, rfl⟩

lemma says_latestOfExecution {executionId : PyStr} {v : Option Event}
    (h : w.lastOfExecution executionId a = some v) :
    (Op.latestOfExecution executionId).Says i v w := by
  rintro e rfl
  unfold World.lastOfExecution at h
  dsimp only at h
  split at h
  · split at h
    · next hmem =>
      obtain rfl := some.inj (some.inj h)
      exact (mem_filter.mp hmem.1).1
    · nomatch h
  · split at h
    · nomatch some.inj h
    · nomatch h

lemma reading_ok {v v' : α} (h : w.reading i a v = some (.ok v', w')) : v' = v ∧ w' = w := by
  rcases reading_cases h with ⟨hr, -⟩ | ⟨hr, hw⟩
  · nomatch hr
  · exact ⟨Except.ok.inj hr, hw⟩

variable {v : Option α}

lemma chosen_ok {v' : α} (h : w.chosen i a v = some (.ok v', w')) : v = some v' ∧ w' = w := by
  rcases chosen_cases h with ⟨hr, -⟩ | ⟨x, hr, hv, hw⟩
  · nomatch hr
  · exact ⟨Except.ok.inj hr ▸ hv, hw⟩

lemma keeps_reading {v v' : α} (h : w.reading i a v = some (.ok v', w')) : Keeps i w w' := by
  obtain ⟨-, rfl⟩ := reading_ok h
  exact .refl i _

lemma keeps_chosen {v' : α} (h : w.chosen i a v = some (.ok v', w')) : Keeps i w w' := by
  obtain ⟨-, rfl⟩ := chosen_ok h
  exact .refl i _

lemma keeps_locked (hfree : w.locks m = none ∨ w.locks m = some i) : Keeps i w (w.locked i m) :=
  ⟨prefix_rfl, fun _ hm => World.locks_locked hfree hm, fun m _ => .refl m _, prefix_rfl, rfl⟩

/-- A quiet call that returns keeps the transaction, and the session learns from it. -/
lemma exec_ok (hinv : Inv D w) (hop : op.Quiet) {v : Val op}
    (h : D.exec i op a w = some (.ok v, w')) : Keeps i w w' ∧ op.Says i v w' := by
  cases op with
  | lockMount m =>
    rcases lockMount_cases h with ⟨hr, -⟩ | ⟨hr, hnone, rfl⟩ | ⟨row, hr, hsome, hfree, rfl⟩
    · nomatch hr
    · cases hr
      exact ⟨.refl i _, hnone.symm, nofun⟩
    · cases hr
      exact ⟨keeps_locked hfree, hsome.symm, fun _ => Function.update_self ..⟩
  | updateSequence =>
    rcases updateSequence_cases h with ⟨hr, -⟩ | ⟨-, rfl⟩ | ⟨-, -, -, rfl⟩
    · nomatch hr
    · exact ⟨.refl i _, trivial⟩
    · exact ⟨{ Keeps.wrote (i := i) (w := w) (x := .incrementSequence) rfl with }, trivial⟩
  | anchor e =>
    rcases anchor_cases h with ⟨hr, -⟩ | ⟨result, hr, rfl⟩
    · nomatch hr
    · cases hr
      refine ⟨⟨prefix_append .., fun _ hm => hm, fun m _ => ?_, prefix_rfl, rfl⟩, mem_concat_self⟩
      have he : Entry.Justified D w.log (.anchored i e v) := trivial
      exact Entry.fenced he fun _ hx => nomatch hx
  | permitMatches key presented permit =>
    obtain ⟨rfl, hminted⟩ := permitMatches_cases h
    exact ⟨.refl i _, fun hv => hminted (congrArg Except.ok hv)⟩
  | lease m =>
    obtain ⟨rfl, rfl⟩ := reading_ok h
    exact ⟨.refl i _, says_lease hinv m⟩
  | latestOfExecution executionId =>
    obtain ⟨hv, rfl⟩ := chosen_ok h
    exact ⟨.refl i _, says_latestOfExecution hv⟩
  | latestEvent | inFlight | receipt | priorReceipt =>
    obtain ⟨rfl, rfl⟩ := reading_ok h
    exact ⟨.refl i _, rfl⟩
  | now =>
    obtain ⟨hv, rfl⟩ := Prod.mk.inj (some.inj h)
    exact ⟨.refl i _, (Except.ok.inj hv).symm⟩
  | isRevoked m =>
    cases h
    exact ⟨.refl i _, trivial⟩
  | markRevoked m =>
    cases h
    exact ⟨{ Keeps.refl i w with }, trivial⟩
  | evidenceConsumed | selectNextValue | audit => exact ⟨keeps_reading h, trivial⟩
  | isOnline | fresh | connectorEvidence => exact ⟨keeps_chosen h, trivial⟩
  | commit | rollback | dispatch | write => exact hop.elim

variable {e : Exn}

lemma reading_error {v : α} (h : w.reading i a v = some (.error e, w')) : e = .database := by
  rcases reading_cases h with ⟨hr, -⟩ | ⟨hr, -⟩
  · exact Except.error.inj hr
  · nomatch hr

lemma chosen_error (h : w.chosen i a v = some (.error e, w')) : e = .database := by
  rcases chosen_cases h with ⟨hr, -⟩ | ⟨x, hr, -⟩
  · exact Except.error.inj hr
  · nomatch hr

/-- A quiet call that raises was ended by the database, or changed nothing. -/
lemma exec_error (hop : op.Quiet) (h : D.exec i op a w = some (.error e, w')) :
    e = .database ∨ w' = w := by
  cases op with
  | lockMount m =>
    rcases lockMount_cases h with ⟨hr, -⟩ | ⟨hr, -⟩ | ⟨row, hr, -⟩
    · exact .inl (Except.error.inj hr)
    · nomatch hr
    · nomatch hr
  | updateSequence =>
    rcases updateSequence_cases h with ⟨hr, -⟩ | ⟨hr, -⟩ | ⟨hr, -⟩
    · exact .inl (Except.error.inj hr)
    · nomatch hr
    · nomatch hr
  | anchor e =>
    rcases anchor_cases h with ⟨hr, -⟩ | ⟨result, hr, -⟩
    · exact .inl (Except.error.inj hr)
    · nomatch hr
  | permitMatches key presented permit => exact .inr (permitMatches_cases h).1
  | now | isRevoked | markRevoked => exact absurd (Prod.mk.inj (some.inj h)).1 nofun
  | latestOfExecution | isOnline | fresh | connectorEvidence => exact .inl (chosen_error h)
  | lease | latestEvent | inFlight | receipt | priorReceipt | evidenceConsumed | selectNextValue
  | audit => exact .inl (reading_error h)
  | commit | rollback | dispatch | write => exact hop.elim

end Answers

/-! ## The rules -/

/-- The log only grows. -/
theorem Effect.log {w w' : World} (h : Effect i w op w') : w.log <+: w'.log := by
  cases h with
  | committed | anchored | dispatched => exact prefix_append ..
  | _ => exact prefix_rfl

lemma exec_log {w w' : World} {a : Answer} (op : Op) {r : Except Exn (Val op)}
    (h : (machine D).exec i op a w = some (r, w')) : w.log <+: w'.log := (exec_effect h).log

variable {p : Proc α}

section Wp

open Sessions.Discipline

variable {w : World} {E : Exn → World → Prop}

/-- A call that ends no transaction and needs no justification. -/
theorem wp_quiet {Q : Val op → World → Prop} (hop : op.Quiet)
    (hok : ∀ v w', Inv D w' → Keeps i w w' → op.Says i v w' → Q v w')
    (herror : ∀ e w', Inv D w' → w.log <+: w'.log → e = .database ∨ Keeps i w w' → E e w') :
    (discipline D).wp i (perform op) Q E w := by
  refine wp_perform fun w1 ho hinv1 =>
    ⟨?_, fun a w2 hinv2 => ⟨fun v hexec => ?_, fun e hexec => ?_⟩⟩
  · cases op with
    | write | dispatch => exact hop.elim
    | _ => trivial
  · obtain ⟨hkeeps, hsays⟩ := exec_ok hinv1 hop hexec
    exact hok v w2 hinv2 (ho.keeps.trans hkeeps) hsays
  · refine herror e w2 hinv2 (ho.log.trans (exec_effect hexec).log) ?_
    refine (exec_error hop hexec).imp_right ?_
    rintro rfl
    exact ho.keeps

/-- A quiet call, and what follows from its answer. -/
lemma wp_call' {f : Val op → Proc β} {Q : β → World → Prop} (hop : op.Quiet)
    (hf : ∀ v w', Inv D w' → Keeps i w w' → op.Says i v w' → (discipline D).wp i (f v) Q E w')
    (hE : ∀ e w', Inv D w' → w.log <+: w'.log → E e w') :
    (discipline D).wp i (perform op >>= f) Q E w :=
  wp_bind (wp_quiet hop hf fun e w' hinv hlog _ => hE e w' hinv hlog)

lemma wp_call {f : Val op → Proc β} {Q : β → World → Prop} (hop : op.Quiet)
    (hf : ∀ v w', Inv D w' → Keeps i w w' → op.Says i v w' → Yields D i (f v) Q w') :
    Yields D i (perform op >>= f) Q w :=
  wp_call' hop hf fun _ _ _ _ => trivial

variable {Q : Unit → World → Prop}

/-- A write is added to the transaction. -/
theorem wp_write (hlegal : ∀ w1, Inv D w1 → Others i w w1 → Legal D i (.write x) w1)
    (h : ∀ w1, Inv D w1 → Others i w w1 → Inv D (w1.wrote i x) → Q () (w1.wrote i x)) :
    (discipline D).wp i (perform (.write x)) Q E w := by
  refine wp_perform fun w1 ho hinv1 => ⟨hlegal w1 hinv1 ho, fun a w2 hinv2 => ⟨fun v hexec => ?_,
    fun e hexec => absurd (Prod.mk.inj (some.inj hexec)).1 nofun⟩⟩
  cases hexec
  exact h w1 hinv1 ho hinv2

/-- The transaction takes effect if no constraint is violated, or an exception is raised. -/
lemma wp_commit_accepted (hok : ∀ w1, Inv D w1 → Others i w w1 → w1.db.acceptsAll (w1.writes i)
      = true → Inv D (w1.committed i) → Q () (w1.committed i))
    (herror : ∀ e w', Inv D w' → w.log <+: w'.log → E e w') :
    (discipline D).wp i (perform .commit) Q E w := by
  refine wp_perform fun w1 ho hinv1 => ⟨trivial, fun a w2 hinv2 => ⟨fun v hexec => ?_,
    fun e hexec => herror e w2 hinv2 (ho.log.trans (exec_log .commit hexec))⟩⟩
  rcases commit_cases hexec with ⟨⟨e, hr⟩, -⟩ | ⟨haccepts, -, rfl⟩
  · nomatch hr
  · exact hok w1 hinv1 ho haccepts hinv2

section

variable (hok : ∀ w1, Inv D w1 → Others i w w1 → Inv D (w1.committed i) → Q () (w1.committed i))

include hok

lemma wp_commit' (herror : ∀ e w', Inv D w' → w.log <+: w'.log → E e w') :
    (discipline D).wp i (perform .commit) Q E w :=
  wp_commit_accepted (fun w1 hinv1 ho _ hinv => hok w1 hinv1 ho hinv) herror

lemma wp_commit : Yields D i (perform .commit) Q w :=
  wp_commit' hok fun _ _ _ _ => trivial

end

/-- What is anchored is in the log. -/
lemma wp_anchor {event : AnchorEvent} {Q : AnchorResult → World → Prop}
    (hok : ∀ r w1, Inv D w1 → Others i w w1 → Inv D (w1.append (.anchored i event r)) →
      Q r (w1.append (.anchored i event r))) :
    Yields D i (perform (.anchor event)) Q w := by
  refine wp_perform fun w1 ho hinv1 => ⟨trivial, fun a w2 hinv2 => ⟨fun v hexec => ?_,
    fun _ _ => trivial⟩⟩
  rcases anchor_cases hexec with ⟨hr, -⟩ | ⟨r, hr, rfl⟩
  · nomatch hr
  · cases hr
    exact hok _ w1 hinv1 ho hinv2

/-- The transaction is taken back. -/
theorem wp_rollback (h : ∀ w1, Inv D w1 → Others i w w1 → Q () (w1.release i)) :
    (discipline D).wp i (perform .rollback) Q E w := by
  refine wp_perform fun w1 ho hinv1 => ⟨trivial, fun a w2 _ => ⟨fun v hexec => ?_,
    fun e hexec => absurd (Prod.mk.inj (some.inj hexec)).1 nofun⟩⟩
  cases hexec
  exact h w1 hinv1 ho

/-- A target is called. -/
theorem wp_dispatch {d : Dispatch} {permitReceipt : Option (Option PyStr)}
    {Q : Except Exn VdbC1.Json → World → Prop}
    (hlegal : ∀ w1, Inv D w1 → Others i w w1 → Legal D i (.dispatch d permitReceipt) w1)
    (h : ∀ v w', Inv D w' → w.log <+: w'.log → Q v w') :
    (discipline D).wp i (perform (.dispatch d permitReceipt)) Q E w := by
  refine wp_perform fun w1 ho hinv1 => ⟨hlegal w1 hinv1 ho, fun a w2 hinv2 => ⟨fun v hexec =>
    h v w2 hinv2 (ho.log.trans (exec_log (.dispatch d permitReceipt) hexec)), fun e hexec => ?_⟩⟩
  obtain ⟨outcome, payloads, hr, -⟩ := dispatch_cases hexec
  nomatch hr

/-- The log of a program only grows. -/
theorem wp_log {Q : α → World → Prop} (h : (discipline D).wp i p Q E w) :
    (discipline D).wp i p (fun a w' => w.log <+: w'.log ∧ Q a w')
      (fun e w' => w.log <+: w'.log ∧ E e w') w :=
  wp_only (D := discipline D) (P := fun _ => True) (R := fun w w' => w.log <+: w'.log)
    (fun _ => prefix_rfl) (fun _ _ _ => List.IsPrefix.trans)
    (fun _ _ (ho : Others i _ _) _ => ho.log)
    (fun op _ _ _ _ _ _ _ hexec => exec_log op hexec)
    (Sessions.Program.only_of_forall (fun _ => trivial) p) h

end Wp

/-! ## Quiet programs -/

lemma Write.Free.receipts (h : x.Free) : x.receipts = [] := by
  cases x with
  | insertReceipt r => exact h.elim
  | _ => rfl

lemma Write.Free.legal (h : x.Free) (w : World) : Legal D i (.write x) w := by
  refine ⟨?_, ?_, .inl h.receipts⟩
  · cases x <;> trivial
  · cases x <;> first | exact fun _ hm => absurd hm not_mem_nil | exact h.elim

/-- A program that keeps the transaction of its session, unless the database raises. -/
def Quiet (D : Deployment) (i : ℕ) (p : Proc α) : Prop :=
  ∀ w, Inv D w → (discipline D).wp i p (fun _ w' => Keeps i w w')
    (fun e w' => e = .database ∨ Keeps i w w') w

variable {handler : Exn → Proc α}

variable {f : α → Proc β}

namespace Quiet

open Sessions.Discipline

lemma pure (a : α) : Quiet D i (Pure.pure a : Proc α) := fun w _ => wp_pure (.refl i w)

lemma throw (e : Exn) : Quiet D i (MonadExcept.throw e : Proc α) :=
  fun w _ => wp_throw (.inr (.refl i w))

lemma perform (hop : op.Mild) : Quiet D i (CapabilityMount.perform op) := by
  intro w _
  have hquiet : op.Quiet → (discipline D).wp i (CapabilityMount.perform op)
      (fun _ w' => Keeps i w w') (fun e w' => e = .database ∨ Keeps i w w') w :=
    fun h => wp_quiet h (fun _ _ _ hk _ => hk) fun _ _ _ _ he => he
  cases op with
  | write x =>
    exact wp_write (fun w1 _ _ => Write.Free.legal hop w1)
      fun _ _ ho _ => ho.keeps.trans (.wrote (Write.Free.receipts hop))
  | anchor e => exact hquiet trivial
  | _ => exact hquiet hop

/-- A program from a moment of the same transaction. -/
theorem after (hp : Quiet D i p) {w w1 : World} (hk : Keeps i w w1) (hinv : Inv D w1) :
    (discipline D).wp i p (fun _ w' => Keeps i w w')
      (fun e w' => e = .database ∨ Keeps i w w') w1 :=
  wp_mono_inv' hinv (hp w1 hinv) (fun _ _ _ hk' => hk.trans hk')
    fun _ _ _ he => he.imp_right hk.trans

lemma bind (hp : Quiet D i p) (hf : ∀ a, Quiet D i (f a)) : Quiet D i (p >>= f) :=
  fun w hinv => wp_seq' hinv (hp w hinv) (fun a _ hinv1 hk => (hf a).after hk hinv1)
    fun _ _ _ he => he

/-- A program of mild calls without handlers. -/
lemma of_straight (hp : p.Straight Op.Mild) : Quiet D i p := by
  induction hp with
  | done r =>
    cases r with
    | ok a => exact .pure a
    | error e => exact .throw e
  | call op_ok ok error ih =>
    rw [Sessions.Program.Straight.call_eq_bind error]
    exact .bind (.perform op_ok) ih

/-- A handler that passes the exceptions of the database on. -/
lemma tryCatch (hp : Quiet D i p) (hdatabase : handler .database = MonadExcept.throw .database)
    (hhandler : ∀ e, Quiet D i (handler e)) : Quiet D i (tryCatch p handler) := by
  intro w hinv
  refine wp_tryCatch (wp_mono_inv' hinv (hp w hinv) (fun _ _ _ hk => hk) ?_)
  rintro e w' hinv' (rfl | hk)
  · rw [hdatabase]
    exact wp_throw (.inl rfl)
  · exact (hhandler e).after hk hinv'

/-- What a quiet program is followed by. -/
theorem wp_bind (hp : Quiet D i p) {w : World} (hinv : Inv D w) {Q : β → World → Prop}
    {E : Exn → World → Prop}
    (hf : ∀ a w', Inv D w' → Keeps i w w' → (discipline D).wp i (f a) Q E w')
    (hE : ∀ e w', Inv D w' → E e w') : (discipline D).wp i (p >>= f) Q E w :=
  wp_seq' hinv (hp w hinv) hf fun e w' hinv' _ => hE e w' hinv'

end Quiet

/-- A straight program of mild calls, and what follows it. -/
lemma wp_straight (hp : p.Straight Op.Mild) {w : World} (hinv : Inv D w) {Q : β → World → Prop}
    (hf : ∀ a w', Inv D w' → Keeps i w w' → Yields D i (f a) Q w') : Yields D i (p >>= f) Q w :=
  (Quiet.of_straight hp).wp_bind hinv hf fun _ _ _ => trivial

/-! ## Safe programs -/

/-- A program that can be run from any moment. -/
def Safe (D : Deployment) (i : ℕ) (p : Proc α) : Prop :=
  ∀ w, Inv D w → Yields D i p (fun _ _ => True) w

namespace Safe

open Sessions.Discipline

/-- A program of calls that need no justification. -/
lemma of_only (hp : p.Only Op.Free) : Safe D i p := by
  intro w hinv
  induction p generalizing w with
  | done r => cases r <;> trivial
  | call op next ih =>
    intro w1 _ hinv1
    have hlegal : Legal D i op w1 := by
      cases op with
      | write x => exact Write.Free.legal hp.1 w1
      | dispatch d permitReceipt => exact hp.1.elim
      | _ => trivial
    exact ⟨hlegal, fun a r w2 hexec =>
      ih r (hp.2 r) w2 ((discipline D).call hinv1 hlegal hexec).1⟩

lemma bind (hp : Safe D i p) (hf : ∀ a, Safe D i (f a)) : Safe D i (p >>= f) :=
  fun w hinv => wp_seq' hinv (hp w hinv) (fun a w' hinv' _ => hf a w' hinv') fun _ _ _ _ => trivial

lemma tryCatch (hp : Safe D i p) (hh : ∀ e, Safe D i (handler e)) : Safe D i (tryCatch p handler) :=
  fun w hinv => wp_tryCatch (wp_mono_inv' hinv (hp w hinv) (fun _ _ _ h => h)
    fun e w' hinv' _ => hh e w' hinv')

lemma attempt (hp : Safe D i p) : Safe D i p.attempt :=
  tryCatch (bind hp fun _ _ _ => trivial) fun _ _ _ => trivial

end Safe

end CapabilityMount
