import Mathlib.Data.Option.Basic
import Mathlib.Data.Nat.Notation

/-!
# Procedures that may be killed between durable writes

A procedure (`Proc`) runs on a machine, returns a value or stops with a fault, and keeps the
state changes it made before a fault. The machine has a budget: the number of durable
writes it will still perform before the process is killed (`none`: it is never killed).
`Proc.persist` is a durable write; when the budget is used up it stops the procedure with
the write not done.

Every statement about a procedure is one about its weakest precondition `Proc.wp`, with one
postcondition for returning and one for faults. The rules below compute it construct by
construct, so that a proof follows the text of the procedure.

## Main results

* `Proc.wp_bind`, `Proc.wp_tryCatch`, `Proc.wp_persist`: the rules of sequencing, handlers
  and durable writes;
* `Proc.wp_mono`: the rule of consequence;
* `Proc.wp_foldlM`: the rule of loops, from an invariant of the loop body.
-/

/-- A machine state with the number of durable writes left before the process is killed. -/
structure Machine (σ : Type) where
  world : σ
  budget : Option ℕ

/-- A procedure over the world `σ` with faults `ε`. -/
abbrev Proc (σ ε α : Type) := ExceptT ε (StateM (Machine σ)) α

namespace Proc

variable {σ ε α β : Type}

/-- The world as the procedure finds it. -/
def read : Proc σ ε σ := fun s => (.ok s.world, s)

/-- Change the world without a durable write. -/
def update (f : σ → σ) : Proc σ ε Unit := fun s => (.ok (), { s with world := f s.world })

/-- A durable write; a process whose budget is used up is killed instead. -/
def persist (killed : ε) (f : σ → σ) : Proc σ ε Unit := fun s =>
  match s.budget with
  | none => (.ok (), { s with world := f s.world })
  | some 0 => (.error killed, s)
  | some (n + 1) => (.ok (), { world := f s.world, budget := some n })

variable (fault : ε) (a : α)

/-- A value, or the given fault. -/
def ofOption : Option α → Proc σ ε α
  | some a => pure a
  | none => throw fault

/-- The outcome of a computation that does not touch the machine. -/
def ofExcept (x : Except ε α) : Proc σ ε α := fun s => (x, s)

/-- Fault unless the condition holds. -/
def ensure (c : Bool) : Proc σ ε Unit := if c then pure () else throw fault

/-- The weakest precondition: run from `s`, the procedure returns with `ok` or faults with
`bad`. -/
def wp (x : Proc σ ε α) (ok : α → Machine σ → Prop) (bad : ε → Machine σ → Prop)
    (s : Machine σ) : Prop :=
  match x s with
  | (.ok a, s') => ok a s'
  | (.error e, s') => bad e s'

variable {ok : α → Machine σ → Prop} {bad : ε → Machine σ → Prop} {s : Machine σ}

variable {bad' : ε → Machine σ → Prop} {ok' : α → Machine σ → Prop} {x : Proc σ ε α}

/-- The rule of consequence. -/
theorem wp_mono (h : x.wp ok bad s) (hok : ∀ a s', ok a s' → ok' a s')
    (hbad : ∀ e s', bad e s' → bad' e s') :
    x.wp ok' bad' s := by
  unfold wp at h ⊢
  split <;> rename_i heq <;> rw [heq] at h
  · exact hok _ _ h
  · exact hbad _ _ h

lemma ofOption_some : (ofOption fault (some a) : Proc σ ε α) = pure a := rfl

lemma ofExcept_ok : (ofExcept (.ok a) : Proc σ ε α) = pure a := rfl

lemma read_bind (f : σ → Proc σ ε α) : (read >>= f) s = f s.world s := rfl

variable {s' : Machine σ}

/-- Where the first procedure returns, what follows runs on. -/
theorem bind_run {x : Proc σ ε β} {f : β → Proc σ ε α} {b : β} (h : x s = (.ok b, s')) :
    (x >>= f) s = f b s' := by
  show (ExceptT.bindCont f <| (x s).1) (x s).2 = _
  rw [h]
  rfl

/-- Two facts about one run. -/
theorem wp_and (h : x.wp ok bad s) (h' : x.wp ok' bad' s) :
    x.wp (fun a s' => ok a s' ∧ ok' a s') (fun e s' => bad e s' ∧ bad' e s') s := by
  unfold wp at h h' ⊢
  split <;> rename_i heq <;> rw [heq] at h h' <;> exact ⟨h, h'⟩

/-- A weakest precondition speaks of the run itself. -/
theorem wp_run (h : x.wp ok bad s) :
    x.wp (fun a s' => x s = (.ok a, s') ∧ ok a s') (fun e s' => x s = (.error e, s') ∧ bad e s')
      s := by
  unfold wp at h ⊢
  split <;> rename_i heq <;> rw [heq] at h
  · exact ⟨heq, h⟩
  · exact ⟨heq, h⟩

/-- What holds of a result. -/
lemma ok_of_wp (h : x.wp ok bad s) {a : α} (hx : x s = (.ok a, s')) : ok a s' := by
  unfold wp at h
  rwa [hx] at h

/-- What holds after a fault. -/
lemma bad_of_wp (h : x.wp ok bad s) {e : ε} (hx : x s = (.error e, s')) : bad e s' := by
  unfold wp at h
  rwa [hx] at h

/-- However a run ends, it ends in the state it leaves. -/
theorem wp_of_run {r : Except ε α} (h : x s = (r, s')) :
    x.wp (fun _ t => t = s') (fun _ t => t = s') s := by
  unfold wp
  rw [h]
  cases r <;> rfl

/-- A procedure that cannot fault returns. -/
theorem returns_of_wp (h : x.wp ok (fun _ _ => False) s) : ∃ a s', x s = (.ok a, s') ∧ ok a s' := by
  unfold wp at h
  split at h
  · rename_i a s' heq
    exact ⟨a, s', heq, h⟩
  · exact h.elim

/-- A postcondition of both ends holds of the state a run leaves. -/
theorem state_of_wp (post : Machine σ → Prop)
    (h : x.wp (fun _ s' => post s') (fun _ s' => post s') s) : post (x s).2 := by
  unfold wp at h
  split at h <;> rename_i heq <;> rw [heq] <;> exact h

@[simp]
lemma wp_pure : (pure a : Proc σ ε α).wp ok bad s ↔ ok a s := Iff.rfl

@[simp]
lemma wp_throw (e : ε) : (throw e : Proc σ ε α).wp ok bad s ↔ bad e s := Iff.rfl

@[simp]
lemma wp_read {ok : σ → Machine σ → Prop} : read.wp ok bad s ↔ ok s.world s := Iff.rfl

@[simp]
lemma wp_update {ok : Unit → Machine σ → Prop} (f : σ → σ) :
    (update f).wp ok bad s ↔ ok () { s with world := f s.world } := Iff.rfl

/-- Sequencing: what follows runs where the first procedure returned; its faults end both. -/
@[simp]
theorem wp_bind (x : Proc σ ε β) (f : β → Proc σ ε α) :
    (x >>= f).wp ok bad s ↔ x.wp (fun b s' => (f b).wp ok bad s') bad s := by
  have hrun : (x >>= f) s = match x s with
    | (.ok b, s') => f b s'
    | (.error e, s') => (.error e, s') := by
    show (ExceptT.bindCont f <| (x s).1) (x s).2 = _
    rcases x s with ⟨_ | b, s'⟩ <;> rfl
  unfold wp
  rw [hrun]
  rcases x s with ⟨_ | b, s'⟩ <;> rfl

/-- Handlers: a fault of the body continues in the handler. -/
@[simp]
theorem wp_tryCatch (x : Proc σ ε α) (handler : ε → Proc σ ε α) : (tryCatch x handler).wp ok bad s ↔
      x.wp ok (fun e s' => (handler e).wp ok bad s') s := by
  have hrun : (tryCatch x handler) s = match x s with
    | (.ok a, s') => (.ok a, s')
    | (.error e, s') => handler e s' := by
    show (match (x s).1 with
      | .ok a => (pure (Except.ok a) : StateM (Machine σ) (Except ε α))
      | .error e => handler e) (x s).2 = _
    rcases x s with ⟨_ | a, s'⟩ <;> rfl
  unfold wp
  rw [hrun]
  rcases x s with ⟨_ | a, s'⟩ <;> rfl

/-- A branch is verified under its condition. -/
@[simp]
lemma wp_ite (c : Prop) [Decidable c] (x y : Proc σ ε α) :
    (if c then x else y).wp ok bad s ↔ (c → x.wp ok bad s) ∧ (¬c → y.wp ok bad s) := by
  by_cases h : c <;> simp [h]

@[simp]
lemma wp_ofOption_some : (ofOption fault (some a) : Proc σ ε α).wp ok bad s ↔ ok a s := Iff.rfl

@[simp]
lemma wp_ofOption_none : (ofOption fault none : Proc σ ε α).wp ok bad s ↔ bad fault s := Iff.rfl

@[simp]
lemma wp_ofExcept {x : Except ε α} : (ofExcept x : Proc σ ε α).wp ok bad s ↔
      (∀ a, x = .ok a → ok a s) ∧ ∀ e, x = .error e → bad e s := by
  cases x <;> simp [wp, ofExcept]

/-- A value that may be missing: both cases at once. -/
theorem wp_ofOption {fault : ε} {o : Option α} : (ofOption fault o : Proc σ ε α).wp ok bad s ↔
      (∀ a, o = some a → ok a s) ∧ (o = none → bad fault s) := by
  cases o <;> simp

@[simp]
lemma wp_ensure {ok : Unit → Machine σ → Prop} (fault : ε) (c : Bool) :
    (ensure fault c).wp ok bad s ↔ (c = true → ok () s) ∧ (c = false → bad fault s) := by
  cases c <;> simp [ensure]

/-- The machine after a durable write. -/
def written (f : σ → σ) (s : Machine σ) : Machine σ :=
  { world := f s.world, budget := s.budget.map (· - 1) }

/-- A durable write is done, or the process is killed before it. -/
@[simp]
theorem wp_persist {ok : Unit → Machine σ → Prop} (killed : ε) (f : σ → σ) :
    (persist killed f).wp ok bad s ↔
      (s.budget = some 0 → bad killed s) ∧ (s.budget ≠ some 0 → ok () (written f s)) := by
  obtain ⟨w, budget⟩ := s
  rcases budget with - | (- | n) <;> simp [wp, persist, written]

/-- Loops: an invariant of the loop body holds after the loop. -/
theorem wp_foldlM {ι γ : Type} {f : γ → ι → Proc σ ε γ} {I : γ → Machine σ → Prop} {xs : List ι}
    (hstep : ∀ x ∈ xs, ∀ c s, I c s → (f c x).wp I bad s) {c : γ} (hc : I c s) :
    (xs.foldlM f c).wp I bad s := by
  induction xs generalizing c s with
  | nil => exact hc
  | cons x xs ih =>
    rw [List.foldlM_cons, wp_bind]
    refine wp_mono (hstep x List.mem_cons_self c s hc) (fun d s' hd => ?_) fun _ _ h => h
    exact ih (fun y hy => hstep y (List.mem_cons_of_mem _ hy)) hd

end Proc
