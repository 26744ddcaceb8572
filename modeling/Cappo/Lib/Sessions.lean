import Mathlib.Tactic.Common

/-!
# Interleaved sessions

Programs of any number of sessions that share a state. A program is a tree of calls: each call
returns or raises, and what the program does next depends on it. A session serves one request.
A schedule starts sessions, interleaves their calls, kills them, and lets the environment act.

What every schedule keeps is proved session by session. A `Discipline` has an invariant of the
shared state, says which calls are legal in which state, and says what one session may see of
the others between two of its own calls. `Discipline.wp` is the weakest precondition under
which a program makes legal calls only, whatever the others do meanwhile.

## Main results

* `Discipline.wp_bind`, `Discipline.wp_perform`, `Discipline.wp_tryCatch`: the rules;
* `Discipline.wp_only`: what a program keeps because of the calls it is made of;
* `Discipline.sound`: if every program is safe, every schedule keeps the invariant, and a
  finished session has its postcondition.
-/

namespace Sessions

open Option Function

/-- A program of one session. -/
inductive Program (Op : Type) (Val : Op → Type) (ε α : Type) where
  | done (r : Except ε α)
  | call (op : Op) (next : Except ε (Val op) → Program Op Val ε α)

variable {Op : Type} {Val : Op → Type} {ε α β σ ω η ρ : Type}

namespace Program

/-- Run `f` on the result; an exception ends the whole. -/
def bind (p : Program Op Val ε α) (f : α → Program Op Val ε β) : Program Op Val ε β :=
  match p with
  | done (.ok a) => f a
  | done (.error e) => done (.error e)
  | call op next => call op fun r => (next r).bind f

/-- `try p except e: handler e`. -/
def tryCatch (p : Program Op Val ε α) (handler : ε → Program Op Val ε α) : Program Op Val ε α :=
  match p with
  | done (.ok a) => done (.ok a)
  | done (.error e) => handler e
  | call op next => call op fun r => (next r).tryCatch handler

instance : Monad (Program Op Val ε) where
  pure a := done (.ok a)
  bind := bind

instance : MonadExceptOf ε (Program Op Val ε) where
  throw e := done (.error e)
  tryCatch := tryCatch

/-- A single call. -/
def perform (op : Op) : Program Op Val ε (Val op) := call op done

/-- The result of a program or the exception that ended it, as a value. -/
def attempt (p : Program Op Val ε α) : Program Op Val ε (Except ε α) :=
  tryCatch (do return .ok (← p)) fun e => pure (.error e)

/-- Every call the program can make satisfies `P`. -/
def Only (P : Op → Prop) : Program Op Val ε α → Prop
  | done _ => True
  | call op next => P op ∧ ∀ r, Only P (next r)

section Only

variable {P : Op → Prop}

lemma only_pure (a : α) : Only P (pure a : Program Op Val ε α) := trivial

/-- Every program makes calls that are all allowed. -/
lemma only_of_forall (h : ∀ op, P op) (p : Program Op Val ε α) : Only P p := by
  induction p with
  | done r => trivial
  | call op next ih => exact ⟨h op, ih⟩

lemma only_throw (e : ε) : Only P (throw e : Program Op Val ε α) := trivial

variable {op : Op}

lemma only_perform (h : P op) : Only P (perform op : Program Op Val ε _) :=
  ⟨h, fun _ => trivial⟩

variable {f : α → Program Op Val ε β} {p : Program Op Val ε α}

lemma only_bind (hp : Only P p) (hf : ∀ a, Only P (f a)) : Only P (p >>= f) := by
  induction p with
  | done r =>
    cases r with
    | ok a => exact hf a
    | error e => trivial
  | call op next ih => exact ⟨hp.1, fun r => ih r (hp.2 r)⟩

/-- A call, and what follows it. -/
theorem only_call {f : Val op → Program Op Val ε β} (h : P op) (hf : ∀ v, Only P (f v)) :
    Only P (perform op >>= f) := only_bind (only_perform h) hf

variable {handler : ε → Program Op Val ε α}

lemma only_tryCatch (hp : Only P p) (hh : ∀ e, Only P (handler e)) :
    Only P (tryCatch p handler) := by
  induction p with
  | done r =>
    cases r with
    | ok a => trivial
    | error e => exact hh e
  | call op next ih => exact ⟨hp.1, fun r => ih r (hp.2 r)⟩

lemma only_attempt (hp : Only P p) : Only P p.attempt :=
  only_tryCatch (only_bind hp fun _ => trivial) fun _ => trivial

lemma Only.mono {P' : Op → Prop} (hp : Only P p) (h : ∀ op, P op → P' op) : Only P' p := by
  induction p with
  | done r => trivial
  | call op next ih => exact ⟨h op hp.1, fun r => ih r (hp.2 r)⟩

end Only

/-- A program without handlers, whose calls satisfy `P`: an exception ends it. -/
inductive Straight (P : Op → Prop) : Program Op Val ε α → Prop
  | done (r : Except ε α) : Straight P (done r)
  | call {op : Op} {next : Except ε (Val op) → Program Op Val ε α} (op_ok : P op)
      (ok : ∀ v, Straight P (next (.ok v))) (error : ∀ e, next (.error e) = done (.error e)) :
      Straight P (call op next)

namespace Straight

variable {P : Op → Prop}

lemma pure (a : α) : Straight P (Pure.pure a : Program Op Val ε α) := .done _

lemma throw (e : ε) : Straight P (MonadExcept.throw e : Program Op Val ε α) := .done _

lemma perform (h : P op) : Straight P (Program.perform op : Program Op Val ε _) :=
  .call h (fun _ => .done _) fun _ => rfl

lemma bind (hp : Straight P p) (hf : ∀ a, Straight P (f a)) : Straight P (p >>= f) := by
  induction hp with
  | done r =>
    cases r with
    | ok a => exact hf a
    | error e => exact .done _
  | call op_ok ok error ih =>
    refine .call op_ok ih fun e => ?_
    rw [error e]
    rfl

lemma next {f : Val op → Program Op Val ε β} (h : P op) (hf : ∀ v, Straight P (f v)) :
    Straight P (Program.perform op >>= f) := bind (perform h) hf

lemma mono {P' : Op → Prop} (hp : Straight P p) (h : ∀ op, P op → P' op) : Straight P' p := by
  induction hp with
  | done r => exact .done r
  | call op_ok ok error ih => exact .call (h _ op_ok) ih error

lemma only (hp : Straight P p) : Only P p := by
  induction hp with
  | done r => trivial
  | call op_ok ok error ih =>
    refine ⟨op_ok, fun r => ?_⟩
    cases r with
    | ok v => exact ih v
    | error e =>
      rw [error e]
      trivial

/-- A call without a handler is followed by the rest when it returns. -/
theorem call_eq_bind {next : Except ε (Val op) → Program Op Val ε α}
    (error : ∀ e, next (.error e) = .done (.error e)) :
    Program.call op next = Program.perform op >>= fun v => next (.ok v) := by
  change Program.call op next = Program.call op _
  congr 1
  funext r
  cases r with
  | ok v => rfl
  | error e => exact error e

end Straight

/-- The calls of a program satisfy `P` until it is a program of a certain kind. -/
inductive Until (B : Program Op Val ε α → Prop) (P : Op → Prop) : Program Op Val ε α → Prop
  | stop {p : Program Op Val ε α} (h : B p) : Until B P p
  | done (r : Except ε α) : Until B P (done r)
  | call {op : Op} {next : Except ε (Val op) → Program Op Val ε α} (op_ok : P op)
      (rest : ∀ r, Until B P (next r)) : Until B P (call op next)

namespace Until

variable {P : Op → Prop} {B : Program Op Val ε β → Prop}

lemma of_only {p : Program Op Val ε β} (hp : Only P p) : Until B P p := by
  induction p with
  | done r => exact .done r
  | call op next ih => exact .call hp.1 fun r => ih r (hp.2 r)

/-- A program inside another one. -/
theorem context {C : Program Op Val ε α → Program Op Val ε β}
    (hcall : ∀ op next, C (.call op next) = .call op fun r => C (next r))
    (hdone : ∀ r, Until B P (C (.done r))) (hp : Until (fun p => B (C p)) P p) :
    Until B P (C p) := by
  induction hp with
  | stop h => exact .stop h
  | done r => exact hdone r
  | call op_ok rest ih =>
    rw [hcall]
    exact .call op_ok ih

lemma bind (hp : Only P p) (hf : ∀ a, Until B P (f a)) : Until B P (p >>= f) := by
  refine context (C := (· >>= f)) (fun _ _ => rfl) (fun r => ?_) (of_only hp)
  cases r with
  | ok a => exact hf a
  | error e => exact .done _

end Until

end Program

/-- How the calls act on the shared state. `exec` is a function of what the environment
answers to the call; `none` is a call that cannot be made now. A session that ends in the middle
is taken back by `abort`, and `environment` is what happens without any session. -/
structure Machine (Op : Type) (Val : Op → Type) (ε σ ω η : Type) where
  exec : ℕ → (op : Op) → ω → σ → Option (Except ε (Val op) × σ)
  abort : ℕ → σ → σ
  environment : η → σ → Option σ

/-- What became of a session. -/
inductive Status (Op : Type) (Val : Op → Type) (ε α : Type) where
  | unused
  | active (p : Program Op Val ε α)
  | killed

/-- The shared state and the sessions. -/
structure Config (Op : Type) (Val : Op → Type) (ε σ α : Type) where
  shared : σ
  sessions : ℕ → Status Op Val ε α

/-- What a schedule does next. -/
inductive Event (ρ ω η : Type) where
  | start (i : ℕ) (request : ρ)
  | step (i : ℕ) (answer : ω)
  | kill (i : ℕ)
  | environment (e : η)

/-- The session that an event is about. -/
def Event.session : Event ρ ω η → Option ℕ
  | start i _ | step i _ | kill i => some i
  | environment _ => none

variable {c' : Config Op Val ε σ α}

namespace Config

variable (M : Machine Op Val ε σ ω η) (program : ρ → Program Op Val ε α)

/-- No session has been used. -/
def init (s : σ) : Config Op Val ε σ α := ⟨s, fun _ => .unused⟩

/-- One event. -/
def next (c : Config Op Val ε σ α) : Event ρ ω η → Option (Config Op Val ε σ α)
  | .start i request =>
    match c.sessions i with
    | .unused =>
      some { c with sessions := Function.update c.sessions i (.active (program request)) }
    | _ => none
  | .step i answer =>
    match c.sessions i with
    | .active (.call op next) =>
      (M.exec i op answer c.shared).map fun (r, s) =>
        { shared := s, sessions := Function.update c.sessions i (.active (next r)) }
    | _ => none
  | .kill i =>
    some { shared := M.abort i c.shared, sessions := Function.update c.sessions i .killed }
  | .environment e => (M.environment e c.shared).map fun s => { c with shared := s }

/-- A schedule. -/
def run (c : Config Op Val ε σ α) : List (Event ρ ω η) → Option (Config Op Val ε σ α)
  | [] => some c
  | e :: es => do (← c.next M program e).run es

/-- The result of a finished session. -/
def result (c : Config Op Val ε σ α) (i : ℕ) : Option (Except ε α) :=
  match c.sessions i with
  | .active (.done r) => some r
  | _ => none

variable {M program}

/-- What one event does. -/
inductive Next (M : Machine Op Val ε σ ω η) (program : ρ → Program Op Val ε α)
    (c : Config Op Val ε σ α) : Event ρ ω η → Config Op Val ε σ α → Prop
  | start {i : ℕ} {request : ρ} (unused : c.sessions i = .unused) :
      Next M program c (.start i request)
        ⟨c.shared, Function.update c.sessions i (.active (program request))⟩
  | step {i : ℕ} {answer : ω} {op : Op} {next : Except ε (Val op) → Program Op Val ε α}
      {r : Except ε (Val op)} {s : σ} (active : c.sessions i = .active (.call op next))
      (exec : M.exec i op answer c.shared = some (r, s)) :
      Next M program c (.step i answer) ⟨s, Function.update c.sessions i (.active (next r))⟩
  | kill (i : ℕ) : Next M program c (.kill i)
      ⟨M.abort i c.shared, Function.update c.sessions i .killed⟩
  | environment {e : η} {s : σ} (act : M.environment e c.shared = some s) :
      Next M program c (.environment e) ⟨s, c.sessions⟩

variable {c : Config Op Val ε σ α} {e : Event ρ ω η}

/-- What a step of the scheduler does. -/
lemma next_spec (hnext : c.next M program e = some c') : c.Next M program e c' := by
  cases e with
  | start i request =>
    rw [next] at hnext
    split at hnext
    · next hunused =>
      cases hnext
      exact .start hunused
    · nomatch hnext
  | step i answer =>
    rw [next] at hnext
    split at hnext
    · next op next hactive =>
      obtain ⟨⟨r, s⟩, hexec, rfl⟩ := map_eq_some_iff.mp hnext
      exact .step hactive hexec
    · nomatch hnext
  | kill i =>
    cases hnext
    exact .kill i
  | environment e =>
    obtain ⟨s, hact, rfl⟩ := map_eq_some_iff.mp hnext
    exact .environment hact

lemma Next.eq_some (h : c.Next M program e c') : c.next M program e = some c' := by
  cases h with
  | start unused => simp only [next, unused]
  | step active exec => simp only [next, active, exec, map_some]
  | kill i => rfl
  | environment act => simp only [next, act, map_some]

variable {i : ℕ}

/-- A session that was used goes on by its own calls only, unless it is killed. -/
theorem Next.session (h : c.Next M program e c') (hi : c.sessions i ≠ .unused) :
    (∃ op next a r, e = .step i a ∧ c.sessions i = .active (.call op next) ∧
      M.exec i op a c.shared = some (r, c'.shared) ∧ c'.sessions i = .active (next r)) ∨
    (∀ a, e ≠ .step i a) ∧ (c'.sessions i = c.sessions i ∨ c'.sessions i = .killed) := by
  -- what a session does leaves the others where they are
  have hother : ∀ {j : ℕ} {status : Status Op Val ε α}, i ≠ j →
      Function.update c.sessions j status i = c.sessions i := fun h => update_of_ne h ..
  cases h with
  | @start j request unused =>
    refine .inr ⟨nofun, .inl (hother ?_)⟩
    rintro rfl
    exact hi unused
  | @step j answer op next r s active exec =>
    by_cases hij : i = j
    · subst hij
      exact .inl ⟨op, next, answer, r, rfl, active, exec, update_self ..⟩
    · refine .inr ⟨fun a h => hij ?_, .inl (hother hij)⟩
      exact (Event.step.inj h).1.symm
  | kill j =>
    refine .inr ⟨nofun, ?_⟩
    by_cases hij : i = j
    · exact .inr (hij ▸ update_self ..)
    · exact .inl (hother hij)
  | environment act => exact .inr ⟨nofun, .inl rfl⟩

/-- A session that was used is not started again. -/
theorem next_used (hnext : c.next M program e = some c') (hi : c.sessions i ≠ .unused) :
    c'.sessions i ≠ .unused := by
  rcases (next_spec hnext).session hi with ⟨op, next, a, r, -, -, -, h⟩ | ⟨-, h | h⟩
  · exact h ▸ nofun
  · rwa [h]
  · exact h ▸ nofun

variable {es : List (Event ρ ω η)}

/-- Events about one session leave the others where they are. -/
theorem run_sessions {j : ℕ} (hes : ∀ e ∈ es, e.session = some i)
    (hrun : c.run M program es = some c') (hj : j ≠ i) :
    c'.sessions j = c.sessions j := by
  induction es generalizing c with
  | nil =>
    cases hrun
    rfl
  | cons e es ih =>
    obtain ⟨c1, hnext, hrest⟩ := bind_eq_some_iff.mp hrun
    refine (ih (fun e he => hes e (List.mem_cons_of_mem _ he)) hrest).trans ?_
    have he := hes e List.mem_cons_self
    have hne : ∀ {k : ℕ}, some k = some i → j ≠ k := fun hk h => hj (h.trans (some.inj hk))
    cases next_spec hnext with
    | start | step | kill => exact update_of_ne (hne he) ..
    | environment act => nomatch he

/-- A session that keeps to `P` until its program is of a certain kind: as long as it is not, what
its calls keep is kept, if the rest of the schedule keeps it. -/
theorem run_until {B : Program Op Val ε α → Prop} {P : Op → Prop} {R : σ → σ → Prop}
    (hrefl : ∀ s, R s s) (htrans : ∀ {s1 s2 s3}, R s1 s2 → R s2 s3 → R s1 s3)
    (hop : ∀ {op a r s s'}, P op → M.exec i op a s = some (r, s') → R s s')
    (hother : ∀ e ∈ es, (∀ a, e ≠ .step i a) → ∀ {c c1 : Config Op Val ε σ α}, c.Next M program e
      c1 → R c.shared c1.shared) (hused : c.sessions i ≠ .unused)
    (hp : ∀ p, c.sessions i = .active p → p.Until B P) (hnever : ∀ es1 c1 p, es1 <+: es → c.run M
      program es1 = some c1 → c1.sessions i = .active p → ¬ B p)
    (hrun : c.run M program es = some c') : R c.shared c'.shared := by
  induction es generalizing c with
  | nil =>
    cases hrun
    exact hrefl _
  | cons e es ih =>
    obtain ⟨c1, hnext, hrest⟩ := bind_eq_some_iff.mp hrun
    -- what is left of the program keeps to `P` after this event too
    have hstep : R c.shared c1.shared ∧ ∀ p, c1.sessions i = .active p → p.Until B P := by
      rcases (next_spec hnext).session hused with
        ⟨op, next, a, r, -, hactive, hexec, hactive1⟩ | ⟨he, hsession⟩
      · cases hp _ hactive with
        | stop h => exact absurd h (hnever [] c _ List.nil_prefix rfl hactive)
        | call op_ok rest =>
          refine ⟨hop op_ok hexec, fun p hp1 => ?_⟩
          obtain rfl := Status.active.inj (hactive1.symm.trans hp1)
          exact rest r
      · refine ⟨hother e List.mem_cons_self he (next_spec hnext), fun p hp1 => ?_⟩
        rcases hsession with hsame | hkilled
        · exact hp p (hsame.symm.trans hp1)
        · nomatch hkilled.symm.trans hp1
    refine htrans hstep.1 (ih (fun e he => hother e (List.mem_cons_of_mem _ he))
      (next_used hnext hused) hstep.2 (fun es1 c2 p hes hrun1 => ?_) hrest)
    refine hnever (e :: es1) c2 p (List.cons_prefix_cons.mpr ⟨rfl, hes⟩) ?_
    rw [run, hnext]
    exact hrun1

variable (M program)

/-- A schedule in two parts. -/
lemma run_append {es' : List (Event ρ ω η)} (h : c.run M program es = some c') :
    c.run M program (es ++ es') = c'.run M program es' := by
  induction es generalizing c with
  | nil =>
    cases h
    rfl
  | cons e es ih =>
    obtain ⟨c1, hnext, hrest⟩ := bind_eq_some_iff.mp h
    rw [List.cons_append, run, hnext]
    exact ih hrest

end Config

/-- What the sessions agree on: an invariant, the calls that may be made, what may change
between two calls of a session, and what is known of a session that was not used yet. -/
structure Discipline (M : Machine Op Val ε σ ω η) where
  inv : σ → Prop
  legal : ℕ → Op → σ → Prop
  others : ℕ → σ → σ → Prop
  unused : ℕ → σ → Prop
  refl : ∀ i s, others i s s
  trans : ∀ {i s1 s2 s3}, others i s1 s2 → others i s2 s3 → others i s1 s3
  unused_others : ∀ {i s s'}, unused i s → others i s s' → unused i s'
  call : ∀ {i op a s r s'}, inv s → legal i op s → M.exec i op a s = some (r, s') →
    inv s' ∧ ∀ j, j ≠ i → others j s s'
  abort : ∀ {i s}, inv s → inv (M.abort i s) ∧ ∀ j, j ≠ i → others j s (M.abort i s)
  environment : ∀ {e s s'}, inv s → M.environment e s = some s' →
    inv s' ∧ ∀ j, others j s s'

namespace Discipline

variable {M : Machine Op Val ε σ ω η} (D : Discipline M)

/-- From `s` on, session `i` makes legal calls only; it ends with `Q`, or raises with `E`. -/
def wp (i : ℕ) (p : Program Op Val ε α) (Q : α → σ → Prop) (E : ε → σ → Prop) (s : σ) : Prop :=
  match p with
  | .done (.ok a) => Q a s
  | .done (.error e) => E e s
  | .call op next => ∀ s1, D.others i s s1 → D.inv s1 → D.legal i op s1 ∧
      ∀ a r s2, M.exec i op a s1 = some (r, s2) → wp i (next r) Q E s2

/-- As `wp`, with nothing said of where the program raises. -/
abbrev yields (i : ℕ) (p : Program Op Val ε α) (Q : α → σ → Prop) (s : σ) : Prop :=
  D.wp i p Q (fun _ _ => True) s

/-- What the other sessions cannot invalidate. -/
def Stable (i : ℕ) (A : σ → Prop) : Prop :=
  ∀ s s', A s → D.others i s s' → D.inv s' → A s'

variable {D} {i : ℕ} {s : σ} {Q : α → σ → Prop} {E : ε → σ → Prop}

lemma wp_pure {a : α} (h : Q a s) : D.wp i (pure a) Q E s := h

lemma wp_throw {e : ε} (h : E e s) : D.wp i (throw e : Program Op Val ε α) Q E s := h

variable {E' : ε → σ → Prop} {Q' : α → σ → Prop}

/-- The postconditions may use the invariant. -/
theorem wp_mono_inv' (hinv : D.inv s) (h : D.wp i p Q E s)
    (hQ : ∀ a s', D.inv s' → Q a s' → Q' a s')
    (hE : ∀ e s', D.inv s' → E e s' → E' e s') : D.wp i p Q' E' s := by
  induction p generalizing s with
  | done r =>
    cases r with
    | ok a => exact hQ a s hinv h
    | error e => exact hE e s hinv h
  | call op next ih =>
    intro s1 hothers hinv1
    obtain ⟨hlegal, hnext⟩ := h s1 hothers hinv1
    exact ⟨hlegal, fun a r s2 hexec =>
      ih r (D.call hinv1 hlegal hexec).1 (hnext a r s2 hexec)⟩

lemma wp_mono_inv (hinv : D.inv s) (h : D.wp i p Q E s)
    (hQ : ∀ a s', D.inv s' → Q a s' → Q' a s') : D.yields i p Q' s :=
  wp_mono_inv' hinv h hQ fun _ _ _ _ => trivial

/-- Two facts about one program. -/
lemma wp_and (h : D.wp i p Q E s) (h' : D.wp i p Q' E' s) :
    D.wp i p (fun a s' => Q a s' ∧ Q' a s') (fun e s' => E e s' ∧ E' e s') s := by
  induction p generalizing s with
  | done r =>
    cases r with
    | ok | error => exact ⟨h, h'⟩
  | call op next ih =>
    intro s1 hothers hinv1
    obtain ⟨hlegal, hnext⟩ := h s1 hothers hinv1
    exact ⟨hlegal, fun a r s2 hexec =>
      ih r (hnext a r s2 hexec) ((h' s1 hothers hinv1).2 a r s2 hexec)⟩

lemma wp_bind {Q : β → σ → Prop} (h : D.wp i p (fun a s' => D.wp i (f a) Q E s') E s) :
    D.wp i (p >>= f) Q E s := by
  induction p generalizing s with
  | done r =>
    cases r with
    | ok | error => exact h
  | call op next ih =>
    intro s1 hothers hinv
    obtain ⟨hlegal, hnext⟩ := h s1 hothers hinv
    exact ⟨hlegal, fun a r s2 hexec => ih r (hnext a r s2 hexec)⟩

variable {R : α → σ → Prop}

/-- A program, then another from whatever the first is known to establish. -/
theorem wp_seq' {F : ε → σ → Prop} {Q : β → σ → Prop} (hinv : D.inv s) (hp : D.wp i p R F s)
    (hf : ∀ a s', D.inv s' → R a s' → D.wp i (f a) Q E s')
    (hF : ∀ e s', D.inv s' → F e s' → E e s') : D.wp i (p >>= f) Q E s :=
  wp_bind (wp_mono_inv' hinv hp hf hF)

/-- A program that keeps the invariant, and what follows it. -/
lemma wp_seq {F : ε → σ → Prop} {Q : β → σ → Prop} (hinv : D.inv s) (hp : D.wp i p R F s)
    (hf : ∀ a s', D.inv s' → R a s' → D.yields i (f a) Q s') : D.yields i (p >>= f) Q s :=
  wp_bind (wp_mono_inv hinv hp hf)

/-- A handler takes over from where the program raised. -/
lemma wp_tryCatch (hp : D.wp i p Q (fun e s' => D.wp i (handler e) Q E s') s) :
    D.wp i (tryCatch p handler) Q E s := by
  induction p generalizing s with
  | done r =>
    cases r with
    | ok | error => exact hp
  | call op next ih =>
    intro s1 hothers hinv
    obtain ⟨hlegal, hnext⟩ := hp s1 hothers hinv
    exact ⟨hlegal, fun a r s2 hexec => ih r (hnext a r s2 hexec)⟩

/-- An attempt returns the exception. -/
lemma wp_attempt {Q : Except ε α → σ → Prop}
    (hp : D.wp i p (fun a => Q (.ok a)) (fun e => Q (.error e)) s) :
    D.wp i p.attempt Q E s :=
  wp_tryCatch (wp_bind hp)

/-- The rule for a single call. -/
theorem wp_perform {Q : Val op → σ → Prop} (h : ∀ s1, D.others i s s1 → D.inv s1 → D.legal i op s1
      ∧ ∀ a s2, D.inv s2 → (∀ v, M.exec i op a s1 = some (.ok v, s2) → Q v s2) ∧ (∀ e, M.exec i op
      a s1 = some (.error e, s2) → E e s2)) :
    D.wp i (Program.perform op) Q E s := by
  intro s1 hothers hinv
  obtain ⟨hlegal, hnext⟩ := h s1 hothers hinv
  refine ⟨hlegal, fun a r s2 hexec => ?_⟩
  have hinv2 := (D.call hinv hlegal hexec).1
  cases r with
  | ok v => exact (hnext a s2 hinv2).1 v hexec
  | error e => exact (hnext a s2 hinv2).2 e hexec

/-- What a safe program keeps because of the calls it is made of. -/
theorem wp_only {P : Op → Prop} {R : σ → σ → Prop} (hrefl : ∀ s, R s s)
    (htrans : ∀ s1 s2 s3, R s1 s2 → R s2 s3 → R s1 s3)
    (hothers : ∀ s s', D.others i s s' → D.inv s' → R s s') (hop : ∀ op a r s s', P op → D.inv s →
      D.legal i op s → M.exec i op a s = some (r, s') → R s s') (hp : p.Only P)
    (h : D.wp i p Q E s) :
    D.wp i p (fun a s' => R s s' ∧ Q a s') (fun e s' => R s s' ∧ E e s') s := by
  suffices hs : ∀ s0, R s0 s →
      D.wp i p (fun a s' => R s0 s' ∧ Q a s') (fun e s' => R s0 s' ∧ E e s') s from
    hs s (hrefl s)
  induction p generalizing s with
  | done r =>
    intro s0 hR
    cases r with
    | ok | error => exact ⟨hR, h⟩
  | call op next ih =>
    intro s0 hR s1 ho hinv
    obtain ⟨hlegal, hnext⟩ := h s1 ho hinv
    refine ⟨hlegal, fun a r s2 hexec => ih r (hp.2 r) (hnext a r s2 hexec) s0 ?_⟩
    have hR1 := htrans _ _ _ hR (hothers _ _ ho hinv)
    exact htrans _ _ _ hR1 (hop op a r s1 s2 hp.1 hinv hlegal hexec)

/-- What was safe before the others acted is safe after. -/
theorem wp_others {s' : σ} (hQ : ∀ a, D.Stable i (Q a)) (hE : ∀ e, D.Stable i (E e))
    (h : D.wp i p Q E s) (ho : D.others i s s') (hinv : D.inv s') : D.wp i p Q E s' := by
  cases p with
  | done r =>
    cases r with
    | ok a => exact hQ a s s' h ho hinv
    | error e => exact hE e s s' h ho hinv
  | call op next => exact fun s1 hothers hinv1 => h s1 (D.trans ho hothers) hinv1

section Soundness

variable {program : ρ → Program Op Val ε α} {Q : ℕ → α → σ → Prop}

/-- What holds of every configuration a schedule reaches. -/
structure Sound (D : Discipline M) (Q : ℕ → α → σ → Prop) (c : Config Op Val ε σ α) : Prop where
  inv : D.inv c.shared
  unused : ∀ i, c.sessions i = .unused → D.unused i c.shared
  safe : ∀ i p, c.sessions i = .active p → D.yields i p (Q i) c.shared

/-- A change of the shared state that is, for each session but `i`, one of the others' making,
and a status of session `i` that is safe after it. -/
theorem Sound.update (hQ : ∀ i a, D.Stable i (Q i a)) (hc : D.Sound Q c) {s' : σ}
    (hinv : D.inv s') (hothers : ∀ j, j ≠ i → D.others j c.shared s') {status : Status Op Val ε α}
    (hunused : status ≠ .unused)
    (hactive : ∀ p, status = .active p → D.yields i p (Q i) s') :
    D.Sound Q ⟨s', Function.update c.sessions i status⟩ := by
  refine ⟨hinv, fun j hj => ?_, fun j p hp => ?_⟩
  · change Function.update c.sessions i status j = .unused at hj
    by_cases hji : j = i
    · subst hji
      rw [update_self] at hj
      exact absurd hj hunused
    · rw [update_of_ne hji] at hj
      exact D.unused_others (hc.unused j hj) (hothers j hji)
  · change Function.update c.sessions i status j = .active p at hp
    by_cases hji : j = i
    · subst hji
      rw [update_self] at hp
      exact hactive p hp
    · rw [update_of_ne hji] at hp
      exact wp_others (hQ j) (fun _ _ _ _ _ _ => trivial) (hc.safe j p hp) (hothers j hji) hinv

/-- A step keeps every session on its discipline. -/
lemma Sound.next (hQ : ∀ i a, D.Stable i (Q i a)) (hc : D.Sound Q c)
    (hstart : ∀ i q, e = .start i q → c.sessions i = .unused → D.yields i (program q) (Q i)
      c.shared) (hnext : c.next M program e = some c') : D.Sound Q c' := by
  cases Config.next_spec hnext with
  | @start i request unused =>
    refine hc.update hQ hc.inv (fun j _ => D.refl j _) nofun fun p hp => ?_
    cases hp
    exact hstart i request rfl unused
  | @step i answer op next r s active exec =>
    obtain ⟨hlegal, hsafe⟩ := hc.safe i _ active _ (D.refl i _) hc.inv
    obtain ⟨hinv, hothers⟩ := D.call hc.inv hlegal exec
    refine hc.update hQ hinv hothers nofun fun p hp => ?_
    cases hp
    exact hsafe answer r s exec
  | kill i =>
    obtain ⟨hinv, hothers⟩ := D.abort (i := i) hc.inv
    exact hc.update hQ hinv hothers nofun nofun
  | environment act =>
    obtain ⟨hinv, hothers⟩ := D.environment hc.inv act
    exact ⟨hinv, fun j hj => D.unused_others (hc.unused j hj) (hothers j), fun j p hp =>
      wp_others (hQ j) (fun _ _ _ _ _ _ => trivial) (hc.safe j p hp) (hothers j) hinv⟩

/-- If every program is safe for a new session, every schedule keeps the invariant. -/
theorem sound (hprogram : ∀ q i s, D.inv s → D.unused i s → D.yields i (program q) (Q i) s)
    (hQ : ∀ i a, D.Stable i (Q i a)) (hc : D.Sound Q c) (hrun : c.run M program es = some c') :
    D.Sound Q c' := by
  induction es generalizing c with
  | nil =>
    cases hrun
    exact hc
  | cons e es ih =>
    obtain ⟨c1, hnext, hrest⟩ := bind_eq_some_iff.mp hrun
    exact ih (hc.next hQ (fun i q _ hi => hprogram q i _ hc.inv (hc.unused i hi)) hnext) hrest

/-- A finished session has its postcondition. -/
theorem Sound.post_of_result (hc : D.Sound Q c) {a : α} (h : c.result i = some (.ok a)) :
    Q i a c.shared := by
  rw [Config.result] at h
  split at h
  · next r hactive =>
    cases h
    exact hc.safe i _ hactive
  · nomatch h

/-- One session is followed from its start: whatever the others do, it has the postcondition that
its own program has. -/
theorem Sound.follow {request : ρ} (hprogram : ∀ q j s, j ≠ i → D.inv s → D.unused j s → D.yields j
      (program q) (Q j) s) (hR : ∀ a, D.Stable i (R a)) (hc : D.Sound Q c)
    (hsafe : D.unused i c.shared → D.yields i (program request) R c.shared)
    (hrun : c.run M program (.start i request :: es) = some c') :
    D.unused i c.shared ∧ D.Sound (fun j a s => j = i → R a s) c' := by
  -- the postcondition is asked of this session only
  let Q' : ℕ → α → σ → Prop := fun j a s => j = i → R a s
  have hother : ∀ j p s, j ≠ i → D.inv s → D.yields j p (Q j) s →
      D.yields j p (Q' j) s := fun j p s hj hinv h =>
    wp_mono_inv hinv h fun _ _ _ _ hji => absurd hji hj
  have hQ' : ∀ j a, D.Stable j (Q' j a) := by
    rintro j a s s' h ho hinv rfl
    exact hR a s s' (h rfl) ho hinv
  obtain ⟨c1, hnext, hrest⟩ := bind_eq_some_iff.mp hrun
  have hfirst : c.sessions i = .unused := by
    cases Config.next_spec hnext with
    | start unused => exact unused
  have hunused := hc.unused i hfirst
  have hc' : D.Sound Q' c := by
    refine ⟨hc.inv, hc.unused, fun j p hp => hother j p _ ?_ hc.inv (hc.safe j p hp)⟩
    rintro rfl
    nomatch hfirst.symm.trans hp
  have hc1 : D.Sound Q' c1 := hc'.next hQ' (fun j q he _ => by
    cases he
    exact wp_mono_inv hc.inv (hsafe hunused) fun _ _ _ h _ => h) hnext
  have hused : c1.sessions i ≠ .unused := by
    cases Config.next_spec hnext with
    | start unused =>
      change Function.update c.sessions i _ i ≠ .unused
      rw [update_self]
      exact nofun
  refine ⟨hunused, ?_⟩
  clear hfirst hunused hnext hrun hsafe hc hc'
  induction es generalizing c1 with
  | nil =>
    cases hrest
    exact hc1
  | cons e es ih =>
    obtain ⟨c2, hnext, hrest⟩ := bind_eq_some_iff.mp hrest
    refine ih c2 hrest (hc1.next hQ' (fun j q _ hj => ?_) hnext) (Config.next_used hnext hused)
    have hji : j ≠ i := by
      rintro rfl
      exact hused hj
    exact hother j _ _ hji hc1.inv (hprogram q j _ hji hc1.inv (hc1.unused j hj))

end Soundness

end Discipline

end Sessions
