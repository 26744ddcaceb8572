import Cappo.Lib.Sessions

/-!
# A session that runs alone

What a program does when no other session acts between its calls and an oracle answers each call:
its result and the state it leaves, if every call can be made.

## Main results

* `Program.alone_perform`, `Program.alone_bind`: a single call, and what follows a program.
-/

namespace Sessions.Program

variable {Op : Type} {Val : Op → Type} {ε α β σ ω η ρ : Type}
  (M : Machine Op Val ε σ ω η) (i : ℕ) (oracle : Op → ω)

/-- The result of a program that runs alone, and the state it leaves. -/
def alone : Program Op Val ε α → σ → Option (Except ε α × σ)
  | done r, s => some (r, s)
  | call op next, s => (M.exec i op (oracle op) s).bind fun (r, s') => alone (next r) s'

variable {M i oracle} {s : σ}

/-- A single call. -/
@[simp]
theorem alone_perform (op : Op) : (perform op : Program Op Val ε (Val op)).alone M i oracle s =
      M.exec i op (oracle op) s := by
  change (M.exec i op (oracle op) s).bind (fun x => some (x.1, x.2)) = _
  cases M.exec i op (oracle op) s <;> rfl

/-- What follows a program that returned, or that raised. -/
theorem alone_bind (p : Program Op Val ε α) (f : α → Program Op Val ε β) (s : σ) :
    (p >>= f).alone M i oracle s = (p.alone M i oracle s).bind fun (r, s') =>
      match r with
      | .ok a => (f a).alone M i oracle s'
      | .error e => some (.error e, s') := by
  induction p generalizing s with
  | done r => cases r <;> rfl
  | call op next ih =>
    change (M.exec i op (oracle op) s).bind _ = _
    rw [alone, Option.bind_assoc]
    exact congrArg (Option.bind _) (funext fun x => ih x.1 x.2)

end Sessions.Program
