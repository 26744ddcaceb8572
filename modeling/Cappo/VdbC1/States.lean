import Mathlib.Data.List.Basic

/-!
# The state machine of an intent

The states and transitions of `states.py`, the kinds of journal records and the replay
`stateAfter` of the kinds recorded for one intent.
-/

namespace VdbC1

/-- The states of an intent. -/
inductive State where
  | received | admissionRejected | admitted | preconditionRejected | prepared | aborted
  | committing | commitUncertain | finalized
  deriving DecidableEq, Repr

/-- The kinds of journal records. `committed` is not a state: it records the confirmed
storage outcome. -/
inductive Kind where
  | admissionRejected | preconditionRejected | prepared | committing | commitUncertain
  | committed | finalized | aborted
  deriving DecidableEq, Repr

namespace State

/-- `TRANSITIONS` of `states.py`. -/
def transitions : State → List State
  | received => [admissionRejected, admitted]
  | admitted => [preconditionRejected, prepared]
  | prepared => [aborted, committing]
  | committing => [finalized, commitUncertain]
  | commitUncertain => [finalized, aborted]
  | admissionRejected => []
  | preconditionRejected => []
  | aborted => []
  | finalized => []

/-- `TERMINAL` of `states.py`: the states without a successor. -/
def terminal (s : State) : Bool := s.transitions.isEmpty

/-- `check` of `states.py`: the target if the transition is legal. -/
def check (current target : State) : Option State :=
  if target ∈ current.transitions then some target else none

end State

namespace Kind

/-- The kind's text in a record. -/
def text : Kind → String
  | admissionRejected => "ADMISSION_REJECTED"
  | preconditionRejected => "PRECONDITION_REJECTED"
  | prepared => "PREPARED"
  | committing => "COMMITTING"
  | commitUncertain => "COMMIT_UNCERTAIN"
  | committed => "COMMITTED"
  | finalized => "FINALIZED"
  | aborted => "ABORTED"

/-- `BINDING_KINDS` of `states.py`: every kind but the two rejections. -/
def binding : Kind → Bool
  | admissionRejected => false
  | preconditionRejected => false
  | _ => true

lemma text_injective : Function.Injective text := by
  intro a b h
  revert h
  cases a <;> cases b <;> simp [text]

end Kind

/-- One round of the loop of `state_after`: the state and whether a COMMITTED record was
seen, after one more kind. -/
def replay (s : State × Bool) (kind : Kind) : Option (State × Bool) :=
  match kind with
  | .committed =>
    if (s.1 = .committing ∨ s.1 = .commitUncertain) ∧ s.2 = false then some (s.1, true) else none
  | .prepared =>
    -- a PREPARED record stands for the admission as well
    if s.1 = .received then (State.check .admitted .prepared).map (·, s.2)
    else (s.1.check .prepared).map (·, s.2)
  | .commitUncertain =>
    if s.1 = .commitUncertain then some s else (s.1.check .commitUncertain).map (·, s.2)
  | .finalized => if s.2 = false then none else (s.1.check .finalized).map (·, s.2)
  | .aborted => if s.2 = true then none else (s.1.check .aborted).map (·, s.2)
  | .committing => (s.1.check .committing).map (·, s.2)
  | .admissionRejected => (s.1.check .admissionRejected).map (·, s.2)
  | .preconditionRejected => (s.1.check .preconditionRejected).map (·, s.2)

/-- `state_after` of `states.py`: replay the kinds recorded for one intent; an illegal path
raises. -/
def stateAfter (kinds : List Kind) : Option State :=
  (kinds.foldlM replay (.received, false)).map Prod.fst

/-- Nothing is recorded after a terminal state. -/
lemma replay_terminal (h : s.1.terminal = true) (kind : Kind) : replay s kind = none := by
  obtain ⟨state, seen⟩ := s
  revert h
  cases state <;> cases seen <;> cases kind <;> decide

example : stateAfter [.prepared, .committing, .commitUncertain, .aborted] = some .aborted := by
  decide

end VdbC1
