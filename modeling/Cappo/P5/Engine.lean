import Cappo.CapabilityMount.JsonText
import Cappo.Lib.Checks
import Cappo.Lib.KeyedRows

/-!
# The truth-state engine

`p5/engine.py` and the item of `p5/dispatcher.py` that goes out: an operation has one row with its
truth state and version, an append-only log of events, and an outbox row for each event. A call
of the engine changes the row, appends an event with its outbox row, and commits.

A call is a function of the tables and of what it draws from its environment (`Env`). It returns
the operation and the tables it committed, or raises; the session is then rolled back, so the
tables stay what they were (`Db.apply`).

A truth state is assigned to a column as a member of the enumeration and comes back as text. The
attribute of a loaded row is the one or the other, and `str` makes different texts of them
(`StateAttr.str`), so a state has two spellings in the log (`TruthState.ofColumn`).
-/

namespace P5

open VdbC1 (PyStr Json)

open CapabilityMount.JsonText (decimal)

open Checks

/-! ## States -/

/-- `TruthState`: what is known of an operation. -/
inductive TruthState where
  | requested
  | authorized
  | executionStarted
  | outcomeUnknown
  | completedSuccess
  | completedFailure
  | observedEffect
  | compensated
  | abandonedRequiresHuman
  deriving DecidableEq

namespace TruthState

/-- The value of the member; its name is the same text. -/
def value : TruthState → PyStr
  | requested => "REQUESTED"
  | authorized => "AUTHORIZED"
  | executionStarted => "EXECUTION_STARTED"
  | outcomeUnknown => "OUTCOME_UNKNOWN"
  | completedSuccess => "COMPLETED_SUCCESS"
  | completedFailure => "COMPLETED_FAILURE"
  | observedEffect => "OBSERVED_EFFECT"
  | compensated => "COMPENSATED"
  | abandonedRequiresHuman => "ABANDONED_REQUIRES_HUMAN"

/-- `str` of the member, and what an f-string makes of it. -/
def str (s : TruthState) : PyStr := "TruthState." ++ s.value

/-- The members. -/
def members : List TruthState :=
  [requested, authorized, executionStarted, outcomeUnknown, completedSuccess, completedFailure,
    observedEffect, compensated, abandonedRequiresHuman]

/-- The state that a column of the log names, in either spelling. -/
def ofColumn (text : PyStr) : Option TruthState :=
  members.find? fun s => text = s.value ∨ text = s.str

@[simp]
lemma ofColumn_value (s : TruthState) : ofColumn s.value = some s := by
  cases s <;> decide

@[simp]
lemma ofColumn_str (s : TruthState) : ofColumn s.str = some s := by
  cases s <;> decide

/-- `_ALLOWED_TRANSITIONS`. -/
def allowedTransitions : TruthState → List TruthState
  | requested => [authorized]
  | authorized => [executionStarted]
  | executionStarted => [outcomeUnknown, completedSuccess, completedFailure, observedEffect]
  | outcomeUnknown =>
    [completedSuccess, completedFailure, observedEffect, compensated, abandonedRequiresHuman]
  | observedEffect => [completedSuccess, completedFailure, compensated, abandonedRequiresHuman]
  | completedSuccess => []
  | completedFailure => []
  | compensated => []
  | abandonedRequiresHuman => []

end TruthState

/-- An attribute with a truth state: the member that was assigned, or the text that was read. -/
inductive StateAttr where
  | member (s : TruthState)
  | text (s : TruthState)
  deriving DecidableEq

namespace StateAttr

def state : StateAttr → TruthState
  | member s => s
  | text s => s

/-- `str` of the attribute. -/
def str : StateAttr → PyStr
  | member s => s.str
  | text s => s.value

@[simp]
lemma ofColumn_str (a : StateAttr) : TruthState.ofColumn a.str = some a.state := by
  cases a with
  | member s => exact s.ofColumn_str
  | text s => exact s.ofColumn_value

end StateAttr

/-- `P5EventType`; the types that no method here appends are left out. -/
inductive P5EventType where
  | intentRequested
  | cappoAuthorized
  | executionStarted
  | outcomeUnknown
  | truthCompletedSuccess
  | truthCompletedFailure
  | observedEffect
  deriving DecidableEq

def P5EventType.value : P5EventType → PyStr
  | intentRequested => "p5.intent.requested"
  | cappoAuthorized => "p5.cappo.authorized"
  | executionStarted => "p5.execution.started"
  | outcomeUnknown => "p5.outcome.unknown"
  | truthCompletedSuccess => "p5.truth.completed_success"
  | truthCompletedFailure => "p5.truth.completed_failure"
  | observedEffect => "p5.observed_effect"

/-- `SinkClass.E_NON_IDEMPOTENT`. -/
def eNonIdempotent : PyStr := "E_NON_IDEMPOTENT"

/-! ## Tables -/

/-- A row of `p5_operations`. -/
structure Operation where
  operationId : PyStr
  consequenceId : PyStr
  sinkClass : PyStr
  currentTruthState : StateAttr
  intentHash : PyStr
  actorIdentity : PyStr
  assuranceLevel : Option PyStr := none
  version : ℕ := 0
  deriving DecidableEq

/-- A row of `p5_events`. -/
structure Event (τ : Type) where
  eventId : PyStr
  operationId : PyStr
  eventSequence : ℕ
  previousEventHash : Option PyStr
  eventType : PyStr
  previousTruthState : Option PyStr
  assertedTruthState : Option PyStr
  proofType : Option PyStr
  proofSubjectHash : Option PyStr
  cappoDecisionId : Option PyStr
  eventHash : PyStr
  assuranceLevel : Option PyStr
  createdAt : τ
  deriving DecidableEq

/-- The status of a message that is to be sent. -/
inductive OutboxStatus where
  | pending
  | inProgress
  | sent
  | failedRetryable
  | deadLetter
  deriving DecidableEq

/-- A row of `p5_outbox`. -/
structure Outbox (τ : Type) where
  outboxId : PyStr
  eventId : PyStr
  target : PyStr
  payloadHash : PyStr
  status : OutboxStatus
  attempts : ℕ
  lastError : Option PyStr := none
  createdAt : τ
  lockedAt : Option τ := none
  sentAt : Option τ := none
  deadLetteredAt : Option τ := none
  deriving DecidableEq

/-- The tables of the engine. -/
structure Db (τ : Type) where
  operations : List Operation
  events : List (Event τ)
  outbox : List (Outbox τ)
  deriving DecidableEq

/-- What a call can raise. -/
inductive Error where
  | keyError (text : PyStr)
  | transitionConflict (text : PyStr)
  | forbiddenTransition (text : PyStr)
  | truthTransitionDenied (text : PyStr)
  | classERetryDenied (text : PyStr)
  /-- The database refused a key. -/
  | integrity
  /-- A text to be hashed has no UTF-8 encoding. -/
  | unicodeEncode
  | multipleResultsFound
  deriving DecidableEq

/-- The libraries that the engine calls: `datetime.isoformat`, the hexadecimal SHA-256 of the UTF-8
encoding of a text, which raises when there is none, and `json.dumps` with sorted keys. -/
structure Host (τ : Type) where
  isoformat : τ → PyStr
  sha256 : PyStr → Option PyStr
  sha256_ne_nil : ∀ s digest, sha256 s = some digest → digest ≠ []
  dumps : Json → PyStr

/-- What a call draws from its environment: the new identifiers, the clock, and whether the row it
loads is read from the table again or still held by the session. -/
structure Env (τ : Type) where
  eventId : PyStr
  outboxId : PyStr
  now : τ
  refreshed : Bool

/-- Python's `a or b` of two texts that may be `None`. -/
def pyOr (a b : Option PyStr) : Option PyStr :=
  match a with
  | some (c :: s) => some (c :: s)
  | _ => b

/-- A text that may be `None`, as a JSON value. -/
def nullable : Option PyStr → Json
  | none => .null
  | some s => .str s

/-- The member `key`, if the text is truthy. -/
def truthy (key : PyStr) : Option PyStr → List (PyStr × Json)
  | some (c :: s) => [(key, .str (c :: s))]
  | _ => []

/-- `"|".join(fields)`. -/
def joinBar (fields : List PyStr) : PyStr := (PyStr.ofString "|").intercalate fields

/-- The arguments of `compute_proof_subject_hash`. -/
structure ProofSubject where
  operationId : PyStr
  intentHash : PyStr
  candidateActHash : PyStr
  authorityId : PyStr
  executionIdentity : PyStr
  sinkId : PyStr
  previousTruthState : PyStr
  assertedTruthState : PyStr
  consequenceIdentity : PyStr
  proofType : PyStr
  deriving DecidableEq

/-- The fields in the order in which they are joined. -/
def ProofSubject.fields (x : ProofSubject) : List PyStr :=
  [x.operationId, x.intentHash, x.candidateActHash, x.authorityId, x.executionIdentity, x.sinkId,
    x.previousTruthState, x.assertedTruthState, x.consequenceIdentity, x.proofType]

variable {τ : Type}

namespace Host

variable (H : Host τ)

/-- `compute_proof_subject_hash`. -/
def computeProofSubjectHash (x : ProofSubject) : Option PyStr := H.sha256 (joinBar x.fields)

/-- `_compute_event_hash`. -/
def computeEventHash (eventId operationId : PyStr) (eventSequence : ℕ)
    (previousEventHash : Option PyStr) (eventType : PyStr)
    (previousTruthState assertedTruthState proofType proofSubjectHash cappoDecisionId :
      Option PyStr) (createdAt : PyStr) : Option PyStr :=
  H.sha256 (joinBar [eventId, operationId, decimal eventSequence, previousEventHash.getD [],
    eventType,
    previousTruthState.getD [],
    assertedTruthState.getD [],
    proofType.getD [],
    proofSubjectHash.getD [],
    cappoDecisionId.getD [],
    createdAt])

/-- The hash of a payload. -/
def payloadHash (payload : List (PyStr × Json)) : Option PyStr := H.sha256 (H.dumps (.obj payload))

end Host

/-! ## The engine -/

namespace Db

variable (db : Db τ)

def empty : Db τ := ⟨[], [], []⟩

variable (H : Host τ) (env : Env τ) (operationId : PyStr)

/-- The row of an operation. -/
def operation : Option Operation :=
  KeyedRows.row? Operation.operationId operationId db.operations

/-- The events of an operation. -/
def eventsOf : List (Event τ) :=
  db.events.filter fun e => e.operationId = operationId

/-- Write a changed row. -/
def setOperation (op : Operation) : Db τ :=
  { db with operations :=
      KeyedRows.modify Operation.operationId op.operationId (fun _ => op) db.operations }

/-- `_load`. -/
def load (refreshed : Bool) (operationId : PyStr) : Except Error Operation := do
  let op ← ofOption (.keyError ("P5Operation not found: " ++ operationId))
    (db.operation operationId)
  return if refreshed then
    { op with currentTruthState := .text op.currentTruthState.state }
  else op

/-- `_next_sequence`. -/
def nextSequence : ℕ :=
  match ((db.eventsOf operationId).map Event.eventSequence).max? with
  | none => 0
  | some n => n + 1

/-- The hash of the event before the next one. -/
def previousHash : Except Error (Option PyStr) :=
  match db.nextSequence operationId with
  | 0 => .ok none
  | n + 1 =>
    match (db.eventsOf operationId).filter fun e => e.eventSequence = n with
    | [] => .ok none
    | [lastEvent] => .ok (some lastEvent.eventHash)
    | _ => .error .multipleResultsFound

/-- The arguments of `_append_event`. -/
structure Append where
  operationId : PyStr
  eventType : P5EventType
  previousTruthState : Option StateAttr
  assertedTruthState : Option StateAttr
  proofType : Option PyStr := none
  proofSubjectHash : Option PyStr := none
  cappoDecisionId : Option PyStr := none
  assuranceLevel : Option PyStr := none

/-- `_append_event`. -/
def appendEvent (a : Append) : Except Error (Db τ) := do
  let nextSeq := db.nextSequence a.operationId
  let previousEventHash ← db.previousHash a.operationId
  let prevState := a.previousTruthState.map StateAttr.str
  let assertState := a.assertedTruthState.map StateAttr.str
  let eventHash ← ofOption .unicodeEncode (H.computeEventHash env.eventId a.operationId
    nextSeq previousEventHash a.eventType.value prevState assertState a.proofType
    a.proofSubjectHash a.cappoDecisionId (H.isoformat env.now))
  let event : Event τ := {
    eventId := env.eventId
    operationId := a.operationId
    eventSequence := nextSeq
    previousEventHash := previousEventHash
    eventType := a.eventType.value
    previousTruthState := prevState
    assertedTruthState := assertState
    proofType := a.proofType
    proofSubjectHash := a.proofSubjectHash
    cappoDecisionId := a.cappoDecisionId
    eventHash := eventHash
    assuranceLevel := a.assuranceLevel
    createdAt := env.now }
  let payload : List (PyStr × Json) := [(PyStr.ofString "event_id", .str env.eventId),
    ("operation_id", .str a.operationId),
    ("p5_truth_state", nullable (pyOr assertState prevState)),
    ("event_hash", .str eventHash),
    ("previous_event_hash", nullable previousEventHash)] ++
    truthy "proof_subject_hash" a.proofSubjectHash ++
    truthy "cappo_decision_id" a.cappoDecisionId
  let payloadHash ← ofOption .unicodeEncode (H.payloadHash payload)
  let item : Outbox τ := {
    outboxId := env.outboxId
    eventId := env.eventId
    target := "PGL"
    payloadHash := payloadHash
    status := .pending
    attempts := 0
    createdAt := env.now }
  -- the flush: both rows have a primary key of their own
  require .integrity (env.eventId ∉ db.events.map Event.eventId)
  require .integrity (env.outboxId ∉ db.outbox.map Outbox.outboxId)
  return { db with events := db.events ++ [event], outbox := db.outbox ++ [item] }

/-- `create_operation`. -/
def createOperation (operationId consequenceId sinkClass intentHash actorIdentity : PyStr) :
    Except Error (Operation × Db τ) := do
  let op : Operation := {
    operationId, consequenceId, sinkClass, intentHash, actorIdentity
    currentTruthState := .member .requested }
  require .integrity (db.operation operationId).isNone
  let db ← appendEvent { db with operations := db.operations ++ [op] } H env {
    operationId
    eventType := .intentRequested
    previousTruthState := none
    assertedTruthState := some (.member .requested) }
  return (op, db)

/-- `_assert_transition`. -/
def assertTransition (fromState toState : TruthState) : Except Error Unit :=
  require (.forbiddenTransition ("Transition " ++ fromState.str ++
    " -> " ++ toState.str ++ " is not permitted by the P5 FSM."))
    (toState ∈ fromState.allowedTransitions)

/-- The end of the methods that change a row which they loaded: the new state and version, and the
event. -/
def advance (op : Operation) (toState : TruthState) (a : Append) :
    Except Error (Operation × Db τ) := do
  let op := { op with currentTruthState := .member toState, version := op.version + 1 }
  let db ← (db.setOperation op).appendEvent H env a
  return (op, db)

/-- `authorize`. -/
def authorize (cappoDecisionId : Option PyStr) : Except Error (Operation × Db τ) := do
  let op ← db.load env.refreshed operationId
  -- the state that is checked is not the one of the row
  assertTransition .requested .authorized
  db.advance H env op .authorized {
    operationId
    eventType := .cappoAuthorized
    previousTruthState := some (.member .requested)
    assertedTruthState := some (.member .authorized)
    cappoDecisionId }

/-- `_assert_no_class_e_retry`. -/
def assertNoClassERetry : Except Error Unit :=
  require (.classERetryDenied ("Class-E (non-idempotent) operation " ++
    operationId ++ PyStr.ofString
      " reached OUTCOME_UNKNOWN. Retry is denied to prevent duplicate consequences."))
    (∀ e ∈ db.eventsOf operationId, e.eventType ≠ P5EventType.outcomeUnknown.value)

/-- The check of `start_execution` that the operation is authorized. -/
def assertClaimable (op : Operation) : Except Error Unit :=
  if op.currentTruthState.state = .authorized then .ok ()
  else if op.currentTruthState.state = .executionStarted then
    throw (.transitionConflict ("Operation " ++ operationId ++
      " is already in EXECUTION_STARTED (version=" ++ decimal op.version ++
      "). Another worker claimed execution."))
  else
    throw (.forbiddenTransition ("Cannot transition from " ++
      op.currentTruthState.str ++ " to EXECUTION_STARTED."))

/-- The `WHERE` clause of the `UPDATE` in `start_execution`. -/
def claims (expectedVersion : ℕ) (row : Operation) : Bool :=
  row.operationId = operationId ∧ row.version = expectedVersion ∧
    row.currentTruthState.state = .authorized

/-- What that `UPDATE` makes of a row. -/
def claim (expectedVersion : ℕ) (row : Operation) : Operation :=
  if claims operationId expectedVersion row then
    { row with currentTruthState := .text .executionStarted, version := expectedVersion + 1 }
  else row

/-- `start_execution`. The row is changed by an `UPDATE` that expects its state and version. -/
def startExecution : Except Error (Operation × Db τ) := do
  let op ← db.load env.refreshed operationId
  (if op.sinkClass = eNonIdempotent then db.assertNoClassERetry operationId else pure ())
  assertClaimable operationId op
  require (.transitionConflict ("Optimistic lock failed for operation " ++
    operationId ++ " (expected version=" ++ decimal op.version ++
    "). Another worker claimed execution."))
    (db.operations.any (claims operationId op.version))
  let db := { db with operations := db.operations.map (claim operationId op.version) }
  let op ← db.load true operationId
  let db ← db.appendEvent H env {
    operationId
    eventType := .executionStarted
    previousTruthState := some (.member .authorized)
    assertedTruthState := some (.member .executionStarted) }
  return (op, db)

/-- `record_outcome_unknown`. -/
def recordOutcomeUnknown : Except Error (Operation × Db τ) := do
  let op ← db.load env.refreshed operationId
  -- the state that is checked is not the one of the row
  assertTransition .executionStarted .outcomeUnknown
  db.advance H env op .outcomeUnknown {
    operationId
    eventType := .outcomeUnknown
    previousTruthState := some (.member .executionStarted)
    assertedTruthState := some (.member .outcomeUnknown)
    proofType := some "outcome_uncertain" }

/-- The arguments that `complete_success` and `complete_failure` have in common. -/
structure Completion where
  operationId : PyStr
  proofType : Option PyStr
  proofSubjectHash : Option PyStr
  actorIdentity : Option PyStr
  cappoDecisionId : Option PyStr
  hasTruthTransition : Bool := false

/-- `complete_success` and `complete_failure`: the state they assert and its event, and what they
make of the row's assurance level. -/
def complete (toState : TruthState) (eventType : P5EventType)
    (c : Completion) (assure : Option PyStr → Option PyStr)
    (assuranceLevel : Option PyStr) : Except Error (Operation × Db τ) := do
  let op ← db.load env.refreshed c.operationId
  require (.forbiddenTransition (PyStr.ofString
    "Cannot transition directly from AUTHORIZED to " ++ toState.value ++
    ". EXECUTION_STARTED must be recorded first."))
    (op.currentTruthState.state ≠ .authorized)
  require (.truthTransitionDenied ("Actor '" ++ c.actorIdentity.getD "None" ++
    "' does not have the truth.transition right required to assert " ++
    toState.value ++ ".")) c.hasTruthTransition
  assertTransition op.currentTruthState.state toState
  db.advance H env { op with assuranceLevel := assure op.assuranceLevel } toState {
    operationId := c.operationId
    eventType
    previousTruthState := some op.currentTruthState
    assertedTruthState := some (.member toState)
    proofType := c.proofType
    proofSubjectHash := c.proofSubjectHash
    cappoDecisionId := c.cappoDecisionId
    assuranceLevel }

/-- `complete_success`. -/
def completeSuccess (c : Completion)
    (assuranceLevel : Option PyStr) : Except Error (Operation × Db τ) :=
  db.complete H env .completedSuccess .truthCompletedSuccess c (fun _ => assuranceLevel)
    assuranceLevel

/-- `complete_failure`. -/
def completeFailure (c : Completion) : Except Error (Operation × Db τ) :=
  db.complete H env .completedFailure .truthCompletedFailure c id none

/-- `record_observed_effect`. -/
def recordObservedEffect : Except Error (Operation × Db τ) := do
  let op ← db.load env.refreshed operationId
  assertTransition op.currentTruthState.state .observedEffect
  db.advance H env op .observedEffect {
    operationId
    eventType := .observedEffect
    previousTruthState := some op.currentTruthState
    assertedTruthState := some (.member .observedEffect)
    proofType := some "observation" }

end Db

/-- A call of the engine. Arguments that a method does not read are left out. -/
inductive Call where
  | createOperation (operationId consequenceId sinkClass intentHash actorIdentity : PyStr)
  | authorize (operationId : PyStr) (cappoDecisionId : Option PyStr)
  | startExecution (operationId : PyStr)
  | recordOutcomeUnknown (operationId : PyStr)
  | recordObservedEffect (operationId : PyStr)
  | completeSuccess (c : Db.Completion) (assuranceLevel : Option PyStr)
  | completeFailure (c : Db.Completion)

/-- The operation that a call is about. -/
def Call.operationId : Call → PyStr
  | createOperation operationId _ _ _ _ => operationId
  | authorize operationId _ => operationId
  | startExecution operationId => operationId
  | recordOutcomeUnknown operationId => operationId
  | recordObservedEffect operationId => operationId
  | completeSuccess c _ => c.operationId
  | completeFailure c => c.operationId

namespace Db

variable (db : Db τ) (H : Host τ)

/-- The call of a method. -/
def exec (env : Env τ) : Call → Except Error (Operation × Db τ)
  | .createOperation operationId consequenceId sinkClass intentHash actorIdentity =>
    db.createOperation H env operationId consequenceId sinkClass intentHash actorIdentity
  | .authorize operationId cappoDecisionId => db.authorize H env operationId cappoDecisionId
  | .startExecution operationId => db.startExecution H env operationId
  | .recordOutcomeUnknown operationId => db.recordOutcomeUnknown H env operationId
  | .recordObservedEffect operationId => db.recordObservedEffect H env operationId
  | .completeSuccess c assuranceLevel => db.completeSuccess H env c assuranceLevel
  | .completeFailure c => db.completeFailure H env c

/-- The tables after a call. A call that raises is rolled back. -/
def apply (call : Env τ × Call) : Db τ :=
  match db.exec H call.1 call.2 with
  | .ok (_, db') => db'
  | .error _ => db

/-- The tables after a sequence of calls of one session. -/
def run (calls : List (Env τ × Call)) : Db τ := calls.foldl (fun db call => db.apply H call) db

end Db

/-! ## The dispatcher -/

/-- What the transport does with a payload. -/
inductive Transport where
  | delivered
  | transportError (text : PyStr)
  | unexpected (text : PyStr)

/-- `_process_item`: the payload that is handed to the transport, the outbox row afterwards, and the
answer. -/
def processItem (maxAttempts : ℕ) (lockedAt finishedAt : τ) (item : Outbox τ) (event : Event τ)
    (transport : List (PyStr × Json) → Transport) :
    List (PyStr × Json) × Outbox τ × Bool :=
  let item := { item with
    status := .inProgress, lockedAt := some lockedAt, attempts := item.attempts + 1 }
  let payload : List (PyStr × Json) := [(PyStr.ofString "event_id", .str event.eventId),
    ("operation_id", .str event.operationId),
    ("p5_truth_state", nullable (pyOr event.assertedTruthState event.previousTruthState)),
    ("event_hash", .str event.eventHash),
    ("previous_event_hash", nullable event.previousEventHash)] ++
    truthy "proof_subject_hash" event.proofSubjectHash ++
    truthy "cappo_decision_id" event.cappoDecisionId ++
    [(PyStr.ofString "payload_hash", .str item.payloadHash)]
  let failed (error : PyStr) : Outbox τ :=
    if maxAttempts ≤ item.attempts then
      { item with
        lastError := some error, status := .deadLetter, deadLetteredAt := some finishedAt }
    else { item with lastError := some error, status := .failedRetryable }
  match transport payload with
  | .delivered =>
    (payload, { item with status := .sent, sentAt := some finishedAt, lastError := none }, true)
  | .transportError text => (payload, failed text, false)
  | .unexpected text => (payload, failed ("Unexpected failure: " ++ text), false)

end P5
