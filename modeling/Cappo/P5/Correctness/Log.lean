import Cappo.Lib.AuditLog
import Cappo.Lib.KeyedTable
import Cappo.P5.Engine
import Mathlib.Data.List.Chain

/-!
# The log of an operation

What the tables say about an operation, along every sequence of calls: its events are numbered and
chained, its row counts them and holds the state that the last one asserts, and each of them waits
in the outbox under the hash of what the dispatcher will send.

The methods check a transition from the state of the row, but for `authorize` and
`record_outcome_unknown`, which check one from a state that they take for granted
(`Call.assumes`). Called in another state they succeed all the same.

## Main results

* `exec_eq_ok`: what a call that returns does to the tables;
* `run_integrity`: numbering, chain, hashes, version and outbox along every sequence of calls;
* `run_truthMachine_iff`: when the log runs through the allowed transitions.
-/

namespace P5

open VdbC1 (PyStr Json)
open KeyedRows
open Checks
open List

variable {τ : Type} {H : Host τ} {env : Env τ} {db db' : Db τ} {operationId : PyStr}
  {op : Operation} {call : Call} {calls : List (Env τ × Call)}

/-! ## Events -/

/-- The hash that the stored columns of an event have. -/
def Host.eventHash (H : Host τ) (e : Event τ) : Option PyStr :=
  H.computeEventHash e.eventId e.operationId e.eventSequence e.previousEventHash e.eventType
    e.previousTruthState e.assertedTruthState e.proofType e.proofSubjectHash e.cappoDecisionId
    (H.isoformat e.createdAt)

namespace Event

/-- The state that the event was written in, as it says. -/
def previous? (e : Event τ) : Option TruthState := e.previousTruthState.bind TruthState.ofColumn

/-- The state that an event asserts. -/
def asserted? (e : Event τ) : Option TruthState := e.assertedTruthState.bind TruthState.ofColumn

/-- The members of the payload that the dispatcher reads from an event. -/
def rebuilt (e : Event τ) : List (PyStr × Json) := [(PyStr.ofString "event_id", .str e.eventId),
  ("operation_id", .str e.operationId),
  ("p5_truth_state", nullable (pyOr e.assertedTruthState e.previousTruthState)),
  ("event_hash", .str e.eventHash),
  ("previous_event_hash", nullable e.previousEventHash)] ++
  truthy "proof_subject_hash" e.proofSubjectHash ++
  truthy "cappo_decision_id" e.cappoDecisionId

/-- The payload without its `payload_hash` member. -/
def unhashed (payload : List (PyStr × Json)) : List (PyStr × Json) :=
  payload.filter fun m => m.1 ≠ "payload_hash"

lemma filter_truthy {key : PyStr} (hkey : key ≠ "payload_hash")
    (s : Option PyStr) : unhashed (truthy key s) = truthy key s := by
  refine filter_eq_self.mpr fun m hm => decide_eq_true ?_
  match s, hm with
  | some (c :: s), hm =>
    obtain rfl := mem_singleton.mp hm
    exact hkey

/-- What the dispatcher sends of an event. -/
lemma unhashed_processItem (maxAttempts : ℕ) (lockedAt finishedAt : τ) (item : Outbox τ)
    (e : Event τ) (transport : List (PyStr × Json) → Transport) :
    unhashed (processItem maxAttempts lockedAt finishedAt item e transport).1 = e.rebuilt := by
  have hpayload : (processItem maxAttempts lockedAt finishedAt item e transport).1 =
      e.rebuilt ++ [(PyStr.ofString "payload_hash", .str item.payloadHash)] := by
    unfold processItem
    dsimp only
    split <;> rfl
  rw [hpayload, unhashed, filter_append, rebuilt, filter_append, filter_append]
  change unhashed _ ++ unhashed (truthy _ _) ++ unhashed (truthy _ _) ++ [] = _
  rw [filter_truthy (by decide), filter_truthy (by decide), append_nil]
  rfl

end Event

/-- An outbox row announces an event: its hash is that of what the dispatcher will send. -/
structure Announces (H : Host τ) (e : Event τ) (item : Outbox τ) : Prop where
  eventId : item.eventId = e.eventId
  payloadHash : H.payloadHash e.rebuilt = some item.payloadHash

/-! ## What a call does -/

/-- The event that `_append_event` writes. -/
structure Appended (H : Host τ) (db : Db τ) (a : Db.Append) (e : Event τ) : Prop where
  fresh : e.eventId ∉ db.events.map Event.eventId
  operationId : e.operationId = a.operationId
  eventSequence : e.eventSequence = db.nextSequence a.operationId
  previousEventHash : db.previousHash a.operationId = .ok e.previousEventHash
  eventType : e.eventType = a.eventType.value
  previous : e.previous? = a.previousTruthState.map StateAttr.state
  asserted : e.asserted? = a.assertedTruthState.map StateAttr.state
  proofType : e.proofType = a.proofType
  proofSubjectHash : e.proofSubjectHash = a.proofSubjectHash
  hash : H.eventHash e = some e.eventHash

lemma bind_ofColumn_str (a : Option StateAttr) :
    (a.map StateAttr.str).bind TruthState.ofColumn = a.map StateAttr.state := by
  cases a with
  | none => rfl
  | some a => exact a.ofColumn_str

variable {a : Db.Append}

/-- An event and its outbox row are added. -/
lemma appendEvent_eq_ok (h : db.appendEvent H env a = .ok db') :
    ∃ e item, Appended H db a e ∧ Announces H e item ∧
      db' = { db with events := db.events ++ [e], outbox := db.outbox ++ [item] } := by
  unfold Db.appendEvent at h
  obtain ⟨previousEventHash, hprevious, h⟩ := bind_eq_ok.mp h
  obtain ⟨eventHash, hhash, h⟩ := bind_eq_ok.mp h
  obtain ⟨payloadHash, hpayload, h⟩ := bind_eq_ok.mp h
  obtain ⟨_, hfresh, h⟩ := bind_eq_ok.mp h
  obtain ⟨_, -, h⟩ := bind_eq_ok.mp h
  obtain rfl := pure_eq_ok.mp h
  rw [ofOption_eq_ok] at hhash hpayload
  rw [require_eq_ok, decide_eq_true_eq] at hfresh
  refine ⟨_, _, ?_, ?_, rfl⟩
  · exact {
      fresh := hfresh
      operationId := rfl
      eventSequence := rfl
      previousEventHash := hprevious
      eventType := rfl
      previous := bind_ofColumn_str a.previousTruthState
      asserted := bind_ofColumn_str a.assertedTruthState
      proofType := rfl
      proofSubjectHash := rfl
      hash := hhash }
  · exact ⟨rfl, hpayload⟩

/-- The row of an operation after a call: what a call never changes, the version, and the state. -/
structure Operation.Advances (row after : Operation) : Prop where
  operationId : after.operationId = row.operationId
  consequenceId : after.consequenceId = row.consequenceId
  sinkClass : after.sinkClass = row.sinkClass
  intentHash : after.intentHash = row.intentHash
  version : after.version = row.version + 1

/-- What a call that returned has done to the tables: `before` is the row it found, `after` the row
it left, `e` the event it appended, with the outbox row `item`. -/
structure Step (H : Host τ) (db db' : Db τ) (a : Db.Append) (before : Option Operation)
    (after : Operation) (e : Event τ) (item : Outbox τ) : Prop where
  found : db.operation a.operationId = before
  operationId : after.operationId = a.operationId
  operations : db'.operations = save Operation.operationId after db.operations
  created : before = none → after.version = 0
  advances : ∀ row ∈ before, row.Advances after
  appended : Appended H db a e
  announced : Announces H e item
  events : db'.events = db.events ++ [e]
  outbox : db'.outbox = db.outbox ++ [item]
  asserted : e.asserted? = some after.currentTruthState.state

/-- What a loaded row has of the stored one, whatever the form of its state. -/
structure Operation.Loaded (row op : Operation) : Prop where
  operationId : op.operationId = row.operationId
  consequenceId : op.consequenceId = row.consequenceId
  sinkClass : op.sinkClass = row.sinkClass
  intentHash : op.intentHash = row.intentHash
  version : op.version = row.version
  state : op.currentTruthState.state = row.currentTruthState.state

lemma load_eq_ok (h : db.load refreshed operationId = .ok op) :
    ∃ row, db.operation operationId = some row ∧ row.Loaded op := by
  unfold Db.load at h
  obtain ⟨row, hrow, h⟩ := bind_eq_ok.mp h
  rw [ofOption_eq_ok] at hrow
  obtain rfl := pure_eq_ok.mp h
  refine ⟨row, hrow, ?_⟩
  cases refreshed with
  | true | false => exact ⟨rfl, rfl, rfl, rfl, rfl, rfl⟩

/-- A call that starts with a load. -/
lemma load_bind_eq_ok {f : Operation → Except Error α}
    (h : (db.load refreshed operationId >>= f) = .ok x) :
    ∃ row op, db.operation operationId = some row ∧ row.Loaded op ∧ f op = .ok x := by
  obtain ⟨op, hload, h⟩ := bind_eq_ok.mp h
  obtain ⟨row, hrow, hloaded⟩ := load_eq_ok hload
  exact ⟨row, op, hrow, hloaded, h⟩

variable {after : Operation} {assuranceLevel : Option PyStr} {toState : TruthState}

/-- A call that ends with an event. -/
lemma append_pure_eq_ok (h : (do
      let db1 ← db.appendEvent H env a
      return (op, db1)) = Except.ok (after, db')) :
    after = op ∧ ∃ e item, Appended H db a e ∧ Announces H e item ∧
      db' = { db with events := db.events ++ [e], outbox := db.outbox ++ [item] } := by
  obtain ⟨db1, happend, h⟩ := bind_eq_ok.mp h
  obtain ⟨rfl, rfl⟩ := Prod.mk.inj (pure_eq_ok.mp h)
  obtain ⟨e, item, happended, hannounced, rfl⟩ := appendEvent_eq_ok happend
  exact ⟨rfl, e, item, happended, hannounced, rfl⟩

/-- The end of the methods that change a row they loaded. -/
lemma advance_eq_ok (hrow : db.operation a.operationId = some row)
    (hload : row.Loaded op) (hasserted : a.assertedTruthState = some (.member toState))
    (h : db.advance H env { op with assuranceLevel } toState a = .ok (after, db')) :
    ∃ e item, Step H db db' a (some row) after e item := by
  unfold Db.advance at h
  obtain ⟨rfl, e, item, happended, hannounced, rfl⟩ := append_pure_eq_ok h
  have hid : op.operationId = a.operationId :=
    hload.operationId.trans (mem_of_row? hrow).2
  have hfound : db.operation op.operationId = some row := hid ▸ hrow
  exact ⟨e, item, {
    found := hrow
    operationId := hid
    operations := Eq.symm <| save_of_some hfound rfl
    created := nofun
    advances := by
      rintro _ ⟨⟩
      exact ⟨hload.operationId, hload.consequenceId, hload.sinkClass, hload.intentHash,
        congrArg Nat.succ hload.version⟩
    appended := { happended with }
    announced := hannounced
    events := rfl
    outbox := rfl
    asserted := happended.asserted.trans (congrArg _ hasserted) }⟩

namespace Call

/-- The event that a call appends, when the row it loads has the state `current`. -/
def event (current : StateAttr) : Call → Db.Append
  | createOperation operationId _ _ _ _ => {
    operationId
    eventType := .intentRequested
    previousTruthState := none
    assertedTruthState := some (.member .requested) }
  | authorize operationId cappoDecisionId => {
    operationId
    eventType := .cappoAuthorized
    previousTruthState := some (.member .requested)
    assertedTruthState := some (.member .authorized)
    cappoDecisionId }
  | startExecution operationId => {
    operationId
    eventType := .executionStarted
    previousTruthState := some (.member .authorized)
    assertedTruthState := some (.member .executionStarted) }
  | recordOutcomeUnknown operationId => {
    operationId
    eventType := .outcomeUnknown
    previousTruthState := some (.member .executionStarted)
    assertedTruthState := some (.member .outcomeUnknown)
    proofType := some "outcome_uncertain" }
  | recordObservedEffect operationId => {
    operationId
    eventType := .observedEffect
    previousTruthState := some current
    assertedTruthState := some (.member .observedEffect)
    proofType := some "observation" }
  | completeSuccess c assuranceLevel => {
    operationId := c.operationId
    eventType := .truthCompletedSuccess
    previousTruthState := some current
    assertedTruthState := some (.member .completedSuccess)
    proofType := c.proofType
    proofSubjectHash := c.proofSubjectHash
    cappoDecisionId := c.cappoDecisionId
    assuranceLevel }
  | completeFailure c => {
    operationId := c.operationId
    eventType := .truthCompletedFailure
    previousTruthState := some current
    assertedTruthState := some (.member .completedFailure)
    proofType := c.proofType
    proofSubjectHash := c.proofSubjectHash
    cappoDecisionId := c.cappoDecisionId }

lemma operationId_event (current : StateAttr) (call : Call) :
    (call.event current).operationId = call.operationId := by
  cases call <;> rfl

/-- The state that a call asserts. -/
def asserts : Call → TruthState
  | createOperation _ _ _ _ _ => .requested
  | authorize _ _ => .authorized
  | startExecution _ => .executionStarted
  | recordOutcomeUnknown _ => .outcomeUnknown
  | recordObservedEffect _ => .observedEffect
  | completeSuccess _ _ => .completedSuccess
  | completeFailure _ => .completedFailure

lemma asserted_event (current : StateAttr) (call : Call) :
    (call.event current).assertedTruthState = some (.member call.asserts) := by
  cases call <;> rfl

/-- The state from which a call checks its transition without a look at the row. -/
def assumes : Call → Option TruthState
  | authorize _ _ => some .requested
  | recordOutcomeUnknown _ => some .executionStarted
  | _ => none

def creates : Call → Bool
  | createOperation _ _ _ _ _ => true
  | _ => false

/-- What a call that returns has found: no row to create one, and else a row in a state that the
call leaves, or the state that it assumes. -/
def Fits (call : Call) (current : StateAttr) : Option Operation → Prop
  | none => call.creates = true
  | some row => call.creates = false ∧ current.state = row.currentTruthState.state ∧
      (call.event current).previousTruthState.map StateAttr.state =
        some (call.assumes.getD row.currentTruthState.state) ∧
      call.asserts ∈ (call.assumes.getD row.currentTruthState.state).allowedTransitions

end Call

lemma assertTransition_eq_ok :
    Db.assertTransition fromState toState = .ok u ↔ toState ∈ fromState.allowedTransitions := by
  rw [Db.assertTransition, require_eq_ok, decide_eq_true_eq]

/-- An operation is created in its first state, with its first event. -/
lemma createOperation_eq_ok
    (h : db.createOperation H env operationId consequenceId sinkClass intentHash actorIdentity =
      .ok (after, db')) : ∃ e item, Step H db db'
      ((Call.createOperation operationId consequenceId sinkClass intentHash actorIdentity).event
        (.member .requested)) none after e item := by
  unfold Db.createOperation at h
  obtain ⟨_, hnew, h⟩ := bind_eq_ok.mp h
  obtain ⟨rfl, e, item, happended, hannounced, rfl⟩ := append_pure_eq_ok h
  rw [require_eq_ok, Option.isNone_iff_eq_none] at hnew
  exact ⟨e, item, {
    found := hnew
    operationId := rfl
    operations := (save_of_none hnew rfl).symm
    created := fun _ => rfl
    advances := nofun
    appended := { happended with }
    announced := hannounced
    events := rfl
    outbox := rfl
    asserted := happended.asserted }⟩

lemma Db.operationId_claim (expectedVersion : ℕ) (row : Operation) :
    (claim operationId expectedVersion row).operationId = row.operationId := by
  unfold claim
  split <;> rfl

/-- The `UPDATE` of `start_execution` finds the row that was loaded. -/
lemma startExecution_eq_ok (hids : (db.operations.map Operation.operationId).Nodup)
    (h : db.startExecution H env operationId = .ok (after, db')) :
    ∃ row e item, row.currentTruthState.state = .authorized ∧
      Step H db db' ((Call.startExecution operationId).event row.currentTruthState) (some row)
        after e item := by
  unfold Db.startExecution at h
  obtain ⟨row, op, hrow, hloaded, h⟩ := load_bind_eq_ok h
  obtain ⟨hmem, hid⟩ := mem_of_row? hrow
  obtain ⟨_, -, h⟩ := bind_eq_ok.mp h
  obtain ⟨_, hguard, h⟩ := bind_eq_ok.mp h
  have hauthorized : row.currentTruthState.state = .authorized := by
    rw [← hloaded.state]
    unfold Db.assertClaimable at hguard
    split at hguard
    · assumption
    · split at hguard <;> nomatch hguard
  obtain ⟨_, -, h⟩ := bind_eq_ok.mp h
  obtain ⟨op1, hload1, h⟩ := bind_eq_ok.mp h
  obtain ⟨rfl, e, item, happended, hannounced, rfl⟩ := append_pure_eq_ok h
  -- the row that the `UPDATE` changes is the only one of the operation
  have hclaimed : Db.claim operationId op.version row =
      { row with currentTruthState := .text .executionStarted, version := row.version + 1 } := by
    rw [Db.claim, if_pos, hloaded.version]
    exact decide_eq_true ⟨hid, hloaded.version.symm, hauthorized⟩
  have hafter : after = Db.claim operationId op.version row := by
    unfold Db.load at hload1
    obtain ⟨row1, hrow1, hload1⟩ := bind_eq_ok.mp hload1
    rw [ofOption_eq_ok, Db.operation, row?_map fun row _ =>
      Db.operationId_claim _ row, show row? _ _ _ = some row from hrow] at hrow1
    cases hrow1
    have hop := pure_eq_ok.mp hload1
    rw [if_pos rfl] at hop
    dsimp only at hop
    rw [hclaimed] at hop ⊢
    exact hop.symm
  have hafterId : after.operationId = operationId := by
    rw [hafter, hclaimed]
    exact hid
  refine ⟨row, e, item, hauthorized, {
    found := hrow
    operationId := hafterId
    operations := ?_
    created := nofun
    advances := ?_
    appended := { happended with }
    announced := hannounced
    events := rfl
    outbox := rfl
    asserted := by rw [hafter, hclaimed]; exact happended.asserted }⟩
  · rw [save_of_some hrow hafterId]
    refine map_congr_left fun row' hrow' => ?_
    by_cases heq : row'.operationId = operationId
    · rw [if_pos heq, hafter, inj_on_of_nodup_map hids hrow' hmem (heq.trans hid.symm)]
    · rw [if_neg heq, Db.claim, if_neg]
      exact fun hclaims => heq (of_decide_eq_true hclaims).1
  · rintro _ ⟨⟩
    rw [hafter, hclaimed]
    exact ⟨rfl, rfl, rfl, rfl, rfl⟩

/-- `complete_success` and `complete_failure` leave a state from which the one they assert is
allowed. -/
lemma complete_eq_ok
    (h : db.complete H env toState eventType c assure assuranceLevel = .ok (after, db')) :
    ∃ current row e item, current.state = row.currentTruthState.state ∧
      toState ∈ row.currentTruthState.state.allowedTransitions ∧
      Step H db db' {
        operationId := c.operationId
        eventType
        previousTruthState := some current
        assertedTruthState := some (.member toState)
        proofType := c.proofType
        proofSubjectHash := c.proofSubjectHash
        cappoDecisionId := c.cappoDecisionId
        assuranceLevel } (some row) after e item := by
  unfold Db.complete at h
  obtain ⟨row, op, hrow, hloaded, h⟩ := load_bind_eq_ok h
  obtain ⟨_, -, h⟩ := bind_eq_ok.mp h
  obtain ⟨_, -, h⟩ := bind_eq_ok.mp h
  obtain ⟨_, htransition, h⟩ := bind_eq_ok.mp h
  rw [assertTransition_eq_ok, hloaded.state] at htransition
  obtain ⟨e, item, hstep⟩ := advance_eq_ok hrow hloaded rfl h
  exact ⟨op.currentTruthState, row, e, item, hloaded.state, htransition, hstep⟩

/-- What a call that returns does to the tables. -/
theorem exec_eq_ok (hids : (db.operations.map Operation.operationId).Nodup)
    (h : db.exec H env call = .ok (after, db')) :
    ∃ current before e item, Step H db db' (call.event current) before after e item ∧
      call.Fits current before := by
  cases call with
  | createOperation operationId consequenceId sinkClass intentHash actorIdentity =>
    obtain ⟨e, item, hstep⟩ := createOperation_eq_ok h
    exact ⟨_, none, e, item, hstep, rfl⟩
  | authorize | recordOutcomeUnknown =>
    obtain ⟨row, op, hrow, hloaded, h⟩ := load_bind_eq_ok h
    obtain ⟨_, htransition, h⟩ := bind_eq_ok.mp h
    rw [assertTransition_eq_ok] at htransition
    obtain ⟨e, item, hstep⟩ := advance_eq_ok hrow hloaded rfl h
    exact ⟨op.currentTruthState, some row, e, item, hstep, rfl, hloaded.state, rfl, htransition⟩
  | startExecution operationId =>
    obtain ⟨row, e, item, hauthorized, hstep⟩ := startExecution_eq_ok hids h
    refine ⟨row.currentTruthState, some row, e, item, hstep, rfl, rfl, ?_, ?_⟩
    · exact congrArg some hauthorized.symm
    · show TruthState.executionStarted ∈ row.currentTruthState.state.allowedTransitions
      rw [hauthorized]
      decide
  | recordObservedEffect operationId =>
    obtain ⟨row, op, hrow, hloaded, h⟩ := load_bind_eq_ok h
    obtain ⟨_, htransition, h⟩ := bind_eq_ok.mp h
    rw [assertTransition_eq_ok, hloaded.state] at htransition
    obtain ⟨e, item, hstep⟩ := advance_eq_ok hrow hloaded rfl h
    exact ⟨op.currentTruthState, some row, e, item, hstep, rfl, hloaded.state,
      congrArg some hloaded.state, htransition⟩
  | completeSuccess c assuranceLevel =>
    change db.completeSuccess H env c assuranceLevel = _ at h
    unfold Db.completeSuccess at h
    obtain ⟨current, row, e, item, hcurrent, htransition, hstep⟩ := complete_eq_ok h
    exact ⟨current, some row, e, item, hstep, rfl, hcurrent, congrArg some hcurrent, htransition⟩
  | completeFailure c =>
    change db.completeFailure H env c = _ at h
    unfold Db.completeFailure at h
    obtain ⟨current, row, e, item, hcurrent, htransition, hstep⟩ := complete_eq_ok h
    exact ⟨current, some row, e, item, hstep, rfl, hcurrent, congrArg some hcurrent, htransition⟩

/-! ## The log of an operation -/

/-- What the row of an operation says about its events. -/
structure History (op : Operation) (es : List (Event τ)) : Prop where
  sequences : es.map Event.eventSequence = List.range (op.version + 1)
  genesis : ∀ e ∈ es.head?, e.previousEventHash = none
  linked : es.IsChain fun a b => b.previousEventHash = some a.eventHash
  current : es.getLast?.bind Event.asserted? = some op.currentTruthState.state

/-- What the tables say after any sequence of calls. -/
structure Logged (H : Host τ) (db : Db τ) : Prop where
  ids : (db.operations.map Operation.operationId).Nodup
  known : ∀ e ∈ db.events, e.operationId ∈ db.operations.map Operation.operationId
  eventIds : (db.events.map Event.eventId).Nodup
  history : ∀ op ∈ db.operations, History op (db.eventsOf op.operationId)
  hashes : ∀ e ∈ db.events, H.eventHash e = some e.eventHash
  items : db.outbox.map Outbox.eventId = db.events.map Event.eventId
  announced : ∀ e ∈ db.events, ∃ item ∈ db.outbox, Announces H e item

variable {es : List (Event τ)}

/-- The number of the next event, and the hash it is chained to. -/
theorem History.next (hes : db.eventsOf operationId = es) (h : History op es) :
    db.nextSequence operationId = op.version + 1 ∧
      ∃ last ∈ es.getLast?, db.previousHash operationId = .ok (some last.eventHash) := by
  have hmax : (es.map Event.eventSequence).max? = some op.version := by
    rw [h.sequences, List.max?_eq_some_iff]
    exact ⟨mem_range.mpr (Nat.lt_succ_self _), fun n hn => Nat.le_of_lt_succ (mem_range.mp hn)⟩
  have hnext : db.nextSequence operationId = op.version + 1 := by
    unfold Db.nextSequence
    rw [hes, hmax]
  refine ⟨hnext, ?_⟩
  cases hlast : es.getLast? with
  | none => nomatch hlast ▸ h.current
  | some last =>
    have hsequence : last.eventSequence = op.version := by
      have := congrArg List.getLast? h.sequences
      rw [List.getLast?_map, hlast, range_succ, List.getLast?_concat] at this
      exact Option.some.inj this
    have hfilter := KeyedTable.filter_eq_singleton (f := Event.eventSequence) (t := es)
      (h.sequences ▸ nodup_range) (mem_of_getLast? hlast)
    rw [hsequence] at hfilter
    refine ⟨last, rfl, ?_⟩
    unfold Db.previousHash
    rw [hnext, hes]
    dsimp only
    rw [hfilter]

/-- An operation without a row has no event. -/
lemma Logged.eventsOf_eq_nil (h : Logged H db) (hnone : db.operation operationId = none) :
    db.eventsOf operationId = [] := by
  refine filter_eq_nil_iff.mpr fun e he heq => row?_eq_none.mp hnone ?_
  exact of_decide_eq_true heq ▸ h.known e he

variable {before : Option Operation} {e : Event τ} {item : Outbox τ}

/-- The event that a call appends comes next in the log of its operation. -/
lemma Logged.history_step (h : Logged H db) (hstep : Step H db db' a before after e item) :
    History after (db.eventsOf a.operationId ++ [e]) := by
  have hasserted : ((db.eventsOf a.operationId ++ [e]).getLast?).bind Event.asserted? =
      some after.currentTruthState.state := by
    rw [List.getLast?_concat]
    exact hstep.asserted
  cases before with
  | none =>
    have hempty := h.eventsOf_eq_nil hstep.found
    have hnext : db.nextSequence a.operationId = 0 := by
      unfold Db.nextSequence
      rw [hempty]
      rfl
    have hprevious := hstep.appended.previousEventHash
    unfold Db.previousHash at hprevious
    rw [hnext] at hprevious
    rw [hempty] at hasserted ⊢
    refine ⟨?_, ?_, isChain_singleton e, hasserted⟩
    · rw [nil_append, map_singleton, hstep.appended.eventSequence, hnext, hstep.created rfl]
      rfl
    · rintro _ ⟨⟩
      exact (Except.ok.inj hprevious).symm
  | some row =>
    obtain ⟨hmem, hid⟩ := mem_of_row? hstep.found
    have hhistory := h.history row hmem
    rw [hid] at hhistory
    obtain ⟨hnext, last, hlast, hhash⟩ := hhistory.next rfl
    have hprevious := Except.ok.inj (hstep.appended.previousEventHash.symm.trans hhash)
    refine ⟨?_, ?_, ?_, hasserted⟩
    · rw [map_append, hhistory.sequences, map_singleton,
        hstep.appended.eventSequence, hnext, (hstep.advances row rfl).version,
        range_succ (n := row.version + 1)]
    · intro first hfirst
      obtain ⟨e', es, hes⟩ := exists_cons_of_ne_nil (ne_nil_of_mem (mem_of_getLast? hlast))
      rw [hes] at hfirst
      exact hhistory.genesis first (hes ▸ hfirst)
    · refine isChain_append.mpr ⟨hhistory.linked, isChain_singleton e, ?_⟩
      rintro x hx _ ⟨⟩
      obtain rfl := Option.mem_unique hx hlast
      exact hprevious

lemma Db.eventsOf_append (hevents : db'.events = db.events ++ [e]) (operationId : PyStr) :
    db'.eventsOf operationId =
      db.eventsOf operationId ++ if e.operationId = operationId then [e] else [] := by
  unfold eventsOf
  rw [hevents, filter_append]
  congr 1
  by_cases h : e.operationId = operationId
  · rw [if_pos h, filter_cons_of_pos (by simpa using h), filter_nil]
  · rw [if_neg h, filter_cons_of_neg (by simpa using h), filter_nil]

/-- One call keeps what the tables say. -/
theorem Logged.step (h : Logged H db) (hstep : Step H db db' a before after e item) :
    Logged H db' where
  ids := by
    rw [hstep.operations]
    exact nodup_save after h.ids
  known := by
    simp only [hstep.operations, mem_keys_save, hstep.events, hstep.operationId]
    refine forall_mem_append.mpr ⟨fun e' he' => .inr (h.known e' he'), ?_⟩
    exact forall_mem_singleton.mpr (.inl hstep.appended.operationId)
  eventIds := by
    rw [hstep.events, map_append]
    refine nodup_append.mpr ⟨h.eventIds, nodup_singleton _, ?_⟩
    rintro x hx y hy rfl
    exact hstep.appended.fresh (mem_singleton.mp hy ▸ hx)
  history op hop := by
    rw [Db.eventsOf_append hstep.events, hstep.appended.operationId]
    rw [hstep.operations] at hop
    rcases mem_save hop with rfl | ⟨hop, hne⟩
    · rw [if_pos hstep.operationId.symm, hstep.operationId]
      exact h.history_step hstep
    · rw [hstep.operationId] at hne
      rw [if_neg hne.symm, append_nil]
      exact h.history op hop
  hashes := by
    rw [hstep.events]
    exact forall_mem_append.mpr ⟨h.hashes, forall_mem_singleton.mpr hstep.appended.hash⟩
  items := by
    rw [hstep.outbox, hstep.events, map_append, map_append, h.items]
    exact congrArg (_ ++ [·]) hstep.announced.eventId
  announced := by
    rw [hstep.events, hstep.outbox]
    refine forall_mem_append.mpr ⟨fun e' he' => ?_, forall_mem_singleton.mpr ?_⟩
    · obtain ⟨item', hitem', hannounces⟩ := h.announced e' he'
      exact ⟨item', mem_append_left _ hitem', hannounces⟩
    · exact ⟨item, mem_concat_self, hstep.announced⟩

lemma logged_empty : Logged H Db.empty where
  ids := nodup_nil
  known := nofun
  eventIds := nodup_nil
  history := nofun
  hashes := nofun
  items := rfl
  announced := nofun

lemma Logged.apply (h : Logged H db) (call : Env τ × Call) : Logged H (db.apply H call) := by
  unfold Db.apply
  split
  · next hexec =>
    obtain ⟨_, _, _, _, hstep, -⟩ := exec_eq_ok h.ids hexec
    exact h.step hstep
  · exact h

lemma Db.run_concat (calls : List (Env τ × Call)) (call : Env τ × Call) :
    db.run H (calls ++ [call]) = (db.run H calls).apply H call := by
  unfold run
  rw [foldl_append]
  rfl

/-- What the tables say after any sequence of calls. -/
lemma logged_run (H : Host τ) (calls : List (Env τ × Call)) : Logged H (Db.empty.run H calls) := by
  induction calls using List.reverseRecOn with
  | nil => exact logged_empty
  | append_singleton calls call ih =>
    rw [Db.run_concat]
    exact ih.apply call

/-- Along every sequence of calls the events of an operation are numbered from zero to its version
and chained, every hash is that of the stored columns, and every event has one outbox row, with the
hash of what the dispatcher sends. -/
theorem run_integrity (H : Host τ) (calls : List (Env τ × Call)) :
    (∀ op ∈ (Db.empty.run H calls).operations,
      ((Db.empty.run H calls).eventsOf op.operationId).map Event.eventSequence =
        List.range (op.version + 1) ∧
      (∀ e ∈ ((Db.empty.run H calls).eventsOf op.operationId).head?,
        e.previousEventHash = none) ∧
      ((Db.empty.run H calls).eventsOf op.operationId).IsChain
        fun a b => b.previousEventHash = some a.eventHash) ∧
    ∀ e ∈ (Db.empty.run H calls).events,
      (∃ op ∈ (Db.empty.run H calls).operations, op.operationId = e.operationId) ∧
      H.eventHash e = some e.eventHash ∧
      ∃ item, (Db.empty.run H calls).outbox.filter (fun i => i.eventId = e.eventId) = [item] ∧
        ∀ maxAttempts lockedAt finishedAt transport, H.payloadHash (Event.unhashed
          (processItem maxAttempts lockedAt finishedAt item e transport).1) =
            some item.payloadHash := by
  have h := logged_run H calls
  generalize Db.empty.run H calls = db at h
  refine ⟨fun op hop => ?_, fun e he => ⟨?_, h.hashes e he, ?_⟩⟩
  · have hhistory := h.history op hop
    exact ⟨hhistory.sequences, hhistory.genesis, hhistory.linked⟩
  · exact mem_map.mp (h.known e he)
  · obtain ⟨item, hitem, hannounces⟩ := h.announced e he
    refine ⟨item, ?_, fun maxAttempts lockedAt finishedAt transport => ?_⟩
    · rw [← hannounces.eventId]
      exact KeyedTable.filter_eq_singleton (f := Outbox.eventId) (h.items ▸ h.eventIds) hitem
    · rw [Event.unhashed_processItem]
      exact hannounces.payloadHash

/-! ## The truth machine -/

/-- One event after another: it starts from the state that the one before asserts, and makes an
allowed transition. -/
def Follows (a b : Event τ) : Prop :=
  ∃ s t, a.asserted? = some s ∧ b.previous? = some s ∧ b.asserted? = some t ∧
    t ∈ s.allowedTransitions

/-- The event completes its operation. -/
def Event.Completes (e : Event τ) : Prop :=
  e.asserted? = some .completedSuccess ∨ e.asserted? = some .completedFailure

instance (e : Event τ) : Decidable e.Completes := inferInstanceAs (Decidable (_ ∨ _))

/-- The log of an operation runs through the machine: every event follows the one before, at most
one completes the operation, and none comes after it. -/
structure TruthMachine (es : List (Event τ)) : Prop where
  follows : es.IsChain Follows
  once : (es.filter fun e => e.Completes).length ≤ 1
  last : ∀ pre e post, es = pre ++ e :: post → e.Completes → post = []

/-- Nothing follows an event that completes its operation. -/
lemma Event.Completes.not_follows {a b : Event τ} (h : a.Completes) : ¬Follows a b := by
  rintro ⟨s, t, hs, -, -, ht⟩
  rcases h with h | h
  · obtain rfl := Option.mem_unique hs h
    nomatch ht
  · obtain rfl := Option.mem_unique hs h
    nomatch ht

/-- It is enough that every event follows the one before. -/
lemma truthMachine_iff : TruthMachine es ↔ es.IsChain Follows := by
  refine ⟨TruthMachine.follows, fun h => ?_⟩
  have hlast : ∀ pre e post, es = pre ++ e :: post → e.Completes → post = [] := by
    rintro pre e (_ | ⟨e', post⟩) rfl hcompletes
    · rfl
    · have hrest := (isChain_append.mp h).2.1
      exact absurd (isChain_cons_cons.mp hrest).1 hcompletes.not_follows
  refine ⟨h, ?_, hlast⟩
  by_cases hsome : ∃ e ∈ es, e.Completes
  · obtain ⟨e, he, hcompletes⟩ := hsome
    obtain ⟨pre, post, rfl⟩ := append_of_mem he
    obtain rfl := hlast pre e post rfl hcompletes
    -- an event before it that completes the operation would be the last, too
    have hpre : pre.filter (fun e => decide e.Completes) = [] := by
      refine filter_eq_nil_iff.mpr fun x hx hcompletes' => ?_
      obtain ⟨u, v, rfl⟩ := append_of_mem hx
      have hnil := hlast u x (v ++ [e]) (by simp) (of_decide_eq_true hcompletes')
      exact absurd (append_eq_nil_iff.mp hnil).2 (cons_ne_nil e [])
    rw [filter_append, hpre, nil_append]
    exact length_filter_le _ [e]
  · have hnone : es.filter (fun e => decide e.Completes) = [] :=
      filter_eq_nil_iff.mpr fun e he hcompletes =>
        hsome ⟨e, he, of_decide_eq_true hcompletes⟩
    rw [hnone]
    exact Nat.zero_le 1

/-- The call does not take its operation out of a state other than the one it assumes. -/
def Db.Licit (db : Db τ) (H : Host τ) (call : Env τ × Call) : Prop :=
  ∀ op s r, db.operation call.2.operationId = some op → call.2.assumes = some s →
    db.exec H call.1 call.2 = .ok r → op.currentTruthState.state = s

/-- A call keeps a log in the machine exactly if it finds the state that it assumes. -/
lemma Logged.isChain_apply_iff (h : Logged H db) (call : Env τ × Call) :
    ((db.apply H call).eventsOf operationId).IsChain Follows ↔
      (db.eventsOf operationId).IsChain Follows ∧
        (call.2.operationId = operationId → db.Licit H call) := by
  unfold Db.apply
  cases hexec : db.exec H call.1 call.2 with
  | error e =>
    refine (and_iff_left fun _ op s r _ _ hr => ?_).symm
    nomatch hexec.symm.trans hr
  | ok r =>
    obtain ⟨current, before, e, item, hstep, hfits⟩ := exec_eq_ok h.ids
      (show _ = Except.ok (r.1, r.2) from hexec)
    dsimp only
    rw [Db.eventsOf_append hstep.events, hstep.appended.operationId, Call.operationId_event]
    by_cases hid : call.2.operationId = operationId
    · subst hid
      rw [if_pos rfl, isChain_append, and_iff_right (isChain_singleton e)]
      refine and_congr_right fun _ => ?_
      have hfound := hstep.found
      rw [Call.operationId_event] at hfound
      cases before with
      | none =>
        -- the operation is new
        rw [h.eventsOf_eq_nil hfound]
        refine iff_of_true nofun fun _ op s r hop => ?_
        nomatch hfound.symm.trans hop
      | some row =>
        obtain ⟨-, -, hprevious, htransition⟩ := hfits
        obtain ⟨hmem, hrow⟩ := mem_of_row? hfound
        have hcurrent := (h.history row hmem).current
        rw [hrow] at hcurrent
        have hasserted : e.asserted? = some call.2.asserts := by
          rw [hstep.appended.asserted, Call.asserted_event]
          rfl
        have hprevious := hstep.appended.previous.trans hprevious
        constructor
        · intro hfollows _ op s r hop hassumes hr
          obtain rfl := Option.mem_unique hfound hop
          obtain ⟨last, hlast, hstate⟩ := Option.bind_eq_some_iff.mp hcurrent
          obtain ⟨s', -, hs', hs'', -, -⟩ := hfollows last hlast e rfl
          rw [hassumes] at hprevious
          have heq := Option.mem_unique hs'' hprevious
          exact (Option.mem_unique hstate hs').trans heq
        · rintro hlicit x hx _ ⟨⟩
          have hstate : call.2.assumes.getD row.currentTruthState.state =
              row.currentTruthState.state := by
            cases hassumes : call.2.assumes with
            | none => rfl
            | some s => exact (hlicit rfl row s r hfound hassumes hexec).symm
          rw [hstate] at hprevious htransition
          obtain ⟨last, hlast, hlaststate⟩ := Option.bind_eq_some_iff.mp hcurrent
          obtain rfl := Option.mem_unique hx hlast
          exact ⟨_, _, hlaststate, hprevious, hasserted, htransition⟩
    · rw [if_neg hid, append_nil]
      exact (and_iff_left fun heq => absurd heq hid).symm

/-- Along every sequence of calls, the log of an operation runs through the machine exactly if no
call takes the operation out of a state other than the one that the call assumes. -/
theorem run_truthMachine_iff (H : Host τ) (calls : List (Env τ × Call)) (operationId : PyStr) :
    TruthMachine ((Db.empty.run H calls).eventsOf operationId) ↔
      AuditLog.Audited (fun pre call => call.2.operationId = operationId →
        (Db.empty.run H pre).Licit H call) calls := by
  rw [truthMachine_iff]
  refine AuditLog.audited_iff (P := fun calls =>
    ((Db.empty.run H calls).eventsOf operationId).IsChain Follows) isChain_nil ?_ calls
  intro pre call
  rw [Db.run_concat]
  exact (logged_run H pre).isChain_apply_iff call

namespace Sample

/-- Libraries for which a text, marked, is its own hash. -/
def host : Host ℕ where
  isoformat := CapabilityMount.JsonText.decimal
  sha256 s := some (35 :: s)
  sha256_ne_nil := by
    rintro s _ ⟨⟩
    exact cons_ne_nil _ _
  dumps := CapabilityMount.JsonText.dumpsAll CapabilityMount.JsonText.fractionText

/-- What the `n`th call draws. -/
def drawn (n : ℕ) : Env ℕ where
  eventId := CapabilityMount.JsonText.decimal n
  outboxId := CapabilityMount.JsonText.decimal n
  now := n
  refreshed := true

/-- An operation, up to the start of its execution. -/
def started : List (Env ℕ × Call) := [(drawn 0, .createOperation "o" "c"
    "A_TRANSACTIONAL_LOCAL" "i" "agent"),
  (drawn 1, .authorize "o" (some "d")),
  (drawn 2, .startExecution "o")]

/-- A success that is reported with the given hash. -/
def succeeded (n : ℕ) (proofSubjectHash : Option PyStr) : Env ℕ × Call :=
  (drawn n, .completeSuccess {
    operationId := "o"
    proofType := some "p"
    proofSubjectHash
    actorIdentity := some "agent"
    cappoDecisionId := some "d"
    hasTruthTransition := true } none)

/-- The operation is completed, and then authorized again. -/
def reopened : List (Env ℕ × Call) :=
  started ++ [succeeded 3 (some "h"), (drawn 4, .authorize "o" (some "d"))]

end Sample

/-- A completed operation is authorized again, and its log says that it was only requested. -/
theorem run_authorized_after_completion :
    ((Db.empty.run Sample.host Sample.reopened).eventsOf "o").map
        (fun e => (e.previous?, e.asserted?)) =
      [(none, some .requested), (some .requested, some .authorized),
        (some .authorized, some .executionStarted),
        (some .executionStarted, some .completedSuccess), (some .requested, some .authorized)] ∧
    ¬TruthMachine ((Db.empty.run Sample.host Sample.reopened).eventsOf "o") := by
  have hstates : ((Db.empty.run Sample.host Sample.reopened).eventsOf "o").map
      (fun e => (e.previous?, e.asserted?)) =
      [(none, some .requested), (some .requested, some .authorized),
        (some .authorized, some .executionStarted)] ++
        (some .executionStarted, some .completedSuccess) ::
          [(some .requested, some .authorized)] := by decide +kernel
  refine ⟨hstates, fun h => ?_⟩
  obtain ⟨pre, rest, hsplit, -, hrest⟩ := map_eq_append_iff.mp hstates
  obtain ⟨e, post, rfl, he, hpost⟩ := map_eq_cons_iff.mp hrest
  obtain rfl := h.last pre e post hsplit (.inl (congrArg Prod.snd he))
  nomatch hpost

end P5
