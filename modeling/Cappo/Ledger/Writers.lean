import Cappo.Ledger.Verifier
import Mathlib.Data.List.MinMax

/-!
# The writers of the ledgers

`PGLClient._append_ledger_event` appends a row after the newest row of its certificate, by
`created_at`. `AuditService.record` appends one after the newest of the rows that no other row
points at. Which of several newest rows the database returns is its own choice, so every query comes
with the function that makes it (`Newest`).

The calls of `record` come from any number of sessions. A session sees what is committed and what it
has inserted itself, and each of its statements sees what is committed by then.
-/

open VdbC1 CapabilityMount

namespace Ledger

/-- `ORDER BY created_at DESC` with `LIMIT 1`: one of the newest rows, if there is a row. -/
structure Newest {ρ : Type*} (createdAt : ρ → ℤ) where
  first : List ρ → Option ρ
  isSome_first : ∀ rows, rows ≠ [] → (first rows).isSome = true
  newest_first : ∀ rows row, first rows = some row →
    row ∈ rows ∧ ∀ other ∈ rows, createdAt other ≤ createdAt row

/-- A database that returns the first of the newest rows. -/
def Newest.ofArgmax {ρ : Type*} (createdAt : ρ → ℤ) : Newest createdAt where
  first := @List.argmax ρ ℤ Int.instLinearOrder.toPreorder Int.decLt createdAt
  isSome_first := by
    intro rows hne
    rw [Option.isSome_iff_ne_none]
    exact fun hnone => hne (List.argmax_eq_none.mp hnone)
  newest_first := by
    intro rows row hrow
    exact ⟨List.argmax_mem hrow, fun other hother => List.le_of_mem_argmax hother hrow⟩

/-- The columns of a certificate that its ledger rows are made of. -/
structure PGLCertificate where
  certificateId : PyStr
  genomeHash : PyStr
  planHash : PyStr

/-- One call of `_append_ledger_event`: its arguments, the defaults of the new row, and how the
database answers the query. -/
structure Append where
  cert : PGLCertificate
  eventType : PyStr
  evidence : Option Json
  eventId : PyStr
  createdAt : ℤ
  query : Newest PGLLedgerEvent.createdAt

/-- The payload of the new row. -/
def Append.payload (a : Append) : List (PyStr × Json) :=
  [(PyStr.ofString "certificate_id", .str a.cert.certificateId),
    (PyStr.ofString "event_type", .str a.eventType),
    (PyStr.ofString "genome_hash", .str a.cert.genomeHash),
    (PyStr.ofString "plan_hash", .str a.cert.planHash)] ++
  match a.evidence with
  | none => []
  | some evidence => [(PyStr.ofString "evidence_seal", evidence)]

namespace Canonical

variable (C : Canonical)

/-- The rows of a certificate. -/
def ofCertificate (certificateId : PyStr) (rows : List PGLLedgerEvent) : List PGLLedgerEvent :=
  rows.filter fun ev => ev.certificateId = certificateId

/-- The row that the query finds. -/
def previousEvent (rows : List PGLLedgerEvent) (a : Append) : Option PGLLedgerEvent :=
  a.query.first (ofCertificate a.cert.certificateId rows)

/-- The row to be appended, unless `sha256_json` raises. -/
def ledgerEvent (rows : List PGLLedgerEvent) (a : Append) : Option PGLLedgerEvent := do
  let previousHash := (previousEvent rows a).map PGLLedgerEvent.eventHash
  let eventHash ← C.sha256Json (.obj (("previous_event_hash", nullable previousHash) :: a.payload))
  return {
    eventId := a.eventId
    certificateId := a.cert.certificateId
    eventType := a.eventType
    payload := .obj a.payload
    previousEventHash := previousHash
    eventHash
    createdAt := a.createdAt }

/-- `_append_ledger_event`, on the rows in the order in which they were appended. -/
def appendLedgerEvent (rows : List PGLLedgerEvent) (a : Append) : List PGLLedgerEvent :=
  match C.ledgerEvent rows a with
  | none => rows
  | some ev => rows ++ [ev]

/-- The rows that a sequence of calls leaves of an empty table. -/
def appendAll (appends : List Append) : List PGLLedgerEvent :=
  appends.foldl C.appendLedgerEvent []

end Canonical

/-! ## The audit ledger -/

/-- The rows that no row points at: the outer join of `_latest_hash`. -/
def leaves (rows : List AuditEvent) : List AuditEvent :=
  rows.filter fun ev => ∀ child ∈ rows, child.previousLogHash ≠ some ev.logHash

/-- The arguments of `record`, and the defaults of the new row. -/
structure RecordArgs where
  operationType : PyStr
  payload : Json
  workspaceId : Option PyStr
  runId : Option PyStr
  logId : PyStr
  createdAt : ℤ

/-- The row that `record` adds, unless `sha256_json` raises. -/
def Canonical.auditEvent (C : Canonical) (args : RecordArgs) (previous : Option PyStr) :
    Option AuditEvent := do
  let chained : Json := .obj [("operation_type", .str args.operationType),
    ("workspace_id", nullable args.workspaceId),
    ("run_id", nullable args.runId),
    ("payload", args.payload),
    ("previous_log_hash", nullable previous)]
  let logHash ← C.sha256Json chained
  return {
    logId := args.logId
    operationType := args.operationType
    workspaceId := args.workspaceId
    runId := args.runId
    payload := args.payload
    previousLogHash := previous
    logHash
    createdAt := args.createdAt }

/-- Where a session is in its call of `record`: in none, at the second query of `_latest_hash`, or
past it. -/
inductive Phase where
  | idle
  | fallback
  | ready (previous : Option PyStr)
  deriving DecidableEq

/-- A session: the rows it has inserted in its transaction, and where it is. -/
structure AuditSession where
  pending : List AuditEvent := []
  phase : Phase := .idle
  deriving DecidableEq

/-- The committed rows, in the order in which they were inserted and committed, and the
sessions. -/
structure AuditState where
  committed : List AuditEvent
  session : ℕ → AuditSession

/-- A statement of a session. -/
inductive Statement where
  /-- The first query of `_latest_hash`: the newest row that no row points at. -/
  | tail (query : Newest AuditEvent.createdAt)
  /-- The second one, if there was none: the newest row. -/
  | newest (query : Newest AuditEvent.createdAt)
  | insert (args : RecordArgs)
  | commit
  | rollback

namespace AuditState

def init : AuditState := ⟨[], fun _ => {}⟩

/-- What a statement of the session sees. -/
def view (st : AuditState) (s : ℕ) : List AuditEvent := st.committed ++ (st.session s).pending

def update (st : AuditState) (s : ℕ) (session : AuditSession) : AuditState :=
  { st with session := Function.update st.session s session }

/-- One statement. A statement that its session is not at changes nothing. -/
def step (C : Canonical) (st : AuditState) (s : ℕ) (statement : Statement) : AuditState :=
  let session := st.session s
  match statement, session.phase with
  | .tail query, .idle =>
    match query.first (leaves (st.view s)) with
    | some ev => st.update s { session with phase := .ready (some ev.logHash) }
    | none => st.update s { session with phase := .fallback }
  | .newest query, .fallback =>
    st.update s { session with
      phase := .ready ((query.first (st.view s)).map AuditEvent.logHash) }
  | .insert args, .ready previous =>
    match C.auditEvent args previous with
    | some ev => st.update s { pending := session.pending ++ [ev], phase := .idle }
    | none => st.update s { session with phase := .idle }
  | .commit, .idle => { (st.update s {}) with committed := st.view s }
  | .rollback, _ => st.update s {}
  | _, _ => st

def run (C : Canonical) (statements : List (ℕ × Statement)) : AuditState :=
  statements.foldl (fun st e => st.step C e.1 e.2) init

end AuditState

end Ledger
