import Cappo.CapabilityMount.JsonText
import Cappo.Lib.LinkWalk

/-!
# The verification of the hash-chained ledgers

`services/ledger_verifier.py`: `verify_audit_chain` and `verify_pgl_chain` recompute the hash of
every row and then follow the `previous_*_hash` pointers from the one row that has none. The
two differ in the columns they read (`Columns`); the check of the rows (`checkNodes`) and the
walk (`verifyLinks`) are shared.

The rows of a table are a list, in the order in which the query returns them. The loop of
`_verify_links` follows stored pointers and has no bound of its own, so the model of it has
fuel, and a call that has used it up is `running`.

## Main results

* `Columns.checkNodes_eq_some`: the report and the hashes that checking the rows leaves;
* `Columns.walk_of_walk` and `Columns.exists_walk_of_walk`: the loop ends exactly if the rows it
  passes are a walk to a last one.
-/

open VdbC1 CapabilityMount

namespace Ledger

/-- What became of a call. -/
inductive Outcome (α : Type*) where
  | returned (a : α)
  | raised
  | running
  deriving DecidableEq

/-- A row at which a chain fails. -/
structure BrokenLink where
  id : PyStr
  reason : PyStr
  deriving DecidableEq

/-- Result of verifying a single hash chain. -/
structure ChainReport where
  name : PyStr
  total : ℕ := 0
  valid : Bool := true
  brokenLinks : List BrokenLink := []
  deriving DecidableEq

def ChainReport.fail (report : ChainReport) (nodeId reason : PyStr) : ChainReport :=
  { report with valid := false, brokenLinks := report.brokenLinks ++ [⟨nodeId, reason⟩] }

/-- One `fail` for each of the rows. -/
def ChainReport.failAll {ρ : Type*} (report : ChainReport) (nodeId : ρ → PyStr) (events : List ρ)
    (reason : PyStr) : ChainReport :=
  events.foldl (fun report ev => report.fail (nodeId ev) reason) report

/-- The libraries that `canonical.py` calls: the text of a finite float, with what is relied on
of it, and the hexadecimal SHA-256 of the UTF-8 encoding of a text, which raises when there is
none. -/
structure Canonical where
  reprFloat : ℚ → PyStr
  floatTexts : JsonText.FloatTexts reprFloat
  sha256Text : PyStr → Option PyStr

/-- `sha256_json`. -/
def Canonical.sha256Json (C : Canonical) (payload : Json) : Option PyStr :=
  C.sha256Text (JsonText.dumpsAll C.reprFloat payload)

/-- A nullable text column, as a JSON value. -/
def nullable : Option PyStr → Json
  | none => .null
  | some s => .str s

/-- A row of `audit_events`; instants are in microseconds. -/
structure AuditEvent where
  logId : PyStr
  operationType : PyStr
  workspaceId : Option PyStr
  runId : Option PyStr
  payload : Json
  previousLogHash : Option PyStr
  logHash : PyStr
  createdAt : ℤ
  deriving DecidableEq

/-- A row of `pgl_ledger_events`. -/
structure PGLLedgerEvent where
  eventId : PyStr
  certificateId : PyStr
  eventType : PyStr
  payload : Json
  previousEventHash : Option PyStr
  eventHash : PyStr
  createdAt : ℤ
  deriving DecidableEq

/-- What the verification of one ledger reads of a row: `expected` is the recomputed hash, and
`mismatch` the reason given when it is not the stored one. -/
structure Columns (ρ : Type*) where
  nodeId : ρ → PyStr
  selfHash : ρ → PyStr
  prevHash : ρ → Option PyStr
  expected : ρ → Option PyStr
  mismatch : PyStr

namespace Columns

variable {ρ : Type*} (L : Columns ρ)

/-- The loop over the rows: the failures reported, and the keys of `by_hash`. -/
def checkNodes : List ρ → ChainReport → List PyStr → Option (ChainReport × List PyStr)
  | [], report, byHash => some (report, byHash)
  | ev :: events, report, byHash => do
    let expected ← L.expected ev
    if expected ≠ L.selfHash ev then
      checkNodes events (report.fail (L.nodeId ev) L.mismatch) byHash
    else
      checkNodes events report (L.selfHash ev :: byHash)

/-- The rows that point at the hash `h`. -/
def children (events : List ρ) (h : PyStr) : List ρ :=
  events.filter fun ev => L.prevHash ev = some h

/-- The `while` loop of `_verify_links`. -/
def walk (events : List ρ) (byHash : List PyStr) (report : ChainReport) :
    ℕ → ℕ → ρ → Option ChainReport
  | 0, _, _ => none
  | fuel + 1, visited, current =>
    -- node integrity already failed; its pointer is not trusted
    if L.selfHash current ∉ byHash then some report
    else
      match L.children events (L.selfHash current) with
      | [] =>
        some (if visited + 1 ≠ events.length then
          report.fail "<chain>" ("chain reachable=" ++
            JsonText.decimal (visited + 1) ++ " but total=" ++
            JsonText.decimal events.length ++ " (broken link or orphaned node)")
        else report)
      | [next] => walk events byHash report fuel (visited + 1) next
      | nextNodes =>
        some (report.failAll L.nodeId nextNodes "chain forks: multiple nodes share a parent")

/-- The rows without a predecessor. -/
def genesis (events : List ρ) : List ρ := events.filter fun ev => L.prevHash ev = none

/-- `_verify_links`; `none` if it is still walking when the fuel is used up. -/
def verifyLinks (fuel : ℕ) (report : ChainReport) (events : List ρ) (byHash : List PyStr) :
    Option ChainReport :=
  match L.genesis events with
  | [] =>
    some (report.fail "<chain>" "no genesis node (every node references a parent)")
  | [first] => L.walk events byHash report fuel 0 first
  | genesis =>
    some (report.failAll L.nodeId genesis "multiple genesis nodes (forked chain)")

/-- The part that `verify_audit_chain` and `verify_pgl_chain` have in common. -/
def verify (fuel : ℕ) (name : PyStr) (events : List ρ) : Outcome ChainReport :=
  let report : ChainReport := { name, total := events.length }
  if events.isEmpty then .returned report
  else
    match L.checkNodes events report [] with
    | none => .raised
    | some (report, byHash) =>
      match L.verifyLinks fuel report events byHash with
      | none => .running
      | some report => .returned report

end Columns

namespace Canonical

variable (C : Canonical)

/-- The columns of the audit ledger. -/
def auditColumns : Columns AuditEvent where
  nodeId := AuditEvent.logId
  selfHash := AuditEvent.logHash
  prevHash := AuditEvent.previousLogHash
  expected ev := C.sha256Json (.obj [("operation_type", .str ev.operationType),
    ("workspace_id", nullable ev.workspaceId),
    ("run_id", nullable ev.runId),
    ("payload", ev.payload),
    ("previous_log_hash", nullable ev.previousLogHash)])
  mismatch := "log_hash does not match recomputed hash"

/-- The columns of the PGL ledger. -/
def pglColumns : Columns PGLLedgerEvent where
  nodeId := PGLLedgerEvent.eventId
  selfHash := PGLLedgerEvent.eventHash
  prevHash := PGLLedgerEvent.previousEventHash
  expected ev :=
    match ev.payload with
    | .obj fields =>
      -- the key written last wins
      C.sha256Json (.obj (("previous_event_hash", nullable ev.previousEventHash) :: fields))
    | _ => none
  mismatch := "event_hash does not match recomputed hash"

/-- `verify_audit_chain`. -/
def verifyAuditChain (fuel : ℕ) (events : List AuditEvent) : Outcome ChainReport :=
  C.auditColumns.verify fuel "audit_events" events

/-- `verify_pgl_chain`, over the rows of one certificate. -/
def verifyPglChain (fuel : ℕ) (certificateId : PyStr) (events : List PGLLedgerEvent) :
    Outcome ChainReport :=
  C.pglColumns.verify fuel ("pgl_ledger:" ++ certificateId)
    (events.filter fun ev => ev.certificateId = certificateId)

end Canonical

/-! ## What the two loops compute -/

lemma ChainReport.valid_failAll {ρ : Type*} (report : ChainReport) (nodeId : ρ → PyStr)
    (events : List ρ) (reason : PyStr) :
    (report.failAll nodeId events reason).valid = true ↔ report.valid = true ∧ events = [] := by
  induction events generalizing report with
  | nil => simp [failAll]
  | cons ev events ih =>
    have := ih (report.fail (nodeId ev) reason)
    simpa [failAll, fail] using this

namespace Columns

open LinkWalk

variable {ρ : Type*} {L : Columns ρ} {events : List ρ} {byHash byHash' : List PyStr}
  {report report' : ChainReport} {fuel visited : ℕ} {x y : ρ} {h : PyStr} {l : List ρ}

/-- The stored hash is the recomputed one. -/
def Intact (L : Columns ρ) (ev : ρ) : Prop := L.expected ev = some (L.selfHash ev)

instance (ev : ρ) : Decidable (L.Intact ev) :=
  inferInstanceAs (Decidable (L.expected ev = some (L.selfHash ev)))

/-- An intact row has the hash `h`. -/
def Verified (L : Columns ρ) (events : List ρ) (h : PyStr) : Prop :=
  ∃ ev ∈ events, L.Intact ev ∧ L.selfHash ev = h

instance : Decidable (L.Verified events h) :=
  inferInstanceAs (Decidable (∃ ev ∈ events, L.Intact ev ∧ L.selfHash ev = h))

lemma checkNodes_eq_none :
    L.checkNodes events report byHash = none ↔ ∃ ev ∈ events, L.expected ev = none := by
  induction events generalizing report byHash with
  | nil => simp [checkNodes]
  | cons ev events ih =>
    rw [checkNodes, List.exists_mem_cons_iff]
    cases hexpected : L.expected ev with
    | none => simp
    | some expected =>
      rw [Option.bind_eq_bind, Option.bind_some]
      split_ifs <;> simp [ih]

/-- Checking the rows leaves the report as it was if all are intact, and collects the hashes of
the intact ones. -/
theorem checkNodes_eq_some (hcheck : L.checkNodes events report byHash = some (report', byHash')) :
    (∀ h, h ∈ byHash' ↔ h ∈ byHash ∨ L.Verified events h) ∧
      (report'.valid = true ↔ report.valid = true ∧ ∀ ev ∈ events, L.Intact ev) := by
  induction events generalizing report byHash with
  | nil =>
    cases hcheck
    simp [Verified]
  | cons ev events ih =>
    rw [checkNodes] at hcheck
    obtain ⟨expected, hexpected, hcheck⟩ := Option.bind_eq_some_iff.mp hcheck
    have hintact : L.Intact ev ↔ expected = L.selfHash ev := by
      rw [Intact, hexpected, Option.some.injEq]
    split_ifs at hcheck with heq
    · obtain ⟨hmem, hvalid⟩ := ih hcheck
      constructor
      · intro h
        simp [hmem, Verified, hintact, heq]
      · simp [hvalid, hintact, heq, ChainReport.fail]
    · obtain ⟨hmem, hvalid⟩ := ih hcheck
      rw [not_not] at heq
      constructor
      · intro h
        simp [hmem, Verified, hintact, heq, eq_comm, or_assoc, or_comm]
      · simp [hvalid, hintact, heq]

/-- The row the loop goes on to. -/
def next (L : Columns ρ) (events : List ρ) (byHash : List PyStr) (current : ρ) : Option ρ :=
  if L.selfHash current ∈ byHash then
    match L.children events (L.selfHash current) with
    | [next] => some next
    | _ => none
  else none

lemma next_eq_some : L.next events byHash x = some y ↔
    L.selfHash x ∈ byHash ∧ L.children events (L.selfHash x) = [y] := by
  unfold next
  split_ifs with hmem
  · split <;> simp_all
  · simp [hmem]

lemma mem_children : y ∈ L.children events h ↔ y ∈ events ∧ L.prevHash y = some h := by
  simp [children]

/-- The row the loop goes on to points at the one it comes from. -/
lemma mem_of_next (hnext : L.next events byHash x = some y) :
    y ∈ events ∧ L.prevHash y = some (L.selfHash x) := by
  rw [next_eq_some] at hnext
  exact mem_children.mp (hnext.2 ▸ List.mem_singleton_self y)

lemma walk_of_next (hnext : L.next events byHash x = some y) :
    L.walk events byHash report (fuel + 1) visited x =
      L.walk events byHash report fuel (visited + 1) y := by
  rw [next_eq_some] at hnext
  simp [walk, hnext.1, hnext.2]

/-- At a row without a next one the loop ends at once. -/
lemma exists_walk_of_next_eq_none (hnext : L.next events byHash x = none) (fuel : ℕ) :
    ∃ report', L.walk events byHash report (fuel + 1) visited x = some report' ∧
      L.walk events byHash report 1 visited x = some report' := by
  rw [walk, walk]
  split
  · exact ⟨_, rfl, rfl⟩
  · next hmem =>
    split
    · exact ⟨_, rfl, rfl⟩
    · next y hchildren =>
      nomatch hnext.symm.trans (next_eq_some.mpr ⟨not_not.mp hmem, hchildren⟩)
    · exact ⟨_, rfl, rfl⟩

/-- With fuel for every row it passes the loop ends as it does at the last of them. -/
theorem walk_of_walk (w : Walk (L.next events byHash) x l) (hfuel : l.length ≤ fuel) :
    ∃ final ∈ l, ∃ report', L.next events byHash final = none ∧
      L.walk events byHash report fuel visited x = some report' ∧
      L.walk events byHash report 1 (visited + (l.length - 1)) final = some report' := by
  induction w generalizing fuel visited with
  | @last x hlast =>
    obtain ⟨fuel, rfl⟩ := Nat.exists_eq_add_of_le' hfuel
    obtain ⟨report', hwalk, hone⟩ := exists_walk_of_next_eq_none hlast fuel
    exact ⟨x, List.mem_singleton_self x, report', hlast, hwalk, hone⟩
  | @step x y l hstep w ih =>
    obtain ⟨fuel, rfl⟩ := Nat.exists_eq_add_of_le' (Nat.one_le_of_lt hfuel)
    obtain ⟨final, hfinal, report', hlast, hwalk, hone⟩ :=
      @ih fuel (visited + 1) (Nat.le_of_succ_le_succ hfuel)
    obtain ⟨l', rfl⟩ := w.exists_eq_cons
    refine ⟨final, List.mem_cons_of_mem x hfinal, report', hlast, ?_, ?_⟩
    · rw [walk_of_next hstep, hwalk]
    · rw [← hone]
      congr 1
      simp only [List.length_cons]
      omega

/-- A loop that ends has passed the rows of a walk. -/
theorem exists_walk_of_walk (hwalk : L.walk events byHash report fuel visited x = some report') :
    ∃ l, Walk (L.next events byHash) x l ∧ l.length ≤ fuel := by
  induction fuel generalizing visited x with
  | zero => nomatch hwalk
  | succ fuel ih =>
    cases hnext : L.next events byHash x with
    | none => exact ⟨_, .last hnext, Nat.succ_le_succ fuel.zero_le⟩
    | some y =>
      rw [walk_of_next hnext] at hwalk
      obtain ⟨l, w, hle⟩ := ih hwalk
      exact ⟨x :: l, .step hnext w, Nat.succ_le_succ hle⟩

/-- At a row without a next one the report stays valid exactly if every row has been passed and
none points at this one, or the row's own hash is not among the checked ones. -/
lemma valid_of_walk_one (hnext : L.next events byHash x = none)
    (hwalk : L.walk events byHash report 1 visited x = some report') :
    report'.valid = true ↔ report.valid = true ∧ (L.selfHash x ∈ byHash →
      L.children events (L.selfHash x) = [] ∧ visited + 1 = events.length) := by
  rw [walk] at hwalk
  split at hwalk
  · next hmem =>
    cases hwalk
    simp [hmem]
  · next hmem =>
    rw [not_not] at hmem
    split at hwalk
    · next hchildren =>
      cases hwalk
      split_ifs with hcount
      · simp [ChainReport.fail, hmem, hcount]
      · simp [hchildren, not_not.mp hcount]
    · next y hchildren =>
      nomatch hnext.symm.trans (next_eq_some.mpr ⟨hmem, hchildren⟩)
    · next hempty _ =>
      cases hwalk
      rw [ChainReport.valid_failAll]
      exact ⟨fun hvalid => absurd hvalid.2 hempty, fun hvalid => absurd (hvalid.2 hmem).1 hempty⟩

end Columns

end Ledger
