import Cappo.Lib.KeyedRows
import Cappo.VdbC1.Json

/-!
# The revocation registry

`execution/revocation_registry.py`: `revoke` keeps one policy for each scope, `set_lease_state` one
state for each lease, and `check_authority` reads both. Every method opens a session of its own and
rolls it back when the database raises, so that a call either takes effect or fails with the text of
what was raised.

The rows of a query without an order come as the database likes.
-/

namespace Execution

open VdbC1 (PyStr)

/-- `LeaseState` of `execution/revocation_registry.py`. -/
inductive LeaseState where
  | active
  | cancelling
  | revoked
  | expired
  | completed
  deriving DecidableEq

/-- What a policy is about: the type of its scope and the value. Both are texts of the caller. -/
structure Scope where
  scopeType : PyStr
  scopeValue : PyStr
  deriving DecidableEq

/-- A row of `revocation_policies`, with the scope as its primary key. -/
structure RevocationPolicy where
  scope : Scope
  isCancel : Bool
  actor : PyStr
  reason : PyStr
  auditId : PyStr
  deriving DecidableEq

/-- A row of `lease_states`. -/
structure LeaseStateRecord where
  leaseId : PyStr
  state : LeaseState
  deriving DecidableEq

/-- The two tables. -/
structure Tables where
  policies : List RevocationPolicy := []
  leaseStates : List LeaseStateRecord := []
  deriving DecidableEq

/-- The arguments of `check_authority`. -/
structure Authority where
  kid : PyStr
  subject : PyStr
  leaseId : PyStr
  executionId : PyStr
  deriving DecidableEq

/-- The filter of the query for policies. -/
def Authority.fallsIn (a : Authority) (scope : Scope) : Bool :=
  (scope.scopeType = "GLOBAL" ∧ scope.scopeValue = "*") ∨
  (scope.scopeType = "KID" ∧ scope.scopeValue = a.kid) ∨
  (scope.scopeType = "SUBJECT" ∧ scope.scopeValue = a.subject) ∨
  (scope.scopeType = "LEASE" ∧ scope.scopeValue = a.leaseId) ∨
  (scope.scopeType = "EXECUTION" ∧ scope.scopeValue = a.executionId)

namespace Tables

variable (t : Tables)

/-- The state of a lease is written. -/
def saveLease (leaseId : PyStr) (state : LeaseState) : Tables :=
  { t with leaseStates := KeyedRows.save LeaseStateRecord.leaseId ⟨leaseId, state⟩ t.leaseStates }

/-- `set_lease_state`, in which a fault of the database is passed over. -/
def setLeaseState (leaseId : PyStr) (state : LeaseState) (fault : Option PyStr) : Tables :=
  match fault with
  | none => t.saveLease leaseId state
  | some _ => t

/-- `revoke`. -/
def revoke (p : RevocationPolicy) (fault : Option PyStr) : Except PyStr Unit × Tables :=
  match fault with
  | none =>
    let saved := { t with policies := KeyedRows.save RevocationPolicy.scope p t.policies }
    (.ok (),
      if p.scope.scopeType = "LEASE" then
        saved.saveLease p.scope.scopeValue (if p.isCancel then .cancelling else .revoked)
      else saved)
  | some e => (.error ("Failed to record revocation: " ++ e), t)

/-- The policies that the query of `check_authority` selects. -/
def matching (a : Authority) : List RevocationPolicy := t.policies.filter fun p => a.fallsIn p.scope

end Tables

/-- What the database answers to the two queries of `check_authority`. -/
structure Answers where
  policies : Except PyStr (List RevocationPolicy)
  leaseState : Except PyStr (Option LeaseStateRecord)

/-- `RevocationRegistry`; the tables it asks are in `Answers`. -/
structure RevocationRegistry where
  failClosed : Bool := true

namespace RevocationRegistry

variable (R : RevocationRegistry)

/-- `check_authority`. The loop over the policies returns on the first of them. -/
def checkAuthority (answers : Answers) : Except PyStr LeaseState :=
  let body : Except PyStr LeaseState := do
    let policies ← answers.policies
    match policies with
    | p :: _ => return if p.isCancel then .cancelling else .revoked
    | [] =>
      let row ← answers.leaseState
      return (row.map LeaseStateRecord.state).getD .active
  match body with
  | .ok state => .ok state
  | .error e =>
    if R.failClosed then
      .error ("Fail closed due to authority check error: " ++ e)
    else .ok .active

end RevocationRegistry

/-! ## Calls -/

/-- A call that changes the tables, with the fault it meets. -/
inductive Change where
  | setLeaseState (leaseId : PyStr) (state : LeaseState) (fault : Option PyStr)
  | revoke (p : RevocationPolicy) (fault : Option PyStr)
  deriving DecidableEq

/-- The tables after a call. -/
def Tables.after (t : Tables) : Change → Tables
  | .setLeaseState leaseId state fault => t.setLeaseState leaseId state fault
  | .revoke p fault => (t.revoke p fault).2

/-- The tables after some calls. -/
def Tables.afterAll (t : Tables) (calls : List Change) : Tables := calls.foldl Tables.after t

end Execution
