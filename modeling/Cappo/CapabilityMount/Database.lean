import Mathlib.Data.List.MinMax
import Cappo.CapabilityMount.Permits
import Cappo.Lib.Sessions

/-!
# The database of the mount service

What the sessions of the service share: the log of what was committed, anchored and dispatched,
the row locks, and each session's uncommitted writes. The tables and the clock are the replay
of the log, so that every earlier moment can be spoken of.

A session's calls are the `Op`s, and `machine` says what each does, given what the environment
answers:

* a locking read of a mount row returns the committed row and holds its lock until the session
  commits or rolls back, and waits while another session holds it;
* writes are kept by the session and take effect together when it commits, unless they violate
  a uniqueness constraint;
* a lease that was loaded before may be returned as it was then, since sessions run with
  `expire_on_commit=False`; events and receipts never change;
* every call can fail, which ends the session's transaction, and a commit can be applied and
  still raise.

Random identifiers never repeat. A permit is accepted only if the service minted it.
-/

namespace CapabilityMount

open VdbC1

/-! ## Writes -/

/-- How a mount row is updated; columns not named keep their value. -/
inductive MountUpdate where
  | consumeNonce
  | terminate (epoch : ℕ)
  | advance (epoch : ℕ)
  | handover (epoch : ℕ) (tokenId nonce : PyStr) (incarnation : ℕ)
      (previousHistoryHead historyHead decisionHash reason : PyStr)
  | claimStart (operationId : PyStr)
  deriving DecidableEq

/-- The columns of a lease that change, `none` where the column is not written. -/
structure LeaseUpdate where
  leaseState : Option LeaseState := none
  leaseStateVersion : Option ℤ := none
  authorityEpoch : Option ℤ := none
  revocationEpoch : Option ℤ := none
  offlineBudget : Option ℤ := none
  offlineSideEffectLimit : Option ℤ := none
  deriving DecidableEq

/-- A write of a session. Rows that are always added together are one write. -/
inductive Write where
  | insertMount (row : MountRow) (lease : Lease)
  | updateMount (mountId : PyStr) (update : MountUpdate)
  | updateLease (mountId : PyStr) (update : LeaseUpdate)
  | insertEvents (events : List Event)
  | insertReceipt (receipt : Receipt)
  | insertRedemption (redemption : Redemption)
  | consumeEvidence (jti : PyStr)
  | seedSequence
  | incrementSequence
  deriving DecidableEq

def MountUpdate.apply (row : MountRow) : MountUpdate → MountRow
  | consumeNonce => { row with nonceConsumed := true }
  | terminate epoch => { row with terminated := true, authorityEpoch := epoch }
  | advance epoch => { row with authorityEpoch := epoch }
  | handover epoch tokenId nonce incarnation previousHistoryHead historyHead decisionHash reason =>
    { row with
      authorityEpoch := epoch
      tokenId := tokenId
      tokenNonce := nonce
      nonceConsumed := false
      token := { row.token with tokenId := tokenId, nonce := nonce }
      mount := { row.mount with
        incarnation := incarnation
        previousHistoryHead := some previousHistoryHead
        historyHead := some historyHead
        decisionHash := some decisionHash
        handoverReason := some reason } }
  | claimStart operationId => { row with startClaimOperationId := some operationId }

def LeaseUpdate.apply (lease : Lease) (u : LeaseUpdate) : Lease :=
  { lease with
    leaseState := u.leaseState.getD lease.leaseState
    leaseStateVersion := u.leaseStateVersion.getD lease.leaseStateVersion
    authorityEpoch := u.authorityEpoch.getD lease.authorityEpoch
    revocationEpoch := u.revocationEpoch.getD lease.revocationEpoch
    offlineBudget := u.offlineBudget.getD lease.offlineBudget
    offlineSideEffectLimit := u.offlineSideEffectLimit.getD lease.offlineSideEffectLimit }

/-- What is written of a lease object that was loaded as `loaded`: the columns that differ. -/
def Lease.changes (lease loaded : Lease) : LeaseUpdate where
  leaseState := if lease.leaseState = loaded.leaseState then none else some lease.leaseState
  leaseStateVersion :=
    if lease.leaseStateVersion = loaded.leaseStateVersion then none
    else some lease.leaseStateVersion
  authorityEpoch :=
    if lease.authorityEpoch = loaded.authorityEpoch then none else some lease.authorityEpoch
  revocationEpoch :=
    if lease.revocationEpoch = loaded.revocationEpoch then none else some lease.revocationEpoch
  offlineBudget :=
    if lease.offlineBudget = loaded.offlineBudget then none else some lease.offlineBudget
  offlineSideEffectLimit :=
    if lease.offlineSideEffectLimit = loaded.offlineSideEffectLimit then none
    else some lease.offlineSideEffectLimit

/-! ## Tables -/

/-- The tables. A mount has one row and at most one lease; rows of the others are only added. -/
structure Db where
  mounts : PyStr → Option MountRow := fun _ => none
  leases : PyStr → Option Lease := fun _ => none
  events : List Event := []
  receipts : List Receipt := []
  redemptions : List Redemption := []
  evidence : List PyStr := []
  sequence : Option ℕ := none

namespace Db

variable (db : Db)

/-- One write. -/
def apply : Write → Db
  | .insertMount row lease => { db with
      mounts := Function.update db.mounts row.mountId (some row)
      leases := Function.update db.leases row.mountId (some lease) }
  | .updateMount mountId u =>
    { db with mounts := Function.update db.mounts mountId ((db.mounts mountId).map u.apply) }
  | .updateLease mountId u =>
    { db with leases := Function.update db.leases mountId ((db.leases mountId).map u.apply) }
  | .insertEvents events => { db with events := db.events ++ events }
  | .insertReceipt receipt => { db with receipts := db.receipts ++ [receipt] }
  | .insertRedemption redemption => { db with redemptions := db.redemptions ++ [redemption] }
  | .consumeEvidence jti => { db with evidence := db.evidence ++ [jti] }
  | .seedSequence => { db with sequence := some (db.sequence.getD 0) }
  | .incrementSequence => { db with sequence := db.sequence.map (· + 1) }

/-- The uniqueness constraints and primary keys. -/
def accepts : Write → Bool
  | .insertMount row _ => (db.mounts row.mountId).isNone
  | .insertEvents events =>
    decide (((db.events ++ events).map fun e => (e.operationId, e.version)).Nodup)
  | .insertReceipt receipt =>
    decide (∀ r ∈ db.receipts, r.receiptId ≠ receipt.receiptId ∧
      (receipt.merkleLeafIndex.isSome → r.merkleLeafIndex ≠ receipt.merkleLeafIndex))
  | .insertRedemption redemption =>
    decide (∀ r ∈ db.redemptions, r.operationId ≠ redemption.operationId)
  | .consumeEvidence jti => decide (jti ∉ db.evidence)
  | .updateMount _ _ | .updateLease _ _ | .seedSequence | .incrementSequence => true

/-- Whether the writes of a transaction violate no constraint. -/
def acceptsAll (db : Db) : List Write → Bool
  | [] => true
  | w :: ws => db.accepts w && (db.apply w).acceptsAll ws

/-- `ORDER BY version DESC LIMIT 1` over the events of an operation. -/
def latestEvent (operationId : PyStr) : Option Event :=
  (db.events.filter fun e => e.operationId = operationId).argmax Event.version

/-- `_in_flight_operations`: the operations of the mount whose latest state is authorized or
started. -/
def inFlightOperations (mountId : PyStr) : List PyStr :=
  let events := db.events.filter fun e => e.mountId = mountId
  (events.map Event.operationId).dedup.filter fun operationId =>
    ((events.filter fun e => e.operationId = operationId).argmax Event.version).any
      fun e => e.state.inFlight

end Db

/-! ## The log -/

/-- A call of a target. An executor's delegate is called under a receipt; the service does not
read the request. -/
inductive Dispatch where
  | execute (operationId mountId packageRef targetRef action resource : PyStr) (arguments : Json)
  | executor (operationId receiptId : PyStr)
  deriving DecidableEq

def Dispatch.operationId : Dispatch → PyStr
  | execute operationId _ _ _ _ _ _ => operationId
  | executor operationId _ => operationId

/-- What the history of the service records. -/
inductive Entry where
  | commit (session : ℕ) (writes : List Write)
  | anchored (session : ℕ) (event : AnchorEvent) (result : AnchorResult)
  | dispatched (session : ℕ) (dispatch : Dispatch)
  | minted (permit : Permit)
  | nonceReset (mountId : PyStr)
  | ticked (now : ℤ)
  deriving DecidableEq

/-- The history, the oldest entry first. -/
abbrev Log := List Entry

/-- The row with its nonce not consumed. -/
def MountRow.unconsumed (row : MountRow) : MountRow := { row with nonceConsumed := false }

/-- What an entry does to the tables. -/
def Entry.apply (db : Db) : Entry → Db
  | commit _ ws => ws.foldl Db.apply db
  | nonceReset m =>
    { db with mounts := Function.update db.mounts m ((db.mounts m).map MountRow.unconsumed) }
  | anchored _ _ _ | dispatched _ _ | minted _ | ticked _ => db

/-- The session that made an entry. -/
def Entry.session : Entry → Option ℕ
  | commit i _ | anchored i _ _ | dispatched i _ => some i
  | minted _ | nonceReset _ | ticked _ => none

/-- The tables after a log. -/
def Log.db (log : Log) : Db := log.foldl Entry.apply {}

/-- The token id that a write introduces. -/
def Write.tokenId? : Write → Option PyStr
  | insertMount row _ => some row.tokenId
  | updateMount _ (.handover _ tokenId _ _ _ _ _ _) => some tokenId
  | _ => none

def Entry.tokenIds : Entry → List PyStr
  | commit _ ws => ws.filterMap Write.tokenId?
  | _ => []

/-- The token ids issued so far. -/
def Log.tokenIds (log : Log) : List PyStr := log.flatMap Entry.tokenIds

/-- The permits minted so far. -/
def Log.permits (log : Log) : List Permit :=
  log.filterMap fun | .minted p => some p | _ => none

def Entry.setNow (now : ℤ) : Entry → ℤ
  | ticked now' => now'
  | _ => now

/-- What the clock shows. -/
def Log.now (log : Log) : ℤ := log.foldl Entry.setNow 0

/-! ## The shared state -/

/-- The shared state: the history, the locks, and the uncommitted writes of each session. -/
structure World where
  log : Log := []
  locks : PyStr → Option ℕ := fun _ => none
  sequenceLock : Option ℕ := none
  writes : ℕ → List Write := fun _ => []
  /-- `_LOCAL_REVOCATIONS` of each server process. -/
  revoked : ℕ → List PyStr := fun _ => []

namespace World

variable (w : World)

def db : Db := w.log.db

/-- The end of a session's transaction: its locks are free and its writes are gone. -/
def release (i : ℕ) : World :=
  { w with
    locks := fun m => if w.locks m = some i then none else w.locks m
    sequenceLock := if w.sequenceLock = some i then none else w.sequenceLock
    writes := Function.update w.writes i [] }

def append (e : Entry) : World := { w with log := w.log ++ [e] }

/-- The transaction of a session takes effect. -/
def committed (i : ℕ) : World := (w.release i).append (.commit i (w.writes i))

/-- A session takes the lock of a mount. -/
def locked (i : ℕ) (m : PyStr) : World :=
  { w with locks := Function.update w.locks m (some i) }

/-- A session adds a write to its transaction. -/
def wrote (i : ℕ) (x : Write) : World :=
  { w with writes := Function.update w.writes i (w.writes i ++ [x]) }

/-- A target is called, and permits are minted for it. -/
def dispatched (i : ℕ) (d : Dispatch) (permits : List Permit) : World :=
  { w with log := w.log ++ .dispatched i d :: permits.map .minted }

/-- The random identifiers a transaction introduces are new, and differ from each other. -/
def issuesFresh (i : ℕ) : Bool :=
  decide ((w.log.tokenIds ++ (w.writes i).filterMap Write.tokenId?).Nodup)

end World

/-! ## Calls -/

/-- The calls of a request that others can come between. -/
inductive Op where
  /-- `_row(mount_id, lock=True)`. -/
  | lockMount (mountId : PyStr)
  | lease (mountId : PyStr)
  | latestEvent (operationId : PyStr)
  /-- The last event of an execution in version order. -/
  | latestOfExecution (executionId : PyStr)
  | inFlight (mountId : PyStr)
  | receipt (receiptId : PyStr)
  /-- Whether an ALLOW receipt of the token exists. -/
  | priorReceipt (tokenId : PyStr)
  | evidenceConsumed (jti : PyStr)
  /-- `UPDATE merkle_leaf_sequence`; returns the row count. -/
  | updateSequence
  | selectNextValue
  | write (w : Write)
  | commit
  | rollback
  | now
  | isRevoked (mountId : PyStr)
  | markRevoked (mountId : PyStr)
  | anchor (event : AnchorEvent)
  | isOnline
  /-- A random identifier. -/
  | fresh
  /-- A row of the audit ledger, which nothing here reads. -/
  | audit
  /-- `permit_matches`. -/
  | permitMatches (key : Bytes) (presented : PyStr) (permit : Permit)
  /-- `adapter.dispatch` or a delegate's `execute`. The context has a permit factory for the
  receipt if permits are configured. -/
  | dispatch (d : Dispatch) (permitReceipt : Option (Option PyStr))
  /-- The connector is asked for its evidence of an execution. -/
  | connectorEvidence (executionId : PyStr)

@[reducible]
def Val : Op → Type
  | .lockMount _ => Option MountRow
  | .lease _ => Option Lease
  | .latestEvent _ | .latestOfExecution _ => Option Event
  | .inFlight _ => List PyStr
  | .receipt _ => Option Receipt
  | .priorReceipt _ | .evidenceConsumed _ | .isRevoked _ | .isOnline | .permitMatches _ _ _ => Bool
  | .connectorEvidence _ => ConnectorAnswer
  | .updateSequence | .selectNextValue => ℕ
  | .now => ℤ
  | .anchor _ => AnchorResult
  | .fresh => PyStr
  | .dispatch _ _ => Except Exn Json
  | .write _ | .commit | .rollback | .markRevoked _ | .audit => Unit

/-- What the environment answers to a call. -/
inductive Answer where
  /-- Nothing to choose. -/
  | ok
  /-- The call raises. -/
  | fail
  /-- A commit that is applied and raises. -/
  | lost
  /-- The lease as it was after so many entries of the log. -/
  | asOf (entries : ℕ)
  | event (e : Event)
  | anchored (result : AnchorResult)
  | yes (b : Bool)
  | identifier (text : PyStr)
  | connector (answer : ConnectorAnswer)
  /-- The target's outcome, and the digests of the payloads it asked a permit for. -/
  | outcome (result : Except Exn Json) (payloads : List PyStr)

namespace World

variable (w : World)

/-- A call that changes nothing but may raise. -/
def reading {α : Type} (i : ℕ) (a : Answer) (v : α) : Option (Except Exn α × World) :=
  match a with
  | .fail => some (.error .database, w.release i)
  | _ => some (.ok v, w)

/-- The lease as the session sees it. -/
def leaseSeen (mountId : PyStr) : Answer → Option Lease
  | .asOf n => ((Log.db (w.log.take n)).leases mountId).or (w.db.leases mountId)
  | _ => w.db.leases mountId

/-- The events of the execution with the highest version; the order among them is the
environment's choice. -/
def lastOfExecution (executionId : PyStr) (a : Answer) : Option (Option Event) :=
  let events := w.db.events.filter fun e => e.executionId = executionId
  match a with
  | .event e => if e ∈ events ∧ ∀ e' ∈ events, e'.version ≤ e.version then some (some e) else none
  | _ => if events = [] then some none else none

end World

/-- The permits that a dispatch mints, one for each payload. -/
def Dispatch.mints (permitReceipt : Option (Option PyStr)) (payloads : List PyStr) :
    Dispatch → List Permit
  | execute operationId mountId _ targetRef _ _ _ =>
    match permitReceipt with
    | some receiptId => payloads.map fun payloadSha256 =>
        { operationId, mountId, receiptId, payloadSha256, targetRef }
    | none => []
  | executor _ _ => []

namespace World

variable (w : World) (i : ℕ) (a : Answer)

/-- A value that the environment chooses. -/
def chosen {α : Type} (v : Option α) : Option (Except Exn α × World) :=
  match a with
  | .fail => some (.error .database, w.release i)
  | _ => v.map fun v => (.ok v, w)

/-- A locking read of a mount row; it waits while another session has the lock. -/
def lockMount (m : PyStr) : Option (Except Exn (Option MountRow) × World) :=
  if w.locks m = none ∨ w.locks m = some i then
    match a, w.db.mounts m with
    | .fail, _ => some (.error .database, w.release i)
    | _, none => some (.ok none, w)
    | _, some row => some (.ok (some row), w.locked i m)
  else none

/-- The update of the sequence row; it waits while another session has its lock. -/
def updateSequence : Option (Except Exn ℕ × World) :=
  if w.sequenceLock = none ∨ w.sequenceLock = some i then
    match a, w.db.sequence with
    | .fail, _ => some (.error .database, w.release i)
    | _, none => some (.ok 0, w)
    | _, some _ => some (.ok 1, { w.wrote i .incrementSequence with sequenceLock := some i })
  else none

def anchor (e : AnchorEvent) : Option (Except Exn AnchorResult × World) :=
  match a with
  | .fail => some (.error .database, w.release i)
  | .anchored r => some (.ok r, w.append (.anchored i e r))
  | _ => none

def dispatch (d : Dispatch) (permitReceipt : Option (Option PyStr)) :
    Option (Except Exn (Except Exn Json) × World) :=
  match a with
  | .outcome r payloads => some (.ok r, w.dispatched i d (d.mints permitReceipt payloads))
  | _ => none

end World

namespace Deployment

variable (D : Deployment)

/-- `commit()`. The writes are dropped if a constraint is violated. -/
def commit (i : ℕ) (a : Answer) (w : World) : Option (Except Exn Unit × World) :=
  match a with
  | .fail => some (.error .database, w.release i)
  | _ =>
    if !w.db.acceptsAll (w.writes i) then some (.error .integrity, w.release i)
    else if !w.issuesFresh i then none
    else match a with
      | .lost => some (.error .database, w.committed i)
      | _ => some (.ok (), w.committed i)

/-- `hmac.compare_digest` with the permit for the message. A presented permit that matches is
one that was minted for this message. -/
def permitMatches (key : Bytes) (presented : PyStr) (permit : Permit) (w : World) :
    Option (Except Exn Bool × World) :=
  match D.mintPermit key permit with
  | none => some (.error (.value []), w)
  | some expected =>
    if expected = presented then
      if w.log.permits.any fun p => permitMessage p = permitMessage permit then
        some (.ok true, w)
      else none
    else some (.ok false, w)

/-- What a call of session `i` does. -/
def exec (i : ℕ) (op : Op) (a : Answer) (w : World) : Option (Except Exn (Val op) × World) :=
  match op with
  | .lockMount m => w.lockMount i a m
  | .lease m => w.reading i a (w.leaseSeen m a)
  | .latestEvent operationId => w.reading i a (w.db.latestEvent operationId)
  | .latestOfExecution executionId => w.chosen i a (w.lastOfExecution executionId a)
  | .inFlight m => w.reading i a (w.db.inFlightOperations m)
  | .receipt receiptId => w.reading i a (w.db.receipts.find? fun r => r.receiptId = receiptId)
  | .priorReceipt tokenId =>
    w.reading i a (w.db.receipts.any fun r => r.tokenId = tokenId && r.decision = .allow)
  | .evidenceConsumed jti => w.reading i a (decide (jti ∈ w.db.evidence))
  | .updateSequence => w.updateSequence i a
  | .selectNextValue =>
    w.reading i a (w.db.sequence.getD 0 + (w.writes i).count .incrementSequence)
  | .write x => some (.ok (), w.wrote i x)
  | .commit => commit i a w
  | .rollback => some (.ok (), w.release i)
  | .now => some (.ok w.log.now, w)
  | .isRevoked m => some (.ok (decide (m ∈ w.revoked (D.process i))), w)
  | .markRevoked m => some (.ok (), { w with
      revoked := Function.update w.revoked (D.process i) (m :: w.revoked (D.process i)) })
  | .anchor e => w.anchor i a e
  | .isOnline => w.chosen i a (match a with | .yes b => some b | _ => none)
  | .fresh => w.chosen i a (match a with | .identifier text => some text | _ => none)
  | .audit => w.reading i a ()
  | .permitMatches key presented permit => D.permitMatches key presented permit w
  | .dispatch d permitReceipt => w.dispatch i a d permitReceipt
  | .connectorEvidence _ => w.chosen i a (match a with | .connector c => some c | _ => none)

end Deployment

/-- What happens without a session: the clock moves, and an adversary resets a consumed nonce. -/
inductive Environment where
  | tick (now : ℤ)
  | resetNonce (mountId : PyStr)

def Environment.act (w : World) : Environment → Option World
  | tick now => some (w.append (.ticked now))
  | resetNonce mountId => some (w.append (.nonceReset mountId))

/-- The service's machine. -/
def machine (D : Deployment) : Sessions.Machine Op Val Exn World Answer Environment where
  exec := D.exec
  abort i w := w.release i
  environment e w := e.act w

/-- A program of the service. -/
abbrev Proc := Sessions.Program Op Val Exn

abbrev perform (op : Op) : Proc (Val op) := Sessions.Program.perform op

end CapabilityMount
