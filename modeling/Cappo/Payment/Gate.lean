import Cappo.CapabilityMount.JsonText
import Cappo.Lib.Checks
import Cappo.Lib.KeyedTable

/-!
# The payment gate

`PaymentGate.check` and what the exec router does with it: a run request is checked, carried out if
the check returns, and gives its slot back in the `finally` block of the handler. A check that
raises ends the request before that block is entered.

The node's slots are counted in Redis. A command of Redis can fail, with or without its effect
(`Fate`); so can the reads and writes of the database. What other programs do to the tables and to
the other keys, the expiry of keys included, is an event of its own.
-/

namespace Payment

open VdbC1 (PyStr)

open CapabilityMount.JsonText (intText)

open Checks (require)

/-- `FREE_RUN_LIMIT`. -/
def freeRunLimit : ℤ := 1

/-- A row of the kill switches. -/
structure KillSwitch where
  active : Bool
  reason : Option PyStr
  deriving DecidableEq

/-- A row of `free_run_quotas`; instants are in seconds. -/
structure FreeRunQuota where
  runsUsed : ℤ
  quotaLimit : ℤ
  resetAt : ℤ
  deriving DecidableEq

/-- The tables, by workspace, and the keys of Redis: the hard kill switches, the hourly counters of
runs and of tokens, by workspace and hour, and the runs that the node has at a time. -/
structure Store where
  killSwitches : List (PyStr × KillSwitch) := []
  quotas : List (PyStr × FreeRunQuota) := []
  budgets : List (PyStr × ℤ) := []
  hardKillSwitches : List PyStr := []
  runs : List ((PyStr × ℤ) × ℤ) := []
  tokens : List ((PyStr × ℤ) × ℤ) := []
  concurrentRuns : ℤ := 0
  deriving DecidableEq

/-- The settings that the gate reads. -/
structure Settings where
  maxRunsPerHour : ℤ
  maxTokensPerHour : ℤ
  maxNodeConcurrentRuns : ℤ
  isProduction : Bool
  /-- A Redis client or URL is configured. -/
  redis : Bool

/-- What becomes of a command: it is answered, it has no effect and raises, or it has its effect and
the answer is lost, which raises too. -/
inductive Fate where
  | answered
  | failed
  | lost
  deriving DecidableEq

/-- The command had its effect. -/
def Fate.applied (fate : Fate) : Bool := fate ≠ .failed

/-- What a check can raise. -/
inductive Raised where
  | paymentRequired (detail reason : PyStr)
  /-- An exception of the database. -/
  | database
  deriving DecidableEq

/-- What a check draws from its environment: the clocks, what becomes of its commands, the text of
the error if one fails, and whether the database answers. -/
structure Env where
  time : ℤ
  now : ℤ
  existsKillSwitch : Fate
  getRuns : Fate
  getTokens : Fate
  incr : Fate
  decr : Fate
  incrRuns : Fate
  expire : Fate
  redisError : PyStr
  killSwitchRead : Bool
  quotaRead : Bool
  resetFlush : Bool
  quotaFlush : Bool
  budgetRead : Bool

def paymentRequired (detail : PyStr) (reason : String) : Raised :=
  .paymentRequired detail (PyStr.ofString reason)

/-- What the handler of `RedisError` raises. -/
def redisUnreachable (env : Env) : Raised :=
  paymentRequired ("Redis connectivity error: " ++ env.redisError ++
    ". Failing closed for safety.") "redis_unreachable"

/-- The key of an hourly counter is that of the hour. -/
def hourTimestamp (env : Env) : ℤ := env.time / 3600

/-- `_tomorrow`. -/
def tomorrow (now : ℤ) : ℤ := (now / 86400 + 1) * 86400

namespace Settings

variable (S : Settings)

variable (env : Env) (store : Store) (workspaceId : PyStr) (costCents : ℤ)

/-- The first layer: the kill switch in the database. -/
def checkKillSwitch : Except Raised Unit := do
  require .database env.killSwitchRead
  match store.killSwitches.lookup workspaceId with
  | some ⟨true, reason⟩ =>
    throw (paymentRequired ("kill switch active for workspace " ++ workspaceId ++ (match reason with
        | some (c :: text) => ": " ++ (c :: text)
        | _ => [])) "kill_switch")
  | _ => return ()

/-- The answer of a read of an hourly counter is at the limit. -/
def atLimit (key : PyStr × ℤ) (counters : List ((PyStr × ℤ) × ℤ)) (limit : ℤ) : Bool :=
  match counters.lookup key with
  | none => false
  | some n => limit ≤ n

/-- The layers in Redis before the node's: the hard kill switch and the hourly limits. -/
def checkHourly : Except Raised Unit := do
  require (redisUnreachable env) (env.existsKillSwitch = .answered)
  require (paymentRequired (PyStr.ofString
    "Hard kill switch active via Redis for workspace " ++ workspaceId ++ ".")
    "kill_switch") (workspaceId ∉ store.hardKillSwitches)
  require (redisUnreachable env) (env.getRuns = .answered)
  require (paymentRequired ("Workspace hourly execution limit exceeded (" ++
    intText S.maxRunsPerHour ++ " runs/hour).") "rate_limited")
    !atLimit (workspaceId, hourTimestamp env) store.runs S.maxRunsPerHour
  require (redisUnreachable env) (env.getTokens = .answered)
  require (paymentRequired ("Workspace hourly token limit exceeded (" ++
    intText S.maxTokensPerHour ++ " tokens/hour).") "rate_limited")
    !atLimit (workspaceId, hourTimestamp env) store.tokens S.maxTokensPerHour

/-- The node's limit: the slot is taken, and given back if there were too many. -/
def takeSlot : Except Raised Unit × Store :=
  let taken := { store with concurrentRuns := store.concurrentRuns + 1 }
  match env.incr with
  | .failed => (.error (redisUnreachable env), store)
  | .lost => (.error (redisUnreachable env), taken)
  | .answered =>
    if taken.concurrentRuns > S.maxNodeConcurrentRuns then
      match env.decr with
      | .failed => (.error (redisUnreachable env), taken)
      | .lost => (.error (redisUnreachable env), store)
      | .answered =>
        (.error (paymentRequired ("Node concurrent execution limit exceeded (" ++
          intText S.maxNodeConcurrentRuns ++ " active runs).")
          "node_limit_exceeded"), store)
    else (.ok (), taken)

/-- The hourly counter of runs is incremented, and its expiry set. -/
def countRun : Except Raised Unit × Store :=
  let key := (workspaceId, hourTimestamp env)
  let counted := { store with
    runs := KeyedTable.upsert key ((store.runs.lookup key).getD 0 + 1) store.runs }
  match env.incrRuns with
  | .failed => (.error (redisUnreachable env), store)
  | .lost => (.error (redisUnreachable env), counted)
  | .answered =>
    if env.expire = .answered then (.ok (), counted) else (.error (redisUnreachable env), counted)

/-- The quota that a check finds: that of the row, on a new day without its runs. -/
def currentQuota (quota : FreeRunQuota) : Except Raised FreeRunQuota :=
  if quota.resetAt ≤ env.now then do
    require .database env.resetFlush
    return { quota with runsUsed := 0, resetAt := tomorrow env.now }
  else return quota

/-- The free run quota: what the row of the workspace becomes. -/
def consumeQuota (row : Option FreeRunQuota) (workspaceId : PyStr) :
    Except Raised FreeRunQuota := do
  require .database env.quotaRead
  let quota ← match row with
    | none => pure { runsUsed := 1, quotaLimit := freeRunLimit, resetAt := tomorrow env.now }
    | some quota => do
      let quota ← currentQuota env quota
      require (paymentRequired ("free run quota exhausted for workspace " ++
        workspaceId ++ ". Pay via x402 (USDC on Base) to continue.")
        "quota_exhausted") (quota.runsUsed < quota.quotaLimit)
      pure { quota with runsUsed := quota.runsUsed + 1 }
  require .database env.quotaFlush
  return quota

/-- The workspace balance. -/
def checkBudget : Except Raised Unit :=
  if costCents > 0 then do
    require .database env.budgetRead
    match store.budgets.lookup workspaceId with
    | none => return ()
    | some balance =>
      require (paymentRequired ("budget exhausted: balance=" ++
        intText balance ++ " cents, cost=" ++ intText costCents ++
        " cents") "budget_exhausted") (costCents ≤ balance)
  else return ()

/-- What follows the node's limit: the free run quota and the balance. What a check that raises
wrote to the tables is rolled back with its transaction. -/
def checkRest : Except Raised Unit × Store :=
  match (do
    let quota ← consumeQuota env (store.quotas.lookup workspaceId) workspaceId
    checkBudget env store workspaceId costCents
    return quota : Except Raised FreeRunQuota) with
  | .error e => (.error e, store)
  | .ok quota =>
    (.ok (), { store with quotas := KeyedTable.upsert workspaceId quota store.quotas })

/-- What follows the taking of a slot. -/
def checkSlotted : Except Raised Unit × Store :=
  match countRun env store workspaceId with
  | (.error e, store) => (.error e, store)
  | (.ok (), store) => checkRest env store workspaceId costCents

/-- The node's limit and what follows it. -/
def checkNode : Except Raised Unit × Store :=
  match S.takeSlot env store with
  | (.error e, store) => (.error e, store)
  | (.ok (), store) => checkSlotted env store workspaceId costCents

/-- `PaymentGate.check`. -/
def check : Except Raised Unit × Store :=
  match checkKillSwitch env store workspaceId with
  | .error e => (.error e, store)
  | .ok () =>
    if S.redis then
      match S.checkHourly env store workspaceId with
      | .error e => (.error e, store)
      | .ok () => S.checkNode env store workspaceId costCents
    else if S.isProduction then
      (.error (paymentRequired (PyStr.ofString
        "Redis connection is required in production for rate limiting.") "redis_unreachable"),
        store)
    else checkRest env store workspaceId costCents

/-- `decrement_concurrent`. -/
def decrementConcurrent (decr : Fate) (store : Store) : Store :=
  if S.redis && decr.applied then { store with concurrentRuns := store.concurrentRuns - 1 }
  else store

end Settings

/-- The store, and how many requests have been admitted and not finished. -/
structure World where
  store : Store
  admitted : ℕ
  deriving DecidableEq

/-- What happens next: a run request reaches its check, an admitted request leaves its handler, or
other programs change anything but the node's counter. -/
inductive Event where
  | check (env : Env) (workspaceId : PyStr) (costCents : ℤ)
  | finish (decr : Fate)
  | environment (store : Store)

namespace World

variable (S : Settings)

def init : World := ⟨{}, 0⟩

/-- After a check: a request is admitted if it returned. If it raised, so does `_check_payment`,
before the `try` block is entered. -/
def checked (w : World) (result : Except Raised Unit × Store) : World :=
  match result.1 with
  | .ok () => ⟨result.2, w.admitted + 1⟩
  | .error _ => ⟨result.2, w.admitted⟩

def apply (w : World) : Event → World
  | .check env workspaceId costCents => w.checked (S.check env w.store workspaceId costCents)
  | .finish decr =>
    match w.admitted with
    | 0 => w
    | n + 1 => ⟨S.decrementConcurrent decr w.store, n⟩
  | .environment store =>
    { w with store := { store with concurrentRuns := w.store.concurrentRuns } }

def run (w : World) (events : List Event) : World := events.foldl (fun w e => w.apply S e) w

end World

end Payment
