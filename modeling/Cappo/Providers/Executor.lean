import Cappo.VdbC1.Python

/-!
# Providers behind circuit breakers

`services/circuit_breaker.py` and `ResilientExecutor` of `services/executor.py`: a request names the
providers it may be served by in its authority envelope; those that are configured are tried in
order, each behind a breaker of its own, and a failure is passed on to the next provider only if the
provider's signed 503 was verified. What is invoked is returned beside the result.

What a provider answers, the readings of the clock and the identifiers are given with each turn of a
provider. The branch that is taken only under pytest, for a request without an envelope, is left
out.
-/

namespace Providers

open VdbC1 (PyStr Json)

/-! ## Circuit breakers -/

/-- `CircuitState`. -/
inductive CircuitState where
  | closed
  | opened
  | halfOpen
  deriving DecidableEq

/-- `CircuitBreaker`: after enough failures in a row it refuses calls for a while. -/
structure CircuitBreaker where
  name : PyStr := "default"
  failureThreshold : ℤ := 3
  recoveryTimeout : ℚ := 30
  successThreshold : ℤ := 1
  current : CircuitState := .closed
  failures : ℤ := 0
  successes : ℤ := 0
  openedAt : ℚ := 0
  deriving DecidableEq

namespace CircuitBreaker

variable (b : CircuitBreaker)

/-- The property `state`: an open breaker becomes half open when its timeout has elapsed. The
readings of the clock are doubles, and so is their difference. -/
def refresh (now : ℚ) : CircuitBreaker :=
  if b.current = .opened ∧ b.recoveryTimeout ≤ Json.roundDouble (now - b.openedAt) then
    { b with current := .halfOpen, successes := 0 }
  else b

/-- `allows_request`. -/
def allowsRequest (now : ℚ) : Bool × CircuitBreaker :=
  ((b.refresh now).current ≠ .opened, b.refresh now)

/-- `_open`. -/
def trip (now : ℚ) : CircuitBreaker :=
  { b with current := .opened, openedAt := now, successes := 0 }

/-- `_close`. -/
def close : CircuitBreaker := { b with current := .closed, failures := 0, successes := 0 }

/-- `record_success`. -/
def recordSuccess (now : ℚ) : CircuitBreaker :=
  let b := b.refresh now
  if b.current = .halfOpen then
    let b := { b with successes := b.successes + 1 }
    if b.successThreshold ≤ b.successes then b.close else b
  else { b with failures := 0 }

/-- `record_failure`, with a second reading of the clock for an opening. -/
def recordFailure (now opening : ℚ) : CircuitBreaker :=
  let b := b.refresh now
  if b.current = .halfOpen then b.trip opening
  else
    let b := { b with failures := b.failures + 1 }
    if b.failureThreshold ≤ b.failures then b.trip opening else b

end CircuitBreaker

/-- What a provider's executor can raise, with the text. An interruption such as
`KeyboardInterrupt` is not an `Exception`. -/
inductive ProviderFault where
  | terminal (text : PyStr)
  | verifiedUnavailable (text : PyStr)
  | circuitOpen (text : PyStr)
  | other (text : PyStr)
  | interrupted
  deriving DecidableEq

/-- The readings of the clock in a provider's turn: by the executor's check, by the check of `call`,
by the record of the outcome and by an opening. -/
structure Readings where
  allows : ℚ
  call : ℚ
  record : ℚ
  opening : ℚ

/-- What `call` does: whether it runs the function, how it ends, and the breaker after it. -/
structure Called (α : Type) where
  ran : Bool
  result : Except ProviderFault α
  breaker : CircuitBreaker

/-- `call`, of a function with this outcome. -/
def CircuitBreaker.call {α : Type} (b : CircuitBreaker) (r : Readings)
    (outcome : Except ProviderFault α) : Called α :=
  match b.allowsRequest r.call with
  | (false, b) => ⟨false, .error (.circuitOpen ("circuit '" ++ b.name ++ "' is open")), b⟩
  | (true, b) =>
    match outcome with
    | .ok a => ⟨true, .ok a, b.recordSuccess r.record⟩
    | .error fault =>
      -- `except Exception` lets an interruption pass
      ⟨true, .error fault, if fault = .interrupted then b else b.recordFailure r.record r.opening⟩

/-! ## The resilient executor -/

/-- A request or a result: a dictionary. -/
abbrev Fields := List (PyStr × Json)

/-- What became of an attempt. -/
inductive AttemptOutcome where
  | succeeded
  | verifiedUnavailable
  deriving DecidableEq

/-- `_attempt`. -/
structure Attempt where
  attemptId : PyStr
  providerId : PyStr
  outcome : AttemptOutcome
  deriving DecidableEq

/-- `{**result, "attempts": attempts}`. -/
structure Response where
  result : Fields
  attempts : List Attempt
  deriving DecidableEq

/-- The provider whose attempt gave the response. -/
def Response.producer (r : Response) : Option PyStr :=
  r.attempts.getLast?.bind fun a => if a.outcome = .succeeded then some a.providerId else none

/-- A provider, whose executor is what its turns say. -/
structure Provider where
  name : PyStr
  breaker : CircuitBreaker
  deriving DecidableEq

/-- What a provider meets in one request. -/
structure Turn where
  readings : Readings
  outcome : Except ProviderFault Fields
  attemptId : PyStr

/-- What the executor raises. -/
inductive ExecutionError where
  | authorityContextMissing (text : PyStr)
  | providerNotAuthorized (text : PyStr)
  | authorizedProviderNotConfigured (text : PyStr)
  | terminal (text : PyStr)
  | executorUnavailable (text : PyStr)
  | interrupted
  deriving DecidableEq

/-- `str.strip`, `str` of a value, the text of a set of names, and the hexadecimal SHA-256 of the
canonical JSON of a value, if it has an encoding. -/
structure Library where
  strip : PyStr → PyStr
  str : Json → PyStr
  reprSet : List PyStr → PyStr
  sha256Json : Json → Option PyStr

/-- `_authorized_provider_set`, as a list of its elements. -/
def authorizedProviderSet (L : Library) (request : Fields) : Option (List PyStr) :=
  match FieldMap.lookup (PyStr.ofString "authority_envelope") request with
  | some (.obj envelope) =>
    match FieldMap.lookup (PyStr.ofString "allowed_provider_set") envelope with
    | some (.arr providers) => some (providers.filterMap fun
        | .str p => if L.strip p = [] then none else some (L.strip p)
        | _ => none)
    | _ => none
  | _ => none

/-- How the loop over the providers ends, the providers after it, and those whose executors it ran,
each with the number of its turn. -/
structure Tried where
  result : Except ExecutionError Response
  providers : List Provider
  invoked : List (Provider × ℕ)

/-- The rest of the loop, after a provider and its invocation. -/
def Tried.after (p : Provider) (invoked : List (Provider × ℕ)) (rest : Tried) : Tried :=
  ⟨rest.result, p :: rest.providers, invoked ++ rest.invoked⟩

/-- The loop over the providers. One that is not eligible has no turn. -/
def tryProviders (eligible : PyStr → Bool) (turns : ℕ → Turn) :
    ℕ → List Attempt → Option PyStr → List Provider → Tried
  | _, _, lastError, [] =>
    ⟨.error (.executorUnavailable (PyStr.ofString
      "all providers unavailable (circuits open or failing): " ++ lastError.getD [])), [], []⟩
  | n, attempts, lastError, p :: ps =>
    if eligible p.name then
      let turn := turns n
      let (allowed, checked) := p.breaker.allowsRequest turn.readings.allows
      if allowed then
        let called := checked.call turn.readings turn.outcome
        let invoked := if called.ran then [(p, n)] else []
        let p := { p with breaker := called.breaker }
        match called.result with
        | .ok result =>
          ⟨.ok ⟨result, attempts ++ [⟨turn.attemptId, p.name, .succeeded⟩]⟩, p :: ps, invoked⟩
        | .error (.terminal text) => ⟨.error (.terminal text), p :: ps, invoked⟩
        | .error (.verifiedUnavailable text) =>
          let attempts := attempts ++ [⟨turn.attemptId, p.name, .verifiedUnavailable⟩]
          (tryProviders eligible turns (n + 1) attempts (some text) ps).after p invoked
        | .error (.circuitOpen text) =>
          (tryProviders eligible turns (n + 1) attempts (some text) ps).after p invoked
        | .error (.other _) =>
          ⟨.error (.executorUnavailable ("provider " ++ p.name ++
            " failed without a verified 503 failover signal")), p :: ps, invoked⟩
        | .error .interrupted => ⟨.error .interrupted, p :: ps, invoked⟩
      else
        ⟨.error (.executorUnavailable ("provider " ++ p.name ++
          " circuit open; no current verified 503 permits failover")),
          { p with breaker := checked } :: ps, []⟩
    else (tryProviders eligible turns (n + 1) attempts lastError ps).after p []

/-- `ResilientExecutor.execute`. -/
def executeResilient (L : Library) (request : Fields) (turns : ℕ → Turn) (ps : List Provider) :
    Tried :=
  match authorizedProviderSet L request with
  | none => ⟨.error (.authorityContextMissing (PyStr.ofString
      "No allowed provider set in the authority envelope")), ps, []⟩
  | some allowed =>
    if allowed = [] then
      ⟨.error (.providerNotAuthorized (PyStr.ofString
        "No providers are authorized in this workspace context")), ps, []⟩
    else if ps.any fun p => p.name ∈ allowed then
      tryProviders (fun name => name ∈ allowed) turns 0 [] none ps
    else
      ⟨.error (.authorizedProviderNotConfigured ("Authorized providers " ++
        L.reprSet allowed ++ " are not configured in this workspace")), ps, []⟩

end Providers
