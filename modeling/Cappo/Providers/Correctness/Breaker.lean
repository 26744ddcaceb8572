import Mathlib.Data.List.Induction
import Cappo.Providers.Executor

/-!
# The history of a circuit breaker

`CircuitBreaker` keeps two counters and changes its state also when it is read. `Counted` says what
the counters are in terms of the calls so far, and every call keeps it. A wrapped function returns,
raises an `Exception`, or is interrupted; an interruption is recorded neither as a failure nor as a
success, so the streaks pass over it.

## Main results

* `breaker_history`: when a breaker opens and closes, and what it rejects in between.
-/

namespace Providers

open List
open VdbC1 (PyStr Json)

/-- How a wrapped function ends. -/
inductive Ending where
  | returned
  | failed
  | interrupted
  deriving DecidableEq

/-- A call as it is seen from outside: the state it found, how the wrapped function ended if it was
called at all, and the state it left. -/
structure Observation where
  found : CircuitState
  ended : Option Ending
  left : CircuitState

namespace Observation

variable (e : Observation)

/-- The wrapped function is called. -/
def Invoked : Prop := e.ended ≠ none

def Fails : Prop := e.ended = some .failed

def Opens : Prop := e.Invoked ∧ e.left = .opened

def Closes : Prop := e.found ≠ .closed ∧ e.left = .closed

def failsClosed : Bool := e.found = .closed && e.ended = some .failed

/-- A successful probe. -/
def probed : Bool := e.found = .halfOpen && e.ended = some .returned

def counts : Bool := e.ended ≠ some .interrupted

end Observation

/-- How many calls at the end of `past` satisfy `p`, without those that were interrupted. -/
def streak (p : Observation → Bool) (past : List Observation) : ℕ :=
  ((past.filter Observation.counts).reverse.takeWhile p).length

/-- One more call: an interrupted one is passed over, and one without `p` ends the streak. -/
lemma streak_concat (p : Observation → Bool) (past : List Observation) (e : Observation) :
    streak p (past ++ [e]) =
      if e.counts then if p e then streak p past + 1 else 0 else streak p past := by
  rw [streak, filter_append, filter_singleton]
  cases e.counts with
  | false => exact congrArg _ (congrArg _ (congrArg _ (append_nil _)))
  | true =>
    rw [cond_true, if_pos rfl, reverse_append, reverse_singleton, singleton_append, takeWhile_cons]
    split_ifs <;> rfl

namespace CircuitBreaker

section Calls

variable {α : Type} (b : CircuitBreaker) (c : Readings × Except ProviderFault α)

/-- The breaker after a call. -/
def after : CircuitBreaker := (b.call c.1 c.2).breaker

/-- How a call that ends like this was ended by the function. -/
def ending : Except ProviderFault α → Ending
  | .ok _ => .returned
  | .error fault => if fault = .interrupted then .interrupted else .failed

/-- What became of the function, read off the call's own result. -/
def ended : Option Ending :=
  if (b.call c.1 c.2).ran then some (ending (b.call c.1 c.2).result) else none

/-- What is seen of a call. -/
def observe : Observation := ⟨(b.refresh c.1.call).current, b.ended c, (b.after c).current⟩

/-- The breaker after some calls. -/
def afterAll (calls : List (Readings × Except ProviderFault α)) : CircuitBreaker :=
  calls.foldl after b

/-- What is seen of some calls, one after the other. -/
def history (b : CircuitBreaker) : List (Readings × Except ProviderFault α) → List Observation
  | [] => []
  | c :: calls => b.observe c :: history (b.after c) calls

/-- One more call is seen by the breaker that the others left. -/
lemma history_concat (calls : List (Readings × Except ProviderFault α)) :
    b.history (calls ++ [c]) = b.history calls ++ [(b.afterAll calls).observe c] := by
  induction calls generalizing b with
  | nil => rfl
  | cons d calls ih =>
    rw [cons_append, history, ih]
    rfl

/-- The clock in the order in which the calls read it. -/
def clock (calls : List (Readings × Except ProviderFault α)) : List ℚ :=
  calls.flatMap fun c => [c.1.call, c.1.record, c.1.opening]

variable {b}

lemma refresh_of_ne (h : b.current ≠ .opened) : b.refresh now = b :=
  if_neg fun h' => h h'.1

/-- Before its timeout has elapsed, an open breaker stays open. -/
lemma refresh_of_lt (h : Json.roundDouble (now - b.openedAt) < b.recoveryTimeout) :
    b.refresh now = b :=
  if_neg fun h' => h.not_ge h'.2

/-- What a call does to the breaker that it finds, by what became of the wrapped function. -/
inductive Turn (opening : ℚ) (b : CircuitBreaker) : Option Ending → CircuitBreaker → Prop
  | rejected : b.current = .opened → Turn opening b none b
  | interrupted : b.current ≠ .opened → Turn opening b (some .interrupted) b
  | success : b.current = .closed →
      Turn opening b (some .returned) { b with current := .closed, failures := 0 }
  | failure : b.current = .closed → b.failures + 1 < b.failureThreshold →
      Turn opening b (some .failed) { b with current := .closed, failures := b.failures + 1 }
  | lastFailure : b.current = .closed → b.failureThreshold ≤ b.failures + 1 →
      Turn opening b (some .failed) (trip { b with failures := b.failures + 1 } opening)
  | probe : b.current = .halfOpen →
      Turn opening b (some .returned) { b with current := .halfOpen, successes := b.successes + 1 }
  | lastProbe : b.current = .halfOpen → b.successThreshold ≤ b.successes + 1 →
      Turn opening b (some .returned) (close { b with successes := b.successes + 1 })
  | failedProbe : b.current = .halfOpen → Turn opening b (some .failed) (b.trip opening)

/-- A call is one turn of the breaker that it finds. -/
lemma turn_after : Turn c.1.opening (b.refresh c.1.call) (b.ended c) (b.after c) := by
  obtain ⟨r, outcome⟩ := c
  rw [after, ended, call, allowsRequest]
  by_cases hopened : (b.refresh r.call).current = .opened
  · simp only [hopened, ne_eq, not_true_eq_false, decide_false]
    exact .rejected hopened
  simp only [hopened, ne_eq, not_false_eq_true, decide_true]
  cases outcome with
  | ok a =>
    simp only [↓reduceIte, ending, recordSuccess, refresh_of_ne hopened]
    rcases hfound : (b.refresh r.call).current with _ | _ | _
    · exact .success hfound
    · exact absurd hfound hopened
    · simp only [↓reduceIte]
      split_ifs with hle
      · exact .lastProbe hfound hle
      · exact .probe hfound
  | error fault =>
    by_cases hfault : fault = .interrupted
    · simp only [↓reduceIte, ending, hfault]
      exact .interrupted hopened
    · simp only [↓reduceIte, ending, hfault, recordFailure, refresh_of_ne hopened]
      rcases hfound : (b.refresh r.call).current with _ | _ | _
      · simp only [reduceCtorEq, ↓reduceIte]
        split_ifs with hle
        · exact .lastFailure hfound hle
        · exact .failure hfound (lt_of_not_ge hle)
      · exact absurd hfound hopened
      · exact .failedProbe hfound

section

variable {opening : ℚ} {ended : Option Ending} {b' : CircuitBreaker} (h : Turn opening b ended b')

include h

/-- The function is run unless the breaker is found open. -/
lemma Turn.invoked_iff : ended ≠ none ↔ b.current ≠ .opened := by
  cases h <;> simp_all

lemma Turn.eq_of_opened (hopened : b.current = .opened) : b' = b := by
  cases h <;> simp_all

end

/-- An open breaker rejects whatever comes before its timeout has elapsed. -/
lemma rejects_until {calls : List (Readings × Except ProviderFault α)}
    (hopened : b.current = .opened)
    (hcalls : ∀ d ∈ calls, b.openedAt ≤ d.1.call ∧ d.1.call ≤ c.1.call)
    (h : Json.roundDouble (c.1.call - b.openedAt) < b.recoveryTimeout) :
    ¬ ((b.afterAll calls).observe c).Invoked := by
  induction calls generalizing b with
  | nil =>
    have hinvoked := (turn_after (b := b) c).invoked_iff
    rw [refresh_of_lt h] at hinvoked
    exact fun hc => hinvoked.mp hc hopened
  | cons d calls ih =>
    obtain ⟨hopening, hd⟩ := hcalls d (.head _)
    have hsame : b.after d = b := by
      have hturn := turn_after (b := b) d
      have hrounded := Json.roundDouble_mono (sub_nonneg.mpr hopening) (sub_le_sub_right hd _)
      rw [refresh_of_lt (hrounded.trans_lt h)] at hturn
      exact hturn.eq_of_opened hopened
    rw [afterAll, foldl_cons, hsame]
    exact ih hopened (fun d hd => hcalls d (.tail _ hd)) h

end Calls

variable {T S : ℤ} {R : ℚ} {b : CircuitBreaker} {past : List Observation}

/-- The parameters of a breaker, and its counters after the calls of `past`. -/
structure Counted (T S : ℤ) (R : ℚ) (b : CircuitBreaker) (past : List Observation) : Prop where
  parameters : b.failureThreshold = T ∧ b.successThreshold = S ∧ b.recoveryTimeout = R
  failures : b.current = .closed → b.failures = streak Observation.failsClosed past
  successes : b.current = .halfOpen → b.successes = streak Observation.probed past
  opened : b.current = .opened → streak Observation.probed past = 0

/-- The timeout does not change what was counted. -/
lemma Counted.refresh (h : Counted T S R b past) (now : ℚ) :
    Counted T S R (b.refresh now) past := by
  rw [CircuitBreaker.refresh]
  split_ifs with hopen
  · exact ⟨h.parameters, nofun, fun _ => by simp [h.opened hopen.1], nofun⟩
  · exact h

variable {opening : ℚ} {ended : Option Ending} {b' : CircuitBreaker}

section

variable (h : Counted T S R b past) (hturn : Turn opening b ended b')

include h hturn

/-- Every call keeps the counters what they are meant to count. -/
theorem Counted.turn : Counted T S R b' (past ++ [⟨b.current, ended, b'.current⟩]) := by
  obtain ⟨hparameters, hfailures, hsuccesses, hopened⟩ := h
  cases hturn <;> constructor <;>
    simp_all [streak_concat, Observation.failsClosed, Observation.probed,
      Observation.counts, trip, close]

/-- A call opens the breaker if it fails as a probe, or completes a streak of failures. -/
lemma Counted.opens_iff :
    let e : Observation := ⟨b.current, ended, b'.current⟩
    e.Opens ↔ e.Fails ∧
      (e.found = .halfOpen ∨ T ≤ streak Observation.failsClosed (past ++ [e])) := by
  obtain ⟨⟨rfl, -⟩, hfailures, -⟩ := h
  cases hturn <;> simp_all [Observation.Opens, Observation.Fails, Observation.Invoked,
    streak_concat, Observation.failsClosed, Observation.counts, trip, close]

/-- A call that closes the breaker completes a streak of probes. -/
lemma Counted.of_closes (hcloses : Observation.Closes ⟨b.current, ended, b'.current⟩) :
    S ≤ streak Observation.probed (past ++ [⟨b.current, ended, b'.current⟩]) := by
  obtain ⟨⟨-, rfl, -⟩, -, hsuccesses, -⟩ := h
  cases hturn <;> simp_all [Observation.Closes, streak_concat, Observation.probed,
    Observation.counts, trip, close]

end

/-- An opening is dated with the last reading of the call. -/
lemma Turn.openedAt (hturn : Turn opening b ended b') (hfound : b.current ≠ .opened)
    (hleft : b'.current = .opened) : b'.openedAt = opening := by
  cases hturn <;> simp_all [trip, close]

variable {α : Type}

/-- The counters of a new breaker, after any calls. -/
lemma counted_afterAll (name : PyStr) (calls : List (Readings × Except ProviderFault α)) :
    let start : CircuitBreaker := ⟨name, T, R, S, .closed, 0, 0, 0⟩
    Counted T S R (start.afterAll calls) (start.history calls) := by
  intro start
  induction calls using List.reverseRecOn with
  | nil => exact ⟨⟨rfl, rfl, rfl⟩, fun _ => rfl, nofun, nofun⟩
  | append_singleton calls c ih =>
    rw [history_concat, afterAll, foldl_concat]
    exact (ih.refresh c.1.call).turn (turn_after c)

end CircuitBreaker

open CircuitBreaker

/-- After any calls of a new breaker, whether the next one is invoked, whether it opens the breaker
and when it closes it; and while the clock does not go back, nothing is invoked between an opening
and the end of its timeout. -/
theorem breaker_history {α : Type} (name : PyStr) (failureThreshold successThreshold : ℤ)
    (recoveryTimeout : ℚ) (before : List (Readings × Except ProviderFault α))
    (c : Readings × Except ProviderFault α) :
    let start : CircuitBreaker := { name, failureThreshold, recoveryTimeout, successThreshold }
    let e := (start.afterAll before).observe c
    let past := start.history (before ++ [c])
    (e.Invoked ↔ e.found ≠ .opened) ∧
    (e.Opens ↔ e.Fails ∧
      (e.found = .halfOpen ∨ failureThreshold ≤ streak Observation.failsClosed past)) ∧
    (e.Closes → successThreshold ≤ streak Observation.probed past) ∧
    ∀ between c', (clock (before ++ c :: (between ++ [c']))).Pairwise (· ≤ ·) → e.Opens →
      Json.roundDouble (c'.1.call - c.1.opening) < recoveryTimeout →
      ¬ ((start.afterAll (before ++ c :: between)).observe c').Invoked := by
  intro start e past
  have hcounted := (counted_afterAll (T := failureThreshold) (S := successThreshold)
    (R := recoveryTimeout) name before).refresh c.1.call
  have hturn := turn_after (b := start.afterAll before) c
  simp only [past, history_concat]
  refine ⟨hturn.invoked_iff, hcounted.opens_iff hturn, hcounted.of_closes hturn, ?_⟩
  intro between c' hclock hopens hbefore
  have hopening : ((start.afterAll before).after c).openedAt = c.1.opening :=
    hturn.openedAt (hturn.invoked_iff.mp hopens.1) hopens.2
  rw [afterAll, foldl_append, foldl_cons]
  refine rejects_until c' hopens.2 (fun d hd => ⟨?_, ?_⟩) ?_
  · have hsplit : (clock (before ++ [c]) ++ clock (between ++ [c'])).Pairwise (· ≤ ·) := by
      simpa [clock] using hclock
    exact hopening.trans_le ((pairwise_append.mp hsplit).2.2 _
      (mem_flatMap.mpr ⟨c, by simp, by simp⟩) _ (mem_flatMap.mpr ⟨d, by simp [hd], .head _⟩))
  · have hsplit : (clock (before ++ c :: between) ++ clock [c']).Pairwise (· ≤ ·) := by
      simpa [clock] using hclock
    exact (pairwise_append.mp hsplit).2.2 _ (mem_flatMap.mpr ⟨d, by simp [hd], .head _⟩) _ (.head _)
  · show Json.roundDouble (c'.1.call - ((start.afterAll before).after c).openedAt) < _
    rw [hopening]
    exact hbefore.trans_eq (hcounted.turn hturn).parameters.2.2.symm

/-- A failure opens a breaker whose threshold is one, and a call one second later is not invoked. -/
theorem breaker_history_opened :
    let start : CircuitBreaker := { failureThreshold := 1 }
    let c : Readings × Except ProviderFault Unit := (⟨0, 0, 0, 0⟩, .error (.other "down"))
    (start.observe c).Opens ∧ ¬ ((start.after c).observe (⟨1, 1, 1, 1⟩, .ok ())).Invoked := by
  intro start c
  have hopens : (start.observe c).Opens := ⟨Option.some_ne_none _, rfl⟩
  refine ⟨hopens, (breaker_history "default" 1 1 30 [] c).2.2.2 [] (⟨1, 1, 1, 1⟩, .ok ()) ?_ hopens
    ?_⟩
  · simp [clock, c]
  · have hone : Json.roundDouble (1 - 0) = 1 := by
      simpa using Json.roundDouble_intCast (n := 1)
    exact hone.trans_lt (by norm_num)

end Providers
