import Cappo.Providers.Correctness.Authority

/-!
# The providers that are invoked

The loop of `ResilientExecutor.execute` goes on to the next provider after a verified 503, and after
a `CircuitOpenError`. A breaker that allowed the request does not raise the latter, but a provider
may: it is then invoked without an attempt that says so, and another one after it. A response that
comes from a cache lists the attempts of the request that it was produced for.

## Main results

* `governed_iff`: when the invocations of a request are governed;
* `CachingExecutor.attempts_exact_iff`: when the listed attempts are those of the request itself.
-/

namespace Providers

open VdbC1 (PyStr Json)
open List

variable {eligible : PyStr → Bool} {turns : ℕ → Turn} {n : ℕ} {ps : List Provider}

/-! ## Invocations -/

/-- The invocations of a request. -/
def invocations (L : Library) (request : Fields) (turns : ℕ → Turn) (ps : List Provider) :
    List (Provider × ℕ) :=
  (executeResilient L request turns ps).invoked

/-- The attempt that reports an invocation. -/
def attemptOf (turns : ℕ → Turn) (x : Provider × ℕ) : Attempt where
  attemptId := (turns x.2).attemptId
  providerId := x.1.name
  outcome := match (turns x.2).outcome with
    | .ok _ => .succeeded
    | .error _ => .verifiedUnavailable

/-- The providers that a request allows, each with the number of its turn. -/
def eligibleProviders (L : Library) (request : Fields) (ps : List Provider) : List (Provider × ℕ) :=
  ps.zipIdx.filter fun x => x.1.name ∈ (authorizedProviderSet L request).getD []

/-- The circuit of the provider is not open when its turn comes. -/
def Provider.ready (turns : ℕ → Turn) (x : Provider × ℕ) : Bool :=
  (x.1.breaker.allowsRequest (turns x.2).readings.allows).1

/-- The provider fails with a verified 503. -/
def Provider.Unavailable (turns : ℕ → Turn) (x : Provider × ℕ) : Prop :=
  ∃ text, (turns x.2).outcome = .error (.verifiedUnavailable text)

/-- The provider's own executor raises `CircuitOpenError`. -/
def Provider.RaisesOpen (turns : ℕ → Turn) (x : Provider × ℕ) : Prop :=
  ∃ text, (turns x.2).outcome = .error (.circuitOpen text)

/-- The loop goes on after this outcome. -/
def continues : Except ProviderFault Fields → Bool
  | .error (.verifiedUnavailable _) => true
  | .error (.circuitOpen _) => true
  | _ => false

lemma continues_iff {x : Provider × ℕ} : continues (turns x.2).outcome = true ↔
    Provider.Unavailable turns x ∨ Provider.RaisesOpen turns x := by
  rw [Provider.Unavailable, Provider.RaisesOpen]
  cases (turns x.2).outcome with
  | ok => simp [continues]
  | error fault => cases fault <;> simp [continues]

/-- How far the loop gets in the eligible providers that are left. -/
def reach (turns : ℕ → Turn) : List (Provider × ℕ) → List (Provider × ℕ)
  | [] => []
  | x :: xs =>
    if Provider.ready turns x then
      x :: if continues (turns x.2).outcome then reach turns xs else []
    else []

variable {x : Provider × ℕ} {xs : List (Provider × ℕ)}

lemma reach_of_ready (h : Provider.ready turns x = true) :
    reach turns (x :: xs) = x :: if continues (turns x.2).outcome then reach turns xs else [] :=
  if_pos h

/-- What is reached is a first part of the list, and every circuit in it is not open. -/
lemma reach_spec (turns : ℕ → Turn) (xs : List (Provider × ℕ)) :
    reach turns xs <+: xs ∧ ∀ x ∈ reach turns xs, Provider.ready turns x = true := by
  induction xs with
  | nil => exact ⟨⟨[], rfl⟩, forall_mem_nil _⟩
  | cons x xs ih =>
    rw [reach]
    split_ifs with hx
    · exact ⟨cons_prefix_cons.mpr ⟨rfl, ih.1⟩, forall_mem_cons.mpr ⟨hx, ih.2⟩⟩
    · exact ⟨cons_prefix_cons.mpr ⟨rfl, by simp⟩, forall_mem_singleton.mpr hx⟩
    · exact ⟨by simp, forall_mem_nil _⟩

/-- Past providers that are ready and fail with a verified 503. -/
lemma reach_append (ys : List (Provider × ℕ))
    (h : ∀ x ∈ xs, Provider.ready turns x = true ∧ Provider.Unavailable turns x) :
    reach turns (xs ++ ys) = xs ++ reach turns ys := by
  induction xs with
  | nil => rfl
  | cons x xs ih =>
    obtain ⟨⟨hready, hunavailable⟩, hrest⟩ := forall_mem_cons.mp h
    rw [cons_append, reach_of_ready hready, if_pos (continues_iff.mpr (.inl hunavailable)),
      ih hrest, cons_append]

/-- A breaker that allowed a request allows it again, whatever the clock says, and its `call` runs
the executor and ends as it does. -/
lemma CircuitBreaker.call_of_allowed {b : CircuitBreaker} {now : ℚ}
    (h : (b.allowsRequest now).1 = true) (r : Readings) (outcome : Except ProviderFault Fields) :
    ((b.allowsRequest now).2.call r outcome).ran = true ∧
      ((b.allowsRequest now).2.call r outcome).result = outcome := by
  have hcurrent : (b.refresh now).current ≠ .opened := of_decide_eq_true h
  have hrefresh : (b.refresh now).refresh r.call = b.refresh now :=
    if_neg fun hopened => hcurrent hopened.1
  rw [allowsRequest, call, allowsRequest, hrefresh, decide_eq_true hcurrent]
  cases outcome <;> exact ⟨rfl, rfl⟩

/-- The loop runs the executors of the eligible providers that it reaches. -/
lemma tryProviders_invoked (n : ℕ) (attempts : List Attempt) (lastError : Option PyStr) :
    (tryProviders eligible turns n attempts lastError ps).invoked =
      reach turns ((ps.zipIdx n).filter fun x => eligible x.1.name) := by
  induction ps generalizing n attempts lastError with
  | nil => rfl
  | cons p ps ih =>
    rw [tryProviders, zipIdx_cons]
    by_cases helig : eligible p.name = true
    · rw [if_pos helig, filter_cons_of_pos (by exact helig)]
      by_cases hready : Provider.ready turns (p, n) = true
      · obtain ⟨hran, hresult⟩ :=
          CircuitBreaker.call_of_allowed hready (turns n).readings (turns n).outcome
        dsimp only at hran hresult ⊢
        rw [if_pos (by exact hready), hran, hresult, reach_of_ready hready]
        rcases houtcome : (turns n).outcome with (_ | _ | _ | _ | _) | result
        all_goals dsimp only [continues]
        all_goals first | rfl | exact congrArg ((p, n) :: ·) (ih ..)
      · rw [reach, if_neg hready]
        exact congrArg Tried.invoked (if_neg hready)
    · rw [if_neg helig, filter_cons_of_neg (by exact helig)]
      exact ih ..

/-- A response lists an attempt for each invocation, if the loop went on after verified 503s
only. -/
lemma attempts_of_tryProviders {n : ℕ} {attempts : List Attempt} {lastError : Option PyStr}
    {r : Response} (h : (tryProviders eligible turns n attempts lastError ps).result = .ok r) :
    let invoked := (tryProviders eligible turns n attempts lastError ps).invoked
    invoked ≠ [] ∧ ((∀ x ∈ invoked.dropLast, Provider.Unavailable turns x) →
      r.attempts = attempts ++ invoked.map (attemptOf turns)) := by
  induction ps generalizing n attempts lastError with
  | nil => cases h
  | cons p ps ih =>
    rw [tryProviders] at h ⊢
    by_cases helig : eligible p.name = true
    · rw [if_pos helig] at h ⊢
      by_cases hready : Provider.ready turns (p, n) = true
      · obtain ⟨hran, hresult⟩ :=
          CircuitBreaker.call_of_allowed hready (turns n).readings (turns n).outcome
        dsimp only at hran hresult h ⊢
        rw [if_pos (by exact hready), hresult] at h
        rw [if_pos (by exact hready), hran, hresult]
        rcases houtcome : (turns n).outcome with (_ | text | text | _ | _) | result
        all_goals rw [houtcome] at h
        all_goals try cases h
        -- it failed with a verified 503, raised `CircuitOpenError`, or answered
        · obtain ⟨hne, hattempts⟩ := ih h
          refine ⟨cons_ne_nil _ _, fun hfailover => ?_⟩
          rw [hattempts fun x hx => hfailover x ?_]
          · simp [Tried.after, attemptOf, houtcome]
          · exact dropLast_cons_of_ne_nil hne ▸ .tail _ hx
        · obtain ⟨hne, -⟩ := ih h
          refine ⟨cons_ne_nil _ _, fun hfailover => ?_⟩
          obtain ⟨text', htext⟩ := hfailover (p, n) (dropLast_cons_of_ne_nil hne ▸ .head _)
          cases houtcome.symm.trans htext
        · exact ⟨cons_ne_nil _ _, fun _ => by simp [attemptOf, houtcome]⟩
      · dsimp only at h
        rw [if_neg (by exact hready)] at h
        cases h
    · rw [if_neg helig] at h ⊢
      exact ih h

/-- What a request invokes. -/
lemma invocations_eq : invocations L request turns ps =
    reach turns (eligibleProviders L request ps) := by
  rw [invocations, eligibleProviders, executeResilient]
  cases hallowed : authorizedProviderSet L request with
  | none => simp [reach]
  | some allowed =>
    rw [Option.getD_some]
    dsimp only
    split_ifs with hnone hsome
    · simp [hnone, reach]
    · exact tryProviders_invoked ..
    · have hnil : (ps.zipIdx.filter fun x => decide (x.1.name ∈ allowed)) = [] := by
        refine filter_eq_nil_iff.mpr fun x hx hmem => hsome ?_
        exact any_eq_true.mpr ⟨x.1, fst_mem_of_mem_zipIdx hx, hmem⟩
      rw [hnil]
      rfl

/-! ## Governed failover -/

/-- The invocations of a request, as the executor is to make and report them. -/
structure Governed (L : Library) (request : Fields) (turns : ℕ → Turn) (ps : List Provider) :
    Prop where
  /-- The eligible providers are invoked in their order, without a gap. -/
  inOrder : invocations L request turns ps <+: eligibleProviders L request ps
  once : ((invocations L request turns ps).map Prod.snd).Nodup
  /-- The next provider is invoked only after a verified 503. -/
  failover : ∀ x ∈ (invocations L request turns ps).dropLast, Provider.Unavailable turns x
  /-- None is invoked past one whose circuit is open. -/
  halted : ∀ x ∈ eligibleProviders L request ps, Provider.ready turns x = false →
    ∀ y ∈ invocations L request turns ps, y.2 < x.2
  reported : ∀ r, (executeResilient L request turns ps).result = .ok r →
    r.attempts = (invocations L request turns ps).map (attemptOf turns)

/-- The first provider of the list whose turn is no verified 503 does not raise `CircuitOpenError`
in front of one that is ready. -/
def Orderly (turns : ℕ → Turn) (eligible : List (Provider × ℕ)) : Prop :=
  ∀ xs x y ys, eligible = xs ++ x :: y :: ys →
    (∀ z ∈ xs, Provider.ready turns z = true ∧ Provider.Unavailable turns z) →
    Provider.ready turns x = true → Provider.RaisesOpen turns x → Provider.ready turns y = false

lemma pairwise_eligibleProviders (L : Library) (request : Fields) (ps : List Provider) :
    (eligibleProviders L request ps).Pairwise fun x y => x.2 < y.2 := by
  refine List.Pairwise.filter _ ?_
  rw [← pairwise_map (f := Prod.snd), zipIdx_map_snd]
  exact pairwise_lt_range'

/-- In such a list the loop goes on after verified 503s only. -/
lemma Orderly.unavailable (h : Orderly turns xs) :
    ∀ x ∈ (reach turns xs).dropLast, Provider.Unavailable turns x := by
  induction xs with
  | nil => exact forall_mem_nil _
  | cons x xs ih =>
    rw [reach]
    split_ifs with hready hcontinues
    · cases hrest : reach turns xs with
      | nil => exact forall_mem_nil _
      | cons y rest =>
        have hx : Provider.Unavailable turns x := by
          refine (continues_iff.mp hcontinues).resolve_right fun hopen => ?_
          obtain ⟨ys, hys⟩ := (reach_spec turns xs).1
          rw [hrest, cons_append] at hys
          have hy := h [] x y _ (by rw [← hys]; rfl) (forall_mem_nil _) hready hopen
          have hyready := (reach_spec turns xs).2 y (hrest ▸ .head _)
          exact absurd (hy.symm.trans hyready) (by decide)
        have hlater : Orderly turns xs := by
          intro zs z z' zs' heq hzs
          refine h (x :: zs) z z' zs' (congrArg (x :: ·) heq) ?_
          exact forall_mem_cons.mpr ⟨⟨hready, hx⟩, hzs⟩
        rw [dropLast_cons_of_ne_nil (cons_ne_nil y rest), ← hrest]
        exact forall_mem_cons.mpr ⟨hx, ih hlater⟩
    · exact forall_mem_nil _
    · exact forall_mem_nil _

lemma attempts_of_executeResilient {r : Response}
    (hfailover : ∀ x ∈ (invocations L request turns ps).dropLast, Provider.Unavailable turns x)
    (h : (executeResilient L request turns ps).result = .ok r) :
    r.attempts = (invocations L request turns ps).map (attemptOf turns) := by
  unfold invocations at hfailover ⊢
  unfold executeResilient at h hfailover ⊢
  cases hallowed : authorizedProviderSet L request with
  | none =>
    rw [hallowed] at h
    cases h
  | some allowed =>
    rw [hallowed] at h hfailover
    dsimp only at h hfailover ⊢
    split_ifs at h hfailover ⊢ with hnone hsome
    exact (attempts_of_tryProviders h).2 hfailover

/-- The invocations of a request are governed exactly if the first eligible provider whose turn is
no verified 503 does not itself raise `CircuitOpenError` with a ready provider after it. -/
theorem governed_iff (L : Library) (request : Fields) (turns : ℕ → Turn) (ps : List Provider) :
    Governed L request turns ps ↔ Orderly turns (eligibleProviders L request ps) := by
  constructor
  · intro hgoverned xs x y ys heq hxs hx hopen
    refine Bool.eq_false_iff.mpr fun hy => ?_
    have hinvoked : invocations L request turns ps = xs ++ reach turns (x :: y :: ys) := by
      rw [invocations_eq, heq, reach_append _ hxs]
    rw [reach_of_ready hx, if_pos (continues_iff.mpr (.inr hopen)), reach_of_ready hy] at hinvoked
    obtain ⟨text, htext⟩ := hgoverned.failover x (by simp [hinvoked])
    obtain ⟨text', htext'⟩ := hopen
    cases htext.symm.trans htext'
  · intro horderly
    obtain ⟨hinitial, hready⟩ := reach_spec turns (eligibleProviders L request ps)
    have hfailover := horderly.unavailable
    rw [← invocations_eq] at hinitial hready hfailover
    have hsorted := pairwise_eligibleProviders L request ps
    refine ⟨hinitial, ?_, hfailover, ?_, fun r => attempts_of_executeResilient hfailover⟩
    · refine pairwise_map.mpr ((hsorted.sublist hinitial.sublist).imp fun h => ?_)
      exact Nat.ne_of_lt h
    · intro x hx hopen y hy
      -- the provider is not among the invoked ones, so it comes after them
      obtain ⟨later, hlater⟩ := hinitial
      rw [← hlater] at hx hsorted
      rcases mem_append.mp hx with hinvoked | hx
      · exact absurd (hready x hinvoked) (by rw [hopen]; decide)
      · exact (pairwise_append.mp hsorted).2.2 y hy x hx

/-! ## Reported attempts -/

/-- A tool action of an EEE. -/
structure ToolAction where
  tool : PyStr
  actionHash : PyStr
  decision : AttemptOutcome
  evidenceRef : PyStr

/-- `_provider_attempt_actions`, for this hash of an attempt. -/
def providerAttemptActions (sha256Json : Attempt → PyStr) (r : Response) : List ToolAction :=
  (r.attempts.filter fun a => a.attemptId ≠ [] ∧ a.providerId ≠ []).map fun a =>
    ⟨"provider:" ++ a.providerId, sha256Json a, a.outcome, a.attemptId⟩

namespace CachingExecutor

variable {E : CachingExecutor} {hot : E.hot.Faithful} {warm : E.warm.Faithful} {c : Call E}
  {s t : Caches E} {r : Response}

/-- Both tiers miss the key of the request, or they are not asked for it. -/
def Missed (c : Call E) (s : Caches E) : Prop :=
  cacheAllowed c.request = true → ∀ key, E.key c.request = some key →
    (E.hot.get key c.hotGet s.hot).1 = none ∧ (E.warm.get key c.warmGet s.warm).1 = none

/-- The invocations that are made while a request is served. -/
def invocations (c : Call E) (s : Caches E) : List (Provider × ℕ) := (E.execute c s).2.2

lemma attempts_of_askProviders (hturns : ∀ n text, (c.turns n).outcome ≠ .error (.circuitOpen text))
    (h : E.askProviders c s = (.ok r, s', invoked)) :
    r.attempts = invoked.map (attemptOf c.turns) := by
  obtain ⟨hexecute, -, rfl⟩ := askProviders_eq_ok h
  have horderly : Orderly c.turns (eligibleProviders E.lib c.request s.providers) :=
    fun _ x _ _ _ _ _ hopen => absurd hopen.choose_spec (hturns x.2 _)
  have hfailover := horderly.unavailable
  rw [← invocations_eq] at hfailover
  exact attempts_of_executeResilient hfailover hexecute

/-- A response that a provider produced lists an attempt. -/
lemma Attributed.attempts_ne_nil (h : Attributed hot warm past s)
    (hholds : Holds hot warm s k r) : r.attempts ≠ [] := by
  obtain ⟨earlier, -, -, -, p, -, hproducer⟩ := h k r hholds
  intro hnil
  rw [Response.producer, hnil] at hproducer
  cases hproducer

lemma miss_eq_ok {key : PyStr} {served : Served} (h : (E.miss key c s).1 = .ok served) :
    ∃ s', E.askProviders c s = (.ok served.response, s', (E.miss key c s).2.2) := by
  unfold miss at h ⊢
  split at h
  · cases h
  · next r s' invoked hask =>
    rw [hask]
    split at h
    · cases h
    · split at h
      · cases h
      · cases h
        exact ⟨s', rfl⟩

/-- The attempts of a response are the providers that were called. -/
lemma attempts_of_missed
    (hturns : ∀ n text, (c.turns n).outcome ≠ .error (.circuitOpen text)) (hmissed : Missed c s)
    (h : (E.execute c s).1 = .ok served) :
    served.response.attempts = (invocations c s).map (attemptOf c.turns) := by
  unfold invocations
  unfold execute at h ⊢
  split at h
  · next hcache =>
    rw [if_pos hcache]
    rcases hkey : E.key c.request with fault | key
    · rw [hkey] at h
      cases h
    · obtain ⟨hhot, hwarm⟩ := hmissed hcache key hkey
      rw [hkey] at h
      dsimp only at h ⊢
      split at h
      · next hfound => cases hhot.symm.trans (congrArg Prod.fst hfound)
      · unfold warmLookup at h ⊢
        split at h
        · next hfound => cases hwarm.symm.trans (congrArg Prod.fst hfound)
        · obtain ⟨s', hask⟩ := miss_eq_ok h
          exact attempts_of_askProviders hturns hask
  · next hcache =>
    rw [if_neg hcache]
    split at h
    · cases h
    · next hask =>
      cases h
      exact attempts_of_askProviders hturns hask

/-- A response from a tier lists attempts, though none is made. -/
lemma missed_of_attempts (hattributed : Attributed hot warm past s)
    (h : (E.execute c s).1 = .ok served)
    (hexact : served.response.attempts = (invocations c s).map (attemptOf c.turns)) :
    Missed c s := by
  intro hcache key hkey
  unfold invocations at hexact
  unfold execute at h hexact
  rw [if_pos hcache, hkey] at h hexact
  dsimp only at h hexact
  split at h
  · next hit hot' hfound =>
    cases h
    rw [hfound] at hexact
    exact absurd hexact (hattributed.attempts_ne_nil (.inl (hot.holds_of_found hfound)))
  · next hot' hmiss =>
    rw [hmiss] at hexact ⊢
    refine ⟨rfl, ?_⟩
    unfold warmLookup at h hexact
    split at h
    · next hit warm' hfound =>
      dsimp only at hfound hexact
      rw [hfound] at hexact
      split at h
      · cases h
      · next hset =>
        cases h
        dsimp only at hset hexact
        rw [hset] at hexact
        exact absurd hexact (hattributed.attempts_ne_nil (.inr (warm.holds_of_found hfound)))
    · next warm' hmiss => exact congrArg Prod.fst hmiss

/-- In every run from tiers that hold nothing, the attempts that are listed in the result of a
request are the invocations made for it exactly if the tiers miss; and then no tool action describes
another invocation. -/
theorem attempts_exact_iff {ok : List (Call E) → Call E → Prop}
    {log : List (Call E × Except Failure Served)} (hempty : ∀ k r, ¬ Holds hot warm s k r)
    (hrun : E.Run ok s log t)
    (hturns : ∀ n text, (c.turns n).outcome ≠ .error (.circuitOpen text)) {served : Served}
    (hserved : (E.execute c t).1 = .ok served) :
    (served.response.attempts = (invocations c t).map (attemptOf c.turns) ↔ Missed c t) ∧
    (Missed c t → ∀ sha256Json, ∀ a ∈ providerAttemptActions sha256Json served.response,
      ∃ x ∈ invocations c t, a.evidenceRef = (c.turns x.2).attemptId ∧
        a.tool = "provider:" ++ x.1.name) := by
  have hexact (hmissed : Missed c t) := attempts_of_missed hturns hmissed hserved
  refine ⟨⟨missed_of_attempts (attributed_of_run hempty hrun) hserved, hexact⟩, ?_⟩
  intro hmissed sha256Json a ha
  obtain ⟨attempt, hattempt, rfl⟩ := mem_map.mp ha
  rw [hexact hmissed] at hattempt
  obtain ⟨x, hx, rfl⟩ := mem_map.mp (mem_filter.mp hattempt).1
  exact ⟨x, hx, rfl, rfl⟩

end CachingExecutor

namespace Sample

/-- The first provider raises `CircuitOpenError`, the others succeed. -/
def raced (n : ℕ) : Turn where
  readings := ⟨0, 0, 0, 0⟩
  outcome := if n = 0 then .error (.circuitOpen "circuit 'upstream' is open") else .ok []
  attemptId := "attempt"

def pair : List Provider :=
  [{ name := "openai", breaker := {} }, { name := "openai", breaker := {} }]

end Sample

/-- A provider that raises `CircuitOpenError` is followed by another one, and not reported. -/
theorem failover_ungoverned :
    let request := completionRequest "hello" (envelopeOf "openai")
    (invocations completionLibrary request Sample.raced Sample.pair).map Prod.snd = [0, 1] ∧
    (executeResilient completionLibrary request Sample.raced Sample.pair).result =
      .ok ⟨[], [⟨"attempt", "openai", .succeeded⟩]⟩ ∧
    ¬ Governed completionLibrary request Sample.raced Sample.pair := by
  have hinvoked : (invocations completionLibrary
      (completionRequest "hello" (envelopeOf "openai")) Sample.raced Sample.pair).map Prod.snd =
      [0, 1] := by decide +kernel
  have hresponse : (executeResilient completionLibrary
      (completionRequest "hello" (envelopeOf "openai")) Sample.raced Sample.pair).result =
      .ok ⟨[], [⟨"attempt", "openai", .succeeded⟩]⟩ := by decide +kernel
  refine ⟨hinvoked, hresponse, fun h => ?_⟩
  have hlength := congrArg List.length (h.reported _ hresponse)
  rw [length_map, ← length_map (f := Prod.snd), hinvoked] at hlength
  exact absurd hlength (by decide)

/-- A request whose provider succeeds lists the one invocation made for it. -/
theorem attempts_exact_first :
    let c := helloCall 0 (envelopeOf "openai")
    ∃ served, ((completionExecutor 1024 300).execute c (freshCaches 1024 300)).1 = .ok served ∧
      served.response.attempts ≠ [] ∧ served.response.attempts =
        (CachingExecutor.invocations c (freshCaches 1024 300)).map (attemptOf c.turns) := by
  intro c
  have hserved : ((completionExecutor 1024 300).execute c (freshCaches 1024 300)).1 =
      .ok ⟨completionResponse "hi", false, none⟩ := by decide +kernel
  refine ⟨_, hserved, by decide, ?_⟩
  have hturns : ∀ n text, (c.turns n).outcome ≠ .error (.circuitOpen text) := by
    intro n text h
    cases h
  have hrun : (completionExecutor 1024 300).Run (fun _ _ => True) (freshCaches 1024 300) [] _ :=
    .nil
  refine (CachingExecutor.attempts_exact_iff not_holds_freshCaches hrun hturns hserved).1.mpr ?_
  intro _ key _
  exact ⟨rfl, rfl⟩

/-- A request that is served from the hot tier lists an attempt, though no provider is invoked. -/
theorem attempts_of_cached : ∃ log t,
    (completionExecutor 1024 300).Run (fun _ _ => True) (freshCaches 1024 300) log t ∧
    let c := helloCall 1 (envelopeOf "openai")
    ((completionExecutor 1024 300).execute c t).1 = .ok ⟨completionResponse "hi", true, some .hot⟩ ∧
    CachingExecutor.invocations c t = [] ∧ (completionResponse "hi").attempts ≠ [] := by
  refine ⟨_, _, .snoc (helloCall 0 (envelopeOf "openai")) .nil trivial, ?_, ?_, ?_⟩
  · decide +kernel
  · decide +kernel
  · decide

end Providers
