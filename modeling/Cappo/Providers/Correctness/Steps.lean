import Cappo.Providers.Cache

/-!
# What a call of the caching executor can do

A response of the providers' executor comes from the turn of a provider that the request
authorizes. `Step` lists what a call does to the tiers and what it returns, and `execute_step` says
that there is nothing else; what holds in every run is read off the list.
-/

namespace Providers

open VdbC1 (PyStr Json)

/-! ## What the providers' executor returns -/

/-- A call that returns, returns what the function did. -/
lemma CircuitBreaker.call_eq_ok {α : Type} {b : CircuitBreaker} {r : Readings}
    {outcome : Except ProviderFault α} {a : α} (h : (b.call r outcome).result = .ok a) :
    outcome = .ok a := by
  unfold CircuitBreaker.call at h
  split at h
  · cases h
  · cases outcome with
    | ok => exact h
    | error => cases h

variable {ps : List Provider} {turns : ℕ → Turn}

/-- A response comes from the turn of an eligible provider, which is its producer. -/
lemma tryProviders_eq_ok {eligible : PyStr → Bool} {n : ℕ} {attempts : List Attempt}
    {lastError : Option PyStr} {r : Response}
    (h : (tryProviders eligible turns n attempts lastError ps).result = .ok r) :
    ∃ i p, ps[i]? = some p ∧ eligible p.name = true ∧ r.producer = some p.name ∧
      (turns (n + i)).outcome = .ok r.result := by
  induction ps generalizing n attempts lastError with
  | nil => cases h
  | cons p ps ih =>
    -- a later provider's turn is counted from this one's
    have hlater : ∀ {attempts lastError},
        (tryProviders eligible turns (n + 1) attempts lastError ps).result = .ok r →
        ∃ i p', (p :: ps)[i]? = some p' ∧ eligible p'.name = true ∧ r.producer = some p'.name ∧
          (turns (n + i)).outcome = .ok r.result := by
      intro attempts lastError hrest
      obtain ⟨i, p', hi, helig, hproducer, hturn⟩ := ih hrest
      refine ⟨i + 1, p', hi, helig, hproducer, ?_⟩
      rwa [show n + (i + 1) = n + 1 + i by omega]
    simp only [tryProviders] at h
    split at h
    · next helig =>
      split at h
      · split at h
        · next result hcall =>
          cases h
          refine ⟨0, p, rfl, helig, by simp [Response.producer], ?_⟩
          exact CircuitBreaker.call_eq_ok hcall
        · cases h
        · exact hlater h
        · exact hlater h
        · cases h
        · cases h
      · cases h
    · exact hlater h

/-- A response comes from a configured provider that the request authorizes. -/
lemma executeResilient_eq_ok {r : Response}
    (h : (executeResilient L request turns ps).result = .ok r) :
    ∃ allowed, authorizedProviderSet L request = some allowed ∧
      ∃ i p, ps[i]? = some p ∧ p.name ∈ allowed ∧ r.producer = some p.name ∧
        (turns i).outcome = .ok r.result := by
  unfold executeResilient at h
  split at h
  · cases h
  · next allowed hallowed =>
    refine ⟨allowed, hallowed, ?_⟩
    split at h
    · cases h
    · split at h
      · obtain ⟨i, p, hi, helig, hproducer, hturn⟩ := tryProviders_eq_ok h
        exact ⟨i, p, hi, of_decide_eq_true helig, hproducer, by rwa [Nat.zero_add] at hturn⟩
      · cases h

/-! ## The hot cache -/

variable {raised : Option PyStr}

/-- An entry after one was set is the new one, or was there before; a cache of negative size is
emptied. -/
lemma HotCache.mem_set {H : HotCache} {key key' : PyStr} {value r : Response} {now exp : ℚ}
    {store store' : Store} (h : H.tier.set key value now store = (raised, store'))
    (hmem : (key', exp, r) ∈ store') :
    (raised = none ∧ key' = key ∧ exp = now + H.ttl ∧ r = value) ∨ (key', exp, r) ∈ store := by
  simp only [HotCache.tier] at h
  split at h
  · cases h
    exact absurd hmem List.not_mem_nil
  · cases h
    rcases ExpiringStore.mem_put (ExpiringStore.mem_trim hmem) with hnew | hold
    · exact .inl ⟨rfl, hnew⟩
    · exact .inr hold

/-! ## The caching executor -/

namespace CachingExecutor

variable {E : CachingExecutor} {c : Call E} {s : Caches E} {r : Response}

/-- The providers that a request authorizes. -/
def authorized (E : CachingExecutor) (request : Fields) : List PyStr :=
  (authorizedProviderSet E.lib request).getD []

/-- A provider that the request authorizes produced the response. -/
def Authorizes (E : CachingExecutor) (request : Fields) (r : Response) : Prop :=
  ∃ p ∈ E.authorized request, r.producer = some p

lemma authorizes_of_executeResilient
    (h : (executeResilient E.lib request turns ps).result = .ok r) :
    E.Authorizes request r := by
  obtain ⟨allowed, hallowed, i, p, -, hmem, hproducer, -⟩ := executeResilient_eq_ok h
  exact ⟨p.name, by rwa [authorized, hallowed], hproducer⟩

/-- The providers' response is passed on, and the tiers stay as they are. -/
lemma askProviders_eq_ok (h : E.askProviders c s = (.ok r, s', invoked)) :
    (executeResilient E.lib c.request c.turns s.providers).result = .ok r ∧
      (∃ providers, s' = { s with providers }) ∧
      invoked = (executeResilient E.lib c.request c.turns s.providers).invoked := by
  obtain ⟨hresult, hrest⟩ := Prod.mk.inj h
  obtain ⟨hs, hinvoked⟩ := Prod.mk.inj hrest
  refine ⟨?_, ⟨_, hs.symm⟩, hinvoked.symm⟩
  cases hexecute : (executeResilient E.lib c.request c.turns s.providers).result with
  | error e =>
    rw [hexecute] at hresult
    cases hresult
  | ok =>
    rw [hexecute] at hresult
    exact congrArg Except.ok (Except.ok.inj hresult)

lemma askProviders_eq_error (h : E.askProviders c s = (.error e, s', invoked)) :
    ∃ providers, s' = { s with providers } :=
  ⟨_, (Prod.mk.inj (Prod.mk.inj h).2).1.symm⟩

/-- What is returned after a tier stored a response, unless that raised. -/
def stored : Option PyStr → Served → Except Failure Served
  | none, served => .ok served
  | some e, _ => .error (.cache e)

lemma stored_eq_ok (h : stored raised served = .ok served') : raised = none ∧ served = served' := by
  cases raised with
  | none => exact ⟨rfl, Except.ok.inj h⟩
  | some e => cases h

/-- What a call can do. -/
inductive Step (c : Call E) (s : Caches E) : Except Failure Served → Caches E → Prop
  | failed {e providers} : Step c s (.error e) { s with providers }
  | uncached {r providers} (produced : E.Authorizes c.request r) :
      Step c s (.ok ⟨r, false, none⟩) { s with providers }
  | hotHit {key r hot} (allowed : cacheAllowed c.request = true)
      (keyed : E.key c.request = some key)
      (found : E.hot.get key c.hotGet s.hot = (some r, hot)) :
      Step c s (.ok ⟨r, true, some .hot⟩) { s with hot }
  | warmHit {key r hot warm raised hot'} (allowed : cacheAllowed c.request = true)
      (keyed : E.key c.request = some key)
      (missed : E.hot.get key c.hotGet s.hot = (none, hot))
      (found : E.warm.get key c.warmGet s.warm = (some r, warm))
      (promoted : E.hot.set key r c.promote hot = (raised, hot')) :
      Step c s (stored raised ⟨r, true, some .warm⟩) { s with hot := hot', warm }
  | unserved {key e hot warm providers} (missed : E.hot.get key c.hotGet s.hot = (none, hot))
      (missed' : E.warm.get key c.warmGet s.warm = (none, warm)) :
      Step c s (.error e) { hot, warm, providers }
  | unstored {key r hot warm e hot' providers} (allowed : cacheAllowed c.request = true)
      (keyed : E.key c.request = some key)
      (missed : E.hot.get key c.hotGet s.hot = (none, hot))
      (missed' : E.warm.get key c.warmGet s.warm = (none, warm))
      (produced : E.Authorizes c.request r)
      (set : E.hot.set key r c.hotSet hot = (some e, hot')) :
      Step c s (.error (.cache e)) { hot := hot', warm, providers }
  | served {key r hot warm hot' raised warm' providers} (allowed : cacheAllowed c.request = true)
      (keyed : E.key c.request = some key)
      (missed : E.hot.get key c.hotGet s.hot = (none, hot))
      (missed' : E.warm.get key c.warmGet s.warm = (none, warm))
      (produced : E.Authorizes c.request r)
      (set : E.hot.set key r c.hotSet hot = (none, hot'))
      (set' : E.warm.set key r c.warmSet warm = (raised, warm')) :
      Step c s (stored raised ⟨r, false, none⟩) { hot := hot', warm := warm', providers }

/-- A call does one of these. -/
theorem execute_step (c : Call E) (s : Caches E) :
    Step c s (E.execute c s).1 (E.execute c s).2.1 := by
  unfold execute
  split
  · next hallowed =>
    split
    · exact .failed
    · next key hkeyed =>
      split
      · next hit hot hfound => exact .hotHit hallowed hkeyed hfound
      · next hot hmissed =>
        unfold warmLookup
        split
        · next hit warm hfound =>
          split
          · next e hot' hpromoted => exact .warmHit hallowed hkeyed hmissed hfound hpromoted
          · next hot' hpromoted => exact .warmHit hallowed hkeyed hmissed hfound hpromoted
        · next warm hmissed' =>
          unfold miss
          split
          · next e s' invoked hask =>
            obtain ⟨providers, rfl⟩ := askProviders_eq_error hask
            exact .unserved hmissed hmissed'
          · next r s' invoked hask =>
            obtain ⟨hproduced, ⟨providers, rfl⟩, -⟩ := askProviders_eq_ok hask
            split
            · next e hot' hset =>
              exact .unstored hallowed hkeyed hmissed hmissed'
                (authorizes_of_executeResilient hproduced) hset
            · next hot' hset =>
              split
              · next e warm' hset' =>
                exact .served hallowed hkeyed hmissed hmissed'
                  (authorizes_of_executeResilient hproduced) hset hset'
              · next warm' hset' =>
                exact .served hallowed hkeyed hmissed hmissed'
                  (authorizes_of_executeResilient hproduced) hset hset'
  · split
    · next e s' invoked hask =>
      obtain ⟨providers, rfl⟩ := askProviders_eq_error hask
      exact .failed
    · next r s' invoked hask =>
      obtain ⟨hproduced, ⟨providers, rfl⟩, -⟩ := askProviders_eq_ok hask
      exact .uncached (authorizes_of_executeResilient hproduced)

end CachingExecutor

end Providers
