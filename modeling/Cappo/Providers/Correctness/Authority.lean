import Cappo.Providers.Correctness.Steps

/-!
# Who a cached response may be served to

The providers' executor asks only providers that the request authorizes. The key of the cache does
not have the authority envelope in it, so that a response may be served to a request that does not
authorize its producer, or nobody at all. It is not, in the runs in which the requests that share a
key do not lose authority.
-/

namespace Providers

open VdbC1 (PyStr Json)

/-! ## Tiers -/

/-- A tier returns only what was stored under the same key: `holds` are the responses that it may
still return. -/
structure Tier.Faithful (T : Tier) where
  holds : T.State → PyStr → Response → Prop
  holds_of_found : ∀ {key answer s r s'}, T.get key answer s = (some r, s') → holds s key r
  holds_of_get : ∀ {key answer s found s'}, T.get key answer s = (found, s') →
    ∀ {key' r}, holds s' key' r → holds s key' r
  holds_of_set : ∀ {key value answer s raised s'}, T.set key value answer s = (raised, s') →
    ∀ {key' r}, holds s' key' r → (key' = key ∧ r = value) ∨ holds s key' r

/-- The hot cache is faithful. -/
def HotCache.faithful (H : HotCache) : H.tier.Faithful where
  holds (store : Store) key r := ∃ exp, (key, exp, r) ∈ store
  holds_of_found h := by
    obtain ⟨exp, hmem, -⟩ := ExpiringStore.mem_of_getRecent h
    exact ⟨exp, hmem⟩
  holds_of_get := by
    rintro key now store found store' h key' r ⟨exp, hmem⟩
    exact ⟨exp, ExpiringStore.mem_getRecent h hmem⟩
  holds_of_set := by
    rintro key value now store raised store' h key' r ⟨exp, hmem⟩
    rcases HotCache.mem_set h hmem with ⟨-, hkey, -, hvalue⟩ | hold
    · exact .inl ⟨hkey, hvalue⟩
    · exact .inr ⟨exp, hold⟩

/-- The warm cache in memory is faithful. -/
def inMemoryWarmCache_faithful (ttl : ℤ) : (inMemoryWarmCache ttl).Faithful where
  holds (store : Store) key r := ∃ exp, (key, exp, r) ∈ store
  holds_of_found h := by
    obtain ⟨exp, hmem, -⟩ := ExpiringStore.mem_of_get h
    exact ⟨exp, hmem⟩
  holds_of_get := by
    rintro key now store found store' h key' r ⟨exp, hmem⟩
    exact ⟨exp, ExpiringStore.mem_get h hmem⟩
  holds_of_set := by
    rintro key value now store raised store' h key' r ⟨exp, hmem⟩
    cases h
    rcases ExpiringStore.mem_put hmem with ⟨hkey, -, hvalue⟩ | hold
    · exact .inl ⟨hkey, hvalue⟩
    · exact .inr ⟨exp, hold⟩

/-! ## The caching executor -/

namespace CachingExecutor

variable {E : CachingExecutor} (hot : E.hot.Faithful) (warm : E.warm.Faithful) {c : Call E}
  {s : Caches E} {r : Response}

/-- What one of the tiers may return. -/
def Holds (s : Caches E) (key : PyStr) (r : Response) : Prop :=
  hot.holds s.hot key r ∨ warm.holds s.warm key r

variable {t : Caches E}

/-- What a call leaves in the tiers was held before, or was produced for it under its key. -/
theorem Step.holds {outcome : Except Failure Served} (h : Step c s outcome t) {k : PyStr}
    (hholds : Holds hot warm t k r) : Holds hot warm s k r ∨
      (cacheAllowed c.request = true ∧ E.key c.request = some k ∧ E.Authorizes c.request r) := by
  cases h with
  | failed | uncached => exact .inl hholds
  | hotHit allowed keyed found =>
    exact .inl (hholds.imp_left fun h => hot.holds_of_get found h)
  | warmHit allowed keyed missed found promoted =>
    refine .inl ?_
    rcases hholds with h | h
    · rcases hot.holds_of_set promoted h with ⟨rfl, rfl⟩ | hold
      · exact .inr (warm.holds_of_found found)
      · exact .inl (hot.holds_of_get missed hold)
    · exact .inr (warm.holds_of_get found h)
  | unserved missed missed' =>
    exact .inl (hholds.imp (fun h => hot.holds_of_get missed h) fun h =>
      warm.holds_of_get missed' h)
  | unstored allowed keyed missed missed' produced set =>
    rcases hholds with h | h
    · rcases hot.holds_of_set set h with ⟨rfl, rfl⟩ | hold
      · exact .inr ⟨allowed, keyed, produced⟩
      · exact .inl (.inl (hot.holds_of_get missed hold))
    · exact .inl (.inr (warm.holds_of_get missed' h))
  | served allowed keyed missed missed' produced set set' =>
    rcases hholds with h | h
    · rcases hot.holds_of_set set h with ⟨rfl, rfl⟩ | hold
      · exact .inr ⟨allowed, keyed, produced⟩
      · exact .inl (.inl (hot.holds_of_get missed hold))
    · rcases warm.holds_of_set set' h with ⟨rfl, rfl⟩ | hold
      · exact .inr ⟨allowed, keyed, produced⟩
      · exact .inl (.inr (warm.holds_of_get missed' hold))

/-- What a call returns was produced for it, or was held under its key. -/
lemma Step.served_authorized {served : Served} (h : Step c s (.ok served) t) :
    E.Authorizes c.request served.response ∨ (cacheAllowed c.request = true ∧
      ∃ k, E.key c.request = some k ∧ Holds hot warm s k served.response) := by
  generalize houtcome : Except.ok served = outcome at h
  cases h with
  | failed | unserved | unstored => cases houtcome
  | uncached produced =>
    cases houtcome
    exact .inl produced
  | hotHit allowed keyed found =>
    cases houtcome
    exact .inr ⟨allowed, _, keyed, .inl (hot.holds_of_found found)⟩
  | warmHit allowed keyed missed found promoted =>
    obtain ⟨-, rfl⟩ := stored_eq_ok houtcome.symm
    exact .inr ⟨allowed, _, keyed, .inr (warm.holds_of_found found)⟩
  | served allowed keyed missed missed' produced set set' =>
    obtain ⟨-, rfl⟩ := stored_eq_ok houtcome.symm
    exact .inl produced

/-! ## Runs -/

/-- The earlier requests that share the key of a call authorize only providers that its own request
authorizes. -/
def Covered (past : List (Call E)) (c : Call E) : Prop :=
  cacheAllowed c.request = true → ∀ earlier ∈ past, cacheAllowed earlier.request = true →
    E.key earlier.request = E.key c.request →
    ∀ p ∈ E.authorized earlier.request, p ∈ E.authorized c.request

/-- What the tiers hold under a key was produced for an earlier request with that key. -/
def Attributed (past : List (Call E)) (s : Caches E) : Prop :=
  ∀ k r, Holds hot warm s k r → ∃ earlier ∈ past, cacheAllowed earlier.request = true ∧
    E.key earlier.request = some k ∧ E.Authorizes earlier.request r

variable {hot warm} {past : List (Call E)}

lemma Attributed.execute (h : Attributed hot warm past s) (c : Call E) :
    Attributed hot warm (past ++ [c]) (E.execute c s).2.1 := by
  intro k r hholds
  rcases (execute_step c s).holds hot warm hholds with hold | hnew
  · obtain ⟨earlier, hmem, hearlier⟩ := h k r hold
    exact ⟨earlier, List.mem_append_left _ hmem, hearlier⟩
  · exact ⟨c, List.mem_concat_self, hnew⟩

/-- A response that is served was produced for the request, or for an earlier one that authorizes
no more. -/
theorem Attributed.authorizes (h : Attributed hot warm past s) (hcovered : Covered past c)
    {served : Served} (hserved : (E.execute c s).1 = .ok served) :
    E.Authorizes c.request served.response := by
  have hstep := execute_step c s
  rw [hserved] at hstep
  rcases hstep.served_authorized hot warm with hauthorizes | ⟨hcache, k, hkey, hold⟩
  · exact hauthorizes
  · obtain ⟨earlier, hmem, hcache', hkey', p, hp, hproducer⟩ := h k _ hold
    exact ⟨p, hcovered hcache earlier hmem hcache' (hkey'.trans hkey.symm) p hp, hproducer⟩

lemma attributed_of_run (hempty : ∀ k r, ¬ Holds hot warm s k r)
    (hrun : E.Run ok s log t) : Attributed hot warm (log.map Prod.fst) t := by
  induction hrun with
  | nil => exact fun k r h => absurd h (hempty k r)
  | snoc c hrun allowed ih =>
    rw [List.map_append]
    exact ih.execute c

lemma authorizes_of_run (hempty : ∀ k r, ¬ Holds hot warm s k r) (hrun : E.Run Covered s log t) :
    ∀ c served, (c, .ok served) ∈ log → E.Authorizes c.request served.response := by
  induction hrun with
  | nil => exact nofun
  | snoc c hrun hcovered ih =>
    intro c' served hmem
    rcases List.mem_append.mp hmem with hold | hnew
    · exact ih c' served hold
    · obtain ⟨rfl, hok⟩ := Prod.mk.inj (List.mem_singleton.mp hnew)
      exact (attributed_of_run hempty hrun).authorizes hcovered hok.symm

lemma authorizedProviderSet_of_authorizes (h : E.Authorizes request r) :
    ∃ allowed p, authorizedProviderSet E.lib request = some allowed ∧ p ∈ allowed ∧
      r.producer = some p := by
  obtain ⟨p, hp, hproducer⟩ := h
  unfold authorized at hp
  cases hset : authorizedProviderSet E.lib request with
  | none => simp [hset] at hp
  | some allowed => exact ⟨allowed, p, rfl, by simpa [hset] using hp, hproducer⟩

/-- In every run whose requests are covered, from tiers that hold nothing, every response was
produced by a provider that its own request authorizes, and a request without a set of providers or
with an empty one gets none. -/
theorem served_by_authorized {log : List (Call E × Except Failure Served)} {t : Caches E}
    (hempty : ∀ k r, ¬ Holds hot warm s k r) (hrun : E.Run Covered s log t) :
    (∀ c served, (c, .ok served) ∈ log → ∃ allowed p,
      authorizedProviderSet E.lib c.request = some allowed ∧ p ∈ allowed ∧
        served.response.producer = some p) ∧
    ∀ c outcome, (c, outcome) ∈ log → (authorizedProviderSet E.lib c.request).getD [] = [] →
      ∃ failure, outcome = .error failure := by
  have hserved := authorizes_of_run hempty hrun
  refine ⟨fun c served hmem => authorizedProviderSet_of_authorizes (hserved c served hmem), ?_⟩
  intro c outcome hmem hnone
  cases outcome with
  | error failure => exact ⟨failure, rfl⟩
  | ok served =>
    obtain ⟨p, hp, -⟩ := hserved c served hmem
    rw [authorized, hnone] at hp
    cases hp

end CachingExecutor

/-! ## The envelope is not in the key -/

/-- A request for the completion of a prompt with this authority envelope. -/
def completionRequest (prompt : String) (envelope : Json) : Fields :=
  [("authority_envelope", envelope), ("model", .str "gpt"),
    ("prompt", .str (PyStr.ofString prompt))]

/-- An envelope that allows one provider. -/
def envelopeOf (name : String) : Json :=
  .obj [("allowed_provider_set", .arr [.str (PyStr.ofString name)])]

/-- A library on the requests for two prompts, with their digests. -/
def completionLibrary : Library where
  strip := id
  str _ := "default"
  reprSet _ := []
  sha256Json j :=
    if j = keyedFields (completionRequest "hello" .null) then some (PyStr.ofString
      "5d2f19c083c117e406cb2f36a9a265cd4ecdcacda4b8f004249be7a3f6cfe017")
    else if j = keyedFields (completionRequest "goodbye" .null) then some (PyStr.ofString
      "2d45e594fac0c8be2b24d830cd8afa4e9afb30b20355cf78d2e8db9516869dd8")
    else none

/-- An executor with its tiers in memory. -/
abbrev completionExecutor (maxSize ttl : ℤ) : CachingExecutor :=
  .inMemory completionLibrary "cappo" { maxSize, ttl }

/-- An executor of one provider, whose tiers are empty. -/
def freshCaches (maxSize ttl : ℤ) : Caches (completionExecutor maxSize ttl) where
  hot := ([] : Store)
  warm := ([] : Store)
  providers := [{ name := "openai", breaker := {} }]

/-- A request at this moment, for which a provider answers with this text if it is asked. -/
def completionCall {maxSize ttl : ℤ} (now : ℚ) (request : Fields) (text : String) :
    Call (completionExecutor maxSize ttl) where
  request
  hotGet := now
  warmGet := now
  promote := now
  turns _ := {
    readings := ⟨now, now, now, now⟩
    outcome := .ok [("text", .str (PyStr.ofString text))]
    attemptId := "attempt-1" }
  produced := now
  hotSet := now
  warmSet := now

/-- What the provider's answer is returned as. -/
def completionResponse (text : String) : Response where
  result := [("text", .str (PyStr.ofString text))]
  attempts := [⟨"attempt-1", "openai", .succeeded⟩]

lemma not_holds_freshCaches (key : PyStr) (r : Response) :
    ¬ CachingExecutor.Holds (HotCache.faithful { maxSize, ttl }) (inMemoryWarmCache_faithful ttl)
      (freshCaches maxSize ttl) key r := by
  rintro (⟨exp, hmem⟩ | ⟨exp, hmem⟩) <;> nomatch hmem

/-- A request for one prompt, with this envelope. -/
def helloCall (now : ℚ) (envelope : Json) : Call (completionExecutor 1024 300) :=
  completionCall now (completionRequest "hello" envelope) "hi"

/-- The same request twice: the second time it is served from the hot tier, with a response of a
provider that it authorizes. -/
theorem served_by_authorized_again :
    ∃ log t, (completionExecutor 1024 300).Run CachingExecutor.Covered (freshCaches 1024 300)
        log t ∧
      (∃ c r, (c, .ok ⟨r, true, some .hot⟩) ∈ log) ∧
      ∀ c served, (c, .ok served) ∈ log → ∃ allowed p,
        authorizedProviderSet completionLibrary c.request = some allowed ∧ p ∈ allowed ∧
          served.response.producer = some p := by
  let first := helloCall 0 (envelopeOf "openai")
  let second := helloCall 1 (envelopeOf "openai")
  have hcovered : CachingExecutor.Covered [first] second := by
    intro _ earlier hmem _ _ p hp
    obtain rfl := List.mem_singleton.mp hmem
    exact hp
  have hrun : (completionExecutor 1024 300).Run CachingExecutor.Covered (freshCaches 1024 300)
      _ _ := .snoc second (.snoc first .nil nofun) hcovered
  refine ⟨_, _, hrun, ⟨second, completionResponse "hi", ?_⟩, ?_⟩
  · refine List.mem_append_right _ (List.mem_singleton.mpr (Prod.ext rfl ?_))
    decide +kernel
  · exact (CachingExecutor.served_by_authorized not_holds_freshCaches hrun).1

/-- A request without an envelope is served what a provider produced for another request. -/
theorem not_served_by_authorized :
    ∃ log t, (completionExecutor 1024 300).Run (fun _ _ => True) (freshCaches 1024 300) log t ∧
      ∃ c served, (c, .ok served) ∈ log ∧
        served.response.producer = some (PyStr.ofString "openai") ∧
        authorizedProviderSet completionLibrary c.request = none := by
  let first := helloCall 0 (envelopeOf "openai")
  let second := helloCall 1 .null
  refine ⟨_, _, .snoc second (.snoc first .nil trivial) trivial, second,
    ⟨completionResponse "hi", true, some .hot⟩, ?_, ?_, ?_⟩
  · refine List.mem_append_right _ (List.mem_singleton.mpr (Prod.ext rfl ?_))
    decide +kernel
  · decide +kernel
  · decide +kernel

end Providers
