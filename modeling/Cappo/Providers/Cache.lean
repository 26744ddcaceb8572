import Cappo.Lib.ExpiringStore
import Cappo.Providers.Executor

/-!
# The completion cache

`services/cache.py`: a hot tier in the process and a warm tier that may be shared stand in front of
the providers. A completion is looked up under a key that is made of some fields of the request;
what the providers answer is stored in both tiers, and what the warm tier returns is stored in the
hot one.

A tier is anything with the two operations. What they meet (the clock, the network, evictions by
others) is their answer, so that a tier can return or lose what it likes. `HotCache` and
`InMemoryWarmCache` are two such tiers.
-/

namespace Providers

open VdbC1 (PyStr Json)

/-- `request.get(key)`. -/
def getField (key : String) (request : Fields) : Json :=
  (FieldMap.lookup (PyStr.ofString key) request).getD .null

/-- `request.get("workspace_id", "default")`. -/
def workspaceId (request : Fields) : Json :=
  (FieldMap.lookup (PyStr.ofString "workspace_id") request).getD (.str (PyStr.ofString "default"))

/-- The fields that `cache_key` hashes. -/
def keyedFields (request : Fields) : Json :=
  .obj [("model", getField "model" request), (PyStr.ofString "prompt",
      (FieldMap.lookup (PyStr.ofString "prompt") request).getD (.str [])),
    ("temperature", getField "temperature" request),
    ("max_tokens", getField "max_tokens" request),
    ("workspace_id", workspaceId request),
    ("tenant_id", getField "tenant_id" request),
    ("scope", getField "scope" request),
    ("constitution_hash", getField "constitution_hash" request),
    ("genome_hash", getField "genome_hash" request),
    ("plan_hash", getField "plan_hash" request),
    ("action", getField "action" request),
    ("execution_mode", getField "execution_mode" request)]

/-- `cache_key`, which raises if a text has no encoding. -/
def cacheKey (L : Library) (nameSpace : PyStr) (request : Fields) : Option PyStr :=
  (L.sha256Json (keyedFields request)).map fun digest =>
    nameSpace ++ ":" ++ L.str (workspaceId request) ++ ":completion:" ++ digest

/-- `request.get("cache_allowed", True)`. -/
def cacheAllowed (request : Fields) : Bool :=
  ((FieldMap.lookup (PyStr.ofString "cache_allowed") request).getD (.bool true)).truthy

/-! ## Tiers -/

/-- A cache tier: its state, what a call of it meets, `get`, and `set` with the time to live that
the executor uses for the tier; `set` may raise. -/
structure Tier where
  State : Type
  Answer : Type
  get : PyStr → Answer → State → Option Response × State
  set : PyStr → Response → Answer → State → Option PyStr × State

/-- The entries of a store, least recent first. -/
abbrev Store := List (PyStr × ℚ × Response)

/-- The settings of `HotCache`. -/
structure HotCache where
  maxSize : ℤ := 1024
  ttl : ℤ := 300

/-- `HotCache`. Popping from an empty store raises, which a negative size comes to. -/
def HotCache.tier (H : HotCache) : Tier where
  State := Store
  Answer := ℚ
  get key now store := ExpiringStore.getRecent now key store
  set key value now store :=
    if H.maxSize < 0 then (some "'dictionary is empty'", [])
    else
      let store := ExpiringStore.put key (now + H.ttl) value store
      (none, ExpiringStore.trim H.maxSize.toNat store)

/-- `InMemoryWarmCache`, for this time to live. -/
def inMemoryWarmCache (ttl : ℤ) : Tier where
  State := Store
  Answer := ℚ
  get key now store := ExpiringStore.get now key store
  set key value now store := (none, ExpiringStore.put key (now + ttl) value store)

/-! ## The caching executor -/

/-- The tier that a cached response comes from. -/
inductive CacheTier where
  | hot
  | warm
  deriving DecidableEq

/-- `{**response, "cached": cached, "cache_tier": cache_tier}`. -/
structure Served where
  response : Response
  cached : Bool
  cacheTier : Option CacheTier
  deriving DecidableEq

/-- What a call raises: what the providers' executor raises, a key without an encoding, or what a
tier raises. -/
inductive Failure where
  | execution (e : ExecutionError)
  | unicode
  | cache (text : PyStr)
  deriving DecidableEq

/-- `CachingExecutor`, around the resilient executor of some providers. -/
structure CachingExecutor where
  lib : Library
  nameSpace : PyStr := "cappo"
  hot : Tier
  warm : Tier

/-- The executor with both tiers in memory and one time to live. -/
def CachingExecutor.inMemory (lib : Library) (nameSpace : PyStr) (H : HotCache) :
    CachingExecutor where
  lib
  nameSpace
  hot := H.tier
  warm := inMemoryWarmCache H.ttl

/-- What the executor works on. -/
structure Caches (E : CachingExecutor) where
  hot : E.hot.State
  warm : E.warm.State
  providers : List Provider

/-- A request, with what it meets in the tiers and at the providers, and the moment at which a
provider answers. -/
structure Call (E : CachingExecutor) where
  request : Fields
  hotGet : E.hot.Answer
  warmGet : E.warm.Answer
  promote : E.hot.Answer
  turns : ℕ → Turn
  produced : ℚ
  hotSet : E.hot.Answer
  warmSet : E.warm.Answer

namespace CachingExecutor

variable (E : CachingExecutor)

/-- The key of a request. -/
def key (request : Fields) : Option PyStr := cacheKey E.lib E.nameSpace request

/-- What a call does: its result, what it leaves, and the providers that it invokes. -/
abbrev Done (α : Type) := Except Failure α × Caches E × List (Provider × ℕ)

/-- The providers are asked. -/
def askProviders (c : Call E) (s : Caches E) : E.Done Response :=
  let tried := executeResilient E.lib c.request c.turns s.providers
  (tried.result.mapError .execution, { s with providers := tried.providers }, tried.invoked)

/-- Both tiers missed: the providers are asked and the response is stored. -/
def miss (key : PyStr) (c : Call E) (s : Caches E) : E.Done Served :=
  match E.askProviders c s with
  | (.error e, s, invoked) => (.error e, s, invoked)
  | (.ok r, s, invoked) =>
    match E.hot.set key r c.hotSet s.hot with
    | (some e, hot) => (.error (.cache e), { s with hot }, invoked)
    | (none, hot) =>
      match E.warm.set key r c.warmSet s.warm with
      | (some e, warm) => (.error (.cache e), { s with hot, warm }, invoked)
      | (none, warm) => (.ok ⟨r, false, none⟩, { s with hot, warm }, invoked)

/-- The hot tier missed: a response of the warm tier is promoted. -/
def warmLookup (key : PyStr) (c : Call E) (s : Caches E) : E.Done Served :=
  match E.warm.get key c.warmGet s.warm with
  | (some hit, warm) =>
    match E.hot.set key hit c.promote s.hot with
    | (some e, hot) => (.error (.cache e), { s with hot, warm }, [])
    | (none, hot) => (.ok ⟨hit, true, some .warm⟩, { s with hot, warm }, [])
  | (none, warm) => E.miss key c { s with warm }

/-- `execute`. -/
def execute (c : Call E) (s : Caches E) : E.Done Served :=
  if cacheAllowed c.request then
    match E.key c.request with
    | none => (.error .unicode, s, [])
    | some key =>
      match E.hot.get key c.hotGet s.hot with
      | (some hit, hot) => (.ok ⟨hit, true, some .hot⟩, { s with hot }, [])
      | (none, hot) => E.warmLookup key c { s with hot }
  else
    match E.askProviders c s with
    | (.error e, s, invoked) => (.error e, s, invoked)
    | (.ok r, s, invoked) => (.ok ⟨r, false, none⟩, s, invoked)

/-- The calls so far with what they returned, and the state after them, each call meeting a
condition on the calls before it. -/
inductive Run (ok : List (Call E) → Call E → Prop) (s : Caches E) :
    List (Call E × Except Failure Served) → Caches E → Prop
  | nil : Run ok s [] s
  | snoc {past t} (c : Call E) (h : Run ok s past t) (allowed : ok (past.map Prod.fst) c) :
      Run ok s (past ++ [(c, (E.execute c t).1)]) (E.execute c t).2.1

end CachingExecutor

end Providers
