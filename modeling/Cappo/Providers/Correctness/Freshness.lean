import Cappo.Providers.Correctness.Authority

/-!
# How old a cached response may be

Both tiers are in memory, with one time to live and one clock. An entry expires a time to live after
it was stored, but a response that the warm tier still has is stored in the hot one anew: there it
may live for another time to live. That can happen to a response only once, since it is the warm
entry that is promoted and nothing renews that one, so that a response is returned for less than two
times to live after it was produced.
-/

namespace Providers

open VdbC1 (PyStr Json)
open List

open ExpiringStore

/-- The readings of the clock in a call. -/
structure Clock where
  hotGet : ℚ
  warmGet : ℚ
  promote : ℚ
  produced : ℚ
  hotSet : ℚ
  warmSet : ℚ

/-- The readings follow each other, and storing a response takes no longer than `δ` after it was
found or produced. -/
structure Clock.Ordered (δ : ℚ) (t : Clock) : Prop where
  warmGet : t.hotGet ≤ t.warmGet
  promote : t.warmGet ≤ t.promote
  produced : t.warmGet ≤ t.produced
  hotSet : t.produced ≤ t.hotSet
  warmSet : t.hotSet ≤ t.warmSet
  promotePromptly : t.promote ≤ t.warmGet + δ
  storePromptly : t.warmSet ≤ t.produced + δ

section InMemory

variable {L : Library} {nameSpace : PyStr} {H : HotCache}

/-- The readings of a call of the executor in memory. -/
def Call.clock (c : Call (.inMemory L nameSpace H)) : Clock where
  hotGet := c.hotGet
  warmGet := c.warmGet
  promote := c.promote
  produced := c.produced
  hotSet := c.hotSet
  warmSet := c.warmSet

/-- The moment at which a call returns what it serves. -/
def Call.returned (c : Call (.inMemory L nameSpace H)) (served : Served) : ℚ :=
  match served.cacheTier with
  | some .hot => c.clock.hotGet
  | some .warm => c.clock.promote
  | none => c.clock.warmSet

/-- The entries of the hot tier. -/
def Caches.hotStore (s : Caches (.inMemory L nameSpace H)) : Store := s.hot

/-- The entries of the warm tier. -/
def Caches.warmStore (s : Caches (.inMemory L nameSpace H)) : Store := s.warm

/-- The clock does not go back: not within a call, and not from one call to the next. -/
structure Timely (δ : ℚ) (past : List (Call (.inMemory L nameSpace H)))
    (c : Call (.inMemory L nameSpace H)) : Prop where
  ordered : c.clock.Ordered δ
  later : ∀ earlier ∈ past,
    earlier.clock.promote ≤ c.clock.hotGet ∧ earlier.clock.warmSet ≤ c.clock.hotGet

/-- A log of calls with what they returned. -/
abbrev Log (L : Library) (nameSpace : PyStr) (H : HotCache) : Type :=
  List (Call (.inMemory L nameSpace H) × Except Failure Served)

/-- The call in which a provider produced a response. -/
def ProducedIn (log : Log L nameSpace H) (r : Response)
    (e : Call (.inMemory L nameSpace H)) : Prop :=
  (e, .ok ⟨r, false, none⟩) ∈ log

/-- An entry of the hot tier was stored when its response was produced, or when it was promoted,
which was less than a time to live after that. -/
inductive HotEntry (δ : ℚ) (log : Log L nameSpace H) (exp : ℚ) (r : Response) : Prop
  | produced {e} (produced : ProducedIn log r e) (expires : exp = e.clock.hotSet + H.ttl)
  | promoted {e c} (produced : ProducedIn log r e) (member : c ∈ log.map Prod.fst)
      (expires : exp = c.clock.promote + H.ttl)
      (young : c.clock.promote < e.clock.produced + H.ttl + 2 * δ)

/-- The calls were ordered, and the entries of both tiers are responses of providers. -/
structure Aged (δ : ℚ) (log : Log L nameSpace H) (s : Caches (.inMemory L nameSpace H)) :
    Prop where
  ordered : ∀ c ∈ log.map Prod.fst, c.clock.Ordered δ
  hot : ∀ k exp r, (k, exp, r) ∈ s.hotStore → HotEntry δ log exp r
  warm : ∀ k exp r, (k, exp, r) ∈ s.warmStore →
    ∃ e, ProducedIn log r e ∧ exp = e.clock.warmSet + H.ttl

variable {δ : ℚ} {log log' : Log L nameSpace H} {s t : Caches (.inMemory L nameSpace H)}
  {c e : Call (.inMemory L nameSpace H)} {k : PyStr} {exp : ℚ} {r : Response}
  {outcome : Except Failure Served}

lemma ProducedIn.mem (h : ProducedIn log r e) : e ∈ log.map Prod.fst :=
  mem_map_of_mem h

lemma ProducedIn.append (h : ProducedIn log r e) : ProducedIn (log ++ log') r e :=
  mem_append_left _ h

lemma HotEntry.append (h : HotEntry δ log exp r) : HotEntry δ (log ++ log') exp r := by
  cases h with
  | produced hproduced hexp => exact .produced hproduced.append hexp
  | promoted hproduced hmem hexp hyoung =>
    refine .promoted hproduced.append ?_ hexp hyoung
    rw [map_append]
    exact mem_append_left _ hmem

/-! ## What the tiers return -/

section

variable (h : Aged δ log s) (hc : Timely δ (log.map Prod.fst) c)

include h hc

/-- What the hot tier returns was produced less than two times to live before. -/
lemma Aged.of_hotHit (hmem : (k, exp, r) ∈ s.hotStore) (hexp : c.clock.hotGet < exp) :
    ∃ e, ProducedIn log r e ∧ c.clock.hotGet - e.clock.produced < 2 * (H.ttl + δ) := by
  cases h.hot k exp r hmem with
  | @produced e hproduced hexpires =>
    have hordered := h.ordered e hproduced.mem
    have hlater := (hc.later e hproduced.mem).2
    refine ⟨e, hproduced, ?_⟩
    -- the entry was stored before it was looked up, so that the time to live is positive
    linarith [hordered.hotSet, hordered.warmSet, hordered.storePromptly]
  | @promoted e c' hproduced hmember hexpires hyoung =>
    exact ⟨e, hproduced, by linarith⟩

/-- What the warm tier returns was produced less than one time to live before. -/
lemma Aged.of_warmHit (hmem : (k, exp, r) ∈ s.warmStore) (hexp : c.clock.warmGet < exp) :
    ∃ e, ProducedIn log r e ∧ c.clock.promote < e.clock.produced + H.ttl + 2 * δ ∧
      (0 : ℚ) < H.ttl := by
  obtain ⟨e, hproduced, hexpires⟩ := h.warm k exp r hmem
  have hordered := h.ordered e hproduced.mem
  have hlater := (hc.later e hproduced.mem).2
  refine ⟨e, hproduced, ?_, ?_⟩
  · linarith [hordered.storePromptly, hc.ordered.promotePromptly]
  · linarith [hc.ordered.warmGet]

/-- A response that is served from the cache is young enough. -/
theorem Aged.served {served : Served}
    (hstep : CachingExecutor.Step c s (.ok served) t) (hcached : served.cached = true) :
    ∃ e, ProducedIn log served.response e ∧
      c.returned served - e.clock.produced < 2 * (H.ttl + δ) := by
  generalize houtcome : Except.ok served = outcome at hstep
  cases hstep with
  | failed | unserved | unstored => cases houtcome
  | uncached produced =>
    cases houtcome
    cases hcached
  | hotHit allowed keyed found =>
    cases houtcome
    obtain ⟨exp, hmem, hexp⟩ := mem_of_getRecent found
    exact h.of_hotHit hc hmem hexp
  | warmHit allowed keyed missed found promoted =>
    obtain ⟨-, rfl⟩ := CachingExecutor.stored_eq_ok houtcome.symm
    obtain ⟨exp, hmem, hexp⟩ := mem_of_get found
    obtain ⟨e, hproduced, hyoung, httl⟩ := h.of_warmHit hc hmem hexp
    refine ⟨e, hproduced, ?_⟩
    show c.clock.promote - e.clock.produced < 2 * (H.ttl + δ)
    linarith
  | served allowed keyed missed missed' produced set set' =>
    obtain ⟨-, rfl⟩ := CachingExecutor.stored_eq_ok houtcome.symm
    cases hcached

end

/-! ## Runs -/

lemma Aged.ordered_append (h : Aged δ log s) (hc : Timely δ (log.map Prod.fst) c) :
    ∀ c' ∈ (log ++ [(c, outcome)]).map Prod.fst, c'.clock.Ordered δ := by
  rw [map_append]
  exact forall_mem_append.mpr ⟨h.ordered, forall_mem_singleton.mpr hc.ordered⟩

/-- A call that adds no entry keeps what is known of the entries. -/
lemma Aged.of_subset (h : Aged δ log s) (hc : Timely δ (log.map Prod.fst) c)
    (hhot : ∀ k exp r, (k, exp, r) ∈ t.hotStore → (k, exp, r) ∈ s.hotStore)
    (hwarm : ∀ k exp r, (k, exp, r) ∈ t.warmStore → (k, exp, r) ∈ s.warmStore) :
    Aged δ (log ++ [(c, outcome)]) t where
  ordered := h.ordered_append hc
  hot k exp r hmem := (h.hot k exp r (hhot k exp r hmem)).append
  warm k exp r hmem := by
    obtain ⟨e, hproduced, hexpires⟩ := h.warm k exp r (hwarm k exp r hmem)
    exact ⟨e, hproduced.append, hexpires⟩

lemma producedIn_append_self : ProducedIn (log ++ [(c, .ok ⟨r, false, none⟩)]) r c :=
  mem_concat_self

/-- A call that is in time keeps the entries of both tiers aged as they should be. -/
lemma Aged.step (h : Aged δ log s) (hc : Timely δ (log.map Prod.fst) c)
    (hstep : CachingExecutor.Step c s outcome t) : Aged δ (log ++ [(c, outcome)]) t := by
  cases hstep with
  | failed | uncached => exact h.of_subset hc (fun _ _ _ h => h) fun _ _ _ h => h
  | hotHit allowed keyed found =>
    exact h.of_subset hc (fun _ _ _ h => mem_getRecent found h) fun _ _ _ h => h
  | @warmHit key r hot warm raised hot' allowed keyed missed found promoted =>
    refine ⟨h.ordered_append hc, fun k exp r' hmem => ?_, fun k exp r' hmem => ?_⟩
    · rcases HotCache.mem_set promoted hmem with ⟨-, -, hexpires, rfl⟩ | hold
      · obtain ⟨exp', hmem', hexp'⟩ := mem_of_get found
        obtain ⟨e, hproduced, hyoung, -⟩ := h.of_warmHit hc hmem' hexp'
        refine .promoted (c := c) hproduced.append ?_ hexpires hyoung
        simp
      · exact (h.hot k exp r' (mem_getRecent missed hold)).append
    · obtain ⟨e, hproduced, hexpires⟩ := h.warm k exp r' (mem_get found hmem)
      exact ⟨e, hproduced.append, hexpires⟩
  | unserved missed missed' =>
    exact h.of_subset hc (fun _ _ _ h => mem_getRecent missed h) fun _ _ _ h => mem_get missed' h
  | unstored allowed keyed missed missed' produced set =>
    refine h.of_subset hc (fun k exp r' hmem => ?_) fun _ _ _ h => mem_get missed' h
    rcases HotCache.mem_set set hmem with ⟨hraised, -⟩ | hold
    · cases hraised
    · exact mem_getRecent missed hold
  | @served key r hot warm hot' raised warm' providers allowed keyed missed missed' produced set
      set' =>
    cases set'
    refine ⟨h.ordered_append hc, fun k exp r' hmem => ?_, fun k exp r' hmem => ?_⟩
    · rcases HotCache.mem_set set hmem with ⟨-, -, hexpires, rfl⟩ | hold
      · exact .produced producedIn_append_self hexpires
      · exact (h.hot k exp r' (mem_getRecent missed hold)).append
    · rcases mem_put hmem with ⟨-, hexpires, rfl⟩ | hold
      · exact ⟨c, producedIn_append_self, hexpires⟩
      · obtain ⟨e, hproduced, hexpires⟩ := h.warm k exp r' (mem_get missed' hold)
        exact ⟨e, hproduced.append, hexpires⟩

/-- What was produced in a call is returned as soon as it is stored. -/
theorem Timely.served (hc : Timely δ (log.map Prod.fst) c) {served : Served}
    (hstep : CachingExecutor.Step c s (.ok served) t) (hcached : served.cached = false) :
    c.returned served - c.clock.produced ≤ δ := by
  have htier : served.cacheTier = none := by
    generalize houtcome : Except.ok served = outcome at hstep
    cases hstep with
    | uncached produced =>
      cases houtcome
      rfl
    | hotHit allowed keyed found =>
      cases houtcome
      cases hcached
    | warmHit allowed keyed missed found promoted =>
      obtain ⟨-, rfl⟩ := CachingExecutor.stored_eq_ok houtcome.symm
      cases hcached
    | served allowed keyed missed missed' produced set set' =>
      obtain ⟨-, rfl⟩ := CachingExecutor.stored_eq_ok houtcome.symm
      rfl
    | failed | unserved | unstored => cases houtcome
  simp only [Call.returned, htier]
  linarith [hc.ordered.storePromptly]

/-- The response of a call is young: one from the cache was produced in an earlier call, less than
two times to live before. -/
structure Young (δ : ℚ) (before : Log L nameSpace H) (c : Call (.inMemory L nameSpace H))
    (served : Served) : Prop where
  cached : served.cached = true → ∃ e, ProducedIn before served.response e ∧
    c.returned served - e.clock.produced < 2 * (H.ttl + δ)
  uncached : served.cached = false → c.returned served - c.clock.produced ≤ δ

lemma Aged.young (h : Aged δ log s) (hc : Timely δ (log.map Prod.fst) c) {served : Served}
    (hserved : (CachingExecutor.execute _ c s).1 = .ok served) : Young δ log c served := by
  have hstep := CachingExecutor.execute_step c s
  rw [hserved] at hstep
  exact ⟨h.served hc hstep, hc.served hstep⟩

lemma aged_of_run (hhot : s.hotStore = []) (hwarm : s.warmStore = [])
    (hrun : CachingExecutor.Run _ (Timely δ) s log t) : Aged δ log t := by
  induction hrun with
  | nil =>
    refine ⟨nofun, fun k exp r hmem => ?_, fun k exp r hmem => ?_⟩
    · rw [hhot] at hmem
      nomatch hmem
    · rw [hwarm] at hmem
      nomatch hmem
  | snoc c hrun hc ih => exact ih.step hc (CachingExecutor.execute_step c _)

/-- In every run in which the clock does not go back, no call returns a response from the cache that
was produced two times to live or more before, up to the time that storing took. -/
theorem young_of_run (hhot : s.hotStore = []) (hwarm : s.warmStore = [])
    (hrun : CachingExecutor.Run _ (Timely δ) s log t) {before after : Log L nameSpace H}
    {served : Served} (hlog : log = before ++ (c, .ok served) :: after) :
    Young δ before c served := by
  induction hrun generalizing after with
  | nil => simp at hlog
  | @snoc past t c' hrun hc ih =>
    rcases eq_nil_or_concat after with rfl | ⟨after', last, rfl⟩
    · -- the call is the last one
      obtain ⟨rfl, heq⟩ := append_inj' hlog rfl
      obtain ⟨rfl, hserved⟩ := Prod.mk.inj (singleton_inj.mp heq)
      exact (aged_of_run hhot hwarm hrun).young hc hserved
    · rw [concat_eq_append, ← cons_append, ← append_assoc] at hlog
      exact ih (append_inj' hlog rfl).1

end InMemory

/-! ## A response that is promoted lives longer -/

lemma CachingExecutor.Run.snoc_of_eq {s t : Caches E} {c : Call E}
    (h : E.Run ok s past t) (allowed : ok (past.map Prod.fst) c) (outcome : Except Failure Served)
    (houtcome : (E.execute c t).1 = outcome) :
    E.Run ok s (past ++ [(c, outcome)]) (E.execute c t).2.1 :=
  houtcome ▸ .snoc c h allowed

/-- A request for a prompt at one instant, to an executor with one place in its hot tier. -/
def smallCall (now : ℚ) (prompt : String) : Call (completionExecutor 1 10) :=
  completionCall now (completionRequest prompt (envelopeOf "openai")) prompt

/-- A call at an instant that is not before those of the earlier ones. -/
lemma timely_smallCall (earlier : List (ℚ × String)) (now : ℚ) (prompt : String)
    (h : ∀ p ∈ earlier, p.1 ≤ now) :
    Timely 0 (earlier.map fun p => smallCall p.1 p.2) (smallCall now prompt) where
  ordered := by constructor <;> simp [smallCall, completionCall, Call.clock]
  later := by
    intro c hmem
    obtain ⟨p, hp, rfl⟩ := mem_map.mp hmem
    exact ⟨h p hp, h p hp⟩

/-- The calls before the last one of the run: a response is produced, another takes its place in
the hot tier, and it is promoted back. -/
def smallLog : Log completionLibrary "cappo" { maxSize := 1, ttl := 10 } :=
  [(smallCall 0 "hello", .ok ⟨completionResponse "hello", false, none⟩),
    (smallCall 1 "goodbye", .ok ⟨completionResponse "goodbye", false, none⟩),
    (smallCall 9 "hello", .ok ⟨completionResponse "hello", true, some .warm⟩)]

/-- The last call, which is served from the hot tier. -/
def smallHit : Call (completionExecutor 1 10) × Served :=
  (smallCall 18 "hello", ⟨completionResponse "hello", true, some .hot⟩)

lemma run_smallLog : ∃ t, (completionExecutor 1 10).Run (Timely 0) (freshCaches 1 10)
    (smallLog ++ [(smallHit.1, .ok smallHit.2)]) t := by
  have h0 := timely_smallCall [] 0 "hello" nofun
  have h1 := timely_smallCall [(0, "hello")] 1 "goodbye" (by decide +kernel)
  have h2 := timely_smallCall [(0, "hello"), (1, "goodbye")] 9 "hello" (by decide +kernel)
  have h3 := timely_smallCall [(0, "hello"), (1, "goodbye"), (9, "hello")] 18 "hello"
    (by decide +kernel)
  have hrun0 := CachingExecutor.Run.snoc_of_eq (.nil (s := freshCaches 1 10)) h0
    (.ok ⟨completionResponse "hello", false, none⟩) (by decide +kernel)
  have hrun1 := hrun0.snoc_of_eq h1 (.ok ⟨completionResponse "goodbye", false, none⟩)
    (by decide +kernel)
  have hrun2 := hrun1.snoc_of_eq h2 (.ok ⟨completionResponse "hello", true, some .warm⟩)
    (by decide +kernel)
  exact ⟨_, hrun2.snoc_of_eq h3 (.ok smallHit.2) (by decide +kernel)⟩

/-- The last response of the run is younger than twice its time to live. -/
theorem young_of_run_smallLog : (∃ t, (completionExecutor 1 10).Run (Timely 0) (freshCaches 1 10)
      (smallLog ++ [(smallHit.1, .ok smallHit.2)]) t) ∧
    Young 0 smallLog smallHit.1 smallHit.2 := by
  refine ⟨run_smallLog, ?_⟩
  obtain ⟨t, hrun⟩ := run_smallLog
  exact young_of_run rfl rfl hrun rfl

/-- It is older than its time to live of 10: wherever it was produced in the run, that was 18
before. -/
theorem not_young_of_run : ∃ t, (completionExecutor 1 10).Run (Timely 0) (freshCaches 1 10)
      (smallLog ++ [(smallHit.1, .ok smallHit.2)]) t ∧
    (∃ e, ProducedIn smallLog smallHit.2.response e) ∧
    ∀ e, ProducedIn smallLog smallHit.2.response e →
      smallHit.1.returned smallHit.2 - e.clock.produced = 18 := by
  obtain ⟨t, hrun⟩ := run_smallLog
  refine ⟨t, hrun, ⟨smallCall 0 "hello", mem_cons_self⟩, fun e hproduced => ?_⟩
  rcases mem_cons.mp hproduced with heq | hproduced
  · obtain rfl := (Prod.mk.inj heq).1
    decide +kernel
  · -- the other calls returned another response, or this one from the cache
    have hother : Except.ok ⟨completionResponse "hello", false, none⟩ ∉
        smallLog.tail.map Prod.snd := by decide +kernel
    exact absurd (mem_map_of_mem (f := Prod.snd) hproduced) hother

end Providers
