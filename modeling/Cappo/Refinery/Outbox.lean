import Cappo.Lib.KeyedRows
import Cappo.VdbC1.Json
import Mathlib.Data.List.Induction

/-!
# The refinery outbox

`core/outbox_dispatcher.py`: a cycle fetches the pending rows that are due, posts each to the
queue and marks it sent, or counts the failed attempt and puts it off. It is one transaction, so
`now()` is one time for all its statements; a time is in microseconds. What a post is answered,
the rows other sessions have locked and whether the caller commits are the environment's.

The branch for a row that used up its attempts is in the loop, but the query leaves such rows out:
the row stays pending and no cycle takes it up again.

## Main results

* `mem_run_of_exhausted`: a row with no attempts left stays as it is;
* `accounted_iff`: in a run every row is accounted for as long as no last attempt fails.
-/

namespace Refinery

open VdbC1 (PyStr Json)
open List

/-- `MAX_ATTEMPTS`. -/
def maxAttempts : ℕ := 10

/-- The status of an event that is to be delivered. -/
inductive Status where
  | pending
  | sent
  | dlq
  deriving DecidableEq

/-- What both tables have of an event. -/
structure Event where
  eventId : PyStr
  evidenceHash : PyStr
  operation : PyStr
  schemaVersion : PyStr
  payload : Json
  attemptCount : ℕ := 0

/-- A row of `refinery_outbox`, with the defaults of its columns. -/
structure Row extends Event where
  id : ℕ
  status : Status := .pending
  createdAt : ℤ
  availableAt : ℤ := createdAt
  sentAt : Option ℤ := none
  lastError : Option PyStr := none

/-- A row of `refinery_outbox_dlq`. -/
structure DeadLetter extends Event where
  failedAt : ℤ
  lastError : PyStr

/-- The two tables; `id` is the primary key of the first. -/
structure Outbox where
  rows : List Row
  deadLetters : List DeadLetter
  ids_nodup : (rows.map Row.id).Nodup

/-- What becomes of a post. An exception that is no `httpx.HTTPError` leaves the cycle. -/
inductive Answer where
  | acknowledged
  | httpError (text : PyStr)
  | raised
  deriving DecidableEq

/-- The environment of one `dispatch_pending`. -/
structure Cycle where
  now : ℤ
  batchSize : ℕ
  locked : ℕ → Bool
  answer : ℕ → Answer
  commits : Bool

namespace Outbox

variable (o : Outbox) (now : ℤ)

/-- `UPDATE refinery_outbox SET … WHERE id = :id`. -/
def update (id : ℕ) (set : Row → Row) (hset : ∀ r, (set r).id = r.id) : Outbox where
  rows := KeyedRows.modify Row.id id set o.rows
  deadLetters := o.deadLetters
  ids_nodup := by
    rw [KeyedRows.modify_keys fun r hr => (hset r).trans hr]
    exact o.ids_nodup

/-- `_fetch_pending`; rows of one `created_at` come in the order of the table. -/
def fetchPending (limit : ℕ) (locked : ℕ → Bool) : List Row :=
  ((o.rows.filter fun r => r.status = .pending ∧ r.attemptCount < maxAttempts ∧
    r.availableAt ≤ now ∧ locked r.id = false).insertionSort
      fun a b => a.createdAt ≤ b.createdAt).take limit

/-- `_mark_sent`. -/
def markSent (id : ℕ) : Outbox :=
  o.update id (fun r => { r with status := .sent, sentAt := some now }) fun _ => rfl

/-- `_increment_attempt`, with its backoff of 30 seconds. -/
def incrementAttempt (id : ℕ) (error : PyStr) : Outbox :=
  o.update id (fun r => { r with
    attemptCount := r.attemptCount + 1
    lastError := some (error.take 1024)
    availableAt := now + 30000000 }) fun _ => rfl

/-- `_move_to_dlq`. The fetched row has no `last_error`, so the text is empty. -/
def moveToDlq (row : Row) : Outbox :=
  { o.update row.id (fun r => { r with status := .dlq }) fun _ => rfl with
    deadLetters := if o.deadLetters.any fun d => d.eventId = row.eventId then o.deadLetters
      else o.deadLetters ++ [⟨row.toEvent, now, []⟩] }

/-- The loop of `dispatch_pending` over the fetched rows, with the number of rows dispatched;
there is none when an exception leaves it. -/
def dispatchRows (c : Cycle) : Outbox → ℕ → List Row → Outbox × Option ℕ
  | o, dispatched, [] => (o, some dispatched)
  | o, dispatched, row :: rows =>
    if maxAttempts ≤ row.attemptCount then
      dispatchRows c (o.moveToDlq c.now row) dispatched rows
    else match c.answer row.id with
      | .acknowledged => dispatchRows c (o.markSent c.now row.id) (dispatched + 1) rows
      | .httpError text => dispatchRows c (o.incrementAttempt c.now row.id text) dispatched rows
      | .raised => (o, none)

/-- `dispatch_pending`. -/
def dispatchPending (c : Cycle) : Outbox × Option ℕ :=
  o.dispatchRows c 0 (o.fetchPending c.now c.batchSize c.locked)

/-- A producer's row, with the defaults of the table; its keys are unique. -/
def insert (row : Row) : Outbox :=
  if h : row.id ∈ o.rows.map Row.id ∨ row.eventId ∈ o.rows.map (·.eventId) then o
  else
    { o with
      rows := o.rows ++ [{ row with status := .pending, attemptCount := 0 }]
      ids_nodup := by
        rw [map_append]
        exact nodup_append.mpr ⟨o.ids_nodup, by simp, fun a ha b hb heq =>
          h (.inl (mem_singleton.mp hb ▸ heq ▸ ha))⟩ }

end Outbox

/-- What changes the tables: an event is inserted, or the dispatcher goes over the pending ones. -/
inductive Step where
  | insert (row : Row)
  | cycle (c : Cycle)

/-- What is in the tables after a step; a cycle that is not committed is rolled back. -/
def step (o : Outbox) : Step → Outbox
  | .insert row => o.insert row
  | .cycle c => if c.commits then (o.dispatchPending c).1 else o

def run (o : Outbox) (steps : List Step) : Outbox := steps.foldl step o

def Outbox.empty : Outbox := ⟨[], [], .nil⟩

/-! ## What a cycle fetches -/

section Cycle

variable {o : Outbox} {r : Row} {now : ℤ} {limit : ℕ} {locked : ℕ → Bool} {c : Cycle} {n : ℕ}
  {batch : List Row}

lemma mem_fetchPending (h : r ∈ o.fetchPending now limit locked) :
    r ∈ o.rows ∧ r.status = .pending ∧ r.attemptCount < maxAttempts := by
  obtain ⟨hr, hcond⟩ := mem_filter.mp ((mem_insertionSort _).mp (mem_of_mem_take h))
  exact ⟨hr, (of_decide_eq_true hcond).1, (of_decide_eq_true hcond).2.1⟩

lemma fetchPending_nodup : ((o.fetchPending now limit locked).map Row.id).Nodup := by
  refine List.Nodup.sublist ((take_sublist ..).map _) ?_
  refine ((perm_insertionSort ..).map Row.id).nodup_iff.mpr ?_
  exact o.ids_nodup.sublist (filter_sublist.map _)

/-- The row can be fetched at arbitrarily late times. -/
def Outbox.Selectable (o : Outbox) (r : Row) : Prop :=
  ∀ t, ∃ now ≥ t, ∃ limit, r ∈ o.fetchPending now limit fun _ => false

/-- Every row is sent, a dead letter or still to be fetched. -/
def Outbox.Accounted (o : Outbox) : Prop :=
  ∀ r ∈ o.rows, r.status = .sent ∨ r.status = .dlq ∨ o.Selectable r

/-- A row that is pending and has no attempts left. -/
def Row.Exhausted (r : Row) : Prop := r.status = .pending ∧ maxAttempts ≤ r.attemptCount

/-- Only a row that has run out of attempts is not accounted for. -/
lemma accounted_iff_not_exhausted : o.Accounted ↔ ∀ r ∈ o.rows, ¬ r.Exhausted := by
  constructor
  · rintro h r hr ⟨hpending, hattempts⟩
    rcases h r hr with hs | hs | hs
    · nomatch hpending.symm.trans hs
    · nomatch hpending.symm.trans hs
    · obtain ⟨now, -, limit, hmem⟩ := hs 0
      exact absurd (mem_fetchPending hmem).2.2 (not_lt.mpr hattempts)
  · intro h r hr
    cases hs : r.status with
    | sent => exact .inl rfl
    | dlq => exact .inr (.inl rfl)
    | pending =>
      -- late enough, with a limit that takes all rows
      refine .inr (.inr fun t => ⟨max t r.availableAt, le_max_left .., o.rows.length, ?_⟩)
      rw [Outbox.fetchPending, take_of_length_le
        ((length_insertionSort ..).trans_le (length_filter_le ..)),
        mem_insertionSort, mem_filter]
      exact ⟨hr, decide_eq_true ⟨hs, not_le.mp fun hle => h r hr ⟨hs, hle⟩, le_max_right .., rfl⟩⟩

/-! ## One cycle -/

/-- The loop leaves alone the rows it did not fetch. -/
lemma mem_dispatchRows (hr : r ∈ o.rows) (hbatch : ∀ r' ∈ batch, r'.id ≠ r.id) :
    r ∈ (o.dispatchRows c n batch).1.rows := by
  induction batch generalizing o n with
  | nil => exact hr
  | cons row rows ih =>
    have hne : r.id ≠ row.id := (hbatch row mem_cons_self).symm
    have hrows := fun r' hr' => hbatch r' (mem_cons_of_mem _ hr')
    rw [Outbox.dispatchRows]
    split
    · exact ih (KeyedRows.mem_modify_of_ne hr hne) hrows
    · split
      · exact ih (KeyedRows.mem_modify_of_ne hr hne) hrows
      · exact ih (KeyedRows.mem_modify_of_ne hr hne) hrows
      · exact hr

/-- A row that has run out of attempts stays. -/
lemma Row.Exhausted.mem_step (hr : r ∈ o.rows) (h : r.Exhausted) (s : Step) :
    r ∈ (step o s).rows := by
  cases s with
  | insert row =>
    rw [step, Outbox.insert]
    split
    · exact hr
    · exact mem_append_left _ hr
  | cycle c =>
    rw [step]
    split
    · refine mem_dispatchRows hr fun r' hr' heq => ?_
      obtain ⟨hmem, -, hlt⟩ := mem_fetchPending hr'
      obtain rfl := inj_on_of_nodup_map o.ids_nodup hmem hr heq
      exact absurd hlt (not_lt.mpr h.2)
    · exact hr

/-- A row with no attempts left stays as it is, whatever is done later. -/
theorem mem_run_of_exhausted (hr : r ∈ o.rows) (h : r.Exhausted) (steps : List Step) :
    r ∈ (run o steps).rows := by
  induction steps generalizing o with
  | nil => exact hr
  | cons s steps ih => exact ih (h.mem_step hr s)

/-- The last attempt to deliver one of the rows fails, before an exception leaves the loop. -/
def Cycle.Exhausts (c : Cycle) (batch : List Row) : Prop :=
  ∃ r ∈ batch.takeWhile fun r => c.answer r.id ≠ .raised,
    r.attemptCount + 1 = maxAttempts ∧ ∃ text, c.answer r.id = .httpError text

/-- A changed row is not exhausted, nor is any other. -/
lemma accounted_update {set : Row → Row} {hset : ∀ r, (set r).id = r.id} (h : o.Accounted)
    (hr : r ∈ o.rows) (hnew : ¬ (set r).Exhausted) : (o.update r.id set hset).Accounted := by
  rw [accounted_iff_not_exhausted] at h ⊢
  intro r' hr'
  obtain ⟨row, hrow, rfl⟩ := mem_map.mp hr'
  split
  · next hid => rwa [inj_on_of_nodup_map o.ids_nodup hrow hr hid]
  · exact h row hrow

/-- A batch keeps the account unless one of its rows runs out of attempts. -/
lemma accounted_dispatchRows (h : o.Accounted) (hbatch : ∀ r ∈ batch, r ∈ o.rows)
    (hdue : ∀ r ∈ batch, r.status = .pending ∧ r.attemptCount < maxAttempts)
    (hnodup : (batch.map Row.id).Nodup) :
    (o.dispatchRows c n batch).1.Accounted ↔ ¬ c.Exhausts batch := by
  induction batch generalizing o n with
  | nil => exact iff_of_true h fun ⟨r, hr, _⟩ => nomatch hr
  | cons row rows ih =>
    obtain ⟨hrow, hrows⟩ := forall_mem_cons.mp hbatch
    obtain ⟨⟨hpending, hlt⟩, hdue⟩ := forall_mem_cons.mp hdue
    obtain ⟨hnew, hnodup⟩ := nodup_cons.mp hnodup
    have hne : ∀ r ∈ rows, r.id ≠ row.id := fun r hr heq => hnew (heq ▸ mem_map_of_mem hr)
    -- the rest of the loop finds its rows as they were fetched
    have hkept : ∀ {set : Row → Row} {hset : ∀ r, (set r).id = r.id},
        ∀ r ∈ rows, r ∈ (o.update row.id set hset).rows :=
      fun r hr => KeyedRows.mem_modify_of_ne (hrows r hr) (hne r hr)
    rw [Outbox.dispatchRows, if_neg (not_le.mpr hlt), Cycle.Exhausts, takeWhile_cons]
    cases hanswer : c.answer row.id with
    | raised => simpa [hanswer] using h
    | acknowledged =>
      have hsent : (o.markSent c.now row.id).Accounted :=
        accounted_update h hrow fun he => nomatch he.1
      refine (ih hsent hkept hdue hnodup).trans ?_
      simp [Cycle.Exhausts, hanswer]
    | httpError text =>
      by_cases hlast : row.attemptCount + 1 = maxAttempts
      · -- the row is exhausted now, and the rest of the loop does not touch it
        refine iff_of_false (fun hall => ?_) (not_not_intro ⟨row, by simp, hlast, text, hanswer⟩)
        exact accounted_iff_not_exhausted.mp hall _ (mem_dispatchRows (mem_map.mpr
          ⟨row, hrow, if_pos rfl⟩) hne) ⟨hpending, hlast.ge⟩
      · have hagain : (o.incrementAttempt c.now row.id text).Accounted :=
          accounted_update h hrow fun he => hlast (le_antisymm hlt he.2)
        refine (ih hagain hkept hdue hnodup).trans ?_
        simp [Cycle.Exhausts, hanswer, hlast]

end Cycle

/-! ## Runs -/

/-- In the step a last attempt fails and is committed. -/
def Step.Exhausts : Step → Outbox → Prop
  | .insert _, _ => False
  | .cycle c, o => c.commits = true ∧ c.Exhausts (o.fetchPending c.now c.batchSize c.locked)

/-- A step keeps the account unless it exhausts a row. -/
lemma accounted_step {o : Outbox} (h : o.Accounted) (s : Step) :
    (step o s).Accounted ↔ ¬ s.Exhausts o := by
  cases s with
  | insert row =>
    refine iff_of_true ?_ id
    rw [step, Outbox.insert]
    split
    · exact h
    · rw [accounted_iff_not_exhausted] at h ⊢
      refine forall_mem_append.mpr ⟨h, forall_mem_singleton.mpr fun he => ?_⟩
      exact (by decide : ¬ maxAttempts ≤ 0) he.2
  | cycle c =>
    rw [step, Step.Exhausts]
    split
    · next hcommits =>
      rw [and_iff_right hcommits]
      exact accounted_dispatchRows h (fun r hr => (mem_fetchPending hr).1)
        (fun r hr => (mem_fetchPending hr).2) fetchPending_nodup
    · next hcommits => exact iff_of_true h fun he => hcommits he.1

/-- In a run from the empty table every row is accounted for at every moment, exactly when no
last attempt fails. -/
theorem accounted_iff (steps : List Step) :
    (∀ done, done <+: steps → (run .empty done).Accounted) ↔
      ∀ done s, done ++ [s] <+: steps → ¬ s.Exhausts (run .empty done) := by
  constructor
  · intro h done s hs
    have hnext := h _ hs
    rw [run, foldl_append] at hnext
    exact (accounted_step (h done ((prefix_append ..).trans hs)) s).mp hnext
  · intro h done hdone
    induction done using List.reverseRecOn with
    | nil => exact fun r hr => nomatch hr
    | append_singleton done s ih =>
      rw [run, foldl_append]
      exact (accounted_step (ih ((prefix_append ..).trans hdone)) s).mpr (h done s hdone)

namespace Sample

def event : Event := ⟨"e1", "h1", "anchor", "1", .null, 0⟩

/-- An event, and ten cycles in which the queue answers with an error. -/
def failing : List Step :=
  .insert { event with id := 1, createdAt := 0 } ::
    (List.range 10).map fun (k : ℕ) =>
      .cycle ⟨k * 60000000, 50, fun _ => false, fun _ => .httpError "503", true⟩

end Sample

/-- The event whose ten deliveries failed is pending, no dead letter, and never fetched again. -/
theorem failing_lost : ∃ r ∈ (run .empty Sample.failing).rows, r.status = .pending ∧
    r.attemptCount = maxAttempts ∧ (run .empty Sample.failing).deadLetters = [] ∧
    ∀ later now limit locked, ∀ r' ∈ (run (run .empty Sample.failing) later).fetchPending now limit
      locked, r'.id ≠ r.id := by
  have hrows : (run .empty Sample.failing).rows = [⟨{ Sample.event with attemptCount := 10 }, 1,
      .pending, 0, 570000000, none, some "503"⟩] := by rfl
  refine ⟨_, hrows ▸ mem_singleton_self _, rfl, rfl, by rfl, ?_⟩
  intro later now limit locked r' hr' heq
  obtain ⟨hmem, -, hlt⟩ := mem_fetchPending hr'
  have hstuck := mem_run_of_exhausted (hrows ▸ mem_singleton_self _) ⟨rfl, le_rfl⟩ later
  rw [inj_on_of_nodup_map (run _ later).ids_nodup hmem hstuck heq] at hlt
  exact absurd hlt (lt_irrefl _)

end Refinery
