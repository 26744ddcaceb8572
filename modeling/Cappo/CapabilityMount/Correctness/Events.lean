import Cappo.CapabilityMount.Correctness.Audit

/-!
# The events of an operation

The writers read the latest event of an operation without a lock and append the next version;
the uniqueness of operation and version keeps the history of each operation one sequence.

## Main results

* `WellRecorded.append`: what a writer appends and the constraint accepts keeps the histories;
* `Log.wellRecorded`: the event table of an audited log;
* `WellRecorded.same`, `WellRecorded.started_unique`, `WellRecorded.terminal_last`: the histories
  are what they are meant to be.
-/

namespace CapabilityMount

open VdbC1 (PyStr)
open List Log

/-- The events of an operation, in the order in which they were committed. -/
def history (es : List Event) (operationId : PyStr) : List Event :=
  es.filter fun e => e.operationId = operationId

lemma mem_history {es : List Event} {o : PyStr} {e : Event} :
    e ∈ history es o ↔ e ∈ es ∧ e.operationId = o := by
  simp [history]

lemma history_append (es es' : List Event) (o : PyStr) :
    history (es ++ es') o = history es o ++ history es' o := filter_append ..

/-- What UNIQUE(operation_id, version) compares. -/
def Event.key (e : Event) : PyStr × ℕ := (e.operationId, e.version)

/-- The histories of all operations: versions count up, the first event is the authorization, and
every later one continues another. -/
structure WellRecorded (es : List Event) : Prop where
  versions : ∀ o, (history es o).map Event.version = List.range (history es o).length
  authorized : ∀ e ∈ es, e.version = 0 ↔ e.state = .authorized
  continues : ∀ e ∈ es, e.version ≠ 0 → ∃ latest ∈ es, latest.Continues e

variable {log : Log}

namespace WellRecorded

variable {es : List Event}

lemma nil : WellRecorded [] where
  versions _ := rfl
  authorized _ he := nomatch he
  continues _ he := nomatch he

variable {e : Event}

variable (h : WellRecorded es)

include h

/-- A version that occurs in a history, and every one below it. -/
lemma version_lt (he : e ∈ es) : e.version < (history es e.operationId).length := by
  have hmem : e.version ∈ (history es e.operationId).map Event.version :=
    mem_map_of_mem (mem_history.mpr ⟨he, rfl⟩)
  rwa [h.versions, mem_range] at hmem

variable {o : PyStr}

lemma exists_of_lt (hv : v < (history es o).length) :
    ∃ e ∈ es, e.operationId = o ∧ e.version = v := by
  have hmem : v ∈ (history es o).map Event.version := by
    rw [h.versions]
    exact mem_range.mpr hv
  obtain ⟨e, he, hev⟩ := mem_map.mp hmem
  obtain ⟨hes, ho⟩ := mem_history.mp he
  exact ⟨e, hes, ho, hev⟩

/-- Appending one event whose version is the next of its operation. -/
theorem concat (hversion : e.version = (history es e.operationId).length)
    (hauthorized : e.version = 0 ↔ e.state = .authorized)
    (hcontinues : e.version ≠ 0 → ∃ latest ∈ es, latest.Continues e) :
    WellRecorded (es ++ [e]) where
  versions o := by
    rw [history_append]
    by_cases ho : e.operationId = o
    · subst ho
      have hone : history [e] e.operationId = [e] := by simp [history]
      rw [hone, map_append, h.versions, length_append, length_singleton,
        range_succ, map_singleton, hversion]
    · have hnone : history [e] o = [] := by simp [history, ho]
      rw [hnone, append_nil, h.versions]
  authorized := forall_mem_append.mpr ⟨h.authorized, forall_mem_singleton.mpr hauthorized⟩
  continues e' he' hv := by
    rcases mem_append.mp he' with he' | he'
    · obtain ⟨latest, hmem, hc⟩ := h.continues e' he' hv
      exact ⟨latest, mem_append_left _ hmem, hc⟩
    · rw [mem_singleton.mp he'] at hv ⊢
      obtain ⟨latest, hmem, hc⟩ := hcontinues hv
      exact ⟨latest, mem_append_left _ hmem, hc⟩

/-- The first event of an operation that the constraint accepts. -/
lemma concat_first (hkey : e.key ∉ es.map Event.key)
    (hversion : e.version = 0) (hstate : e.state = .authorized) :
    WellRecorded (es ++ [e]) := by
  refine h.concat ?_ (iff_of_true hversion hstate) (absurd hversion)
  -- version 0 would be taken if the operation had any event
  rw [hversion]
  by_contra hne
  obtain ⟨e', he', ho, hv⟩ := h.exists_of_lt (Nat.pos_of_ne_zero (Ne.symm hne))
  refine hkey (mem_map.mpr ⟨e', he', ?_⟩)
  rw [Event.key, Event.key, ho, hv, hversion]

/-- A further event that the constraint accepts: its version is not taken, and the one before it
is. -/
lemma concat_next (hkey : e.key ∉ es.map Event.key)
    (hmem : latest ∈ es) (hc : latest.Continues e) : WellRecorded (es ++ [e]) := by
  refine h.concat ?_ (iff_of_false ?_ hc.notAuthorized) fun _ => ⟨latest, hmem, hc⟩
  · rw [hc.version, hc.operationId]
    have hlt := h.version_lt hmem
    by_contra hne
    obtain ⟨e', he', ho, hv⟩ := h.exists_of_lt (o := latest.operationId) (v := latest.version + 1)
      (by omega)
    refine hkey (mem_map.mpr ⟨e', he', ?_⟩)
    rw [Event.key, Event.key, ho, hv, hc.operationId, hc.version]
  · rw [hc.version]
    exact Nat.succ_ne_zero _

/-- What a writer appends. The events that it read may be fewer than those committed by now. -/
theorem append (hlog : log.db.events ⊆ es) {new : List Event}
    (hnew : Appended log new) (hkeys : ((es ++ new).map Event.key).Nodup) :
    WellRecorded (es ++ new) := by
  rw [map_append, nodup_append] at hkeys
  have hfresh : ∀ e ∈ new, e.key ∉ es.map Event.key := by
    intro e he hmem
    exact hkeys.2.2 _ hmem _ (mem_map_of_mem he) rfl
  cases hnew with
  | authorized version state site decided =>
    exact h.concat_first (hfresh _ (mem_singleton_self _)) version state
  | started mem continues | continued mem continues =>
    exact h.concat_next (hfresh _ (mem_singleton_self _)) (hlog mem) continues
  | @recorded a s r mem versions state continues started mountId receiptId receiptId' site site' =>
    have ha := h.concat_first (hfresh a mem_cons_self) versions state
    have hs : s.key ∉ (es ++ [a]).map Event.key := by
      rw [map_append, mem_append, not_or]
      refine ⟨hfresh s (mem_cons_of_mem _ (mem_singleton_self _)), fun hmem => ?_⟩
      have hkey : s.key = a.key := by simpa using hmem
      have hversion := congrArg Prod.snd hkey
      rw [Event.key, Event.key, continues.version] at hversion
      omega
    have := ha.concat_next hs mem_concat_self continues
    rwa [append_assoc] at this

/-! ## What the histories are -/

/-- The events of an operation with one version are one event, if versions are not repeated. -/
lemma eq_of_version (he : e ∈ es) (he' : e' ∈ es)
    (ho : e.operationId = e'.operationId) (hv : e.version = e'.version) : e = e' := by
  have hnodup : ((history es e.operationId).map Event.version).Nodup := by
    rw [h.versions]
    exact nodup_range
  exact inj_on_of_nodup_map hnodup (mem_history.mpr ⟨he, rfl⟩) (mem_history.mpr ⟨he', ho.symm⟩) hv

/-- Along a history, what continuing keeps is kept. -/
theorem induction {P : Event → Prop} (hfirst : ∀ e ∈ es, e.version = 0 → P e)
    (hnext : ∀ latest ∈ es, ∀ e ∈ es, latest.Continues e → P latest → P e) :
    ∀ e ∈ es, P e := by
  -- on the version
  suffices hall : ∀ n, ∀ e ∈ es, e.version = n → P e from fun e he => hall _ e he rfl
  intro n
  induction n with
  | zero => exact hfirst
  | succ n ih =>
    intro e he hv
    obtain ⟨latest, hmem, hc⟩ := h.continues e he (by omega)
    exact hnext latest hmem e he hc (ih latest hmem (by have := hc.version; omega))

section

variable {α : Type} {f : Event → α} (hf : ∀ latest e : Event, latest.Continues e → f e = f latest)

include hf

/-- Every event of an operation agrees with its first one in what a continuation keeps. -/
lemma exists_first : ∀ e ∈ es, ∃ first ∈ es,
      first.version = 0 ∧ first.operationId = e.operationId ∧ f first = f e := by
  refine h.induction (fun e he hv => ⟨e, he, hv, rfl, rfl⟩) ?_
  rintro latest - e - hc ⟨first, hmem, hv, ho, heq⟩
  exact ⟨first, hmem, hv, ho.trans hc.operationId.symm, heq.trans (hf latest e hc).symm⟩

/-- Two events of one operation agree in what a continuation keeps. -/
lemma congr_of_operationId {e' : Event} (he : e ∈ es)
    (he' : e' ∈ es) (ho : e.operationId = e'.operationId) : f e = f e' := by
  obtain ⟨first, hfirst, hv, hop, heq⟩ := h.exists_first hf e he
  obtain ⟨first', hfirst', hv', hop', heq'⟩ := h.exists_first hf e' he'
  obtain rfl := h.eq_of_version hfirst hfirst' (hop.trans (ho.trans hop'.symm)) (hv.trans hv'.symm)
  exact heq.symm.trans heq'

end

/-- Two events of one operation have one intent, one mount and one execution. -/
theorem same {e' : Event} (he : e ∈ es) (he' : e' ∈ es)
    (ho : e.operationId = e'.operationId) : e.intentHash = e'.intentHash ∧
      e.mountId = e'.mountId ∧ e.executionId = e'.executionId :=
  ⟨h.congr_of_operationId (fun _ _ hc => hc.intentHash) he he' ho,
    h.congr_of_operationId (fun _ _ hc => hc.mountId) he he' ho,
    h.congr_of_operationId (fun _ _ hc => hc.executionId) he he' ho⟩

/-- The claim is the second event of its operation. -/
lemma version_started (he : e ∈ es) (hstate : e.state = .started) : e.version = 1 := by
  have hne : e.version ≠ 0 := by
    intro hv
    rw [(h.authorized e he).mp hv] at hstate
    nomatch hstate
  obtain ⟨latest, hmem, hc⟩ := h.continues e he hne
  rw [hc.version, (h.authorized latest hmem).mpr (hc.authorized hstate)]

/-- At most one event of an operation is the claim. -/
theorem started_unique (o : PyStr) :
    ((history es o).filter fun e => e.state = .started).length ≤ 1 := by
  have hsub : ∀ e ∈ (history es o).filter fun e => e.state = .started, e.version = 1 := by
    intro e he
    obtain ⟨hmem, hstate⟩ := mem_filter.mp he
    exact h.version_started (mem_history.mp hmem).1 (of_decide_eq_true hstate)
  have hnodup : (((history es o).filter fun e => e.state = .started).map Event.version).Nodup := by
    refine List.Nodup.sublist (List.Sublist.map _ filter_sublist) ?_
    rw [h.versions]
    exact nodup_range
  have hall : ((history es o).filter fun e => e.state = .started).map Event.version =
      List.replicate ((history es o).filter fun e => e.state = .started).length 1 := by
    rw [eq_replicate_iff, length_map]
    exact ⟨rfl, forall_mem_map.mpr hsub⟩
  rw [hall, nodup_replicate] at hnodup
  exact hnodup

/-- The position of an event in its history is its version. -/
lemma version_eq_length (hsplit : history es o = pre ++ e :: post) : e.version = pre.length := by
  have hversions := h.versions o
  rw [hsplit] at hversions
  have hget := congrArg (fun l => l[pre.length]?) hversions
  simpa using hget

/-- No event follows one that ends its operation. -/
theorem terminal_last {pre post : List Event}
    (hsplit : history es o = pre ++ e :: post) (hterminal : e.state.terminal = true) :
    post = [] := by
  cases post with
  | nil => rfl
  | cons next post =>
    -- the next event would continue this one
    have hv := h.version_eq_length hsplit
    have hsplit' : history es o = (pre ++ [e]) ++ next :: post := by
      rw [hsplit, append_assoc, singleton_append]
    have hv' := h.version_eq_length hsplit'
    rw [length_append, length_singleton] at hv'
    have hmem : ∀ x ∈ pre ++ e :: next :: post, x ∈ es ∧ x.operationId = o := by
      intro x hx
      rw [← hsplit] at hx
      exact mem_history.mp hx
    have he := hmem e (by simp)
    have hnext := hmem next (by simp)
    obtain ⟨latest, hlatest, hc⟩ := h.continues next hnext.1 (by omega)
    obtain rfl := h.eq_of_version hlatest he.1
      (hc.operationId.symm.trans (hnext.2.trans he.2.symm)) (by have := hc.version; omega)
    rw [hc.states.1] at hterminal
    nomatch hterminal

end WellRecorded

/-! ## The latest event -/

namespace Db

variable {db : Db} {o : PyStr} {e : Event}

lemma mem_of_latestEvent (h : db.latestEvent o = some e) : e ∈ db.events ∧ e.operationId = o :=
  mem_history.mp (argmax_mem h)

lemma le_of_latestEvent (h : db.latestEvent o = some e) (he' : e' ∈ db.events)
    (ho : e'.operationId = o) : e'.version ≤ e.version :=
  le_of_mem_argmax (mem_history.mpr ⟨he', ho⟩) h

lemma latestEvent_eq_none (h : db.latestEvent o = none) (he : e ∈ db.events) :
    e.operationId ≠ o := by
  intro ho
  have hnil : history db.events o = [] := argmax_eq_none.mp h
  exact absurd (mem_history.mpr ⟨he, ho⟩) (hnil ▸ not_mem_nil)

/-- The latest event is the one that no other event of the operation is later than. -/
lemma latestEvent_eq_some (hdb : WellRecorded db.events) (he : e ∈ db.events)
    (hmax : ∀ e' ∈ db.events, e'.operationId = e.operationId → e'.version ≤ e.version) :
    db.latestEvent e.operationId = some e := by
  cases h : db.latestEvent e.operationId with
  | none => exact absurd rfl (latestEvent_eq_none h he)
  | some latest =>
    obtain ⟨hmem, ho⟩ := mem_of_latestEvent h
    have hv := Nat.le_antisymm (hmax latest hmem ho) (le_of_latestEvent h he rfl)
    rw [hdb.eq_of_version hmem he ho hv]

end Db

/-! ## The event table -/

variable {D : Deployment}

/-- A transaction keeps the histories. -/
lemma Db.wellRecorded_foldl_apply {db : Db}
    (hws : ∀ w ∈ ws, w.Justified D log) (haccepts : db.acceptsAll ws = true)
    (hlog : log.db.events ⊆ db.events) (h : WellRecorded db.events) :
    WellRecorded (ws.foldl apply db).events := by
  induction ws generalizing db with
  | nil => exact h
  | cons w ws ih =>
    rw [acceptsAll, Bool.and_eq_true] at haccepts
    rw [foldl_cons]
    refine ih (fun w hw => hws w (mem_cons_of_mem _ hw)) haccepts.2 ?_ ?_
    · rw [grows_events.apply]
      exact subset_append_of_subset_left _ hlog
    · cases w with
      | insertEvents new =>
        exact h.append hlog (hws _ mem_cons_self) (of_decide_eq_true haccepts.1)
      | _ => exact h

/-- The event table of an audited log. -/
theorem Log.wellRecorded (hlog : log.Audited D) : WellRecorded log.db.events := by
  refine AuditLog.Audited.induction (motive := fun log : Log => WellRecorded log.db.events) hlog
    .nil fun pre e _ he ih => ?_
  rw [db_concat]
  cases e with
  | commit i ws =>
    exact Db.wellRecorded_foldl_apply he.1 he.2.1 (List.Subset.refl _) ih
  | _ => exact ih

/-- The claim of an operation when it was committed: the operation was authorized, and the mount
was live and had the epoch of the authorization. -/
structure ClaimedAt (log : Log) (latest e : Event) (row : MountRow) : Prop where
  mem : latest ∈ log.db.events
  authorized : latest.state = .authorized
  site : latest.site = .cappoEvaluator
  receiptId : e.receiptId = latest.receiptId
  mountId : e.mountId = latest.mountId
  mount : log.db.mounts e.mountId = some row
  live : row.terminated = false
  epoch : latest.authorityEpoch = some row.authorityEpoch

/-- What one event of an append is. -/
inductive Appended.Role (log : Log) (es : List Event) (e : Event) : Prop
  | authorized (version : e.version = 0) (state : e.state = .authorized)
      (site : e.site = .cappoEvaluator) (decided : Decided log e)
  | claimed {latest : Event} {row : MountRow} (continues : latest.Continues e)
      (state : e.state = .started) (site : e.site = .beginConsequence)
      (claim : ClaimedAt log latest e row)
  | continued {latest : Event} (continues : latest.Continues e) (state : e.state ≠ .started)
      (site : e.site ≠ .beginConsequence)
  | recorder {a : Event} {r : Receipt} (mem : r ∈ log.db.receipts)
      (site : e.site = .recorderBegin) (first : a ∈ es) (version : a.version = 0)
      (operationId : e.operationId = a.operationId) (receiptId : e.receiptId = some r.receiptId)

/-- Every event that is appended has one of these roles. -/
lemma Appended.role {es : List Event} {e : Event} (h : Appended log es) (he : e ∈ es) :
    Role log es e := by
  cases h with
  | authorized version state site decided =>
    obtain rfl := mem_singleton.mp he
    exact .authorized version state site decided
  | started mem continues state receiptId site site' mount live epoch =>
    obtain rfl := mem_singleton.mp he
    exact .claimed continues state site' ⟨mem, continues.authorized state, site, receiptId,
      continues.mountId, mount, live, epoch⟩
  | continued _ continues state site =>
    obtain rfl := mem_singleton.mp he
    exact .continued continues state site
  | recorded mem version state continues started mountId receiptId receiptId' site site' =>
    rcases mem_cons.mp he with rfl | he
    · exact .recorder mem site mem_cons_self version rfl receiptId
    · obtain rfl := mem_singleton.mp he
      exact .recorder mem site' mem_cons_self version continues.operationId receiptId'

/-- Every event was appended by one of the writers. -/
lemma Log.appended_of_event (hlog : log.Audited D) {e : Event} (he : e ∈ log.db.events) :
    ∃ pre i ws post es, log = pre ++ Entry.commit i ws :: post ∧
      .insertEvents es ∈ ws ∧ e ∈ es ∧ Appended pre es := by
  rw [events_db] at he
  obtain ⟨x, hx, hex⟩ := mem_flatMap.mp he
  obtain ⟨pre, i, ws, post, rfl, hmem⟩ := exists_commit hx
  cases x with
  | insertEvents es =>
    exact ⟨pre, i, ws, post, es, rfl, hmem, hex, (hlog pre _ post rfl).1 _ hmem⟩
  | _ => nomatch hex

/-- What a transaction adds is not there before. -/
lemma Log.not_mem_of_version {pre : Log} {i : ℕ} {ws : List Write}
    (hlog : Log.Audited D (pre ++ [.commit i ws])) {es : List Event} (hes : .insertEvents es ∈ ws)
    {e e' : Event} (he : e ∈ es) (he' : e' ∈ pre.db.events) (ho : e'.operationId = e.operationId) :
    e'.version ≠ e.version := by
  intro hv
  have hversions := (wellRecorded hlog).versions e.operationId
  have hnodup : ((history (db (pre ++ [.commit i ws])).events e.operationId).map
      Event.version).Nodup := by
    rw [hversions]
    exact nodup_range
  rw [db_concat, Entry.events_apply, history_append, map_append, nodup_append] at hnodup
  refine hnodup.2.2 e'.version (mem_map_of_mem (mem_history.mpr ⟨he', ho⟩)) e.version
    (mem_map_of_mem (mem_history.mpr ⟨?_, rfl⟩)) hv
  exact mem_flatMap.mpr ⟨.insertEvents es, hes, he⟩

/-- A claim is made behind the fence of its mount or by the recorder. The recorder's is there as
soon as its operation has an event. -/
lemma Log.started_cases (hlog : log.Audited D) {e : Event} (he : e ∈ log.db.events)
    (hstate : e.state = .started) :
    e.site = .beginConsequence ∨ e.site = .recorderBegin ∧
      ∀ pre : Log, pre <+: log → ∀ e' ∈ pre.db.events, e'.operationId = e.operationId →
        e ∈ pre.db.events := by
  obtain ⟨p, i, ws, q, es, rfl, hes, hmem, happended⟩ := appended_of_event hlog he
  cases happended.role hmem with
  | authorized _ state => nomatch state.symm.trans hstate
  | claimed _ _ site => exact .inl site
  | continued _ state => exact absurd hstate state
  | recorder _ site ha version operationId =>
    refine .inr ⟨site, fun pre hpre e' he' ho => ?_⟩
    have hcommit : e ∈ (db (p ++ [.commit i ws])).events := by
      rw [db_concat, Entry.events_apply]
      exact mem_append_right _ (mem_flatMap.mpr ⟨_, hes, hmem⟩)
    rcases AuditLog.before_or_after hpre with hle | hle
    · -- an event from before the commit has version 0, which the commit takes
      rw [← singleton_append, ← append_assoc] at hlog
      have hrecorded := wellRecorded hlog.left.left
      obtain ⟨first, hfirst, hv, hop, -⟩ :=
        hrecorded.exists_first (fun _ _ hc => hc.operationId) e' (events_subset hle he')
      exact absurd (hv.trans version.symm) (not_mem_of_version hlog.left hes ha hfirst
        ((hop.trans ho).trans operationId))
    · exact events_subset hle hcommit

end CapabilityMount
