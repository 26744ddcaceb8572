import Cappo.Ledger.Correctness.Growing
import Cappo.Ledger.Writers

/-!
# What concurrent writers leave of the audit ledger

A session finds the row to link to, inserts its own, and commits some time later, with no lock
held. If another session has committed rows in between, both have linked theirs to the same row, or
both have started the ledger. What a session has read is still good when it commits exactly if it
links to the end of what is committed then.

## Main results

* `Sound`: what holds of a session between any two statements;
* `run_valid_iff`: the committed rows are valid exactly if every transaction that has inserted rows
  is linked to the end of the committed ones when it commits.
-/

open VdbC1 CapabilityMount

namespace Ledger

open AuditLog BackLinks Canonical List Option Function

/-- The rows are a chain in the order in which they stand. -/
abbrev AuditChain (rows : List AuditEvent) : Prop :=
  Chained AuditEvent.logHash AuditEvent.previousLogHash rows

/-- The last hash of the rows. -/
abbrev lastHash (rows : List AuditEvent) : Option PyStr := tip AuditEvent.logHash rows

variable {C : Canonical} {committed more rows pending : List AuditEvent} {ev : AuditEvent}
  {session : AuditSession} {phase : Phase} {previous : Option PyStr} {args : RecordArgs}

lemma auditEvent_eq_some (h : C.auditEvent args previous = some ev) :
    ev.previousLogHash = previous ∧ C.auditColumns.Intact ev := by
  obtain ⟨logHash, hhash, hev⟩ := bind_eq_some_iff.mp h
  cases hev
  exact ⟨rfl, hhash⟩

lemma mem_leaves : ev ∈ leaves rows ↔
    ev ∈ rows ∧ ∀ child ∈ rows, child.previousLogHash ≠ some ev.logHash := by
  rw [leaves, mem_filter, decide_eq_true_iff]

section

variable (hsha : C.Sha256Injective) (hintact : ∀ ev ∈ rows, C.auditColumns.Intact ev)
  (hchain : AuditChain rows)

include hsha hintact hchain

lemma nodup_logHash : (rows.map AuditEvent.logHash).Nodup :=
  Columns.nodup_of_chained (auditColumns_binding hsha) hintact hchain

/-- A chain has an end that no row points at. -/
lemma leaves_ne_nil (hne : rows ≠ []) : leaves rows ≠ [] := by
  obtain ⟨pre, ev, rfl⟩ := (eq_nil_or_concat' rows).resolve_left hne
  refine ne_nil_of_mem (mem_leaves.mpr ⟨mem_concat_self, ?_⟩)
  exact leaf_concat hchain (nodup_logHash hsha hintact hchain)

end

/-! ## One session -/

/-- What the transaction of a session is linked to, or will be. -/
def AuditSession.base (session : AuditSession) : Option (Option PyStr) :=
  match session.pending, session.phase with
  | ev :: _, _ => some ev.previousLogHash
  | [], .ready previous => some previous
  | [], _ => none

/-- What holds of a session. Its rows are intact and point back. If what it is linked to is still
the end of the committed rows, nothing was committed since it was read, and then the session goes on
with the chain. -/
structure Sound (C : Canonical) (committed : List AuditEvent) (session : AuditSession) : Prop where
  intact : ∀ ev ∈ committed ++ session.pending, C.auditColumns.Intact ev
  grown : Grown AuditEvent.logHash AuditEvent.previousLogHash (committed ++ session.pending)
  ready : ∀ h, session.phase = .ready (some h) →
    h ∈ (committed ++ session.pending).map AuditEvent.logHash
  base : ∀ h, session.base = some (some h) → h ∈ committed.map AuditEvent.logHash
  fresh : AuditChain committed → session.base = some (lastHash committed) →
    AuditChain (committed ++ session.pending) ∧ session.phase ≠ .fallback ∧
      ∀ previous, session.phase = .ready previous →
        previous = lastHash (committed ++ session.pending)

/-- A session at the start of a transaction. -/
lemma sound_start (hintact : ∀ ev ∈ committed, C.auditColumns.Intact ev)
    (hgrown : Grown AuditEvent.logHash AuditEvent.previousLogHash committed) :
    Sound C committed {} where
  intact := by rwa [append_nil]
  grown := by rwa [append_nil]
  ready _ h := nomatch h
  base _ h := nomatch h
  fresh _ h := nomatch h

namespace Sound

/-- Another session commits. -/
lemma extend (hsha : C.Sha256Injective) (h : Sound C committed session)
    (hintact : ∀ ev ∈ committed ++ more, C.auditColumns.Intact ev)
    (hgrown : Grown AuditEvent.logHash AuditEvent.previousLogHash (committed ++ more)) :
    Sound C (committed ++ more) session where
  intact := by
    intro ev hev
    rcases mem_append.mp hev with hev | hev
    · exact hintact ev hev
    · exact h.intact ev (mem_append_right _ hev)
  grown := h.grown.insert hgrown
  ready := by
    intro hash hready
    have := h.ready hash hready
    simp only [map_append, mem_append] at this ⊢
    exact this.imp_left .inl
  base := by
    intro hash hbase
    rw [map_append]
    exact mem_append_left _ (h.base hash hbase)
  fresh := by
    intro hchain hbase
    -- what was the end before the commit is not the end after it
    have hmore : more = [] := by
      cases hlast : lastHash (committed ++ more) with
      | none =>
        have hnil : committed ++ more = [] := by
          rwa [lastHash, tip, map_eq_none_iff, List.getLast?_eq_none_iff] at hlast
        exact (append_eq_nil_iff.mp hnil).2
      | some hash =>
        rw [hlast] at hbase
        exact eq_nil_of_tip (nodup_logHash hsha hintact hchain) hlast (h.base hash hbase)
    subst hmore
    rw [append_nil] at hchain hbase ⊢
    exact h.fresh hchain hbase

/-- A query moves the session on; what is pending decides what it goes on with. -/
lemma moved {phase' : Phase} (h : Sound C committed ⟨pending, phase⟩)
    (hready : ∀ hash, phase' = .ready (some hash) →
      hash ∈ (committed ++ pending).map AuditEvent.logHash)
    (hpending : pending ≠ [] → AuditChain (committed ++ pending) → phase ≠ .fallback →
      phase' ≠ .fallback ∧
        ∀ previous, phase' = .ready previous → previous = lastHash (committed ++ pending)) :
    Sound C committed ⟨pending, phase'⟩ := by
  cases pending with
  | nil =>
    cases phase' with
    | ready found =>
      refine ⟨h.intact, h.grown, hready, fun hash hbase => ?_, fun hchain hbase => ?_⟩
      · have := hready hash (congrArg Phase.ready (some.inj hbase))
        rwa [append_nil] at this
      · rw [append_nil]
        exact ⟨hchain, nofun, fun previous hready => Phase.ready.inj hready ▸ some.inj hbase⟩
    | idle | fallback =>
      exact ⟨h.intact, h.grown, hready, fun _ h => absurd h nofun, fun _ h => nomatch h⟩
  | cons first rest =>
    refine ⟨h.intact, h.grown, hready, h.base, fun hchain hbase => ?_⟩
    obtain ⟨hview, hphase, -⟩ := h.fresh hchain hbase
    exact ⟨hview, hpending (cons_ne_nil _ _) hview hphase⟩

/-- The first query finds a row. -/
lemma tail (h : Sound C committed ⟨pending, .idle⟩) (hev : ev ∈ leaves (committed ++ pending)) :
    Sound C committed ⟨pending, .ready (some ev.logHash)⟩ := by
  obtain ⟨hmem, hleaf⟩ := mem_leaves.mp hev
  refine h.moved ?_ fun _ hview _ => ⟨nofun, fun previous hready => ?_⟩
  · rintro _ ⟨⟩
    exact mem_map_of_mem hmem
  · rw [← Phase.ready.inj hready, lastHash, eq_tip_of_leaf hview hmem hleaf]

/-- The first query finds none. -/
lemma tail_none (hsha : C.Sha256Injective) (h : Sound C committed ⟨pending, .idle⟩)
    (hnone : leaves (committed ++ pending) = []) : Sound C committed ⟨pending, .fallback⟩ :=
  h.moved (fun _ h => absurd h nofun) fun hne hview _ =>
    absurd hnone (leaves_ne_nil hsha h.intact hview (append_ne_nil_of_right_ne_nil _ hne))

/-- The second query. -/
theorem newest (h : Sound C committed ⟨pending, .fallback⟩) {found : Option AuditEvent}
    (hfound : ∀ ev ∈ found, ev ∈ committed ++ pending) :
    Sound C committed ⟨pending, .ready (found.map AuditEvent.logHash)⟩ := by
  refine h.moved (fun hash hready => ?_) fun _ _ hphase => absurd rfl hphase
  obtain ⟨ev, hev, rfl⟩ := map_eq_some_iff.mp (Phase.ready.inj hready)
  exact mem_map_of_mem (hfound ev hev)

/-- A row is inserted. -/
lemma insert (h : Sound C committed ⟨pending, .ready previous⟩)
    (hev : C.auditEvent args previous = some ev) :
    Sound C committed ⟨pending ++ [ev], .idle⟩ := by
  obtain ⟨hprevious, hintact⟩ := auditEvent_eq_some hev
  -- the row is linked to what the session was going to link to
  have hbase : (⟨pending ++ [ev], .idle⟩ : AuditSession).base =
      (⟨pending, .ready previous⟩ : AuditSession).base := by
    cases pending with
    | nil => exact congrArg some hprevious
    | cons first rest => rfl
  refine ⟨?_, ?_, fun _ h => absurd h nofun, ?_, ?_⟩
  · intro other hother
    rw [← append_assoc, mem_append, mem_singleton] at hother
    rcases hother with hother | rfl
    · exact h.intact other hother
    · exact hintact
  · rw [← append_assoc]
    refine audited_concat_iff.mpr ⟨h.grown, fun hash hhash => h.ready hash ?_⟩
    rw [← hprevious, hhash]
  · intro hash hhash
    rw [hbase] at hhash
    exact h.base hash hhash
  · intro hchain hfresh
    rw [hbase] at hfresh
    obtain ⟨hview, -, hready⟩ := h.fresh hchain hfresh
    refine ⟨?_, nofun, fun _ h => nomatch h⟩
    rw [← append_assoc]
    exact audited_concat_iff.mpr ⟨hview, hprevious.trans (hready previous rfl)⟩

/-- The call ends without a row. -/
lemma idle (h : Sound C committed ⟨pending, phase⟩) : Sound C committed ⟨pending, .idle⟩ :=
  h.moved (fun _ h => absurd h nofun) fun _ _ _ => ⟨nofun, fun _ h => nomatch h⟩

end Sound

/-! ## All sessions -/

namespace AuditState

variable {st : AuditState} {s : ℕ}

lemma sound_update (h : ∀ s, Sound C st.committed (st.session s))
    (hsession : Sound C st.committed session) :
    ∀ other, Sound C (st.update s session).committed ((st.update s session).session other) := by
  intro other
  by_cases hother : other = s
  · subst hother
    show Sound C st.committed (Function.update st.session other session other)
    rwa [update_self]
  · show Sound C st.committed (Function.update st.session s session other)
    rw [update_of_ne hother]
    exact h other

/-- A session commits what it has inserted. -/
lemma sound_commit (hsha : C.Sha256Injective) (h : ∀ s, Sound C st.committed (st.session s)) :
    ∀ other, Sound C (st.view s) ((st.update s {}).session other) := by
  intro other
  by_cases hother : other = s
  · subst hother
    show Sound C _ (Function.update st.session other {} other)
    rw [update_self]
    exact sound_start (h other).intact (h other).grown
  · show Sound C _ (Function.update st.session s {} other)
    rw [update_of_ne hother]
    exact (h other).extend hsha (h s).intact (h s).grown

/-- A statement keeps every session sound. -/
lemma sound_step (hsha : C.Sha256Injective) (h : ∀ s, Sound C st.committed (st.session s))
    (s : ℕ) (statement : Statement) :
    ∀ other, Sound C (st.step C s statement).committed ((st.step C s statement).session other) := by
  have hsession := h s
  unfold step
  dsimp only
  generalize hs : st.session s = session at hsession
  obtain ⟨pending, phase⟩ := session
  have hview : st.view s = st.committed ++ pending := by rw [view, hs]
  split
  · next query hphase =>
    -- the first query
    obtain rfl : phase = .idle := hphase
    rw [hview]
    split
    · next ev hev => exact sound_update h (hsession.tail (query.newest_first _ _ hev).1)
    · next hnone =>
      refine sound_update h (hsession.tail_none hsha ?_)
      by_contra hne
      have := query.isSome_first _ hne
      rw [hnone] at this
      nomatch this
  · next query hphase =>
    obtain rfl : phase = .fallback := hphase
    rw [hview]
    exact sound_update h (hsession.newest fun ev hev => (query.newest_first _ _ hev).1)
  · next args previous hphase =>
    obtain rfl : phase = .ready previous := hphase
    split
    · next ev hev => exact sound_update h (hsession.insert hev)
    · exact sound_update h hsession.idle
  · exact sound_commit hsha h
  · exact sound_update h (sound_start (fun ev hev => hsession.intact ev
      (mem_append_left _ hev)) hsession.grown.left)
  · exact h

/-- When a session commits rows, the first of them is linked to the end of the committed ones. -/
def Fresh (st : AuditState) (s : ℕ) : Statement → Prop
  | .commit => (st.session s).phase = .idle →
    ∀ first ∈ (st.session s).pending.head?, first.previousLogHash = lastHash st.committed
  | _ => True

lemma fresh_of_not_commit
    (h : statement = .commit → (st.session s).phase = .idle → False) : st.Fresh s statement := by
  cases statement with
  | commit => exact fun hphase => (h rfl hphase).elim
  | _ => trivial

/-- One statement keeps the committed rows a chain exactly if it is not the commit of a transaction
that is linked elsewhere. -/
lemma chain_step_iff (h : ∀ s, Sound C st.committed (st.session s)) (statement : Statement) :
    AuditChain (st.step C s statement).committed ↔
      AuditChain st.committed ∧ st.Fresh s statement := by
  have hsession := h s
  unfold step
  dsimp only
  split
  · split <;> exact (and_iff_left trivial).symm
  · exact (and_iff_left trivial).symm
  · split <;> exact (and_iff_left trivial).symm
  · next hphase =>
    show AuditChain (st.committed ++ (st.session s).pending) ↔ _ ∧ (_ → _)
    rw [forall_prop_of_true hphase]
    constructor
    · intro hchain
      refine ⟨hchain.left, fun first hfirst => ?_⟩
      obtain ⟨rest, hrest⟩ := List.head?_eq_some_iff.mp hfirst
      exact hchain st.committed first rest (by rw [hrest])
    · rintro ⟨hchain, hlinked⟩
      cases hpending : (st.session s).pending with
      | nil => rwa [append_nil]
      | cons first rest =>
        rw [hpending] at hlinked
        rw [← hpending]
        refine (hsession.fresh hchain ?_).1
        rw [AuditSession.base, hpending]
        exact congrArg some (hlinked first rfl)
  · exact (and_iff_left trivial).symm
  · next hcommit => exact (and_iff_left (fresh_of_not_commit hcommit)).symm

lemma run_concat (statements : List (ℕ × Statement)) (e : ℕ × Statement) :
    run C (statements ++ [e]) = (run C statements).step C e.1 e.2 := by
  unfold run
  rw [foldl_append]
  rfl

lemma sound_run (hsha : C.Sha256Injective) (statements : List (ℕ × Statement)) :
    ∀ s, Sound C (run C statements).committed ((run C statements).session s) := by
  induction statements using List.reverseRecOn with
  | nil => exact fun s => sound_start (fun ev hev => nomatch hev) audited_nil
  | append_singleton statements e ih =>
    rw [run_concat]
    exact sound_step hsha ih e.1 e.2

end AuditState

/-- For every interleaving of the statements of any sessions, the committed rows, in whatever order
they are read, are reported valid exactly if every commit of rows found the end of the committed
rows where its transaction is linked. -/
theorem run_valid_iff (hsha : C.Sha256Injective) (statements : List (ℕ × Statement)) :
    (∀ events, events.Perm (AuditState.run C statements).committed → ∃ fuel report,
        C.verifyAuditChain fuel events = .returned report ∧ report.valid = true) ↔
      Audited (fun pre e => (AuditState.run C pre).Fresh e.1 e.2) statements := by
  have hsound := AuditState.sound_run hsha statements 0
  have hvalid : ∀ events, events.Perm (AuditState.run C statements).committed →
      ((∃ fuel report, C.verifyAuditChain fuel events = .returned report ∧ report.valid = true) ↔
        AuditChain (AuditState.run C statements).committed) := fun events hperm =>
    Columns.reportsValid_iff_chained (auditColumns_binding hsha)
      (fun ev hev => hsound.intact ev (mem_append_left _ hev)) hsound.grown.left hperm
  have hall : (∀ events, events.Perm (AuditState.run C statements).committed → ∃ fuel report,
      C.verifyAuditChain fuel events = .returned report ∧ report.valid = true) ↔
        AuditChain (AuditState.run C statements).committed :=
    ⟨fun h => (hvalid _ (List.Perm.refl _)).mp (h _ (List.Perm.refl _)),
      fun h events hperm => (hvalid events hperm).mpr h⟩
  rw [hall]
  refine audited_iff (P := fun statements => AuditChain (AuditState.run C statements).committed)
    audited_nil ?_ statements
  intro pre e
  rw [AuditState.run_concat]
  exact AuditState.chain_step_iff (AuditState.sound_run hsha pre) e.2

namespace Sample

def runArgs (logId : String) (createdAt : ℤ) : RecordArgs where
  operationType := "run"
  payload := .obj []
  workspaceId := none
  runId := none
  logId := PyStr.ofString logId
  createdAt

/-- A session starts the ledger. -/
def started : List (ℕ × Statement) :=
  [(0, .tail (.ofArgmax _)), (0, .newest (.ofArgmax _)), (0, .insert (runArgs "1" 1)), (0, .commit)]

end Sample

/-- A session that is alone leaves a valid ledger. -/
theorem run_valid_started :
    (AuditState.run Sample.canonical Sample.started).committed ≠ [] ∧
      ∃ fuel report, Sample.canonical.verifyAuditChain fuel
          (AuditState.run Sample.canonical Sample.started).committed = .returned report ∧
        report.valid = true := by
  refine ⟨by decide +kernel, ?_⟩
  refine (run_valid_iff Sample.sha256Injective Sample.started).mpr ?_ _ (.refl _)
  show Audited _ ([] ++ [_] ++ [_] ++ [_] ++ [_])
  rw [audited_concat_iff, audited_concat_iff, audited_concat_iff, audited_concat_iff]
  refine ⟨⟨⟨⟨audited_nil, trivial⟩, trivial⟩, trivial⟩, fun _ => ?_⟩
  decide +kernel

/-- Two sessions look for the end of the empty ledger before either has committed: both start it,
and the committed rows are reported as two ledgers. -/
theorem run_forked :
    Sample.canonical.verifyAuditChain 2 (AuditState.run Sample.canonical
      [(0, .tail (.ofArgmax _)), (0, .newest (.ofArgmax _)), (1, .tail (.ofArgmax _)),
        (1, .newest (.ofArgmax _)), (0, .insert (Sample.runArgs "1" 1)), (0, .commit),
        (1, .insert (Sample.runArgs "2" 2)), (1, .commit)]).committed =
      .returned {
        name := "audit_events"
        total := 2
        valid := false
        brokenLinks := [
          ⟨"1", "multiple genesis nodes (forked chain)"⟩,
          ⟨"2", "multiple genesis nodes (forked chain)"⟩] } := by
  decide +kernel

end Ledger
