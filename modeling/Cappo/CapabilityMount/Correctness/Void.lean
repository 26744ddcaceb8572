import Cappo.CapabilityMount.Correctness.Serving

/-!
# Entries that nobody can tell

A commit of an empty transaction and an anchored decision change no table. Two states whose logs
differ in such entries only are the same to every call, so that a schedule of the one is, but for
the moments at which leases are seen, a schedule of the other.

## Main results

* `exec_withLog`: a call cannot tell void entries;
* `Alike.run`: whatever can happen in one of two states that are alike can happen in the other.
-/

namespace CapabilityMount

open VdbC1 (PyStr)
open List Function

variable {D : Deployment} {i : ℕ} {w w' : World} {α : Type}

/-- An entry that changes no table, and calls no target. -/
def Entry.Void : Entry → Prop
  | commit _ ws => ws = []
  | anchored _ _ _ => True
  | _ => False

instance : DecidablePred Entry.Void
  | .commit _ ws => inferInstanceAs (Decidable (ws = []))
  | .anchored _ _ _ => .isTrue trivial
  | .dispatched _ _ | .minted _ | .nonceReset _ | .ticked _ => .isFalse id

lemma Entry.Void.apply {e : Entry} (h : e.Void) (db : Db) : e.apply db = db := by
  cases e with
  | commit j ws =>
    obtain rfl : ws = [] := h
    rfl
  | anchored j event result => rfl
  | _ => exact absurd h id

/-- The tables do not depend on void entries. -/
lemma Log.db_filter {p : Entry → Bool} {log : Log} (h : ∀ e ∈ log, p e = false → e.Void) :
    Log.db (log.filter p) = log.db := by
  induction log using List.reverseRecOn with
  | nil => rfl
  | append_singleton log e ih =>
    have hlog := ih fun e' he' => h e' (mem_append_left _ he')
    rw [filter_append, filter_singleton, Log.db_concat]
    cases hp : p e with
    | true => rw [cond_true, Log.db_concat, hlog]
    | false =>
      have he := h e mem_concat_self hp
      rw [cond_false, append_nil, hlog, he.apply]

/-! ## What a call can tell -/

/-- The entries that are not void. -/
def Log.essence (log : Log) : Log := log.filter fun e => ¬ e.Void

lemma Log.essence_append (log log' : Log) :
    Log.essence (log ++ log') = log.essence ++ log'.essence := filter_append ..

variable {g : α → Entry → α}

/-- What is read off the entries one by one does not depend on void ones. -/
lemma Log.foldl_essence (hg : ∀ x e, e.Void → g x e = x) (log : Log) (x : α) :
    log.essence.foldl g x = log.foldl g x := by
  induction log generalizing x with
  | nil => rfl
  | cons e log ih =>
    rw [essence, filter_cons, foldl_cons]
    split
    · rw [foldl_cons]
      exact ih _
    · next he =>
      rw [hg x e (by simpa using he)]
      exact ih x

/-- Logs that differ in void entries only. -/
structure Log.Same (log log' : Log) : Prop where
  essence : log.essence = log'.essence

namespace Log.Same

variable {log log' : Log}

section

variable (h : log.Same log')

include h

lemma foldl (hg : ∀ x e, e.Void → g x e = x) (x : α) : log.foldl g x = log'.foldl g x := by
  rw [← foldl_essence hg log, h.essence, foldl_essence hg log']

lemma db : log.db = log'.db := h.foldl (fun x _ he => he.apply x) {}

lemma now : log.now = log'.now := by
  refine h.foldl (fun x e he => ?_) 0
  cases e <;> first | rfl | exact absurd he id

lemma tokenIds : log.tokenIds = log'.tokenIds := by
  rw [Log.tokenIds, Log.tokenIds, flatMap_eq_foldl, flatMap_eq_foldl]
  refine h.foldl (fun x e he => ?_) []
  cases e with
  | commit i ws =>
    obtain rfl : ws = [] := he
    exact append_nil x
  | _ => exact append_nil x

lemma permits : log.permits = log'.permits := by
  rw [Log.permits, Log.permits, filterMap_eq_flatMap_toList,
    filterMap_eq_flatMap_toList, flatMap_eq_foldl, flatMap_eq_foldl]
  refine h.foldl (fun x e he => ?_) []
  cases e with
  | minted p => exact absurd he id
  | _ => exact append_nil x

lemma append (entries : List Entry) : Log.Same (log ++ entries) (log' ++ entries) :=
  ⟨by rw [essence_append, h.essence, essence_append]⟩

end

lemma refl (log : Log) : log.Same log := ⟨rfl⟩

lemma trans (h : log.Same log') (h' : log'.Same log'') : log.Same log'' :=
  ⟨h.essence.trans h'.essence⟩

/-- A void entry more. -/
theorem concat {e : Entry} (he : e.Void) : Log.Same (log ++ [e]) log := by
  have hvoid : Log.essence [e] = [] := filter_eq_nil_iff.mpr (by simpa using he)
  exact ⟨by rw [essence_append, hvoid, append_nil]⟩

/-- What was to be seen at an earlier moment. -/
theorem take (h : log.Same log') (n : ℕ) : ∃ n', Log.Same (log.take n) (log'.take n') := by
  have hsplit : log'.essence = Log.essence (log.take n) ++ Log.essence (log.drop n) := by
    rw [← h.essence, ← essence_append, take_append_drop]
  obtain ⟨l1, l2, rfl, h1, -⟩ := filter_eq_append_iff.mp hsplit
  refine ⟨l1.length, ⟨?_⟩⟩
  rw [take_left]
  exact h1.symm

end Log.Same

/-- The same state with another log. -/
def World.withLog (w : World) (log : Log) : World := { w with log }

section Calls

variable {log : Log} {a : Answer} {j : ℕ}

lemma reading_withLog (x : α) : (w.withLog log).reading j a x =
    (w.reading j a x).map fun (r, w') => (r, w'.withLog log) := by
  unfold World.reading
  split <;> rfl

lemma chosen_withLog (x : Option α) : (w.withLog log).chosen j a x =
    (w.chosen j a x).map fun (r, w') => (r, w'.withLog log) := by
  unfold World.chosen
  cases x <;> split <;> rfl

lemma lockMount_withLog (h : log.Same w.log) (m : PyStr) : (w.withLog log).lockMount j a m =
    (w.lockMount j a m).map fun (r, w') => (r, w'.withLog log) := by
  have hdb : (w.withLog log).db = w.db := h.db
  unfold World.lockMount
  rw [hdb]
  change (if w.locks m = none ∨ w.locks m = some j then _ else _) = _
  split
  · cases w.db.mounts m <;> cases a <;> rfl
  · rfl

lemma updateSequence_withLog (h : log.Same w.log) : (w.withLog log).updateSequence j a =
    (w.updateSequence j a).map fun (r, w') => (r, w'.withLog log) := by
  have hdb : (w.withLog log).db = w.db := h.db
  unfold World.updateSequence
  rw [hdb]
  change (if w.sequenceLock = none ∨ w.sequenceLock = some j then _ else _) = _
  split
  · cases w.db.sequence <;> cases a <;> rfl
  · rfl

lemma permitMatches_withLog (h : log.Same w.log) (key : VdbC1.Bytes) (presented : PyStr)
    (permit : Permit) : D.permitMatches key presented permit (w.withLog log) =
      (D.permitMatches key presented permit w).map fun (r, w') => (r, w'.withLog log) := by
  have hpermits : (w.withLog log).log.permits = w.log.permits := h.permits
  unfold Deployment.permitMatches
  rw [hpermits]
  repeat' split
  all_goals rfl

/-- A commit does the same over a log that looks the same. -/
lemma commit_withLog (h : log.Same w.log)
    (hexec : Deployment.commit j a w = some (r, w')) : ∃ entries, w'.log = w.log ++ entries ∧
      Deployment.commit j a (w.withLog log) = some (r, w'.withLog (log ++ entries)) := by
  have haccepts : (w.withLog log).db.acceptsAll ((w.withLog log).writes j) =
      w.db.acceptsAll (w.writes j) := congrArg (Db.acceptsAll · (w.writes j)) h.db
  have hfresh : (w.withLog log).issuesFresh j = w.issuesFresh j := by
    unfold World.issuesFresh
    exact congrArg (fun ids => decide (List.Nodup (ids ++ _))) h.tokenIds
  -- either the transaction is dropped, or the commit is added to either log
  have hdropped : (w.release j).withLog log = (w.withLog log).release j := rfl
  have hadded : (w.committed j).withLog (log ++ [.commit j (w.writes j)]) =
      (w.withLog log).committed j := rfl
  revert hexec
  unfold Deployment.commit
  rw [haccepts, hfresh]
  split
  · intro hexec
    cases hexec
    exact ⟨[], (append_nil _).symm, by rw [append_nil, hdropped]⟩
  · split
    · intro hexec
      cases hexec
      exact ⟨[], (append_nil _).symm, by rw [append_nil, hdropped]⟩
    · split
      · exact fun hexec => nomatch hexec
      · split <;> intro hexec <;> cases hexec <;>
          exact ⟨_, rfl, by rw [hadded]⟩

lemma anchor_withLog {e : AnchorEvent} {r : Except Exn (Val (.anchor e))}
    (hexec : D.exec j (.anchor e) a w = some (r, w')) : ∃ entries, w'.log = w.log ++ entries ∧
      D.exec j (.anchor e) a (w.withLog log) = some (r, w'.withLog (log ++ entries)) := by
  revert hexec
  change World.anchor w j a e = _ → ∃ entries, _ ∧ World.anchor (w.withLog log) j a e = _
  unfold World.anchor
  split
  · intro hexec
    cases hexec
    exact ⟨[], (append_nil _).symm, by rw [append_nil]; rfl⟩
  · intro hexec
    cases hexec
    exact ⟨_, rfl, rfl⟩
  · exact fun hexec => nomatch hexec

/-- The moment that a lease is seen at moves with the log. -/
lemma leaseSeen_withLog (h : log.Same w.log) (m : PyStr) (n : ℕ) :
    ∃ n', (w.withLog log).leaseSeen m (.asOf n') = w.leaseSeen m (.asOf n) := by
  obtain ⟨n', hn'⟩ := Log.Same.take ⟨h.essence.symm⟩ n
  refine ⟨n', ?_⟩
  change ((Log.db (log.take n')).leases m).or (log.db.leases m) = _
  rw [← hn'.db, h.db]
  rfl

lemma lease_withLog (h : log.Same w.log) {m : PyStr} {r : Except Exn (Val (.lease m))}
    (hexec : D.exec j (.lease m) a w = some (r, w')) : ∃ a', w'.log = w.log ∧
      D.exec j (.lease m) a' (w.withLog log) = some (r, w'.withLog log) := by
  rcases reading_cases hexec with ⟨rfl, rfl⟩ | ⟨rfl, hw⟩
  · exact ⟨.fail, rfl, rfl⟩
  · obtain rfl := hw.symm
    cases a with
    | asOf n =>
      obtain ⟨n', hseen⟩ := leaseSeen_withLog h m n
      refine ⟨.asOf n', rfl, ?_⟩
      rw [← hseen]
      rfl
    | _ =>
      refine ⟨.ok, rfl, ?_⟩
      exact congrArg (fun db : Db => some (Except.ok (db.leases m), w.withLog log)) h.db

/-- What is read off the tables now. -/
lemma read_withLog (h : log.Same w.log) (f : Db → α) :
    (w.withLog log).reading j a (f (w.withLog log).db) =
      (w.reading j a (f w.db)).map fun (r, w') => (r, w'.withLog log) := by
  have hdb : (w.withLog log).db = w.db := h.db
  rw [hdb]
  exact reading_withLog _

lemma lastOfExecution_withLog (h : log.Same w.log) (executionId : PyStr) :
    (w.withLog log).lastOfExecution executionId a = w.lastOfExecution executionId a := by
  have hdb : (w.withLog log).db = w.db := h.db
  unfold World.lastOfExecution
  rw [hdb]

/-- The calls that add no entry and do not look back. -/
def Op.Silent : Op → Prop
  | .commit | .anchor _ | .dispatch _ _ | .lease _ => False
  | _ => True

lemma Effect.log_of_silent (h : Effect j w op w') (hop : op.Silent) : w'.log = w.log := by
  cases h with
  | committed | anchored | dispatched => exact absurd hop id
  | _ => rfl

/-- A silent call does in either state what it does in the other. -/
lemma exec_withLog_of_silent (h : log.Same w.log) {op : Op} (hop : op.Silent) :
    D.exec j op a (w.withLog log) = (D.exec j op a w).map fun (r, w') => (r, w'.withLog log) := by
  cases op with
  | commit | anchor | dispatch | lease => exact absurd hop id
  -- what reads the tables
  | latestEvent o => exact read_withLog h (·.latestEvent o)
  | inFlight m => exact read_withLog h (·.inFlightOperations m)
  | receipt receiptId =>
    exact read_withLog h fun db => db.receipts.find? fun r : Receipt => r.receiptId = receiptId
  | priorReceipt tokenId =>
    exact read_withLog h fun db => db.receipts.any fun r : Receipt =>
      r.tokenId = tokenId && r.decision = .allow
  | evidenceConsumed jti => exact read_withLog h fun db => decide (jti ∈ db.evidence)
  | selectNextValue =>
    exact read_withLog h fun db => db.sequence.getD 0 + (w.writes j).count .incrementSequence
  | latestOfExecution executionId =>
    exact (congrArg (World.chosen (w.withLog log) j a)
      (lastOfExecution_withLog h executionId)).trans (chosen_withLog _)
  | lockMount m => exact lockMount_withLog h m
  | updateSequence => exact updateSequence_withLog h
  -- what reads the permits and the clock
  | permitMatches key presented permit => exact permitMatches_withLog h key presented permit
  | now => exact congrArg (fun now => some (Except.ok now, w.withLog log)) h.now
  -- what looks at nothing of the log
  | write x => rfl
  | rollback => rfl
  | isRevoked m => rfl
  | markRevoked m => rfl
  | audit => exact reading_withLog ()
  | _ => exact chosen_withLog _

/-- A call cannot tell void entries: it returns the same, if the environment answers a lease of the
same moment, and adds the same entries. -/
theorem exec_withLog (h : log.Same w.log) {op : Op} {r : Except Exn (Val op)}
    (hexec : D.exec j op a w = some (r, w')) : ∃ a' entries, w'.log = w.log ++ entries ∧
      D.exec j op a' (w.withLog log) = some (r, w'.withLog (log ++ entries)) := by
  have hsilent : op.Silent → ∃ a' entries, w'.log = w.log ++ entries ∧
      D.exec j op a' (w.withLog log) = some (r, w'.withLog (log ++ entries)) := by
    intro hop
    refine ⟨a, [], by rw [(exec_effect hexec).log_of_silent hop, append_nil], ?_⟩
    rw [exec_withLog_of_silent h hop, hexec, append_nil]
    rfl
  cases op with
  | commit => exact ⟨a, commit_withLog h hexec⟩
  | anchor e => exact ⟨a, anchor_withLog hexec⟩
  | dispatch d permitReceipt =>
    obtain ⟨outcome, payloads, rfl, rfl⟩ := dispatch_cases hexec
    exact ⟨.outcome outcome payloads, _, rfl, rfl⟩
  | lease m =>
    obtain ⟨a', hlog, hlease⟩ := lease_withLog h hexec
    exact ⟨a', [], by rw [hlog, append_nil], by rw [append_nil, hlease]⟩
  | _ => exact hsilent trivial

end Calls

/-! ## Schedules -/

/-- Two configurations that differ in a session and in void entries only. -/
structure Alike (i : ℕ) (c d : Config) : Prop where
  log : d.shared.log.Same c.shared.log
  shared : d.shared = c.shared.withLog d.shared.log
  sessions : ∀ j, j ≠ i → d.sessions j = c.sessions j

namespace Alike

variable {c d c' : Config}

lemma symm (h : Alike i c d) : Alike i d c where
  log := ⟨h.log.essence.symm⟩
  shared := by
    rw [h.shared]
    rfl
  sessions j hj := (h.sessions j hj).symm

/-- What a session does, in either configuration. -/
lemma update (h : Alike i c d) {j : ℕ} {log : Log} (hlog : log.Same w.log)
    (status : Sessions.Status Op Val Exn Response) :
    Alike i ⟨w, Function.update c.sessions j status⟩
      ⟨w.withLog log, Function.update d.sessions j status⟩ where
  log := hlog
  shared := rfl
  sessions k hk := by
    change Function.update d.sessions j status k = Function.update c.sessions j status k
    by_cases hkj : k = j
    · rw [hkj, update_self, update_self]
    · rw [update_of_ne hkj, update_of_ne hkj, h.sessions k hk]

/-- What can happen next in one of them can happen in the other. -/
theorem next (h : Alike i c d) {e : Sessions.Event Request Answer Environment}
    (he : e.session ≠ some i) (hnext : c.next (machine D) D.serve e = some c') :
    ∃ e' d', d.next (machine D) D.serve e' = some d' ∧ Alike i c' d' := by
  obtain ⟨l, hl, hshared⟩ : ∃ l : Log, l.Same c.shared.log ∧ d.shared = c.shared.withLog l :=
    ⟨_, h.log, h.shared⟩
  have hsession : ∀ {j : ℕ}, some j ≠ some i → d.sessions j = c.sessions j :=
    fun hj => h.sessions _ fun heq => hj (congrArg some heq)
  cases Sessions.Config.next_spec hnext with
  | @start j request unused =>
    have hd : d.Next (machine D) D.serve (.start j request) _ := .start ((hsession he).trans unused)
    rw [hshared] at hd
    exact ⟨_, _, hd.eq_some, h.update hl _⟩
  | @step j answer op next r w active exec =>
    obtain ⟨answer', entries, hentries, hexec⟩ := exec_withLog hl exec
    have hd : d.Next (machine D) D.serve (.step j answer') _ :=
      .step ((hsession he).trans active) (hshared ▸ hexec)
    exact ⟨_, _, hd.eq_some, h.update (hentries ▸ hl.append entries) _⟩
  | kill j =>
    have hd : d.Next (machine D) D.serve (.kill j) _ := .kill j
    rw [hshared] at hd
    exact ⟨_, _, hd.eq_some, h.update (w := c.shared.release j) hl _⟩
  | @environment ev w act =>
    obtain ⟨entry, rfl, hact⟩ : ∃ entry, w = c.shared.append entry ∧
        ev.act (c.shared.withLog l) = some ((c.shared.append entry).withLog (l ++ [entry])) := by
      cases ev <;> cases act <;> exact ⟨_, rfl, rfl⟩
    have hd : d.Next (machine D) D.serve (.environment ev) _ := .environment (hshared ▸ hact)
    exact ⟨_, _, hd.eq_some, hl.append _, rfl, h.sessions⟩

/-- Whatever can happen in one of them can happen in the other. -/
theorem run (h : Alike i c d) {es : Schedule} (hes : ∀ e ∈ es, e.session ≠ some i)
    (hrun : c.run (machine D) D.serve es = some c') :
    ∃ es' d', d.run (machine D) D.serve es' = some d' ∧ Alike i c' d' := by
  induction es generalizing c d with
  | nil =>
    cases hrun
    exact ⟨[], d, rfl, h⟩
  | cons e es ih =>
    obtain ⟨c1, hnext, hrest⟩ := Option.bind_eq_some_iff.mp hrun
    obtain ⟨e', d1, hnext', h1⟩ := h.next (hes e mem_cons_self) hnext
    obtain ⟨es', d', hrun', h'⟩ := ih h1 (fun e he => hes e (mem_cons_of_mem _ he)) hrest
    refine ⟨e' :: es', d', ?_, h'⟩
    rw [Sessions.Config.run, hnext']
    exact hrun'

end Alike

end CapabilityMount
