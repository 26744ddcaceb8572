import Cappo.VdbC1.Correctness.Crafted
import Cappo.VdbC1.Reference
import Cappo.VdbC1.Witness
import Mathlib.Data.List.Pairwise

/-!
# Countersigned histories

The witness signs the head of a journal only if the journal continues the one whose head its
state names. As long as the state is the head of the last checkpoint, the histories that were
signed therefore continue one another (`Forward`). The state is replaced in a write of its
own, after the checkpoint is appended: a process that is killed between the two leaves a
checkpoint that the state does not know, and after a restart another history can be signed.

## Main results

* `Witness.wp_observe`: what a call of `observe` can do to the directory;
* `Witness.Forward.step`: an event that is not interrupted keeps the histories in order;
* `Witness.checkpoints_consistent`: in a run without such an interruption the checkpoints are
  pairwise consistent.
-/

namespace VdbC1

open HashChain (Chain Continues continues_of_hash valid_of_mem)
open Checks
open Json
open List Option

/-! ## Sequence numbers -/

namespace Json

/-- The values that compare equal to an integer. -/
lemma pyEq_int_iff {j : Json} {n : ℤ} : j.pyEq (.int n) = true ↔
      j = .int n ∨ (∃ b, j = .bool b ∧ (if b then 1 else 0) = n) ∨ j = .float (.finite n) := by
  rw [pyEq_iff]
  cases j with
  | bool | int => simp [pyNorm, normWith, pyScalar, nanFree, all]
  | float x =>
    cases x with
    | finite q =>
      have hcast : q = n ↔ q.num = n ∧ q.den = 1 :=
        ⟨fun h => by simp [h], fun h => Rat.ext (by simpa using h.1) (by simpa using h.2)⟩
      by_cases hq : q.den = 1 <;> simp [pyNorm, normWith, pyScalar, nanFree, all, hcast, hq]
    | _ => simp [pyNorm, normWith, pyScalar]
  | _ => simp [pyNorm, normWith, pyScalar]

lemma at?_natCast (xs : List Json) (n : ℕ) : at? xs (.int n) = xs[n]? := by
  simp [at?, index?, position]

/-- Indexing with a value that equals `n` reads position `n`. -/
lemma getElem?_of_at? {xs : List Json} {seq r : Json} {n : ℕ} (hseq : seq.pyEq (.int n) = true)
    (hr : at? xs seq = some r) : xs[n]? = some r := by
  rcases pyEq_int_iff.mp hseq with rfl | ⟨b, rfl, hb⟩ | rfl
  · rwa [at?_natCast] at hr
  · have hn : n = if b then 1 else 0 := by cases b <;> simp_all <;> omega
    cases b <;> simpa [at?, index?, position, hn] using hr
  · simp [at?, index?] at hr

end Json

namespace Witness

variable {P : Platform} {W : Witness P}

/-! ## Reading -/

variable {i : ℕ} {prev : PyStr} {rs : List Json}

/-- The witness accepts exactly the chains. -/
lemma readRecords_eq_ok : readRecords P i prev lines = .ok rs ↔
      lines = rs.map some ∧ Chain recordHash (Links P) i prev rs := by
  induction lines generalizing i prev rs with
  | nil =>
    simp only [readRecords, Except.ok.injEq]
    constructor
    · rintro rfl
      exact ⟨rfl, trivial⟩
    · rintro ⟨hnil, -⟩
      exact (map_eq_nil_iff.mp hnil.symm).symm
  | cons line lines ih =>
    cases line with
    | none => cases rs <;> simp [readRecords]
    | some r =>
      simp only [readRecords, bind_eq_ok, checkRecord_eq_ok, ih, pure_eq_ok]
      constructor
      · rintro ⟨_, ⟨hlinks, rfl⟩, rest, ⟨rfl, hchain⟩, rfl⟩
        exact ⟨rfl, hlinks, hchain⟩
      · rintro ⟨hlines, hchain⟩
        cases rs with
        | nil => simp at hlines
        | cons r' rest =>
          simp only [map_cons, List.cons.injEq, Option.some.injEq] at hlines
          obtain ⟨rfl, rfl⟩ := hlines
          exact ⟨_, ⟨hchain.1, rfl⟩, rest, ⟨rfl, hchain.2⟩, rfl⟩

variable {file : JournalFile}

/-- `_read_journal` returns the records of a complete file that form a chain. -/
lemma readJournal_eq_ok :
    readJournal P file = .ok rs ↔ file.complete = true ∧ file.lines = rs.map some ∧
      Chain recordHash (Links P) 0 "genesis" rs ∧ rs ≠ [] := by
  simp only [readJournal, bind_eq_ok, require_eq_ok, readRecords_eq_ok,
    pure_eq_ok]
  constructor
  · rintro ⟨_, hcomplete, rs', ⟨hlines, hchain⟩, _, hne, rfl⟩
    exact ⟨hcomplete, hlines, hchain, by simpa using hne⟩
  · rintro ⟨hcomplete, hlines, hchain, hne⟩
    exact ⟨(), hcomplete, rs, ⟨hlines, hchain⟩, (), by simpa using hne, rfl⟩

/-! ## What a call can do -/

/-- The journal has the head that the state names. -/
def Extends (st : WitnessState) (rs : List Json) : Prop :=
  st.seq = .null ∨ ∃ first r, rs.head? = some first ∧
    (Json.str first.recordHash).pyEq st.genesisHash = true ∧ at? rs st.seq = some r ∧
    (Json.str r.recordHash).pyEq st.headHash = true

/-- The state names the first and the last record. -/
def Heads (rs : List Json) (st : WitnessState) : Prop :=
  ∃ first last seq, rs.head? = some first ∧ rs.getLast? = some last ∧
    last.field? "seq" = some seq ∧ st = ⟨.str first.recordHash, seq, .str last.recordHash⟩

/-- The checkpoint states what the state names. -/
def States (checkpoint : Json) (st : WitnessState) : Prop :=
  ∃ payload, checkpoint.field? "payload" = some payload ∧
    payload.field? "journal_genesis_hash" = some st.genesisHash ∧
    payload.field? "seq" = some st.seq ∧ payload.field? "head_hash" = some st.headHash

/-- Nothing is signed and no state changes. -/
structure Untouched (d d' : WitnessDir) : Prop where
  state : d'.state = d.state
  stateFile : d'.stateFile = d.stateFile
  checkpoints : d'.checkpoints = d.checkpoints

/-- A checkpoint is appended for a journal that extends the state. -/
structure Appended (P : Platform) (d d' : WitnessDir) (c : Witnessed) (st : WitnessState) :
    Prop where
  chain : Chain recordHash (Links P) 0 "genesis" c.records
  follows : Extends d.state c.records
  heads : Heads c.records st
  states : States c.checkpoint st
  checkpoints : d'.checkpoints = d.checkpoints ++ [c]

lemma Untouched.refl (d : WitnessDir) : Untouched d d := ⟨rfl, rfl, rfl⟩

variable {s : Machine WitnessDir} {st : WitnessState}

/-- `_fork` only writes evidence, and never returns. -/
lemma wp_fork :
    (W.fork st rs reason detail).wp (fun _ _ => False) (fun _ s' => Untouched s.world s'.world)
      s := by
  have hsame := Untouched.refl s.world
  simp only [fork, Proc.wp_bind]
  refine Proc.wp_ofOption.mpr ⟨fun first _ => ?_, fun _ => hsame⟩
  refine Proc.wp_ofOption.mpr ⟨fun hashAt _ => ?_, fun _ => hsame⟩
  refine Proc.wp_ofOption.mpr ⟨fun evidence _ => ?_, fun _ => hsame⟩
  simp only [Proc.wp_persist, Proc.wp_throw]
  exact ⟨fun _ => hsame, fun _ => ⟨rfl, rfl, rfl⟩⟩

lemma wp_forkUnless : (W.forkUnless c st rs reason detail).wp (fun _ s' => c = true ∧ s' = s)
      (fun _ s' => Untouched s.world s'.world) s := by
  unfold forkUnless
  rw [Proc.wp_ite]
  exact ⟨fun hc => ⟨hc, rfl⟩, fun _ => Proc.wp_mono wp_fork (fun _ _ h => h.elim) fun _ _ h => h⟩

/-- The records after the head are returned only if the journal has the head. -/
lemma wp_extension : (W.extension st rs).wp (fun _ s' => Extends st rs ∧ s' = s)
      (fun _ s' => Untouched s.world s'.world) s := by
  have hsame := Untouched.refl s.world
  unfold extension
  by_cases hnull : st.seq = .null
  · rw [if_pos hnull]
    exact ⟨.inl hnull, rfl⟩
  · rw [if_neg hnull]
    simp only [Proc.wp_bind]
    refine Proc.wp_ofOption.mpr ⟨fun first hfirst => ?_, fun _ => hsame⟩
    refine Proc.wp_mono wp_forkUnless (fun _ s1 hs => ?_) fun _ _ h => h
    obtain ⟨hgenesis, rfl⟩ := hs
    refine Proc.wp_ofOption.mpr ⟨fun short _ => ?_, fun _ => hsame⟩
    refine Proc.wp_ofOption.mpr ⟨fun text _ => ?_, fun _ => hsame⟩
    refine Proc.wp_mono wp_forkUnless (fun _ s1 hs => ?_) fun _ _ h => h
    obtain ⟨-, rfl⟩ := hs
    refine Proc.wp_ofOption.mpr ⟨fun r hr => ?_, fun _ => hsame⟩
    refine Proc.wp_mono wp_forkUnless (fun _ s1 hs => ?_) fun _ _ h => h
    obtain ⟨hhead, rfl⟩ := hs
    refine Proc.wp_ofOption.mpr ⟨fun start _ => ?_, fun _ => hsame⟩
    exact Proc.wp_ofOption.mpr
      ⟨fun _ _ => ⟨.inr ⟨first, r, hfirst, hgenesis, hr, hhead⟩, rfl⟩, fun _ => hsame⟩

variable {stamp : Option PyStr}

lemma wp_witnessedAt : (W.witnessedAt stamp).wp (fun _ s' => Untouched s.world s'.world)
      (fun _ s' => Untouched s.world s'.world) s := by
  have hread : (do
      let d ← Proc.read
      Proc.update fun d => { d with tick := d.tick + 1 }
      Proc.ofOption .raised (P.formatTime (W.clock d.tick)) : M PyStr).wp
        (fun _ s' => Untouched s.world s'.world) (fun _ s' => Untouched s.world s'.world) s := by
    simp only [Proc.wp_bind, Proc.wp_read, Proc.wp_update]
    exact Proc.wp_ofOption.mpr ⟨fun _ _ => ⟨rfl, rfl, rfl⟩, fun _ => ⟨rfl, rfl, rfl⟩⟩
  rcases stamp with - | (- | ⟨c, text⟩)
  · exact hread
  · exact hread
  · exact Untouched.refl _

variable {checkpoint : Json}

/-- What the checkpoint of a journal states. -/
lemma states_signPayload {genesis : PyStr} {seq : Json} {head witnessedAt : PyStr}
    (h : P.signPayload (.obj (checkpointFields genesis seq head witnessedAt W.kid)) W.sk W.kid =
      some checkpoint) :
    States checkpoint ⟨.str genesis, seq, .str head⟩ := by
  refine ⟨_, (P.field?_signPayload h).1, ?_, ?_, ?_⟩ <;> simp [checkpointFields]

/-- `observe` writes nothing, or it appends a checkpoint for a journal that extends the state
and then replaces the state, unless it is killed between the two. -/
theorem wp_observe : (W.observe file stamp).wp
      (fun _ s' => ∃ c st, Appended P s.world s'.world c st ∧ s'.world.state = st ∧
        s'.world.stateFile = st)
      (fun e s' => Untouched s.world s'.world ∨
        e = .killed ∧ s'.world.stateFile = s.world.stateFile ∧
          ∃ c st, Appended P s.world s'.world c st) s := by
  have hsame := Untouched.refl s.world
  simp only [observe, Proc.wp_bind, Proc.wp_read, Proc.wp_ofExcept]
  refine ⟨fun rs hrs => ?_, fun _ _ => .inl hsame⟩
  obtain ⟨-, -, hchain, -⟩ := readJournal_eq_ok.mp hrs
  refine Proc.wp_mono wp_extension (fun fresh s1 hs => ?_) fun _ _ h => .inl h
  obtain ⟨hext, rfl⟩ := hs
  refine ⟨fun _ _ => ?_, fun _ _ => .inl hsame⟩
  simp only [countersign, Proc.wp_bind]
  refine Proc.wp_ofOption.mpr ⟨fun first hfirst => ?_, fun _ => .inl hsame⟩
  refine Proc.wp_ofOption.mpr ⟨fun last hlast => ?_, fun _ => .inl hsame⟩
  refine Proc.wp_ofOption.mpr ⟨fun seq hseq => ?_, fun _ => .inl hsame⟩
  refine Proc.wp_mono wp_witnessedAt (fun at' s2 hs2 => ?_) fun _ _ h => .inl h
  refine Proc.wp_ofOption.mpr ⟨fun checkpoint hsign => ?_, fun _ => .inl hs2⟩
  refine Proc.wp_ofOption.mpr ⟨fun _ _ => ?_, fun _ => .inl hs2⟩
  have happended : ∀ d', d'.checkpoints = s1.world.checkpoints ++ [⟨checkpoint, rs⟩] →
      Appended P s1.world d' ⟨checkpoint, rs⟩ ⟨.str first.recordHash, seq, .str last.recordHash⟩ :=
    fun d' hd' => ⟨hchain, hext, ⟨first, last, seq, hfirst, hlast, hseq, rfl⟩,
      states_signPayload hsign, hd'⟩
  simp only [Proc.wp_persist, Proc.wp_update, Proc.wp_pure]
  refine ⟨fun _ => .inl hs2, fun _ => ⟨fun _ => ?_, fun _ => ?_⟩⟩
  · exact .inr ⟨trivial, hs2.stateFile, ⟨checkpoint, rs⟩, _,
      happended _ (by simp [Proc.written, hs2.checkpoints])⟩
  · exact ⟨⟨checkpoint, rs⟩, _, happended _ (by simp [Proc.written, hs2.checkpoints]), rfl, rfl⟩

/-! ## Histories in order -/

/-- The checkpoint was signed over a journal. -/
structure Valid (P : Platform) (c : Witnessed) : Prop where
  chain : Chain recordHash (Links P) 0 "genesis" c.records
  head : ∃ st, Heads c.records st ∧ States c.checkpoint st

/-- Every history that was signed continues the ones before it, and the state is the head of the
last one. -/
structure Forward (P : Platform) (d : WitnessDir) : Prop where
  loaded : d.state = d.stateFile
  last : (d.checkpoints = [] ∧ d.state.seq = .null) ∨
    ∃ c, d.checkpoints.getLast? = some c ∧ Heads c.records d.state
  valid : ∀ c ∈ d.checkpoints, Valid P c
  ordered : d.checkpoints.Pairwise fun c c' =>
    Continues SameRecord c.records c'.records

lemma forward_create (tick : ℕ) : Forward P (.create tick) :=
  ⟨rfl, .inl ⟨rfl, rfl⟩, by simp [WitnessDir.create], .nil⟩

/-- The seq of the last record is its position. -/
lemma Heads.seq_eq (hchain : Chain recordHash (Links P) 0 "genesis" rs) (h : Heads rs st) :
    st.seq.pyEq (.int (rs.length - 1 : ℕ)) = true := by
  obtain ⟨first, last, seq, -, hlast, hseq, rfl⟩ := h
  obtain ⟨init, rfl⟩ := List.getLast?_eq_some_iff.mp hlast
  obtain ⟨seq', hseq', heq⟩ := (HashChain.chain_append.mp hchain).2.1.seq
  obtain rfl := mem_unique hseq hseq'
  simpa using heq

/-- A journal that extends the head of a signed history continues that history. -/
theorem Extends.continues (hinj : P.DigestInjective) {rs' : List Json}
    (hchain : Chain recordHash (Links P) 0 "genesis" rs) (hheads : Heads rs st)
    (hchain' : Chain recordHash (Links P) 0 "genesis" rs') (hext : Extends st rs') :
    Continues SameRecord rs rs' := by
  have hseq := hheads.seq_eq hchain
  obtain ⟨first, last, seq, -, hlast, -, rfl⟩ := hheads
  rcases hext with hnull | ⟨first', r, -, -, hr, hhash⟩
  · -- a state that names a head is not the initial one
    rw [hnull] at hseq
    simp [pyEq_int_iff] at hseq
  · have hget := getElem?_of_at? hseq hr
    have heq : r.recordHash = last.recordHash := by simpa using pyEq_str_iff.mp hhash
    exact continues_of_hash (links_determined hinj) hchain hchain' hlast hget heq.symm

variable {d : WitnessDir}

lemma Forward.untouched (h : Forward P d) (hd : Untouched d d') : Forward P d' := by
  obtain ⟨hloaded, hlast, hvalid, hordered⟩ := h
  exact ⟨by rw [hd.state, hd.stateFile, hloaded], by rwa [hd.state, hd.checkpoints],
    by rwa [hd.checkpoints], by rwa [hd.checkpoints]⟩

/-- A checkpoint that is appended with its state keeps the order. -/
theorem Forward.appended (hinj : P.DigestInjective) {d' : WitnessDir} {c : Witnessed}
    (h : Forward P d) (hc : Appended P d d' c st) (hstate : d'.state = st)
    (hfile : d'.stateFile = st) : Forward P d' := by
  refine ⟨by rw [hstate, hfile], .inr ⟨c, ?_, hstate ▸ hc.heads⟩, ?_, ?_⟩
  · rw [hc.checkpoints, List.getLast?_concat]
  · rw [hc.checkpoints]
    refine forall_mem_append.mpr ⟨h.valid, forall_mem_singleton.mpr ?_⟩
    exact ⟨hc.chain, st, hc.heads, hc.states⟩
  · rw [hc.checkpoints, pairwise_append]
    refine ⟨h.ordered, pairwise_singleton _ _, fun c' hc' x hx => ?_⟩
    rw [mem_singleton.mp hx]
    rcases h.last with ⟨hnil, -⟩ | ⟨last, hlast, hheads⟩
    · simp [hnil] at hc'
    · -- the new history continues the last one, which continues the others
      have hvalid := h.valid last (mem_of_getLast? hlast)
      have hnew := hc.follows.continues hinj hvalid.chain hheads hc.chain
      obtain ⟨init, hinit⟩ := List.getLast?_eq_some_iff.mp hlast
      have hordered := h.ordered
      rw [hinit] at hc' hordered
      rcases mem_append.mp hc' with hold | hself
      · have hbefore := (pairwise_append.mp hordered).2.2 c' hold last (by simp)
        exact HashChain.Continues.trans (R := SameRecord) (fun _ _ _ => Eq.trans) hbefore hnew
      · rwa [mem_singleton.mp hself]

/-! ## Interruptions -/

/-- The process is killed after its checkpoint is appended and before the state is replaced. -/
def Interrupted (W : Witness P) (d : WitnessDir) : Event → Prop
  | .observe file stamp budget =>
    (W.observe file stamp ⟨d, budget⟩).1 = .error .killed ∧
      (W.observe file stamp ⟨d, budget⟩).2.world.checkpoints ≠ d.checkpoints
  | .restart => False

/-- No event of the run is interrupted. -/
def Uninterrupted (W : Witness P) : WitnessDir → List Event → Prop
  | _, [] => True
  | d, e :: es => ¬Interrupted W d e ∧ Uninterrupted W (W.step d e) es

/-- What holds however a call ends holds after the event. -/
lemma step_observe {budget : Option ℕ} {post : WitnessDir → Prop}
    (h : (W.observe file stamp).wp (fun _ s => post s.world) (fun e s => post (if e = .killed then
      s.world.restart else s.world)) ⟨d, budget⟩) :
    post (W.step d (.observe file stamp budget)) := by
  unfold Proc.wp at h
  rw [step]
  rcases hrun : W.observe file stamp ⟨d, budget⟩ with ⟨_ | _, s⟩
  · rw [hrun] at h
    rename_i e
    cases e <;> simpa using h
  · rw [hrun] at h
    exact h

lemma Forward.restart (h : Forward P d) : Forward P d.restart := by
  obtain ⟨st, file, checkpoints, forks, tick⟩ := d
  obtain rfl : st = file := h.loaded
  exact h

/-- An event that is not interrupted keeps the histories in order. -/
theorem Forward.step (hinj : P.DigestInjective) {e : Event} (h : Forward P d)
    (he : ¬Interrupted W d e) : Forward P (W.step d e) := by
  cases e with
  | restart => exact h.restart
  | observe file stamp budget =>
    refine step_observe (Proc.wp_mono (Proc.wp_run wp_observe) (fun cp s hs => ?_) fun e s hs => ?_)
    · obtain ⟨-, c, st, hc, hstate, hfile⟩ := hs
      exact h.appended hinj hc hstate hfile
    · obtain ⟨hrun, hs | ⟨rfl, -, c, st, hc⟩⟩ := hs
      · have huntouched := h.untouched hs
        split_ifs
        · exact huntouched.restart
        · exact huntouched
      · refine absurd ⟨by rw [hrun], ?_⟩ he
        rw [hrun, hc.checkpoints]
        simp

lemma Forward.run (hinj : P.DigestInjective) (h : Forward P d)
    (hevents : Uninterrupted W d events) : Forward P (W.run d events) := by
  induction events generalizing d with
  | nil => exact h
  | cons e events ih => exact ih (h.step hinj hevents.1) hevents.2

/-! ## Consistent checkpoints -/

/-- What a checkpoint names. -/
def Names (checkpoint : Json) (genesis : PyStr) (seq : ℕ) (head : PyStr) : Prop :=
  ∃ payload s, checkpoint.field? "payload" = some payload ∧
    payload.field? "journal_genesis_hash" = some (.str genesis) ∧
    payload.field? "seq" = some s ∧ s.pyEq (.int seq) = true ∧
    payload.field? "head_hash" = some (.str head)

/-- Two checkpoints name one genesis, and the one with the smaller seq names the hash that the
journal of the other has there. -/
def Consistent (c c' : Witnessed) : Prop :=
  ∃ genesis m n head head', Names c.checkpoint genesis m head ∧
    Names c'.checkpoint genesis n head' ∧
    (m ≤ n → ∃ r, c'.records[m]? = some r ∧ r.recordHash = head) ∧
    (n ≤ m → ∃ r, c.records[n]? = some r ∧ r.recordHash = head')

instance : Std.Symm Consistent where
  symm _ _ := fun ⟨genesis, m, n, head, head', hc, hc', hmn, hnm⟩ =>
    ⟨genesis, n, m, head', head, hc', hc, hnm, hmn⟩

/-- What the checkpoint of a history names: its first record, and the last one at its
position. -/
theorem Valid.names {c : Witnessed} (h : Valid P c) : ∃ first last,
    c.records[0]? = some first ∧ c.records[c.records.length - 1]? = some last ∧
    Names c.checkpoint first.recordHash (c.records.length - 1) last.recordHash := by
  obtain ⟨st, hheads, payload, hpayload, hgenesis, hseq, hhead⟩ := h.head
  have hpos := hheads.seq_eq h.chain
  obtain ⟨first, last, seq, hfirst, hlast, -, rfl⟩ := hheads
  exact ⟨first, last, List.head?_eq_getElem? ▸ hfirst, List.getLast?_eq_getElem? ▸ hlast, payload,
    seq, hpayload, hgenesis, hseq, hpos, hhead⟩

/-- Histories that continue one another have consistent checkpoints. -/
lemma consistent_of_continues (hc : Valid P c) (hc' : Valid P c')
    (h : Continues SameRecord c.records c'.records) : Consistent c c' := by
  obtain ⟨first, last, hfirst, hlast, hnames⟩ := hc.names
  obtain ⟨first', last', hfirst', hlast', hnames'⟩ := hc'.names
  obtain ⟨r, hr, hsame⟩ := h _ _ hfirst
  obtain rfl := mem_unique hfirst' hr
  obtain ⟨r, hr, hsame'⟩ := h _ _ hlast
  rw [← SameRecord.recordHash_eq hsame] at hnames'
  refine ⟨first.recordHash, _, _, _, _, hnames, hnames', fun _ =>
    ⟨r, hr, (SameRecord.recordHash_eq hsame').symm⟩, fun hle => ?_⟩
  -- the other history is not the shorter one, so both end at one position
  have hlt := (List.getElem?_eq_some_iff.mp hr).1
  have heq : c'.records.length - 1 = c.records.length - 1 := by omega
  rw [heq] at hlast' ⊢
  obtain rfl := mem_unique hlast' hr
  exact ⟨last, hlast, SameRecord.recordHash_eq hsame'⟩

/-- In a run in which no process is killed between the append of a checkpoint and the
replacement of the state, all checkpoints are pairwise consistent. -/
theorem checkpoints_consistent (hinj : P.DigestInjective) (W : Witness P) (tick : ℕ)
    (events : List Event) (hevents : Uninterrupted W (.create tick) events) :
    ∀ c ∈ (W.run (.create tick) events).checkpoints,
      ∀ c' ∈ (W.run (.create tick) events).checkpoints, Consistent c c' := by
  have h := (forward_create tick).run hinj hevents
  have hpairs : (W.run (.create tick) events).checkpoints.Pairwise Consistent :=
    h.ordered.imp_of_mem fun hc hc' => consistent_of_continues (h.valid _ hc) (h.valid _ hc')
  have hself : ∀ c ∈ (W.run (.create tick) events).checkpoints, Consistent c c := fun c hc =>
    consistent_of_continues (h.valid c hc) (h.valid c hc) (.refl (R := SameRecord) (fun _ => rfl) _)
  exact fun c hc c' hc' => hpairs.forall_of_forall hself hc hc'

/-! ## Accepted journals -/

/-- A journal that passes the checks is countersigned. -/
lemma observe_eq_countersign (hread : readJournal P file = .ok rs)
    (hext : W.extension s.world.state rs s = (.ok fresh, s))
    (hfinal : ∀ r ∈ fresh, W.checkFinality rs r = .ok ()) :
    W.observe file stamp s = W.countersign rs stamp s := by
  have hloop : forEach (W.checkFinality rs) fresh = .ok () := forEach_eq_ok.mpr hfinal
  rw [observe, hread, Proc.ofExcept_ok, pure_bind, Proc.read_bind, Proc.bind_run hext, hloop,
    Proc.ofExcept_ok, pure_bind]

/-- `countersign` on a head that can be signed: without a kill it appends the checkpoint and
replaces the state; a process killed after one write has only appended the checkpoint. -/
lemma countersign_run {stamp : PyStr} (hfirst : rs.head? = some first)
    (hlast : rs.getLast? = some last) (hseq : last.field? "seq" = some seq) (hstamp : stamp ≠ [])
    (hsign : P.signPayload (.obj (checkpointFields first.recordHash seq last.recordHash stamp
      W.kid)) W.sk W.kid = some checkpoint) (henc : checkpoint.encodable = true) (d : WitnessDir)
    (hst : st = ⟨.str first.recordHash, seq, .str last.recordHash⟩) :
    W.countersign rs (some stamp) ⟨d, none⟩ = (.ok checkpoint, ⟨{ d with
      checkpoints := d.checkpoints ++ [⟨checkpoint, rs⟩], state := st, stateFile := st }, none⟩) ∧
    W.countersign rs (some stamp) ⟨d, some 1⟩ = (.error .killed, ⟨{ d with
      checkpoints := d.checkpoints ++ [⟨checkpoint, rs⟩], state := st }, some 0⟩) := by
  obtain ⟨c, text, rfl⟩ := exists_cons_of_ne_nil hstamp
  obtain ⟨raw, hraw⟩ := isSome_iff_exists.mp ((P.jcs_isSome _).trans henc)
  have hrun : ∀ budget, W.countersign rs (some (c :: text)) ⟨d, budget⟩ = (do
      Proc.persist .killed fun d => { d with checkpoints := d.checkpoints ++ [⟨checkpoint, rs⟩] }
      Proc.update fun d => { d with state := st }
      Proc.persist .killed fun d => { d with stateFile := st }
      return checkpoint : M Json) ⟨d, budget⟩ := by
    intro budget
    simp only [countersign, hfirst, hlast, hseq, witnessedAt, hsign, hraw, hst, Proc.ofOption_some,
      pure_bind]
  exact ⟨hrun none, hrun (some 1)⟩

/-- A journal that passes the checks is signed, with any stamp that can be encoded; the event
leaves the directory as after a kill between the two writes, or with the new state. -/
lemma step_signs (stamp : PyStr) (hread : readJournal P file = .ok rs)
    (hext : ∀ budget, W.extension d.state rs ⟨d, budget⟩ = (.ok fresh, ⟨d, budget⟩))
    (hfinal : ∀ r ∈ fresh, W.checkFinality rs r = .ok ()) (hstamp : stamp ≠ [])
    (hstampe : stamp.encodable = true) :
    ∃ checkpoint st, Heads rs st ∧ States checkpoint st ∧
      W.step d (.observe file (some stamp) none) = { d with
        checkpoints := d.checkpoints ++ [⟨checkpoint, rs⟩], state := st, stateFile := st } ∧
      ¬Interrupted W d (.observe file (some stamp) none) ∧
      W.step d (.observe file (some stamp) (some 1)) = { d with
        checkpoints := d.checkpoints ++ [⟨checkpoint, rs⟩], state := d.stateFile } := by
  obtain ⟨-, -, hchain, hne⟩ := readJournal_eq_ok.mp hread
  obtain ⟨first, hfirst⟩ := ne_none_iff_exists'.mp (by simpa using hne : rs.head? ≠ none)
  obtain ⟨last, hlast⟩ := ne_none_iff_exists'.mp (by simpa using hne : rs.getLast? ≠ none)
  obtain ⟨_, _, hlinks⟩ := valid_of_mem hchain (mem_of_mem_head? hfirst)
  obtain ⟨_, _, hlinks'⟩ := valid_of_mem hchain (mem_of_getLast? hlast)
  obtain ⟨seq, hseq, -⟩ := hlinks'.seq
  have hpayload : (Json.obj (checkpointFields first.recordHash seq last.recordHash stamp
      W.kid)).encodable = true := by
    refine encodable_obj ?_
    simp [checkpointFields, hlinks.encodable.1, hlinks'.encodable.1, hstampe, kid,
      P.encodable_keyId, hlinks'.encodable.2 _ _ (by decide) hseq]
  have hkid : W.kid.encodable = true := P.encodable_keyId _
  obtain ⟨checkpoint, hsign, henc⟩ := P.exists_signPayload hpayload W.sk hkid
  obtain ⟨hrun, hkilled⟩ := countersign_run hfirst hlast hseq hstamp hsign henc d rfl
  have hobserve : ∀ budget, W.observe file (some stamp) ⟨d, budget⟩ =
      W.countersign rs (some stamp) ⟨d, budget⟩ :=
    fun budget => observe_eq_countersign hread (hext budget) hfinal
  refine ⟨checkpoint, _, ⟨first, last, seq, hfirst, hlast, hseq, rfl⟩, states_signPayload hsign,
    ?_, ?_, ?_⟩
  · rw [step, hobserve, hrun]
  · rw [Interrupted, hobserve, hrun]
    simp
  · rw [step, hobserve, hkilled]
    rfl

/-- Nothing is witnessed yet: every record is new. -/
lemma extension_initial (h : st.seq = .null) (s : Machine WitnessDir) :
    W.extension st rs s = (.ok rs, s) := by
  rw [extension, if_pos h]
  rfl

/-- A journal that appends to the one whose head was signed: its own records are new. -/
lemma extension_append (old new : List Json)
    (hfirst : old.head? = some first) (hlast : old.getLast? = some last)
    (hst : st = ⟨.str first.recordHash, .int (old.length - 1 : ℕ), .str last.recordHash⟩)
    (s : Machine WitnessDir) : W.extension st (old ++ new) s = (.ok new, s) := by
  subst hst
  have hpos : 0 < old.length := length_pos_of_mem (mem_of_getLast? hlast)
  have hhead : (old ++ new).head? = some first := by simp [hfirst]
  have hshort : lenLe (old ++ new).length (.int (old.length - 1 : ℕ)) = some false := by
    simp only [lenLe, length_append, Option.some.injEq, decide_eq_false_iff_not]
    omega
  have hat : at? (old ++ new) (.int (old.length - 1 : ℕ)) = some last := by
    rw [at?_natCast, List.getElem?_append_left (by omega), ← List.getLast?_eq_getElem?, hlast]
  have hstart : addOne (.int (old.length - 1 : ℕ)) = some (.int old.length) := by
    simp only [addOne, Option.some.injEq, int.injEq]
    omega
  have hfrom : from? (old ++ new) (.int old.length) = some new := by
    simp [from?, index?, position]
  have hself : ∀ t : PyStr, (str t).pyEq (.str t) = true := fun t => pyEq_str_iff.mpr rfl
  rw [extension, if_neg (by simp)]
  simp only [hhead, hshort, hat, hstart, hfrom, numberText, forkUnless, hself, Bool.not_false,
    if_true, Proc.ofOption_some, pure_bind]
  rfl

/-- A record of another kind is no finality. -/
lemma checkFinality_of_kind {r : Json} {kind : PyStr}
    (hkind : r.field? "kind" = some (.str kind)) (hne : kind ≠ "FINALIZED") :
    W.checkFinality rs r = .ok () := by
  have hpy : (Json.str kind).pyEq "FINALIZED" = false := by
    rw [Bool.eq_false_iff]
    intro h
    exact hne (by simpa using pyEq_str_iff.mp h)
  rw [checkFinality, hkind, ofOption, ok_bind, hpy]
  rfl

/-! ## The reference witness -/

/-- A witness on the reference platform that pins no key but its own. -/
def reference : Witness Platform.reference where
  sk := []
  authorityKeys := Platform.referenceKeys
  finalizerKeys := Platform.referenceKeys
  clock := fun _ => 0

/-- The file of a journal. -/
def fileOf (rs : List Json) : JournalFile := ⟨true, rs.map some⟩

/-- A rejection with a given reason, as the record at position `i`. -/
lemma exists_rejection (hi : (i : ℤ) ≤ maxSafe) (hprev : prev.encodable = true)
    (reason : String) : ∃ r,
    Crafted.Made Platform.reference i prev "ADMISSION_REJECTED" (.obj [("reason", reason)]) r :=
  Crafted.exists_made i prev "ADMISSION_REJECTED" (.obj [("reason", reason)]) hi hprev
    (PyStr.encodable_ofString _) (encodable_obj (by simp))

lemma checkFinality_rejection
    (h : Crafted.Made Platform.reference i prev "ADMISSION_REJECTED" body r) :
    reference.checkFinality rs r = .ok () :=
  checkFinality_of_kind h.kind (by simp)

/-- A journal of one rejection, and the same journal after a second one: both heads are signed,
and the checkpoints are consistent. -/
theorem checkpoints_consistent_rejections : ∃ (r₀ r₁ cp₀ cp₁ : Json),
    (reference.run (.create 0) [.observe (fileOf [r₀]) (some "t") none,
      .observe (fileOf [r₀, r₁]) (some "t") none]).checkpoints =
        [⟨cp₀, [r₀]⟩, ⟨cp₁, [r₀, r₁]⟩] ∧
    Consistent ⟨cp₀, [r₀]⟩ ⟨cp₁, [r₀, r₁]⟩ := by
  obtain ⟨r₀, h₀⟩ := exists_rejection (i := 0) (by decide) (PyStr.encodable_ofString "genesis") "a"
  obtain ⟨r₁, h₁⟩ := exists_rejection (i := 1) (by decide) h₀.hash "b"
  have hread₀ : readJournal Platform.reference (fileOf [r₀]) = .ok [r₀] :=
    readJournal_eq_ok.mpr ⟨rfl, rfl, ⟨h₀.links, trivial⟩, by simp⟩
  have hread₁ : readJournal Platform.reference (fileOf [r₀, r₁]) = .ok [r₀, r₁] :=
    readJournal_eq_ok.mpr ⟨rfl, rfl, ⟨h₀.links, h₁.links, trivial⟩, by simp⟩
  obtain ⟨cp₀, st, hheads, -, hstep₀, hwhole₀, -⟩ := step_signs "t" (W := reference)
    (d := .create 0) hread₀ (fun _ => extension_initial rfl _)
    (by simpa using checkFinality_rejection h₀) (by decide) (PyStr.encodable_ofString _)
  have hst : st = ⟨.str r₀.recordHash, .int 0, .str r₀.recordHash⟩ := by
    obtain ⟨first, last, seq, hfirst, hlast, hseq, rfl⟩ := hheads
    obtain rfl : r₀ = first := by simpa using hfirst
    obtain rfl : r₀ = last := by simpa using hlast
    rw [mem_unique hseq h₀.seq]
    rfl
  obtain ⟨cp₁, st', -, -, hstep₁, hwhole₁, -⟩ := step_signs "t" (W := reference)
    (d := { (WitnessDir.create 0) with checkpoints := [⟨cp₀, [r₀]⟩], state := st, stateFile := st })
    hread₁ (fun _ => extension_append [r₀] [r₁] rfl rfl hst _)
    (by simpa using checkFinality_rejection h₁) (by decide) (PyStr.encodable_ofString _)
  have hrun : (reference.run (.create 0) [.observe (fileOf [r₀]) (some "t") none,
      .observe (fileOf [r₀, r₁]) (some "t") none]).checkpoints =
        [⟨cp₀, [r₀]⟩, ⟨cp₁, [r₀, r₁]⟩] := by
    rw [run, foldl_cons, foldl_cons, hstep₀]
    exact congrArg WitnessDir.checkpoints hstep₁
  have hwhole : reference.Uninterrupted (.create 0) [.observe (fileOf [r₀]) (some "t") none,
      .observe (fileOf [r₀, r₁]) (some "t") none] := by
    refine ⟨hwhole₀, ?_, trivial⟩
    rw [hstep₀]
    exact hwhole₁
  have h := checkpoints_consistent Platform.reference_digestInjective reference 0 _ hwhole
  rw [hrun] at h
  exact ⟨r₀, r₁, cp₀, cp₁, hrun, h _ (by simp) _ (by simp)⟩

/-- The genesis that the checkpoint of one record names. -/
lemma names_genesis {r : Json} {genesis head : PyStr} {m : ℕ} (hheads : Heads [r] st)
    (hstates : States checkpoint st) (hnames : Names checkpoint genesis m head) :
    r.recordHash = genesis := by
  obtain ⟨first, last, seq, hfirst, -, -, rfl⟩ := hheads
  obtain ⟨payload, hpayload, hgenesis, -⟩ := hstates
  obtain ⟨payload', s, hpayload', hgenesis', -⟩ := hnames
  obtain rfl := mem_unique hpayload hpayload'
  obtain rfl : r = first := by simpa using hfirst
  simpa using hgenesis.symm.trans hgenesis'

/-- A process that is killed after it appended a checkpoint and before it replaced the state
signs another history when it is started again. -/
theorem checkpoints_fork : ∃ (rA rB cpA cpB : Json),
    (reference.run (.create 0) [.observe (fileOf [rA]) (some "t") (some 1),
      .observe (fileOf [rB]) (some "t") none]).checkpoints = [⟨cpA, [rA]⟩, ⟨cpB, [rB]⟩] ∧
    ¬Consistent ⟨cpA, [rA]⟩ ⟨cpB, [rB]⟩ := by
  obtain ⟨rA, hA⟩ := exists_rejection (i := 0) (by decide) (PyStr.encodable_ofString "genesis") "a"
  obtain ⟨rB, hB⟩ := exists_rejection (i := 0) (by decide) (PyStr.encodable_ofString "genesis") "b"
  have hread : ∀ {r : Json}, Links Platform.reference 0 "genesis" r →
      readJournal Platform.reference (fileOf [r]) = .ok [r] :=
    fun h => readJournal_eq_ok.mpr ⟨rfl, rfl, ⟨h, trivial⟩, by simp⟩
  obtain ⟨cpA, stA, hheadsA, hstatesA, -, -, hstepA⟩ := step_signs "t" (W := reference)
    (d := .create 0) (hread hA.links) (fun _ => extension_initial rfl _)
    (by simpa using checkFinality_rejection hA) (by decide) (PyStr.encodable_ofString _)
  -- the state still names no head
  obtain ⟨cpB, stB, hheadsB, hstatesB, hstepB, -⟩ := step_signs "t" (W := reference)
    (d := { (WitnessDir.create 0) with checkpoints := [⟨cpA, [rA]⟩] }) (hread hB.links)
    (fun _ => extension_initial rfl _) (by simpa using checkFinality_rejection hB) (by decide)
    (PyStr.encodable_ofString _)
  refine ⟨rA, rB, cpA, cpB, ?_, ?_⟩
  · rw [run, foldl_cons, foldl_cons, hstepA]
    exact congrArg WitnessDir.checkpoints hstepB
  · rintro ⟨genesis, m, n, head, head', hnamesA, hnamesB, -⟩
    have hhash := (names_genesis hheadsA hstatesA hnamesA).trans
      (names_genesis hheadsB hstatesB hnamesB).symm
    have hsame := canonical_eq_of_recordHash Platform.reference_digestInjective hA.links hB.links
      hhash
    -- the records reject for different reasons
    obtain ⟨body, hbody, hcanon⟩ := hsame.exists_field? hA.body
    obtain rfl := mem_unique hB.body hbody
    have hreason := canonical_field? hcanon "reason"
    simp at hreason

end Witness

end VdbC1
