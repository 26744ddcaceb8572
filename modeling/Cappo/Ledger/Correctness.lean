import Cappo.Ledger.Verifier
import Cappo.Lib.KeyedTable
import Mathlib.Data.List.Chain

/-!
# When the verification of a ledger ends, and what a valid report means

The loop of `_verify_links` keeps no set of visited rows. A row whose stored hash was replaced
by the hash of an intact row passes the test `self_hash(current) not in by_hash`, so its
pointer is followed, and the walk can come back to a row it has passed
(`Columns.ReachesCycle`). Where the call returns, its report is exact: a valid one means that
the rows form one chain from a row without predecessor on.

## Main results

* `Columns.exists_verify_iff`: the call ends exactly if hashing a row raises or the walk reaches
  no cycle;
* `Columns.forged_of_reachesCycle`: a cycle needs a row that carries the hash of another one;
* `Columns.valid_iff`: a report is valid exactly if the rows form one intact chain.
-/

open VdbC1 CapabilityMount

namespace Ledger

namespace Columns

open LinkWalk Relation List Option

variable {ρ : Type*} {L : Columns ρ} {events : List ρ} {byHash : List PyStr}
  {fuel : ℕ} {name : PyStr}

/-! ## Termination -/

/-- The walk goes on from `x` to `y`: `x` has the hash of an intact row, and `y` is the one row
that points at it. -/
def Follows (L : Columns ρ) (events : List ρ) (x y : ρ) : Prop :=
  L.Verified events (L.selfHash x) ∧ L.children events (L.selfHash x) = [y]

instance [DecidableEq ρ] (x y : ρ) : Decidable (L.Follows events x y) :=
  inferInstanceAs (Decidable (_ ∧ _))

/-- From the only row without a predecessor the walk reaches a row that it comes back to. -/
def ReachesCycle (L : Columns ρ) (events : List ρ) : Prop :=
  ∃ first x, L.genesis events = [first] ∧ ReflTransGen (L.Follows events) first x ∧
    TransGen (L.Follows events) x x

lemma link_next (hcheck : ∀ h, h ∈ byHash ↔ L.Verified events h) :
    Link (L.next events byHash) = L.Follows events := by
  funext x y
  rw [Link, next_eq_some, hcheck, Follows]

/-- The walk ends, with enough fuel, exactly if it reaches no cycle. -/
lemma exists_verifyLinks_iff (report : ChainReport)
    (hcheck : ∀ h, h ∈ byHash ↔ L.Verified events h) :
    (∃ fuel, L.verifyLinks fuel report events byHash ≠ none) ↔ ¬ L.ReachesCycle events := by
  cases hgenesis : L.genesis events with
  | nil => simp [verifyLinks, ReachesCycle, hgenesis]
  | cons first rest =>
    cases rest with
    | cons second rest => simp [verifyLinks, ReachesCycle, hgenesis]
    | nil =>
      have hfinite : {ev | ev ∈ events}.Finite := finite_toSet events
      have hwalk : (∃ l, Walk (L.next events byHash) first l) ↔ ¬ L.ReachesCycle events := by
        rw [exists_walk_iff hfinite fun x y hnext => (mem_of_next hnext).1, link_next hcheck]
        simp [ReachesCycle, hgenesis]
      rw [← hwalk]
      simp only [verifyLinks, hgenesis]
      constructor
      · rintro ⟨fuel, hsome⟩
        obtain ⟨report', hreport⟩ := ne_none_iff_exists'.mp hsome
        obtain ⟨l, w, -⟩ := exists_walk_of_walk hreport
        exact ⟨l, w⟩
      · rintro ⟨l, w⟩
        obtain ⟨-, -, report', -, hreport, -⟩ := walk_of_walk w le_rfl
        exact ⟨l.length, by rw [hreport]; exact nofun⟩

/-- The verifier ends at a row that cannot be hashed, or if its walk runs into no cycle. -/
lemma exists_verify_iff : (∃ fuel, L.verify fuel name events ≠ .running) ↔
      (∃ ev ∈ events, L.expected ev = none) ∨ ¬ L.ReachesCycle events := by
  by_cases hempty : events = []
  · subst hempty
    simp [verify, ReachesCycle, genesis]
  · simp only [verify, List.isEmpty_iff, hempty, if_false]
    cases hcheck : L.checkNodes events { name, total := events.length } [] with
    | none => simp [checkNodes_eq_none.mp hcheck]
    | some checked =>
      obtain ⟨report', byHash⟩ := checked
      have hraised : ¬ ∃ ev ∈ events, L.expected ev = none :=
        fun h => absurd (hcheck.symm.trans (checkNodes_eq_none.mpr h)) nofun
      have hmem : ∀ h, h ∈ byHash ↔ L.Verified events h := by
        simpa using (checkNodes_eq_some hcheck).1
      rw [or_iff_right hraised, ← exists_verifyLinks_iff report' hmem]
      refine exists_congr fun fuel => ?_
      dsimp only
      split <;> simp_all

/-- The recomputed hash of a row determines the hash it points at. -/
def Binding (L : Columns ρ) : Prop :=
  ∀ x y h, L.expected x = some h → L.expected y = some h → L.prevHash x = L.prevHash y

/-- Intact rows with one hash point at one hash. -/
lemma Binding.prevHash_eq (h : L.Binding) (ha : L.Intact a) (hb : L.Intact b)
    (heq : L.selfHash a = L.selfHash b) : L.prevHash a = L.prevHash b := by
  rw [Intact, ← heq] at hb
  exact h _ _ _ ha hb

/-- A walk that comes back needs a row with the hash of an intact row that is not its own. -/
theorem forged_of_reachesCycle (hbinding : L.Binding) (hcycle : L.ReachesCycle events) :
    ∃ ev ∈ events, ¬ L.Intact ev ∧ L.Verified events (L.selfHash ev) := by
  by_contra hforged
  have hintact : ∀ ev ∈ events, L.Verified events (L.selfHash ev) → L.Intact ev := by
    intro ev hev hverified
    by_contra hnot
    exact hforged ⟨ev, hev, hnot, hverified⟩
  obtain ⟨first, x, hgenesis, hreach, hback⟩ := hcycle
  have hfirst : first ∈ events ∧ L.prevHash first = none := by
    have : first ∈ L.genesis events := hgenesis ▸ mem_singleton_self first
    simpa [genesis] using this
  have hchild : ∀ {a b}, L.Follows events a b → b ∈ events ∧ L.prevHash b = some (L.selfHash a) :=
    fun h => mem_children.mp (h.2 ▸ mem_singleton_self _)
  have hreached : ∀ {a}, ReflTransGen (L.Follows events) first a → a ∈ events := by
    intro a ha
    rcases ReflTransGen.cases_tail ha with rfl | ⟨b, -, hb⟩
    · exact hfirst.1
    · exact (hchild hb).1
  -- two rows passed with one hash point at one hash, so the row before is passed twice as well
  suffices ∀ a, ReflTransGen (L.Follows events) first a →
      ¬ ∃ b, L.selfHash b = L.selfHash a ∧ TransGen (L.Follows events) a b from
    this x hreach ⟨x, rfl, hback⟩
  intro a ha
  induction ha with
  | refl =>
    rintro ⟨b, heq, hpath⟩
    obtain ⟨c, -, hc⟩ := TransGen.tail'_iff.mp hpath
    obtain ⟨d, hd, -⟩ := TransGen.head'_iff.mp hpath
    have hb := hintact b (hchild hc).1 (heq ▸ hd.1)
    have hsame := hbinding.prevHash_eq hb (hintact first hfirst.1 hd.1) heq
    rw [(hchild hc).2, hfirst.2] at hsame
    cases hsame
  | @tail p a hp hpa ih =>
    rintro ⟨b, heq, hpath⟩
    obtain ⟨c, hac, hc⟩ := TransGen.tail'_iff.mp hpath
    obtain ⟨d, hd, -⟩ := TransGen.head'_iff.mp hpath
    have hb := hintact b (hchild hc).1 (heq ▸ hd.1)
    have hsame := hbinding.prevHash_eq hb (hintact a (hchild hpa).1 hd.1) heq
    rw [(hchild hc).2, (hchild hpa).2, Option.some.injEq] at hsame
    exact ih ⟨c, hsame, TransGen.head' hpa hac⟩

/-! ## Exactness -/

/-- The rows, in some order, are one chain of intact rows that starts with a row without
predecessor. -/
def OneChain (L : Columns ρ) (events : List ρ) : Prop :=
  ∃ first rest, (first :: rest).Perm events ∧ L.prevHash first = none ∧
    (first :: rest).IsChain (fun a b => L.prevHash b = some (L.selfHash a)) ∧
    ∀ ev ∈ events, L.Intact ev

/-- The rows of a walk over all of them are the chain. -/
lemma oneChain_of_walk {first : ρ} (hintact : ∀ ev ∈ events, L.Intact ev)
    (hfirst : first ∈ events ∧ L.prevHash first = none)
    (w : Walk (L.next events byHash) first l) (hlength : events.length = l.length) :
    L.OneChain events := by
  have hsubset : ∀ ev ∈ l, ev ∈ events :=
    w.subset hfirst.1 fun x y hnext => (mem_of_next hnext).1
  -- the next row depends on the hash only, so no hash is passed twice
  have hnodup : (l.map L.selfHash).Nodup := by
    refine w.nodup_map fun x y heq => ?_
    rw [next, next, heq]
  have hperm : l.Perm events := (hnodup.of_map.subperm hsubset).perm_of_length_le hlength.le
  have hchain : l.IsChain fun a b => L.prevHash b = some (L.selfHash a) :=
    w.isChain.imp fun a b hlink => (mem_of_next hlink).2
  obtain ⟨rest, rfl⟩ := w.exists_eq_cons
  exact ⟨first, rest, hperm, hfirst.2, hchain, hintact⟩

section OneChain

lemma children_eq_singleton {h : PyStr} (hprevs : (events.map L.prevHash).Nodup)
    (hy : y ∈ L.children events h) : L.children events h = [y] := by
  obtain ⟨hmem, hprev⟩ := mem_children.mp hy
  rw [children, ← hprev]
  exact KeyedTable.filter_eq_singleton hprevs hmem

variable {first : ρ} {rest : List ρ}
  (hchain : (first :: rest).IsChain fun a b => L.prevHash b = some (L.selfHash a))
  (hfirst : L.prevHash first = none)

include hchain

/-- In a chain the hashes pointed at are the hashes of all rows but the last. -/
lemma map_prevHash : (first :: rest).map L.prevHash =
      L.prevHash first :: (first :: rest).dropLast.map fun ev => some (L.selfHash ev) := by
  induction rest generalizing first with
  | nil => rfl
  | cons second rest ih =>
    rw [isChain_cons_cons] at hchain
    rw [map_cons, ih hchain.2, hchain.1]
    rfl

include hfirst

/-- No two rows of a chain have one hash. -/
lemma nodup_selfHash (hbinding : L.Binding)
    (hintact : ∀ ev ∈ first :: rest, L.Intact ev) : ((first :: rest).map L.selfHash).Nodup := by
  generalize hl : first :: rest = l at hchain hintact
  have hzero : ∀ h : 0 < l.length, L.prevHash l[0] = none := by
    subst hl
    exact fun _ => hfirst
  have hprev := isChain_iff_getElem.mp hchain
  -- rows `i < j` with one hash point at one hash, and so do those before them
  have hsame : ∀ {i j} (hij : i < j) (hj : j < l.length), L.selfHash l[i] = L.selfHash l[j] →
      L.prevHash l[i] = L.prevHash l[j] := fun hij hj =>
    hbinding.prevHash_eq (hintact _ (getElem_mem (hij.trans hj))) (hintact _ (getElem_mem hj))
  have hne : ∀ i j (hij : i < j) (hj : j < l.length), L.selfHash l[i] ≠ L.selfHash l[j] := by
    intro i
    induction i with
    | zero =>
      intro j hij hj heq
      obtain ⟨k, rfl⟩ := Nat.exists_eq_add_of_lt hij
      have hnone := hsame hij hj heq
      rw [hzero, hprev] at hnone
      cases hnone
    | succ i ih =>
      intro j hij hj heq
      obtain ⟨k, rfl⟩ := Nat.exists_eq_add_of_lt hij
      have hbefore := hsame hij hj heq
      rw [hprev, hprev, Option.some.injEq] at hbefore
      exact ih (i + 1 + k) (by omega) (by omega) hbefore
  rw [List.Nodup, pairwise_map, pairwise_iff_getElem]
  exact fun i j _ hj hij => hne i j hij hj

/-- No two rows of a chain point at one hash. -/
lemma nodup_prevHash (hhashes : ((first :: rest).map L.selfHash).Nodup) :
    ((first :: rest).map L.prevHash).Nodup := by
  rw [map_prevHash hchain, hfirst, nodup_cons]
  constructor
  · intro hnone
    obtain ⟨ev, -, heq⟩ := mem_map.mp hnone
    nomatch heq
  · have : ((first :: rest).dropLast.map L.selfHash).Nodup :=
      hhashes.sublist ((dropLast_sublist _).map _)
    rw [← Function.comp_def some L.selfHash, ← List.map_map]
    exact this.map (some_injective _)

/-- The walk over a chain of all rows passes the whole chain, and nowhere does it fork. -/
lemma walk_of_oneChain (hbinding : L.Binding) (hperm : (first :: rest).Perm events)
    (hintact : ∀ ev ∈ events, L.Intact ev) (hmem : ∀ ev ∈ events, L.selfHash ev ∈ byHash) :
    Walk (L.next events byHash) first (first :: rest) ∧ (events.map L.prevHash).Nodup := by
  have hhashes : ((first :: rest).map L.selfHash).Nodup :=
    nodup_selfHash hchain hfirst hbinding fun ev hev => hintact ev (hperm.mem_iff.mp hev)
  have hprevs : (events.map L.prevHash).Nodup :=
    (hperm.map _).nodup_iff.mp (nodup_prevHash hchain hfirst hhashes)
  refine ⟨walk_of_isChain ?_ ?_, hprevs⟩
  · refine hchain.imp_of_mem_imp fun a b ha hb hab => next_eq_some.mpr ⟨?_, ?_⟩
    · exact hmem a (hperm.mem_iff.mp ha)
    · exact children_eq_singleton hprevs (mem_children.mpr ⟨hperm.mem_iff.mp hb, hab⟩)
  · -- the last row's hash is none of those pointed at
    generalize hlast : (first :: rest).getLast (cons_ne_nil first rest) = last
    have hsplit := dropLast_append_getLast (cons_ne_nil first rest)
    rw [hlast] at hsplit
    rw [eq_none_iff_forall_ne_some]
    intro y hy
    obtain ⟨hyevents, hyprev⟩ := mem_of_next hy
    have hpointed : some (L.selfHash last) ∈ (first :: rest).map L.prevHash :=
      hyprev ▸ mem_map_of_mem (hperm.mem_iff.mpr hyevents)
    rw [map_prevHash hchain, hfirst, mem_cons, or_iff_right nofun] at hpointed
    obtain ⟨ev, hev, heq⟩ := mem_map.mp hpointed
    rw [← hsplit, map_append, nodup_append] at hhashes
    exact hhashes.2.2 _ (mem_map_of_mem hev) _ (mem_singleton_self _) (some.inj heq)

/-- The one row without predecessor of a chain is its first. -/
lemma genesis_of_oneChain (hperm : (first :: rest).Perm events) : L.genesis events = [first] := by
  have hrest : ∀ ev ∈ rest, L.prevHash ev ≠ none := by
    intro ev hev
    have hmap := map_prevHash hchain
    rw [map_cons, List.cons.injEq] at hmap
    obtain ⟨ev', -, heq⟩ := mem_map.mp (hmap.2 ▸ mem_map_of_mem hev)
    exact heq ▸ nofun
  have hgenesis : (first :: rest).filter (fun ev => L.prevHash ev = none) = [first] := by
    rw [filter_cons_of_pos (by simpa using hfirst)]
    have : rest.filter (fun ev => L.prevHash ev = none) = [] :=
      filter_eq_nil_iff.mpr fun ev hev => by simpa using hrest ev hev
    rw [this]
  exact perm_singleton.mp (hgenesis ▸ (hperm.filter _).symm)

end OneChain

variable {report : ChainReport}

/-- A report is valid exactly if there is no row or the rows form one intact chain. -/
theorem valid_iff (hbinding : L.Binding)
    (hreturned : L.verify fuel name events = .returned report) :
    report.valid = true ↔ events = [] ∨ L.OneChain events := by
  by_cases hempty : events = []
  · subst hempty
    cases hreturned
    simp
  rw [or_iff_right hempty]
  simp only [verify, List.isEmpty_iff, hempty, if_false] at hreturned
  split at hreturned
  · nomatch hreturned
  next checked byHash hcheck =>
  obtain ⟨hmem, hvalid⟩ := checkNodes_eq_some hcheck
  have hintact : checked.valid = true ↔ ∀ ev ∈ events, L.Intact ev := by simpa using hvalid
  split at hreturned
  · nomatch hreturned
  next report' hlinks =>
  cases hreturned
  have hbyHash : (∀ ev ∈ events, L.Intact ev) → ∀ ev ∈ events, L.selfHash ev ∈ byHash :=
    fun h ev hev => (hmem _).mpr (.inr ⟨ev, hev, h ev hev, rfl⟩)
  rw [verifyLinks] at hlinks
  constructor
  · intro hreport
    split at hlinks
    · cases hlinks
      nomatch hreport
    · next first hgenesis =>
      have hfirst : first ∈ L.genesis events := hgenesis ▸ mem_singleton_self first
      obtain ⟨l, w, hle⟩ := exists_walk_of_walk hlinks
      obtain ⟨final, hfinal, report'', hlast, hwalk, hone⟩ := walk_of_walk w hle
      obtain rfl := mem_unique hlinks hwalk
      obtain ⟨hchecked, hend⟩ := (valid_of_walk_one hlast hone).mp hreport
      have hall := hintact.mp hchecked
      have hfinal' : final ∈ events :=
        w.subset (mem_of_mem_filter hfirst) (fun x y hnext => (mem_of_next hnext).1) final hfinal
      have hcount := (hend (hbyHash hall final hfinal')).2
      refine oneChain_of_walk hall (by simpa [genesis] using hfirst) w ?_
      have := length_pos_of_mem hfinal
      omega
    · next hnil _ =>
      cases hlinks
      exact absurd ((ChainReport.valid_failAll _ _ _ _).mp hreport).2 hnil
  · rintro ⟨first, rest, hperm, hfirst, hchain, hall⟩
    rw [genesis_of_oneChain hchain hfirst hperm] at hlinks
    obtain ⟨w, hprevs⟩ := walk_of_oneChain hchain hfirst hbinding hperm hall (hbyHash hall)
    obtain ⟨l, w', hle⟩ := exists_walk_of_walk hlinks
    obtain rfl := w.unique w'
    obtain ⟨final, hfinal, report'', hlast, hwalk, hone⟩ := walk_of_walk w hle
    obtain rfl := Option.mem_unique hlinks hwalk
    refine (valid_of_walk_one hlast hone).mpr ⟨hintact.mpr hall, fun hfinalHash => ⟨?_, ?_⟩⟩
    · rw [eq_nil_iff_forall_not_mem]
      intro y hy
      have hnext := next_eq_some.mpr ⟨hfinalHash, children_eq_singleton hprevs hy⟩
      nomatch hlast.symm.trans hnext
    · have := hperm.length_eq
      rw [length_cons] at this ⊢
      omega

end Columns

/-! ## The two ledgers -/

namespace Canonical

variable {C : Canonical}

/-- SHA-256 is injective on the texts that have an encoding. -/
def Sha256Injective (C : Canonical) : Prop :=
  ∀ s t digest, C.sha256Text s = some digest → C.sha256Text t = some digest → s = t

lemma nullable_injective : Function.Injective nullable := by
  intro a b h
  match a, b with
  | none, none => rfl
  | some s, some t => rw [Json.str.inj h]

/-- Objects with one hash have the same members, up to the order inside each. -/
lemma lookup_of_sha256Json (hsha : C.Sha256Injective)
    (ha : C.sha256Json (.obj a) = some h) (hb : C.sha256Json (.obj b) = some h) (k : PyStr) :
    (FieldMap.lookup k a).map JsonText.sorted = (FieldMap.lookup k b).map JsonText.sorted := by
  have hsorted := JsonText.dumpsAll_inj C.floatTexts (hsha _ _ _ ha hb)
  exact (Json.normWith_obj_eq_iff id _ _).mp hsorted k

lemma sorted_nullable (s : Option PyStr) : JsonText.sorted (nullable s) = nullable s := by
  cases s <;> rfl

lemma auditColumns_binding (hsha : C.Sha256Injective) : C.auditColumns.Binding := by
  intro x y h hx hy
  have hprev := lookup_of_sha256Json hsha hx hy "previous_log_hash"
  change some (JsonText.sorted (nullable x.previousLogHash)) =
    some (JsonText.sorted (nullable y.previousLogHash)) at hprev
  rw [sorted_nullable, sorted_nullable] at hprev
  exact nullable_injective (Option.some.inj hprev)

/-- Only a row whose payload is an object has a hash. -/
lemma pglColumns_expected (hexpected : C.pglColumns.expected ev = some h) : ∃ fields,
      C.sha256Json (.obj (("previous_event_hash",
        nullable ev.previousEventHash) :: fields)) = some h := by
  rw [pglColumns] at hexpected
  dsimp only at hexpected
  split at hexpected
  · exact ⟨_, hexpected⟩
  · nomatch hexpected

lemma pglColumns_binding (hsha : C.Sha256Injective) : C.pglColumns.Binding := by
  intro x y h hx hy
  obtain ⟨fields, hx⟩ := pglColumns_expected hx
  obtain ⟨fields', hy⟩ := pglColumns_expected hy
  have hprev := lookup_of_sha256Json hsha hx hy "previous_event_hash"
  rw [FieldMap.lookup_cons, FieldMap.lookup_cons, if_pos rfl, if_pos rfl, Option.map_some,
    Option.map_some, sorted_nullable, sorted_nullable] at hprev
  exact nullable_injective (Option.some.inj hprev)

/-- A PGL report is valid exactly if the certificate has no row or its rows form one intact
chain. -/
lemma verifyPglChain_valid_iff (hsha : C.Sha256Injective) {fuel : ℕ} {events : List PGLLedgerEvent}
    (hreturned : C.verifyPglChain fuel certificateId events = .returned report) :
    report.valid = true ↔ (events.filter fun ev => ev.certificateId = certificateId) = [] ∨
      C.pglColumns.OneChain (events.filter fun ev => ev.certificateId = certificateId) :=
  Columns.valid_iff (pglColumns_binding hsha) hreturned

/-- An audit report is valid exactly if there is no row or the rows, in some order, start with
one without predecessor, each later one points at the one before, and every row has the hash of
its own fields. -/
theorem verifyAuditChain_valid_iff (hsha : C.Sha256Injective) {fuel : ℕ}
    {events : List AuditEvent} {report : ChainReport}
    (hreturned : C.verifyAuditChain fuel events = .returned report) :
    report.valid = true ↔ events = [] ∨ ∃ first rest, (first :: rest).Perm events ∧
      first.previousLogHash = none ∧
      (first :: rest).IsChain (fun a b => b.previousLogHash = some a.logHash) ∧
      ∀ ev ∈ events, C.auditColumns.expected ev = some ev.logHash :=
  Columns.valid_iff (auditColumns_binding hsha) hreturned

/-- The verification of a ledger ends exactly if hashing one of the rows raises or the walk from
the only row without predecessor never comes back to a row. -/
theorem verification_ends_iff (C : Canonical) :
    (∀ events : List AuditEvent, (∃ fuel, C.verifyAuditChain fuel events ≠ .running) ↔
      (∃ ev ∈ events, C.auditColumns.expected ev = none) ∨
        ¬ C.auditColumns.ReachesCycle events) ∧
    ∀ (certificateId : PyStr) (events : List PGLLedgerEvent),
      (∃ fuel, C.verifyPglChain fuel certificateId events ≠ .running) ↔
        (∃ ev ∈ events, ev.certificateId = certificateId ∧ C.pglColumns.expected ev = none) ∨
          ¬ C.pglColumns.ReachesCycle
            (events.filter fun ev => ev.certificateId = certificateId) := by
  refine ⟨fun events => Columns.exists_verify_iff, fun certificateId events => ?_⟩
  have hends := @Columns.exists_verify_iff _ C.pglColumns
    (events.filter fun ev => ev.certificateId = certificateId)
    ("pgl_ledger:" ++ certificateId)
  simp only [List.mem_filter, decide_eq_true_eq, and_assoc] at hends
  exact hends

end Canonical

/-! ## Small tables -/

namespace Sample

/-- A hash that is injective: the text itself. -/
def canonical : Canonical where
  reprFloat := JsonText.fractionText
  floatTexts := JsonText.floatTexts_fractionText
  sha256Text := some

lemma sha256Injective : canonical.Sha256Injective := fun _ _ _ hs ht =>
  (Option.some.inj hs).trans (Option.some.inj ht).symm

/-- A row as `record` writes it. -/
def recorded (logId : PyStr) (previousLogHash : Option PyStr) : AuditEvent :=
  let ev : AuditEvent :=
    { logId, operationType := "run", workspaceId := none, runId := none,
      payload := .obj [], previousLogHash, logHash := [], createdAt := 0 }
  { ev with logHash := (canonical.auditColumns.expected ev).getD [] }

def first : AuditEvent := recorded "1" none

def second : AuditEvent := recorded "2" (some first.logHash)

/-- A row whose stored hash was replaced by the hash of the first row. -/
def forged : AuditEvent :=
  { recorded "3" (some second.logHash) with logHash := first.logHash }

end Sample

open Sample

/-- The rows `first` and `second`, in whatever order, are a valid ledger. -/
theorem verifyAuditChain_valid_two :
    ∃ first rest, (first :: rest).Perm [Sample.second, Sample.first] ∧
      first.previousLogHash = none ∧
      (first :: rest).IsChain (fun a b => b.previousLogHash = some a.logHash) ∧
      ∀ ev ∈ [Sample.second, Sample.first],
        Sample.canonical.auditColumns.expected ev = some ev.logHash := by
  have hreturned : canonical.verifyAuditChain 2 [second, first] =
      .returned { name := "audit_events", total := 2 } := by
    decide +kernel
  have hvalid := Canonical.verifyAuditChain_valid_iff sha256Injective hreturned
  exact (hvalid.mp rfl).resolve_left nofun

/-- The last row carries the hash of the first, so the walk goes from the second row to the last
and back, for ever. -/
theorem verifyAuditChain_running :
    ¬ ∃ fuel, Sample.canonical.verifyAuditChain fuel
      [Sample.first, Sample.second, Sample.forged] ≠ .running := by
  have hcycle : canonical.auditColumns.ReachesCycle
      [first, second, forged] := by
    have hgenesis : canonical.auditColumns.genesis
        [first, second, forged] = [first] := by
      decide +kernel
    have hto : canonical.auditColumns.Follows
        [first, second, forged] second forged := by
      decide +kernel
    have hfrom : canonical.auditColumns.Follows
        [first, second, forged] forged second := by
      decide +kernel
    have hfirst : canonical.auditColumns.Follows
        [first, second, forged] first second := by
      decide +kernel
    exact ⟨first, second, hgenesis, .single hfirst, .tail (.single hto) hfrom⟩
  have hraised : ¬ ∃ ev ∈ [first, second, forged],
      canonical.auditColumns.expected ev = none := by
    decide +kernel
  intro hends
  rcases Columns.exists_verify_iff.mp hends with h | h
  · exact hraised h
  · exact h hcycle

end Ledger
