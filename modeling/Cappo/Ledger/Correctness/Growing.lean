import Cappo.Ledger.Correctness
import Cappo.Lib.BackLinks

/-!
# Ledgers that grow by appending

The rows of a ledger to which rows are only appended, each with the hash of its own columns and
pointing at a row before it or at none, are reported valid exactly if they are a chain in the order
in which they were appended (`Columns.reportsValid_iff_chained`).
-/

open VdbC1 CapabilityMount

namespace Ledger

namespace Columns

open BackLinks

variable {ρ : Type*} {L : Columns ρ} {events rows : List ρ} {name : PyStr}

/-- The call returns, and its report is valid. -/
def ReportsValid (L : Columns ρ) (name : PyStr) (events : List ρ) : Prop :=
  ∃ fuel report, L.verify fuel name events = .returned report ∧ report.valid = true

/-- The verification of intact rows returns. -/
lemma exists_returned_of_intact (hbinding : L.Binding) (hintact : ∀ ev ∈ events, L.Intact ev) :
    ∃ fuel report, L.verify fuel name events = .returned report := by
  have hcycle : ¬ L.ReachesCycle events := by
    intro hcycle
    obtain ⟨ev, hev, hnot, -⟩ := forged_of_reachesCycle hbinding hcycle
    exact hnot (hintact ev hev)
  obtain ⟨fuel, hends⟩ := exists_verify_iff.mpr (.inr hcycle)
  cases hverify : L.verify fuel name events with
  | returned report => exact ⟨fuel, report, hverify⟩
  | running => exact absurd hverify hends
  | raised =>
    -- every row has a hash
    unfold verify at hverify
    dsimp only at hverify
    split at hverify
    · nomatch hverify
    · split at hverify
      · next hcheck =>
        obtain ⟨ev, hev, hnone⟩ := checkNodes_eq_none.mp hcheck
        nomatch (hintact ev hev).symm.trans hnone
      · split at hverify <;> nomatch hverify

lemma reportsValid_iff (hbinding : L.Binding) (hintact : ∀ ev ∈ events, L.Intact ev) :
    L.ReportsValid name events ↔ events = [] ∨ L.OneChain events := by
  constructor
  · rintro ⟨fuel, report, hreturned, hvalid⟩
    exact (valid_iff hbinding hreturned).mp hvalid
  · intro hchain
    obtain ⟨fuel, report, hreturned⟩ := @exists_returned_of_intact _ L events name hbinding hintact
    exact ⟨fuel, report, hreturned, (valid_iff hbinding hreturned).mpr hchain⟩

/-- A chain in the order of the rows. -/
lemma chained_cons_iff : Chained L.selfHash L.prevHash (first :: rest) ↔ L.prevHash first = none ∧
      (first :: rest).IsChain fun a b => L.prevHash b = some (L.selfHash a) := by
  constructor
  · intro hchained
    refine ⟨hchained [] first rest rfl, List.isChain_iff_forall_rel_of_append_cons_cons.mpr ?_⟩
    intro a b pre post hsplit
    exact hchained.prev_after hsplit
  · rintro ⟨hfirst, hchain⟩ pre b post hsplit
    rcases List.eq_nil_or_concat' pre with rfl | ⟨pre, a, rfl⟩
    · cases hsplit
      exact hfirst
    · rw [tip_concat]
      rw [List.append_assoc, List.singleton_append] at hsplit
      exact List.isChain_iff_forall_rel_of_append_cons_cons.mp hchain hsplit

lemma nodup_of_chained (hbinding : L.Binding) (hintact : ∀ ev ∈ rows, L.Intact ev)
    (hchained : Chained L.selfHash L.prevHash rows) : (rows.map L.selfHash).Nodup := by
  cases rows with
  | nil => exact List.nodup_nil
  | cons first rest =>
    obtain ⟨hfirst, hchain⟩ := chained_cons_iff.mp hchained
    exact nodup_selfHash hchain hfirst hbinding hintact

/-- Rows that were appended one by one, read in any order, are valid exactly if they are a chain in
the order in which they were appended. -/
theorem reportsValid_iff_chained (hbinding : L.Binding) (hintact : ∀ ev ∈ rows, L.Intact ev)
    (hgrown : Grown L.selfHash L.prevHash rows) (hperm : events.Perm rows) :
    L.ReportsValid name events ↔ Chained L.selfHash L.prevHash rows := by
  have hintact' : ∀ ev ∈ events, L.Intact ev := fun ev hev => hintact ev (hperm.mem_iff.mp hev)
  rw [reportsValid_iff hbinding hintact']
  constructor
  · rintro (rfl | ⟨first, rest, hperm', hfirst, hchain, -⟩)
    · obtain rfl := List.nil_perm.mp hperm
      exact AuditLog.audited_nil
    · -- in whatever order, no two rows point at one hash
      have hintact'' : ∀ ev ∈ first :: rest, L.Intact ev := fun ev hev =>
        hintact' ev (hperm'.mem_iff.mp hev)
      have hnodup := nodup_prevHash hchain hfirst (nodup_selfHash hchain hfirst hbinding hintact'')
      exact chained_of_nodup hgrown (((hperm'.trans hperm).map _).nodup_iff.mp hnodup)
  · intro hchained
    cases rows with
    | nil => exact .inl (List.perm_nil.mp hperm)
    | cons first rest =>
      obtain ⟨hfirst, hchain⟩ := chained_cons_iff.mp hchained
      exact .inr ⟨first, rest, hperm.symm, hfirst, hchain, hintact'⟩

end Columns

end Ledger
