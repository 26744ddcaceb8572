import Cappo.Ledger.Correctness.PglAppends

/-!
# What a valid PGL ledger says about its rows

The hash of a row covers the members of its payload and the hash it points at. A row of a valid
table that has the hash of a row that was written carries what was hashed then, and so do the rows
before it, none of which can be missing (`Canonical.edited_carries`). The columns `event_type` and
`certificate_id` are copies of two members that no verification reads or compares: they can be
changed without any report noticing.
-/

open VdbC1 CapabilityMount

namespace Ledger

/-- A member of the payload of a row. -/
def PGLLedgerEvent.member (ev : PGLLedgerEvent) (key : PyStr) : Option Json :=
  match ev.payload with
  | .obj fields => FieldMap.lookup key fields
  | _ => none

/-- `ev` carries what was hashed for `w`: the same predecessor and, up to the order inside each, the
same members, but for the one that the predecessor's hash takes the place of. -/
structure Carries (ev w : PGLLedgerEvent) : Prop where
  eventHash : ev.eventHash = w.eventHash
  previousEventHash : ev.previousEventHash = w.previousEventHash
  member : ∀ key, key ≠ PyStr.ofString "previous_event_hash" →
    (ev.member key).map JsonText.sorted = (w.member key).map JsonText.sorted

/-- A text is carried as it was. -/
lemma Carries.member_str {ev w : PGLLedgerEvent} (h : Carries ev w)
    (hkey : key ≠ PyStr.ofString "previous_event_hash") (hw : w.member key = some (.str text)) :
    ev.member key = some (.str text) := by
  have hmember := h.member key hkey
  rw [hw] at hmember
  obtain ⟨value, hvalue, hsorted⟩ := Option.map_eq_some_iff.mp hmember
  rw [hvalue]
  cases value with
  | str s => exact congrArg some hsorted
  | _ => nomatch hsorted

/-- The row `y` is one that `x` points at. -/
def Predecessor (rows : List PGLLedgerEvent) (x y : PGLLedgerEvent) : Prop :=
  y ∈ rows ∧ x.previousEventHash = some y.eventHash

/-- In a chain a row that points at a hash points at a row. -/
lemma Columns.exists_predecessor {ρ : Type*} {L : Columns ρ} {events : List ρ} {ev : ρ}
    {h : PyStr} (hchain : L.OneChain events) (hev : ev ∈ events) (hprev : L.prevHash ev = some h) :
    ∃ before ∈ events, L.selfHash before = h := by
  obtain ⟨first, rest, hperm, hfirst, hchain, -⟩ := hchain
  have hmem : some h ∈ (first :: rest).map L.prevHash :=
    hprev ▸ List.mem_map_of_mem (hperm.mem_iff.mpr hev)
  rw [Columns.map_prevHash hchain, hfirst, List.mem_cons, or_iff_right nofun] at hmem
  obtain ⟨before, hbefore, heq⟩ := List.mem_map.mp hmem
  refine ⟨before, hperm.mem_iff.mp (List.dropLast_subset _ hbefore), Option.some.inj heq⟩

namespace Canonical

open Relation

variable {C : Canonical} {ev w w' : PGLLedgerEvent} {appends : List Append}
  {edited : List PGLLedgerEvent}

/-- Every certificate is reported valid. -/
def AllValid (C : Canonical) (rows : List PGLLedgerEvent) : Prop :=
  ∀ certificateId, ∃ fuel report,
    C.verifyPglChain fuel certificateId rows = .returned report ∧ report.valid = true

/-- An intact row is hashed from its members. -/
lemma exists_fields_of_intact (h : C.pglColumns.Intact ev) : ∃ fields, ev.payload = .obj fields ∧
      C.sha256Json (.obj ((PyStr.ofString "previous_event_hash",
        nullable ev.previousEventHash) :: fields)) = some ev.eventHash := by
  change C.pglColumns.expected ev = some ev.eventHash at h
  rw [pglColumns] at h
  dsimp only at h
  split at h
  · next fields hpayload => exact ⟨fields, hpayload, h⟩
  · cases h

/-- Intact rows with one hash carry the same. -/
lemma carries_of_intact (hsha : C.Sha256Injective) (hev : C.pglColumns.Intact ev)
    (hw : C.pglColumns.Intact w) (heq : ev.eventHash = w.eventHash) : Carries ev w where
  eventHash := heq
  previousEventHash := by
    refine pglColumns_binding hsha ev w w.eventHash ?_ hw
    rw [← heq]
    exact hev
  member := by
    intro key hkey
    obtain ⟨fields, hfields, hhash⟩ := exists_fields_of_intact hev
    obtain ⟨fields', hfields', hhash'⟩ := exists_fields_of_intact hw
    rw [heq] at hhash
    have hlookup := lookup_of_sha256Json hsha hhash hhash' key
    rw [FieldMap.lookup_cons, FieldMap.lookup_cons, if_neg hkey, if_neg hkey] at hlookup
    rw [PGLLedgerEvent.member, PGLLedgerEvent.member, hfields, hfields']
    exact hlookup

variable {rows : List PGLLedgerEvent}

lemma mem_ofCertificate (hev : ev ∈ rows) : ev ∈ ofCertificate ev.certificateId rows :=
  List.mem_filter.mpr ⟨hev, decide_eq_true rfl⟩

/-- The rows of a certificate in a valid table are one chain. -/
lemma oneChain_of_allValid (hsha : C.Sha256Injective) (hvalid : C.AllValid edited)
    (hev : ev ∈ edited) : C.pglColumns.OneChain (ofCertificate ev.certificateId edited) := by
  obtain ⟨fuel, report, hreturned, hreport⟩ := hvalid ev.certificateId
  refine ((verifyPglChain_valid_iff hsha hreturned).mp hreport).resolve_left fun hnil => ?_
  have hmem := mem_ofCertificate hev
  rw [ofCertificate, hnil] at hmem
  cases hmem

/-- What was written is in the columns of the row and in the payload that was hashed. -/
lemma member_of_mem_appendAll (hw : w ∈ C.appendAll appends) :
    w.member (PyStr.ofString "certificate_id") = some (.str w.certificateId) ∧
      w.member (PyStr.ofString "event_type") = some (.str w.eventType) := by
  induction appends using List.reverseRecOn with
  | nil => nomatch hw
  | append_singleton appends a ih =>
    rw [appendAll_concat, List.mem_append] at hw
    rcases hw with hw | hw
    · exact ih hw
    · obtain ⟨hcertificate, htype, hpayload, -, -⟩ := ledgerEvent_eq_some (Option.mem_toList.mp hw)
      rw [PGLLedgerEvent.member, PGLLedgerEvent.member, hpayload, hcertificate, htype]
      exact ⟨rfl, rfl⟩

/-- The rows before a carried one are there, and carried. -/
lemma exists_carries_of_reaches (hsha : C.Sha256Injective) (hvalid : C.AllValid edited)
    (hev : ev ∈ edited) (hw : w ∈ C.appendAll appends) (heq : ev.eventHash = w.eventHash)
    (hreach : ReflTransGen (Predecessor (C.appendAll appends)) w w') :
    ∃ ev' ∈ edited, ev'.certificateId = ev.certificateId ∧ Carries ev' w' := by
  have hchain := oneChain_of_allValid hsha hvalid hev
  have hintact : ∀ ev' ∈ ofCertificate ev.certificateId edited, C.pglColumns.Intact ev' := by
    obtain ⟨-, -, -, -, -, hintact⟩ := hchain
    exact hintact
  suffices ∃ ev' ∈ ofCertificate ev.certificateId edited, Carries ev' w' by
    obtain ⟨ev', hmem, hcarries⟩ := this
    obtain ⟨hmem, hcertificate⟩ := List.mem_filter.mp hmem
    exact ⟨ev', hmem, of_decide_eq_true hcertificate, hcarries⟩
  induction hreach with
  | refl =>
    have hmem := mem_ofCertificate hev
    exact ⟨ev, hmem, carries_of_intact hsha (hintact ev hmem) (intact_appendAll appends w hw) heq⟩
  | @tail x y _ hpredecessor ih =>
    obtain ⟨ev', hmem, hcarries⟩ := ih
    obtain ⟨hy, hprevious⟩ := hpredecessor
    obtain ⟨before, hbefore, hhash⟩ := Columns.exists_predecessor hchain hmem
      (hcarries.previousEventHash.trans hprevious)
    exact ⟨before, hbefore,
      carries_of_intact hsha (hintact before hbefore) (intact_appendAll appends y hy) hhash⟩

/-- In a table whose certificates are all reported valid, a row with the hash of a row that was
written has the certificate and the event type in its payload that were hashed then. All rows that
the written one was appended after are there under the same certificate, and carry what was
hashed. -/
theorem edited_carries (hsha : C.Sha256Injective) (appends : List Append)
    (edited : List PGLLedgerEvent) (hvalid : C.AllValid edited) (ev w : PGLLedgerEvent)
    (hev : ev ∈ edited) (hw : w ∈ C.appendAll appends) (heq : ev.eventHash = w.eventHash) :
    ev.member (PyStr.ofString "certificate_id") = some (.str w.certificateId) ∧
      ev.member (PyStr.ofString "event_type") = some (.str w.eventType) ∧ Carries ev w ∧
      ∀ w', ReflTransGen (Predecessor (C.appendAll appends)) w w' →
        ∃ ev' ∈ edited, ev'.certificateId = ev.certificateId ∧ Carries ev' w' := by
  have hintact : C.pglColumns.Intact ev := by
    obtain ⟨-, -, -, -, -, hintact⟩ := oneChain_of_allValid hsha hvalid hev
    exact hintact ev (mem_ofCertificate hev)
  have hcarries := carries_of_intact hsha hintact (intact_appendAll appends w hw) heq
  obtain ⟨hcertificate, htype⟩ := member_of_mem_appendAll hw
  refine ⟨hcarries.member_str (by decide +kernel) hcertificate,
    hcarries.member_str (by decide +kernel) htype, hcarries, fun w' hreach => ?_⟩
  exact exists_carries_of_reaches hsha hvalid hev hw heq hreach

/-- In a table of one certificate, it is enough that this one is valid. -/
lemma allValid_of_forall (hrows : ∀ ev ∈ rows, ev.certificateId = certificateId)
    (hreturned : C.verifyPglChain fuel certificateId rows = .returned report)
    (hreport : report.valid = true) : C.AllValid rows := by
  intro other
  by_cases hother : other = certificateId
  · subst hother
    exact ⟨fuel, report, hreturned, hreport⟩
  · have hnil : (rows.filter fun ev => ev.certificateId = other) = [] := by
      rw [List.filter_eq_nil_iff]
      intro ev hev heq
      exact hother ((of_decide_eq_true heq).symm.trans (hrows ev hev))
    refine ⟨0, { name := PyStr.ofString "pgl_ledger:" ++ other }, ?_, rfl⟩
    rw [verifyPglChain, hnil]
    rfl

end Canonical

namespace Sample

/-- The rows of `minted`, with another event type in the column of each. -/
def retyped : List PGLLedgerEvent :=
  (canonical.appendAll minted).map fun ev => { ev with eventType := PyStr.ofString "revoked" }

lemma allValid_retyped : canonical.AllValid retyped := by
  have hreturned : canonical.verifyPglChain 2 certificateId retyped =
      .returned { name := PyStr.ofString "pgl_ledger:c", total := 2 } := by
    decide +kernel
  exact Canonical.allValid_of_forall (by decide +kernel) hreturned rfl

end Sample

open Sample

/-- A row of the changed table has the event type in its payload that was hashed. -/
theorem edited_carries_retyped :
    ∃ ev ∈ Sample.retyped, ∃ w ∈ Sample.canonical.appendAll Sample.minted,
      ev.eventHash = w.eventHash ∧
        ev.member (PyStr.ofString "event_type") = some (.str w.eventType) := by
  obtain ⟨ev, hev, w, hw, heq⟩ : ∃ ev ∈ retyped,
      ∃ w ∈ canonical.appendAll minted, ev.eventHash = w.eventHash := by
    decide +kernel
  have hcarries := Canonical.edited_carries sha256Injective minted retyped
    allValid_retyped ev w hev hw heq
  exact ⟨ev, hev, w, hw, heq, hcarries.2.1⟩

/-- The column `event_type` of every row was changed after it was written: the same rows are there,
all certificates are reported valid, and no row has the event type that was hashed. -/
theorem retyped_unnoticed :
    (Sample.retyped.map fun ev => (ev.eventId, ev.createdAt)) =
        ((Sample.canonical.appendAll Sample.minted).map fun ev => (ev.eventId, ev.createdAt)) ∧
      Sample.canonical.AllValid Sample.retyped ∧
      ∀ ev ∈ Sample.retyped, ∀ w ∈ Sample.canonical.appendAll Sample.minted,
        ev.eventId = w.eventId →
          ev.member (PyStr.ofString "event_type") = some (.str w.eventType) ∧
          ev.eventType ≠ w.eventType := by
  refine ⟨by decide +kernel, allValid_retyped, ?_⟩
  decide +kernel

end Ledger
