import Cappo.Ledger.Correctness.Growing
import Cappo.Ledger.Writers

/-!
# What the writer of the PGL ledger leaves

The writer links a new row to the newest one by `created_at`, and the verification follows the
links. The two agree as long as the newest row is the one appended last.

## Main results

* `Canonical.appendAll_valid_iff`: a certificate is reported valid exactly if every call for it
  found the row appended last.
-/

open VdbC1 CapabilityMount

namespace Ledger

namespace Canonical

open AuditLog BackLinks List Option

variable {C : Canonical} {rows : List PGLLedgerEvent} {a : Append} {ev : PGLLedgerEvent}
  {certificateId : PyStr} {appends : List Append}

/-- What is in a row that a call appends. -/
lemma ledgerEvent_eq_some (h : C.ledgerEvent rows a = some ev) :
    ev.certificateId = a.cert.certificateId ∧ ev.eventType = a.eventType ∧
      ev.payload = .obj a.payload ∧
      ev.previousEventHash = (previousEvent rows a).map PGLLedgerEvent.eventHash ∧
      C.pglColumns.Intact ev := by
  obtain ⟨eventHash, hhash, hev⟩ := bind_eq_some_iff.mp h
  cases hev
  exact ⟨rfl, rfl, rfl, rfl, hhash⟩

lemma appendAll_concat : C.appendAll (appends ++ [a]) = C.appendAll appends ++
      (C.ledgerEvent (C.appendAll appends) a).toList := by
  unfold appendAll
  rw [foldl_append, foldl_cons, foldl_nil, appendLedgerEvent]
  split
  · next h => rw [h, toList_none, append_nil]
  · next h => rw [h, toList_some]

/-- A row that a call found is among those of the certificate. -/
lemma mem_of_previousEvent (h : previousEvent rows a = some ev) :
    ev ∈ ofCertificate a.cert.certificateId rows :=
  (a.query.newest_first _ _ h).1

/-! ## The rows of one certificate -/

/-- A call for the certificate appends its row, the others append none. -/
lemma ofCertificate_appendAll_concat : ofCertificate certificateId (C.appendAll (appends ++ [a])) =
      ofCertificate certificateId (C.appendAll appends) ++
        if a.cert.certificateId = certificateId then
          (C.ledgerEvent (C.appendAll appends) a).toList else [] := by
  rw [appendAll_concat, ofCertificate, filter_append]
  congr 1
  cases hev : C.ledgerEvent (C.appendAll appends) a with
  | none => split <;> rfl
  | some ev =>
    obtain ⟨hcertificate, -⟩ := ledgerEvent_eq_some hev
    rw [toList_some]
    split
    · next heq => exact filter_singleton.trans (by simp [hcertificate, heq])
    · next heq => exact filter_singleton.trans (by simp [hcertificate, heq])

lemma intact_appendAll (appends : List Append) :
    ∀ ev ∈ C.appendAll appends, C.pglColumns.Intact ev := by
  induction appends using List.reverseRecOn with
  | nil => exact fun ev hev => nomatch hev
  | append_singleton appends a ih =>
    intro ev hev
    rw [appendAll_concat, mem_append] at hev
    rcases hev with hev | hev
    · exact ih ev hev
    · exact (ledgerEvent_eq_some (mem_toList.mp hev)).2.2.2.2

/-- A row points at an earlier one of its certificate. -/
lemma grown_ofCertificate (certificateId : PyStr) (appends : List Append) :
    Grown PGLLedgerEvent.eventHash PGLLedgerEvent.previousEventHash
      (ofCertificate certificateId (C.appendAll appends)) := by
  induction appends using List.reverseRecOn with
  | nil => exact audited_nil
  | append_singleton appends a ih =>
    rw [ofCertificate_appendAll_concat]
    split
    · next heq =>
      subst heq
      cases hev : C.ledgerEvent (C.appendAll appends) a with
      | none => rwa [toList_none, append_nil]
      | some ev =>
        obtain ⟨-, -, -, hprevious, -⟩ := ledgerEvent_eq_some hev
        refine audited_concat_iff.mpr ⟨ih, fun h hh => ?_⟩
        obtain ⟨found, hfound, rfl⟩ := map_eq_some_iff.mp (hprevious.symm.trans hh)
        exact mem_map_of_mem (mem_of_previousEvent hfound)
    · rwa [append_nil]

/-- In a chain, a row has the last hash exactly if it is the last row. -/
lemma map_eq_tip_iff (hsha : C.Sha256Injective) (hintact : ∀ ev ∈ rows, C.pglColumns.Intact ev)
    (hchained : Chained PGLLedgerEvent.eventHash PGLLedgerEvent.previousEventHash rows)
    (hfound : ∀ ev ∈ found, ev ∈ rows) :
    found.map PGLLedgerEvent.eventHash = tip PGLLedgerEvent.eventHash rows ↔
      found = rows.getLast? := by
  refine ⟨fun heq => ?_, fun heq => heq ▸ rfl⟩
  have hinj := inj_on_of_nodup_map
    (Columns.nodup_of_chained (pglColumns_binding hsha) hintact hchained)
  rw [tip] at heq
  cases hfound' : found with
  | none =>
    rw [hfound', map_none, eq_comm, map_eq_none_iff] at heq
    exact heq.symm
  | some ev =>
    rw [hfound', map_some, eq_comm, map_eq_some_iff] at heq
    obtain ⟨last, hlast, heq⟩ := heq
    rw [hlast, hinj (mem_of_getLast? hlast) (hfound ev hfound') heq]

/-- In whatever order its rows are read, a certificate is reported valid exactly if its rows are a
chain in the order in which they were appended. -/
lemma valid_iff_chained (hsha : C.Sha256Injective) (certificateId : PyStr) (appends : List Append) :
    (∀ events, events.Perm (C.appendAll appends) → ∃ fuel report,
        C.verifyPglChain fuel certificateId events = .returned report ∧ report.valid = true) ↔
      Chained PGLLedgerEvent.eventHash PGLLedgerEvent.previousEventHash
        (ofCertificate certificateId (C.appendAll appends)) := by
  have hvalid : ∀ events, events.Perm (C.appendAll appends) →
      ((∃ fuel report, C.verifyPglChain fuel certificateId events = .returned report ∧
        report.valid = true) ↔ Chained PGLLedgerEvent.eventHash PGLLedgerEvent.previousEventHash
          (ofCertificate certificateId (C.appendAll appends))) := by
    intro events hperm
    refine Columns.reportsValid_iff_chained (pglColumns_binding hsha) ?_
      (grown_ofCertificate certificateId appends) (hperm.filter _)
    exact fun ev hev => intact_appendAll appends ev (mem_of_mem_filter hev)
  constructor
  · exact fun h => (hvalid _ (List.Perm.refl _)).mp (h _ (List.Perm.refl _))
  · exact fun h events hperm => (hvalid events hperm).mpr h

/-- A call finds the row of its certificate that was appended last. -/
def FindsLast (rows : List PGLLedgerEvent) (a : Append) : Prop :=
  previousEvent rows a = (ofCertificate a.cert.certificateId rows).getLast?

instance : Decidable (FindsLast rows a) := inferInstanceAs (Decidable (_ = _))

/-- A certificate is reported valid exactly if every call that appended a row to it found the row
appended last. -/
theorem appendAll_valid_iff (hsha : C.Sha256Injective) (certificateId : PyStr)
    (appends : List Append) :
    (∀ events, events.Perm (C.appendAll appends) → ∃ fuel report,
        C.verifyPglChain fuel certificateId events = .returned report ∧ report.valid = true) ↔
      Audited (fun pre a => a.cert.certificateId = certificateId →
        (C.ledgerEvent (C.appendAll pre) a).isSome = true → FindsLast (C.appendAll pre) a)
        appends := by
  rw [valid_iff_chained hsha]
  refine audited_iff (P := fun appends => Chained PGLLedgerEvent.eventHash
    PGLLedgerEvent.previousEventHash (ofCertificate certificateId (C.appendAll appends)))
    audited_nil ?_ appends
  intro pre a
  rw [ofCertificate_appendAll_concat]
  by_cases hcertificate : a.cert.certificateId = certificateId
  · subst hcertificate
    rw [if_pos rfl, forall_prop_of_true rfl]
    cases hev : C.ledgerEvent (C.appendAll pre) a with
    | none => simp
    | some ev =>
      obtain ⟨-, -, -, hprevious, -⟩ := ledgerEvent_eq_some hev
      rw [isSome_some, forall_prop_of_true rfl, toList_some, Chained,
        audited_concat_iff, hprevious]
      refine and_congr_right fun hchained => ?_
      refine map_eq_tip_iff hsha ?_ hchained fun ev hev => mem_of_previousEvent hev
      exact fun ev hev => intact_appendAll pre ev (mem_of_mem_filter hev)
  · simp [hcertificate]

end Canonical

namespace Sample

def certificateId : PyStr := "c"

/-- A call at a given time. -/
def append (eventId eventType : String) (createdAt : ℤ) : Append where
  cert := ⟨certificateId, "g", "p"⟩
  eventType := PyStr.ofString eventType
  evidence := none
  eventId := PyStr.ofString eventId
  createdAt
  query := .ofArgmax _

def minted : List Append :=
  [append "1" "pre_certificate_minted" 1, append "2" "post_certificate_minted" 2]

end Sample

/-- With a clock that goes on, the certificate is valid. -/
theorem appendAll_valid_minted :
    (Sample.canonical.appendAll Sample.minted).length = 2 ∧ ∃ fuel report,
      Sample.canonical.verifyPglChain fuel Sample.certificateId
          (Sample.canonical.appendAll Sample.minted) = .returned report ∧
        report.valid = true := by
  refine ⟨by decide +kernel, ?_⟩
  refine (Canonical.appendAll_valid_iff Sample.sha256Injective Sample.certificateId _).mpr ?_ _
    (.refl _)
  show AuditLog.Audited _ ([] ++ [_] ++ [_])
  rw [AuditLog.audited_concat_iff, AuditLog.audited_concat_iff]
  refine ⟨⟨AuditLog.audited_nil, ?_⟩, ?_⟩
  · intro _ _
    decide +kernel
  · intro _ _
    decide +kernel

/-- With a clock that is set back, the third row is linked to the first one, like the second: the
rows that the writer left are reported as a fork. -/
theorem appendAll_forked :
    Sample.canonical.verifyPglChain 3 Sample.certificateId
      (Sample.canonical.appendAll [Sample.append "1" "pre_certificate_minted" 2,
        Sample.append "2" "post_certificate_minted" 1, Sample.append "3" "sealed" 3]) =
      .returned {
        name := "pgl_ledger:c"
        total := 3
        valid := false
        brokenLinks := [
          ⟨"2", "chain forks: multiple nodes share a parent"⟩,
          ⟨"3", "chain forks: multiple nodes share a parent"⟩] } := by
  decide +kernel

end Ledger
