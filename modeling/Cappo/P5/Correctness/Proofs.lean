import Cappo.Lib.Delimited
import Cappo.P5.Correctness.Log
import Cappo.P5.TruthEnforcer

/-!
# The proof of a success

A success is to be recorded with a hash that binds its proof to the operation. The hash is one of
ten fields joined with a bar, so it determines the fields exactly if none of them contains a bar.
The engine records whatever hash it is given; the enforcer compares it, but only if there is one.

## Main results

* `computeProofSubjectHash_determines_iff`: when a hash belongs to one proof subject;
* `eventHash_determines_iff`: when a hash belongs to one event;
* `run_proven_iff`: when every recorded success has its proof.
-/

namespace P5

open VdbC1
open Checks
open Delimited
open List Option

variable {τ : Type} {H : Host τ} {db db' : Db τ} {w : World τ}

/-! ## The hash of a proof subject -/

/-- SHA-256 is injective on the texts that have an encoding. -/
def Host.Sha256Injective (H : Host τ) : Prop :=
  ∀ s t digest, H.sha256 s = some digest → H.sha256 t = some digest → s = t

/-- The delimiter. -/
def bar : CodePoint := 124

lemma ProofSubject.fields_injective : Function.Injective ProofSubject.fields := by
  rintro ⟨⟩ ⟨⟩ h
  simp only [fields, List.cons.injEq] at h
  simp only [ProofSubject.mk.injEq]
  tauto

/-- Ten fields are those of a subject. -/
lemma ProofSubject.exists_fields {fields : List PyStr} (h : fields.length = 10) :
    ∃ x : ProofSubject, x.fields = fields :=
  match fields, h with
  | [a, b, c, d, e, f, g, h, i, j], _ => ⟨⟨a, b, c, d, e, f, g, h, i, j⟩, rfl⟩

/-- A hash belongs to one proof subject exactly if no field of it contains the delimiter. -/
theorem computeProofSubjectHash_determines_iff (hsha : H.Sha256Injective) {x : ProofSubject}
    {digest : PyStr} (hx : H.computeProofSubjectHash x = some digest) :
    (∀ y, H.computeProofSubjectHash y = some digest → y = x) ↔ ∀ field ∈ x.fields, bar ∉ field := by
  constructor
  · intro honly field hfield hbar
    have hexists : ∃ field ∈ x.operationId :: x.intentHash :: x.fields.tail.tail, bar ∈ field :=
      ⟨field, hfield, hbar⟩
    obtain ⟨fields, hlength, hne, hjoin⟩ := exists_ne_intercalate_eq hexists
    obtain ⟨y, rfl⟩ := ProofSubject.exists_fields hlength
    refine hne (congrArg ProofSubject.fields (honly y ?_))
    rw [← hx]
    exact congrArg H.sha256 hjoin
  · intro hbar y hy
    exact ProofSubject.fields_injective
      (eq_of_intercalate_eq hbar rfl (hsha _ _ _ hy hx))

/-! ## The hash of an event -/

namespace Event

/-- The columns that may be `NULL`, in the order in which they are hashed. -/
def nullables (e : Event τ) : List (Option PyStr) :=
  [e.previousEventHash, e.previousTruthState, e.assertedTruthState, e.proofType,
    e.proofSubjectHash, e.cappoDecisionId]

/-- The joined text can be read back: no text has a bar in it, and no column that may be `NULL` is
`NULL` or empty. -/
structure Legible (e : Event τ) : Prop where
  texts : ∀ s ∈ [e.eventId, e.operationId, e.eventType], bar ∉ s
  nullables : ∀ c ∈ e.nullables, ∃ s ∈ c, s ≠ [] ∧ bar ∉ s

end Event

/-- The other column that is hashed like this one, if there is one. -/
def twin : Option PyStr → Option PyStr
  | none => some []
  | some [] => none
  | some (c :: s) => some (c :: s)

lemma getD_twin (c : Option PyStr) : (twin c).getD [] = c.getD [] := by
  match c with
  | none => rfl
  | some [] => rfl
  | some (_ :: _) => rfl

lemma exists_of_twin_eq (h : twin c = c) : ∃ s, c = some s ∧ s ≠ [] := by
  match c, h with
  | some (c :: s), _ => exact ⟨c :: s, rfl, cons_ne_nil c s⟩

/-- The texts that are joined for the hash of an event. -/
def Host.eventFields (H : Host τ) (e : Event τ) : List PyStr := [e.eventId, e.operationId,
  CapabilityMount.JsonText.decimal e.eventSequence,
  e.previousEventHash.getD [],
  e.eventType,
  e.previousTruthState.getD [],
  e.assertedTruthState.getD [],
  e.proofType.getD [],
  e.proofSubjectHash.getD [],
  e.cappoDecisionId.getD [],
  H.isoformat e.createdAt]

namespace Event.Legible

variable {x y : Event τ}

lemma bar_not_mem (h : x.Legible) (hbar : ∀ t, bar ∉ H.isoformat t) :
    ∀ s ∈ H.eventFields x, bar ∉ s := by
  have hdecimal : bar ∉ CapabilityMount.JsonText.decimal x.eventSequence := fun hmem =>
    absurd (CapabilityMount.JsonText.isNumeric_decimal _ hmem) (by decide)
  have hplain : ∀ c ∈ x.nullables, bar ∉ c.getD [] := by
    intro c hc
    obtain ⟨s, rfl, -, hs⟩ := h.nullables c hc
    exact hs
  have htexts := h.texts
  simp only [Event.nullables, Host.eventFields, forall_mem_cons, not_mem_nil,
    false_implies, implies_true, and_true] at htexts hplain ⊢
  exact ⟨htexts.1, htexts.2.1, hdecimal, hplain.1, htexts.2.2, hplain.2.1, hplain.2.2.1,
    hplain.2.2.2.1, hplain.2.2.2.2.1, hplain.2.2.2.2.2, hbar _⟩

/-- The joined texts determine every column but the hash and the assurance level. -/
lemma eq_of_eventFields (h : x.Legible) (hiso : Function.Injective H.isoformat)
    (hlevel : y.assuranceLevel = x.assuranceLevel) (hfields : H.eventFields y = H.eventFields x) :
    { y with eventHash := x.eventHash } = x := by
  have hcolumn : ∀ c ∈ x.nullables, ∀ c' : Option PyStr, c'.getD [] = c.getD [] → c' = c := by
    rintro c hc (_ | s) hs
    · obtain ⟨t, rfl, ht, -⟩ := h.nullables c hc
      exact absurd hs.symm ht
    · obtain ⟨t, rfl, -, -⟩ := h.nullables c hc
      exact congrArg some hs
  simp only [Event.nullables, forall_mem_cons, not_mem_nil, false_implies, implies_true,
    and_true] at hcolumn
  simp only [Host.eventFields, List.cons.injEq, and_true] at hfields
  obtain ⟨hid, hop, hseq, hprevious, htype, hfrom, hasserted, hproof, hsubject, hdecision, hat⟩ :=
    hfields
  have hseq := CapabilityMount.JsonText.decimal_injective hseq
  have hprevious := hcolumn.1 _ hprevious
  have hfrom := hcolumn.2.1 _ hfrom
  have hasserted := hcolumn.2.2.1 _ hasserted
  have hproof := hcolumn.2.2.2.1 _ hproof
  have hsubject := hcolumn.2.2.2.2.1 _ hsubject
  have hdecision := hcolumn.2.2.2.2.2 _ hdecision
  rw [hid, hop, hseq, hprevious, htype, hfrom, hasserted, hproof, hsubject, hdecision, hlevel,
    hiso hat]

end Event.Legible

/-- No other event with a given assurance level has the hash of an event exactly if this is the
level of the event itself and its columns can be read back from the joined text. -/
theorem eventHash_determines_iff (hsha : H.Sha256Injective)
    (hiso : Function.Injective H.isoformat) (hbar : ∀ t, bar ∉ H.isoformat t) {x : Event τ}
    {digest : PyStr} (hx : H.eventHash x = some digest) (level : Option PyStr) :
    (∀ y : Event τ, y.assuranceLevel = level → { y with eventHash := x.eventHash } ≠ x →
      H.eventHash y ≠ some digest) ↔ x.assuranceLevel = level ∧ x.Legible := by
  constructor
  · intro honly
    have hsame (y : Event τ) (hlevel : y.assuranceLevel = level)
        (hy : H.eventHash y = H.eventHash x) : { y with eventHash := x.eventHash } = x :=
      by_contra fun hne => honly y hlevel hne (hy.trans hx)
    have hlevel : x.assuranceLevel = level :=
      (congrArg Event.assuranceLevel (hsame { x with assuranceLevel := level } rfl rfl)).symm
    -- a bar in a text is as good as one between two texts
    have hids : ∀ s ∈ [x.eventId, x.operationId], bar ∉ s := by
      intro s hs hmem
      obtain ⟨ls, hlength, hne, hjoin⟩ := exists_ne_intercalate_eq ⟨s, hs, hmem⟩
      match ls, hlength with
      | [a, b], _ =>
        have hy := hsame { x with eventId := a, operationId := b } hlevel ?_
        · exact hne (congrArg (fun e : Event τ => [e.eventId, e.operationId]) hy)
        · refine congrArg H.sha256 ?_
          change [bar].intercalate ([a, b] ++ _) =
            [bar].intercalate ([x.eventId, x.operationId] ++ _)
          rw [intercalate_append (by simp) (by simp), hjoin,
            ← intercalate_append (by simp) (by simp)]
    have hothers : ∀ s ∈ x.eventType :: x.nullables.map (Option.getD · []), bar ∉ s := by
      intro s hs hmem
      have hs : s ∈ x.previousEventHash.getD [] :: x.eventType ::
          x.nullables.tail.map (Option.getD · []) := by
        simp only [Event.nullables, map_cons, tail_cons, mem_cons] at hs ⊢
        tauto
      obtain ⟨ls, hlength, hne, hjoin⟩ := exists_ne_intercalate_eq ⟨s, hs, hmem⟩
      match ls, hlength with
      | [a, b, c, d, e, f, g], _ =>
        have hy := hsame { x with
          previousEventHash := some a
          eventType := b
          previousTruthState := some c
          assertedTruthState := some d
          proofType := some e
          proofSubjectHash := some f
          cappoDecisionId := some g } hlevel ?_
        · rw [← hy] at hne
          exact hne rfl
        · refine congrArg H.sha256 ?_
          change [bar].intercalate ([_, _, _] ++ ([a, b, c, d, e, f, g] ++ _)) =
            [bar].intercalate ([_, _, _] ++ ((_ :: _ :: [_, _, _, _, _]) ++ _))
          rw [intercalate_append (by simp) (by simp),
            intercalate_append (l := [a, b, c, d, e, f, g]) (by simp) (by simp), hjoin,
            ← intercalate_append (by simp) (by simp), ← intercalate_append (by simp) (by simp)]
          rfl
    -- a blank column is as good as the other
    have hblank : ∀ c ∈ x.nullables, twin c = c := by
      have hy := hsame { x with
        previousEventHash := twin x.previousEventHash
        previousTruthState := twin x.previousTruthState
        assertedTruthState := twin x.assertedTruthState
        proofType := twin x.proofType
        proofSubjectHash := twin x.proofSubjectHash
        cappoDecisionId := twin x.cappoDecisionId } hlevel ?_
      · have hmap : x.nullables.map twin = x.nullables := congrArg Event.nullables hy
        exact map_inj_left.mp (hmap.trans (map_id _).symm)
      · refine congrArg H.sha256 ?_
        simp only [getD_twin]
    refine ⟨hlevel, ?_, fun c hc => ?_⟩
    · intro s hs
      rcases mem_cons.mp hs with rfl | hs
      · exact hids _ mem_cons_self
      · rcases mem_cons.mp hs with rfl | hs
        · exact hids _ (mem_cons_of_mem _ mem_cons_self)
        · exact hothers s (mem_singleton.mp hs ▸ mem_cons_self)
    · obtain ⟨s, rfl, hs⟩ := exists_of_twin_eq (hblank c hc)
      exact ⟨s, rfl, hs, hothers s (mem_cons_of_mem _ (mem_map_of_mem hc))⟩
  · rintro ⟨rfl, hlegible⟩ y hlevel hne hy
    have hjoin : joinBar (H.eventFields y) = joinBar (H.eventFields x) := hsha _ _ _ hy hx
    exact hne (hlegible.eq_of_eventFields hiso hlevel
      (eq_of_intercalate_eq (hlegible.bar_not_mem hbar) rfl hjoin))

/-! ## Successes with a proof -/

/-- The subject of a proof that an operation succeeded, for some authority and actor. -/
def Operation.succeeds (op : Operation) (state : TruthState)
    (candidateActHash authorityId executionIdentity proofType : PyStr) : ProofSubject where
  operationId := op.operationId
  intentHash := op.intentHash
  candidateActHash := candidateActHash
  authorityId := authorityId
  executionIdentity := executionIdentity
  sinkId := op.sinkClass
  previousTruthState := state.value
  assertedTruthState := TruthState.completedSuccess.value
  consequenceIdentity := op.consequenceId
  proofType := proofType

/-- The hash and the type are those of a proof that the operation succeeded, from `state` on. -/
def Proof (H : Host τ) (op : Operation) (state : TruthState)
    (proofType proofSubjectHash : Option PyStr) : Prop :=
  ∃ candidateActHash authorityId executionIdentity type digest, proofType = some type ∧
    proofSubjectHash = some digest ∧ H.computeProofSubjectHash
      (op.succeeds state candidateActHash authorityId executionIdentity type) = some digest

lemma Operation.Advances.proof_iff {row after : Operation} (h : row.Advances after)
    {state : TruthState} {proofType proofSubjectHash : Option PyStr} :
    Proof H after state proofType proofSubjectHash ↔
      Proof H row state proofType proofSubjectHash := by
  unfold Proof Operation.succeeds
  rw [h.operationId, h.intentHash, h.sinkClass, h.consequenceId]

/-- An event that records a success carries a proof about its operation. -/
def Event.Proven (H : Host τ) (db : Db τ) (e : Event τ) : Prop :=
  e.asserted? = some .completedSuccess → ∃ op ∈ db.operations, op.operationId = e.operationId ∧
    ∃ state, e.previous? = some state ∧ Proof H op state e.proofType e.proofSubjectHash

/-- What an event says about its operation stays so. -/
lemma Step.proven_iff {a : Db.Append} {before : Option Operation} {after : Operation}
    {e e' : Event τ} {item : Outbox τ} (hstep : Step H db db' a before after e item)
    (hlogged : Logged H db) (he' : e' ∈ db.events) : e'.Proven H db' ↔ e'.Proven H db := by
  have hother : ∀ op ∈ db'.operations, op.operationId = e'.operationId → ∃ op' ∈ db.operations,
      op'.operationId = e'.operationId ∧ ∀ state proofType proofSubjectHash,
        Proof H op state proofType proofSubjectHash ↔
          Proof H op' state proofType proofSubjectHash := by
    intro op hop hid
    rw [hstep.operations] at hop
    rcases KeyedRows.mem_save hop with rfl | ⟨hop, -⟩
    · cases before with
      | none =>
        refine absurd (hlogged.known e' he') ?_
        rw [← hid, hstep.operationId]
        exact KeyedRows.row?_eq_none.mp hstep.found
      | some row =>
        have hadvances := hstep.advances row rfl
        exact ⟨row, (KeyedRows.mem_of_row? hstep.found).1, hadvances.operationId.symm.trans hid,
          fun _ _ _ => hadvances.proof_iff⟩
    · exact ⟨op, hop, hid, fun _ _ _ => Iff.rfl⟩
  refine imp_congr_right fun _ => ⟨?_, ?_⟩
  · rintro ⟨op, hop, hid, state, hstate, hproof⟩
    obtain ⟨op', hop', hid', hiff⟩ := hother op hop hid
    exact ⟨op', hop', hid', state, hstate, (hiff _ _ _).mp hproof⟩
  · rintro ⟨op, hop, hid, state, hstate, hproof⟩
    have hmem : e'.operationId ∈ db'.operations.map Operation.operationId := by
      rw [hstep.operations, KeyedRows.mem_keys_save]
      exact .inr (hlogged.known e' he')
    obtain ⟨op1, hop1, hid1⟩ := mem_map.mp hmem
    obtain ⟨op', hop', hid', hiff⟩ := hother op1 hop1 hid1
    obtain rfl := inj_on_of_nodup_map hlogged.ids hop hop' (hid.trans hid'.symm)
    exact ⟨op1, hop1, hid1, state, hstate, (hiff _ _ _).mpr hproof⟩

/-- Every recorded success carries a proof. -/
def Db.Proven (db : Db τ) (H : Host τ) : Prop := ∀ e ∈ db.events, e.Proven H db

/-- A call of the engine that records a success is given a proof about the row that it finds. -/
def Call.Supplied (H : Host τ) (db : Db τ) : Call → Prop
  | completeSuccess c _ => ∀ row, db.operation c.operationId = some row →
      Proof H row row.currentTruthState.state c.proofType c.proofSubjectHash
  | _ => True

/-- A call that returns keeps every success proven exactly if it is given a proof. -/
lemma proven_exec_iff (hlogged : Logged H db) {env : Env τ} {r : Operation × Db τ}
    (hexec : db.exec H env call = .ok r) :
    r.2.Proven H ↔ db.Proven H ∧ call.Supplied H db := by
  obtain ⟨current, before, e, item, hstep, hfits⟩ := exec_eq_ok hlogged.ids
        (show _ = Except.ok (r.1, r.2) from hexec)
  have hasserted : e.asserted? = some call.asserts := by
    rw [hstep.appended.asserted, Call.asserted_event]
    rfl
  -- only the new event is new
  have hnew : r.2.Proven H ↔ db.Proven H ∧ e.Proven H r.2 := by
    unfold Db.Proven
    rw [hstep.events, forall_mem_append, forall_mem_singleton]
    exact and_congr_left' (forall₂_congr fun e' he' => hstep.proven_iff hlogged he')
  rw [hnew]
  refine and_congr_right fun _ => ?_
  cases call with
  | completeSuccess c assuranceLevel =>
    cases before with
    | none => nomatch hfits
    | some row =>
      obtain ⟨-, -, hprevious, -⟩ := hfits
      have hprevious : e.previous? = some row.currentTruthState.state :=
        hstep.appended.previous.trans hprevious
      have hadvances := hstep.advances row rfl
      have hafter : r.1 ∈ r.2.operations := by
        rw [hstep.operations]
        exact KeyedRows.mem_save_self ..
      have hid : r.1.operationId = e.operationId :=
        hstep.operationId.trans hstep.appended.operationId.symm
      have hproof : ∀ state, Proof H r.1 state e.proofType e.proofSubjectHash ↔
          Proof H row state c.proofType c.proofSubjectHash := by
        intro state
        rw [hadvances.proof_iff, hstep.appended.proofType, hstep.appended.proofSubjectHash]
        rfl
      constructor
      · intro hproven row' hrow'
        obtain rfl := mem_unique hstep.found hrow'
        obtain ⟨op, hop, hop', state, hstate, hproof'⟩ := hproven hasserted
        obtain rfl := inj_on_of_nodup_map (hlogged.step hstep).ids hop hafter (hop'.trans hid.symm)
        obtain rfl := mem_unique hstate hprevious
        exact (hproof _).mp hproof'
      · intro hsupplied _
        exact ⟨r.1, hafter, hid, _, hprevious, (hproof _).mpr (hsupplied row hstep.found)⟩
  | createOperation | authorize | startExecution | recordOutcomeUnknown | recordObservedEffect
  | completeFailure =>
    exact iff_of_true (fun h => absurd (hasserted.symm.trans h) nofun) trivial

/-! ## The enforcer -/

lemma mapError_eq_ok {ε ε' α : Type} {f : ε → ε'} {x : Except ε α} {a : α} :
    x.mapError f = .ok a ↔ x = .ok a := by
  cases x with
  | ok b => exact ⟨fun h => congrArg _ (Except.ok.inj h), fun h => congrArg _ (Except.ok.inj h)⟩
  | error e => exact ⟨nofun, nofun⟩

lemma given_eq_some : given s = some t ↔ s = some t ∧ t ≠ [] := by
  unfold given
  split
  · constructor
    · intro h
      exact ⟨h, some.inj h ▸ cons_ne_nil _ _⟩
    · exact And.left
  · next hfalsy =>
    refine ⟨nofun, ?_⟩
    rintro ⟨rfl, hne⟩
    obtain ⟨c, t, rfl⟩ := exists_cons_of_ne_nil hne
    exact absurd rfl (hfalsy c t)

namespace Enforcer

variable {enforcer : Enforcer} {env : TruthEnv τ} {request : TruthRequest} {r : Operation × Db τ}

/-- What the enforcer has checked before it calls the engine. -/
lemma authorizeAndRecordTruth_eq_ok
    (h : (enforcer.authorizeAndRecordTruth H env db request).1 = .ok r) :
    ∃ op authority expectedHash, db.load env.engine.refreshed request.operationId = .ok op ∧
      H.computeProofSubjectHash (subject op request authority) = some expectedHash ∧
      (∀ hash ∈ given request.proofSubjectHash, hash = expectedHash) ∧
      record H env.engine db request = .ok r := by
  unfold authorizeAndRecordTruth at h
  dsimp only at h
  split at h
  · nomatch h
  next op authority expectedHash hchecked =>
  obtain ⟨op, hload, hchecked⟩ := bind_eq_ok.mp hchecked
  obtain ⟨authority, -, hchecked⟩ := bind_eq_ok.mp hchecked
  obtain ⟨expectedHash, hexpected, hchecked⟩ := bind_eq_ok.mp hchecked
  obtain ⟨rfl, rfl, rfl⟩ := pure_eq_ok.mp hchecked
  obtain ⟨_, -, h⟩ := bind_eq_ok.mp h
  obtain ⟨_, hmatch, h⟩ := bind_eq_ok.mp h
  rw [mapError_eq_ok] at hload
  rw [ofOption_eq_ok] at hexpected
  rw [require_eq_ok, decide_eq_true_eq] at hmatch
  exact ⟨_, _, _, hload, hexpected, hmatch, h⟩

/-- The call of the engine at the end. -/
lemma record_eq_ok (h : record H env.engine db request = .ok r) :
    ∃ call, db.exec H env.engine call = .ok r ∧
      (request.assertedTruthState = .completedSuccess → ∃ c assuranceLevel,
        call = .completeSuccess c assuranceLevel ∧ c.operationId = request.operationId ∧
        c.proofType = some request.proofType ∧
        c.proofSubjectHash = request.proofSubjectHash) ∧
      (request.assertedTruthState ≠ .completedSuccess → call.Supplied H db) := by
  unfold record at h
  dsimp only at h
  split at h
  · next hstate =>
    refine ⟨.completeSuccess _ none, mapError_eq_ok.mp h, fun _ => ⟨_, _, rfl, rfl, rfl, rfl⟩, ?_⟩
    exact fun hne => absurd hstate hne
  · next hstate =>
    refine ⟨.recordObservedEffect _, mapError_eq_ok.mp h, ?_, fun _ => trivial⟩
    exact fun heq => absurd (hstate.symm.trans heq) nofun
  · next hstate =>
    refine ⟨.completeFailure _, mapError_eq_ok.mp h, ?_, fun _ => trivial⟩
    exact fun heq => absurd (hstate.symm.trans heq) nofun
  · nomatch h

/-- A success that goes through the enforcer is proven exactly if there is a hash to compare. -/
lemma supplied_iff (h : (enforcer.authorizeAndRecordTruth H env db request).1 = .ok r)
    (hsuccess : request.assertedTruthState = .completedSuccess)
    (hrow : db.operation request.operationId = some row) :
    Proof H row row.currentTruthState.state (some request.proofType) request.proofSubjectHash ↔
      (given request.proofSubjectHash).isSome = true := by
  obtain ⟨op, authority, expectedHash, hload, hexpected, hmatch, -⟩ :=
    authorizeAndRecordTruth_eq_ok h
  constructor
  · rintro ⟨candidateActHash, authorityId, executionIdentity, type, digest, -, hdigest, hhash⟩
    have hgiven := given_eq_some.mpr ⟨hdigest, H.sha256_ne_nil _ _ hhash⟩
    rw [hgiven]
    rfl
  · intro hsome
    obtain ⟨hash, hgiven⟩ := isSome_iff_exists.mp hsome
    obtain rfl := hmatch hash hgiven
    obtain ⟨row', hrow', hloaded⟩ := load_eq_ok hload
    obtain rfl := mem_unique hrow hrow'
    refine ⟨authority.candidateActHash, authority.authorityId,
      (given request.actorIdentity).getD "None", request.proofType, hash, rfl,
      (given_eq_some.mp hgiven).1, ?_⟩
    rw [← hexpected]
    unfold subject Operation.succeeds
    rw [(KeyedRows.mem_of_row? hrow).2, hloaded.intentHash, hloaded.sinkClass, hloaded.state,
      hloaded.consequenceId, hsuccess]

end Enforcer

/-! ## Runs -/

/-- A call that records a success brings its proof: a call of the engine a hash of a proof about the
operation as it is, a call of the enforcer any hash at all. -/
def TruthCall.Supplied (H : Host τ) (w : World τ) : TruthCall τ → Prop
  | engine env call => (∃ r, w.db.exec H env call = .ok r) → call.Supplied H w.db
  | enforce env request => request.assertedTruthState = .completedSuccess →
      (∃ r, (w.enforcer.authorizeAndRecordTruth H env w.db request).1 = .ok r) →
      (given request.proofSubjectHash).isSome = true
  | revokeIdentity _ => True

lemma World.apply_db_enforce (env : TruthEnv τ) (request : TruthRequest) :
    (w.apply H (.enforce env request)).db =
      match (w.enforcer.authorizeAndRecordTruth H env w.db request).1 with
      | .ok r => r.2
      | .error _ => w.db := by
  unfold World.apply
  dsimp only
  rcases w.enforcer.authorizeAndRecordTruth H env w.db request with ⟨⟨⟩ | ⟨⟩, enforcer⟩ <;> rfl

/-- One call keeps the log in order, and every success proven exactly if it brings a proof. -/
lemma World.apply_iff (hlogged : Logged H w.db) (call : TruthCall τ) :
    Logged H (w.apply H call).db ∧
      ((w.apply H call).db.Proven H ↔ w.db.Proven H ∧ call.Supplied H w) := by
  cases call with
  | engine env call =>
    refine ⟨hlogged.apply (env, call), ?_⟩
    show (w.db.apply H (env, call)).Proven H ↔ _
    unfold Db.apply
    dsimp only
    cases hexec : w.db.exec H env call with
    | error e =>
      refine (and_iff_left ?_).symm
      rintro ⟨r, hr⟩
      nomatch hexec.symm.trans hr
    | ok r =>
      refine (proven_exec_iff hlogged hexec).trans (and_congr_right fun _ => ?_)
      exact ⟨fun h _ => h, fun h => h ⟨r, hexec⟩⟩
  | enforce env request =>
    rw [apply_db_enforce]
    cases hresult : (w.enforcer.authorizeAndRecordTruth H env w.db request).1 with
    | error e =>
      refine ⟨hlogged, (and_iff_left ?_).symm⟩
      rintro - ⟨r, hr⟩
      nomatch hresult.symm.trans hr
    | ok r =>
      obtain ⟨-, -, -, -, -, -, hrecord⟩ := Enforcer.authorizeAndRecordTruth_eq_ok hresult
      obtain ⟨call, hexec, hsuccess, hother⟩ := Enforcer.record_eq_ok hrecord
      obtain ⟨_, _, _, _, hstep, hfits⟩ := exec_eq_ok hlogged.ids
        (show _ = Except.ok (r.1, r.2) from hexec)
      refine ⟨hlogged.step hstep, (proven_exec_iff hlogged hexec).trans ?_⟩
      refine and_congr_right fun _ => ?_
      by_cases hstate : request.assertedTruthState = .completedSuccess
      · obtain ⟨c, assuranceLevel, rfl, hid, htype, hhash⟩ := hsuccess hstate
        have hfound := hstep.found
        rw [Call.operationId_event] at hfound
        change w.db.operation c.operationId = _ at hfound
        rw [hid] at hfound
        have hiff : Call.Supplied H w.db (.completeSuccess c assuranceLevel) ↔
            (given request.proofSubjectHash).isSome = true := by
          show (∀ row, w.db.operation c.operationId = some row →
            Proof H row row.currentTruthState.state c.proofType c.proofSubjectHash) ↔ _
          rw [hid, htype, hhash]
          cases hrow : w.db.operation request.operationId with
          | none =>
            rw [hrow] at hfound
            rw [← hfound] at hfits
            exact absurd hfits Bool.false_ne_true
          | some row =>
            refine Iff.trans ?_ (Enforcer.supplied_iff hresult hstate hrow)
            exact ⟨fun h => h row rfl, fun h row' hrow' => some.inj hrow' ▸ h⟩
        exact hiff.trans ⟨fun h _ _ => h, fun h => h hstate ⟨r, hresult⟩⟩
      · exact iff_of_true (hother hstate) fun h => absurd h hstate
  | revokeIdentity authorityId => exact ⟨hlogged, (and_iff_left trivial).symm⟩

lemma World.run_concat (calls : List (TruthCall τ)) (call : TruthCall τ) :
    w.run H (calls ++ [call]) = (w.run H calls).apply H call := by
  unfold run
  rw [foldl_append]
  rfl

lemma World.logged_run (H : Host τ) (calls : List (TruthCall τ)) :
    Logged H (World.init.run H calls).db := by
  induction calls using List.reverseRecOn with
  | nil => exact logged_empty
  | append_singleton calls call ih =>
    rw [run_concat]
    exact (apply_iff ih call).1

/-- Along every sequence of calls to the engine and the enforcer, every recorded success carries a
proof about its operation exactly if every call that records one brings it. -/
theorem run_proven_iff (H : Host τ) (calls : List (TruthCall τ)) :
    (World.init.run H calls).db.Proven H ↔
      AuditLog.Audited (fun pre call => call.Supplied H (World.init.run H pre)) calls := by
  refine AuditLog.audited_iff (P := fun calls => (World.init.run H calls).db.Proven H)
    (fun e he => nomatch he) ?_ calls
  intro pre call
  rw [World.run_concat]
  exact (World.apply_iff (World.logged_run H pre) call).2

namespace Sample

/-- An artifact that gives its holder the right to assert a truth. -/
def authority : AuthorityArtifact where
  authorityId := "a"
  ephemeralExecutionId := "agent"
  policyDecisionHash := "y"
  candidateActHash := "n"
  rights := ["truth.transition"]
  expiresAt := 9

/-- A success that is reported through the enforcer. -/
def reported (proofSubjectHash : Option PyStr) : TruthCall ℕ :=
  .enforce { now := 0, cacheNow := 0, engine := drawn 3 } {
    operationId := "o"
    assertedTruthState := .completedSuccess
    authority := some authority
    cappoDecision := "TRUTH_ALLOW"
    proofSubjectHash
    actorIdentity := some "agent" }

/-- The sample operation is executed, and reported. -/
def truthCalls (proofSubjectHash : Option PyStr) : List (TruthCall ℕ) :=
  started.map (fun call => .engine call.1 call.2) ++ [reported proofSubjectHash]

end Sample

/-- A success is recorded through the enforcer without any hash of a proof. -/
theorem run_success_without_proof :
    (World.init.run Sample.host (Sample.truthCalls none)).db.events.map
        (fun e => (e.asserted?, e.proofSubjectHash)) =
      [(some .requested, none), (some .authorized, none), (some .executionStarted, none),
        (some .completedSuccess, none)] ∧
    ¬(World.init.run Sample.host (Sample.truthCalls none)).db.Proven Sample.host := by
  have hevents : (World.init.run Sample.host (Sample.truthCalls none)).db.events.map
      (fun e => (e.asserted?, e.proofSubjectHash)) =
      [(some .requested, none), (some .authorized, none), (some .executionStarted, none)] ++
        [(some .completedSuccess, none)] := by decide +kernel
  refine ⟨hevents, fun h => ?_⟩
  obtain ⟨pre, rest, hsplit, -, hrest⟩ := map_eq_append_iff.mp hevents
  obtain ⟨e, post, rfl, he, -⟩ := map_eq_cons_iff.mp hrest
  have hmem : e ∈ (World.init.run Sample.host (Sample.truthCalls none)).db.events := by
    rw [hsplit]
    exact mem_append_right _ mem_cons_self
  obtain ⟨op, -, -, state, -, hproof⟩ := h e hmem (congrArg Prod.fst he)
  obtain ⟨_, _, _, _, digest, -, hdigest, -⟩ := hproof
  nomatch (congrArg Prod.snd he).symm.trans hdigest

lemma Sample.sha256Injective : Sample.host.Sha256Injective := by
  rintro s t _ ⟨⟩ h
  exact (cons.inj (some.inj h)).2.symm

/-- What a proof is about that a sample operation succeeded. -/
def Sample.proved (operationId intentHash : String) : ProofSubject where
  operationId := PyStr.ofString operationId
  intentHash := PyStr.ofString intentHash
  candidateActHash := authority.candidateActHash
  authorityId := authority.authorityId
  executionIdentity := authority.ephemeralExecutionId
  sinkId := "A_TRANSACTIONAL_LOCAL"
  previousTruthState := TruthState.executionStarted.value
  assertedTruthState := TruthState.completedSuccess.value
  consequenceIdentity := "c"
  proofType := "cryptographic"

/-- The hash of a subject without a bar belongs to it alone. -/
theorem computeProofSubjectHash_determines_plain :
    ¬ ∃ y, y ≠ Sample.proved "o" "i" ∧
      Sample.host.computeProofSubjectHash y =
        Sample.host.computeProofSubjectHash (Sample.proved "o" "i") := by
  rintro ⟨y, hne, hy⟩
  exact hne ((computeProofSubjectHash_determines_iff Sample.sha256Injective rfl).mpr
    (by decide +kernel) y hy)

namespace Sample

/-- The operation `o|p` with the intent `i` is executed, and reported through the enforcer. -/
def barred (proofSubjectHash : Option PyStr) : List (TruthCall ℕ) := [
  .engine (drawn 0) (.createOperation "o|p" "c" "A_TRANSACTIONAL_LOCAL" "i" "agent"),
  .engine (drawn 1) (.authorize "o|p" none),
  .engine (drawn 2) (.startExecution "o|p"),
  .enforce { now := 0, cacheNow := 0, engine := drawn 3 } {
    operationId := "o|p"
    assertedTruthState := .completedSuccess
    authority := some authority
    cappoDecision := "TRUTH_ALLOW"
    proofSubjectHash
    actorIdentity := some "agent" }]

end Sample

/-- A proof about the operation `o` with the intent `p|i` passes for one about the operation `o|p`
with the intent `i`. -/
theorem computeProofSubjectHash_transplanted :
    Sample.proved "o" "p|i" ≠ Sample.proved "o|p" "i" ∧
    Sample.host.computeProofSubjectHash (Sample.proved "o" "p|i") =
      Sample.host.computeProofSubjectHash (Sample.proved "o|p" "i") ∧
    (World.init.run Sample.host (Sample.barred
      (Sample.host.computeProofSubjectHash (Sample.proved "o" "p|i")))).db.events.map
        Event.asserted? =
      [some .requested, some .authorized, some .executionStarted, some .completedSuccess] := by
  refine ⟨?_, ?_, ?_⟩
  · decide +kernel
  · decide +kernel
  · decide +kernel

/-- No other row with its assurance level has the hash of a legible row. -/
theorem eventHash_determines_legible :
    let x : Event ℕ := ⟨[], [], 0, some [48], [], some [49], some [50], some [51], some [52],
      some [53], [], none, 0⟩
    ¬ ∃ y : Event ℕ, y.assuranceLevel = none ∧ { y with eventHash := [] } ≠ x ∧
      Sample.host.eventHash y = Sample.host.eventHash x := by
  rintro x ⟨y, hlevel, hne, hy⟩
  exact (eventHash_determines_iff Sample.sha256Injective CapabilityMount.JsonText.decimal_injective
    (fun n h => absurd (CapabilityMount.JsonText.isNumeric_decimal _ h) (by decide)) rfl none).mpr
    ⟨rfl, by decide, by decide⟩ y hlevel hne hy

/-- The assurance level of a recorded event can be changed under its hash. -/
theorem eventHash_assured : ∃ x ∈ (Db.empty.run Sample.host Sample.started).events,
    { x with assuranceLevel := some "HARDWARE" } ≠ x ∧
    Sample.host.eventHash { x with assuranceLevel := some "HARDWARE" } = some x.eventHash ∧
    Sample.host.eventHash x = some x.eventHash := by
  decide +kernel

end P5
