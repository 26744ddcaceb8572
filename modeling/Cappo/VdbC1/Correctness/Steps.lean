import Cappo.VdbC1.Correctness.Protocol

/-!
# What the steps of an attempt do

The weakest preconditions of the procedures that carry an attempt on. Each one says what
the home looks like when the procedure returns and when it stops: an attempt only ever moves
from one stage to a later one, and a procedure stops only for an excuse (`Excused`): the
process is killed, the clock leaves the range of `datetime`, or a counter outgrows the
integers RFC 8785 encodes.

## Main results

* `wp_append`: what an append does;
* `wp_advance`: an append that carries an attempt one stage on;
* `wp_confirmCommit`, `wp_finalize`: a stored attempt is finalized.
-/

namespace VdbC1

open Coordinator List Option Json

variable {P : Platform} {C : Coordinator P}

/-- A counter has reached the largest integer RFC 8785 encodes. -/
def Full (w : World) : Prop :=
  Json.maxSafe < w.journal.length ∨ Json.maxSafe ≤ w.store.generation

/-- The faults that are not the coordinator's own doing. -/
def Excused (C : Coordinator P) (s : Machine World) (e : Fault) (w' : World) : Prop :=
  (e = .killed ∧ s.budget ≠ none) ∨
    (e = .clockRange ∧ ∃ n, Platform.fromtimestamp (C.clock n) = none) ∨
    ((e = .canonicalization ∨ e = .storage .canonicalization) ∧ Full w')

/-- Records were only added, no storage transaction was started, and a process that is never
killed stays so. -/
structure Kept (s s' : Machine World) : Prop where
  journal : s.world.journal <+: s'.world.journal
  executions : s'.world.executions = s.world.executions
  budget : s.budget = none → s'.budget = none

namespace Kept

lemma refl (s : Machine World) : Kept s s := ⟨prefix_rfl, rfl, id⟩

lemma trans {s s' s'' : Machine World} (h : Kept s s') (h' : Kept s' s'') : Kept s s'' :=
  ⟨h.journal.trans h'.journal, h'.executions.trans h.executions, fun hb => h'.budget (h.budget hb)⟩

/-- An excuse of a later procedure is one of the whole. -/
lemma excused {s s' : Machine World} (h : Kept s s') {e : Fault} {w : World}
    (he : Excused C s' e w) : Excused C s e w :=
  he.imp_left fun hk => ⟨hk.1, fun hb => hk.2 (h.budget hb)⟩

end Kept

/-- The procedure leads to a world with `Q` and leaves the store as it is; where it stops, it is
excused and the world has `R`. -/
abbrev Leads (C : Coordinator P) {α : Type} (x : M α) (Q R : World → Prop) (s : Machine World) :
    Prop :=
  x.wp (fun _ s' => Q s'.world ∧ Kept s s' ∧ s'.world.store = s.world.store)
    (fun e s' => R s'.world ∧ Kept s s' ∧ Excused C s e s'.world) s

/-! ## Appending a record -/

/-- Why an append stops: the process is killed before the write, or the clock reading has no
`datetime`, or the record has no encoding. -/
inductive AppendFault (C : Coordinator P) (s : Machine World) (id : PyStr) (body : Body) :
    Fault → Prop
  | killed (h : s.budget = some 0) : AppendFault C s id body .killed
  | clockRange (h : Platform.fromtimestamp (C.clock s.world.tick) = none) :
    AppendFault C s id body .clockRange
  | canonicalization {stamp : PyStr} (hstamp : P.formatTime (C.clock s.world.tick) = some stamp)
    (h : (nextDraft s.world.journal id body stamp).toJson.encodable = false) :
    AppendFault C s id body .canonicalization

/-- An append adds one record, or stops with nothing but the clock read. -/
theorem wp_append {id : PyStr} {body : Body} {s : Machine World}
    {ok : Unit → Machine World → Prop} {bad : Fault → Machine World → Prop}
    (hlegal : body.detail.kind.binding = false ∨
      (stateAfter ((binding s.world.journal id).map (fun r => r.kind) ++
        [body.detail.kind])).isSome = true)
    (hok : ∀ r stamp, P.formatTime (C.clock s.world.tick) = some stamp →
      nextRecord P s.world.journal id body stamp = some r → s.budget ≠ some 0 →
      ok () ⟨{ s.world with journal := s.world.journal ++ [r], tick := s.world.tick + 1 },
        s.budget.map (· - 1)⟩)
    (hbad : ∀ e, AppendFault C s id body e →
      bad e ⟨{ s.world with tick := s.world.tick + 1 }, s.budget⟩) :
    (C.append id body).wp ok bad s := by
  have hlegal' : (!body.detail.kind.binding || (stateAfter ((binding s.world.journal id).map
      (fun r => r.kind) ++ [body.detail.kind])).isSome) = true := by
    rcases hlegal with h | h <;> simp [h]
  simp only [append, now, readClock, Proc.wp_bind, Proc.wp_read, Proc.wp_ensure, Proc.wp_update,
    Proc.wp_pure]
  refine ⟨fun _ => ?_, fun h => by simp [hlegal'] at h⟩
  cases hstamp : P.formatTime (C.clock s.world.tick) with
  | none =>
    refine hbad _ (.clockRange ?_)
    simpa [Platform.formatTime] using hstamp
  | some stamp =>
    rw [Proc.wp_ofOption_some]
    cases hr : nextRecord P s.world.journal id body stamp with
    | none =>
      refine hbad _ (.canonicalization hstamp ?_)
      rw [← P.digest_isSome]
      simpa [nextRecord] using hr
    | some r =>
      rw [Proc.wp_ofOption_some, Proc.wp_persist]
      exact ⟨fun hb => hbad _ (.killed hb), fun hb => hok r stamp hstamp hr hb⟩

variable {J : List Record}

lemma encodable_lastHash (h : Chained P J) : (lastHash J).encodable = true := by
  rcases eq_nil_or_concat J with rfl | ⟨J, r, rfl⟩
  · exact PyStr.encodable_ofString _
  · rw [concat_eq_append] at h ⊢
    rw [lastHash, HashChain.head_concat]
    exact P.encodable_digest (HashChain.chain_append.mp h).2.1.2.2

variable {r : Record}

/-- What a chained journal holds can be encoded. -/
lemma encodable_of_chained (h : Chained P J) (hr : r ∈ J) :
    r.toDraft.toJson.encodable = true ∧ r.hash.encodable = true := by
  obtain ⟨i, prev, -, -, hhash⟩ := HashChain.valid_of_mem h hr
  exact ⟨P.encodable_of_digest hhash, P.encodable_digest hhash⟩

variable {id : PyStr}

/-- Appending a record with an encodable body fails only for an excuse. -/
lemma AppendFault.excused {s : Machine World} {body : Body} {e : Fault}
    (h : AppendFault C s id body e) (hchain : Chained P s.world.journal)
    (hid : id.encodable = true) (hbody : body.toJson.encodable = true) :
    Excused C s e { s.world with tick := s.world.tick + 1 } := by
  cases h with
  | killed h => exact .inl ⟨rfl, by simp [h]⟩
  | clockRange h => exact .inr (.inl ⟨rfl, _, h⟩)
  | canonicalization hstamp h =>
    refine .inr (.inr ⟨.inl rfl, .inl ?_⟩)
    by_contra hlen
    have henc := (nextDraft s.world.journal id body _).encodable_iff.mpr
      ⟨not_lt.mp hlen, encodable_lastHash hchain, P.encodable_formatTime hstamp, hid, hbody⟩
    rw [h] at henc
    exact Bool.false_ne_true henc

/-! ## Carrying an attempt on -/

/-- The attempt `a` on the settled home `J0`, `S0` is at a stage in the world `w`. -/
structure At (C : Coordinator P) (J0 : List Record) (S0 : Store) (a : Attempt) (st : Stage)
    (w : World) : Prop where
  chained : Chained P w.journal
  block : ∃ rs, w.journal = J0 ++ rs ∧ Block C S0 a st rs w.store

/-- A world that differs in neither journal nor store. -/
lemma At.congr {J0 : List Record} {S0 : Store} {a : Attempt} {st : Stage}
    (h : At C J0 S0 a st w) (hj : w'.journal = w.journal) (hs : w'.store = w.store) :
    At C J0 S0 a st w' := by
  refine ⟨hj ▸ h.chained, ?_⟩
  rw [hj, hs]
  exact h.block

variable {rs : List Record}

/-- More records do not change which records finality rests on. -/
lemma finalityRecords_append
    (h : finalityRecords rs = some recs) : finalityRecords (rs ++ more) = some recs := by
  unfold finalityRecords at h ⊢
  simp only [bind_eq_bind, bind_eq_some_iff] at h ⊢
  obtain ⟨prepared, hp, committed, hc, h⟩ := h
  exact ⟨prepared, by rw [List.head?_append, hp, some_or], committed,
    by rw [List.find?_append, hc, some_or], h⟩

lemma Certifies.append (h : Certifies C id rs cert) : Certifies C id (rs ++ more) cert := by
  obtain ⟨recs, hrecs, hsign⟩ := h
  exact ⟨recs, finalityRecords_append hrecs, hsign⟩

variable {d : Detail}

/-- A further record of the attempt carries its block one stage on. -/
lemma Block.advance {a : Attempt} {st st' : Stage} (h : Block C S a st rs S')
    (hid : r.intentId = a.id) (hbody : r.body = ⟨some a.hash, d⟩)
    (hk : st'.kinds = st.kinds ++ [d.kind]) (hst : st'.isStored = st.isStored)
    (hcommitted : ∀ cb, d = .committed cb → Confirms P S' a.id cb)
    (hfinal : ∀ cert, d = .finalized cert → Certifies C a.id rs cert) :
    Block C S a st' (rs ++ [r]) S' := by
  have hkind : r.kind = d.kind := by rw [Draft.kind, hbody]
  refine ⟨?_, ?_, forall_mem_append.mpr ⟨h.same, forall_mem_singleton.mpr ?_⟩, hst ▸ h.store,
    forall_mem_append.mpr ⟨h.committed, forall_mem_singleton.mpr ?_⟩,
    forall_mem_append.mpr ⟨fun x hx cert hcert => ?_, forall_mem_singleton.mpr ?_⟩⟩
  · rw [map_append, h.kinds, hk, map_singleton, hkind]
  · rw [List.head?_append, h.head, some_or]
  · exact ⟨hid, by rw [hbody]⟩
  · rw [hbody]
    exact hcommitted
  · exact (h.finalized x hx cert hcert).append
  · rw [hbody]
    exact fun cert hcert => (hfinal cert hcert).append

section Attempt

variable {J0 : List Record} {S0 : Store} {n : ℕ} {a : Attempt} {st : Stage} {s : Machine World}

/-- The records of the attempt are the binding records of its intent. -/
lemma Begins.binding_eq {w : World} (hb : Begins C n J0 S0 a) (hj : w.journal = J0 ++ rs)
    (hblock : Block C S0 a st rs w.store) :
    binding w.journal a.id = rs := by
  rw [hj, binding_append, hb.fresh, hblock.binding_self, nil_append]

/-- An append that carries the attempt one stage on. -/
theorem wp_advance (hb : Begins C n J0 S0 a) (hat : At C J0 S0 a st s.world) (st' : Stage)
    (hk : st'.kinds = st.kinds ++ [d.kind]) (hst : st'.isStored = st.isStored)
    (henc : (Body.toJson ⟨some a.hash, d⟩).encodable = true)
    (hcommitted : ∀ cb, d = .committed cb → Confirms P s.world.store a.id cb)
    (hfinal : ∀ cert, d = .finalized cert → ∀ rs, s.world.journal = J0 ++ rs → Certifies C a.id rs
      cert) :
    Leads C (C.append a.id ⟨some a.hash, d⟩) (At C J0 S0 a st') (At C J0 S0 a st) s := by
  obtain ⟨hchain, rs, hj, hblock⟩ := hat
  refine wp_append (.inr ?_) (fun r stamp hstamp hr _ => ⟨⟨chained_concat hchain hr, ?_⟩, ?_, rfl⟩)
    fun e he => ⟨⟨hchain, rs, hj, hblock⟩, ⟨prefix_rfl, rfl, id⟩,
      he.excused hchain hb.encodable_id henc⟩
  · rw [hb.binding_eq hj hblock, hblock.kinds, ← hk, Stage.stateAfter_kinds, isSome_some]
  · obtain ⟨hdraft, -⟩ := nextRecord_eq_some hr
    refine ⟨rs ++ [r], by rw [hj, append_assoc], ?_⟩
    exact hblock.advance (by rw [hdraft, nextDraft]) (by rw [hdraft, nextDraft]) hk hst hcommitted
      fun cert hcert => hfinal cert hcert rs hj
  · exact ⟨prefix_append _ _, rfl, fun h => by simp [h]⟩

lemma Begins.encodable_hash (hb : Begins C n J0 S0 a) : a.hash.encodable = true :=
  P.encodable_digest hb.hash_eq

/-- The body of a record that states a reason or nothing has an encoding. -/
lemma encodable_plainBody (hh : h.encodable = true)
    (hd : d = .committing ∨ (∃ r, d = .commitUncertain r) ∨ ∃ r, d = .aborted r) :
    (Body.toJson ⟨some h, d⟩).encodable = true := by
  rcases hd with rfl | ⟨r, rfl⟩ | ⟨r, rfl⟩ <;>
    simp [Body.toJson, optStr, hh, Detail.fields]

/-- `wp_advance` for a record that states a reason or nothing. -/
lemma wp_advance_plain (hb : Begins C n J0 S0 a) (hat : At C J0 S0 a st s.world) (st' : Stage)
    (hd : d = .committing ∨ (∃ r, d = .commitUncertain r) ∨ ∃ r, d = .aborted r)
    (hk : st'.kinds = st.kinds ++ [d.kind]) (hst : st'.isStored = st.isStored) :
    Leads C (C.append a.id ⟨some a.hash, d⟩) (At C J0 S0 a st') (At C J0 S0 a st) s := by
  refine wp_advance hb hat st' hk hst (encodable_plainBody hb.encodable_hash hd) (fun cb h => ?_)
    fun cert h => ?_
  · rcases hd with rfl | ⟨r, rfl⟩ | ⟨r, rfl⟩ <;> simp at h
  · rcases hd with rfl | ⟨r, rfl⟩ | ⟨r, rfl⟩ <;> simp at h

/-! ## Finality -/

/-- A block with a COMMITTED record has the records finality rests on. -/
lemma Block.exists_finalityRecords {S S' : Store} (h : Block C S a st rs S')
    (hk : .committed ∈ st.kinds) :
    ∃ r cb, finalityRecords rs = some ((a.record, a.body), (r, cb)) ∧ r ∈ rs ∧
      r.body.detail = .committed cb := by
  obtain ⟨r0, hr0, hk0⟩ := h.exists_of_kind_mem hk
  have hsome : (rs.find? fun r => decide (r.kind = .committed)).isSome = true :=
    List.find?_isSome.mpr ⟨r0, hr0, by simpa using hk0⟩
  obtain ⟨r, hr⟩ := isSome_iff_exists.mp hsome
  have hrk : r.kind = .committed := by simpa using List.find?_some hr
  obtain ⟨cb, hcb⟩ : ∃ cb, r.body.detail = .committed cb := by
    rw [Draft.kind] at hrk
    cases hd : r.body.detail <;> simp [hd, Detail.kind] at hrk
    exact ⟨_, rfl⟩
  refine ⟨r, cb, ?_, mem_of_find?_eq_some hr, hcb⟩
  simp only [finalityRecords, h.head, hr, bind_eq_bind, bind_some, a.body_eq, hcb]

/-- A member of an encodable body is encodable. -/
lemma encodable_bodyField (hchain : Chained P J) (hr : r ∈ J)
    (hv : r.body.toJson.field? k = some v) : v.encodable = true :=
  encodable_field? (r.encodable_iff.mp (encodable_of_chained hchain hr).1).2.2.2.2 hv

/-- What the certificate over two chained records states can be encoded. -/
lemma encodable_certificatePayload (hchain : Chained P J) (hid : id.encodable = true)
    {r1 r2 : Record} {pb : PreparedBody} {cb : CommittedBody} {h : PyStr} (h1 : r1 ∈ J)
    (hb1 : r1.body = ⟨some h, .prepared pb⟩) (h2 : r2 ∈ J) (hb2 : r2.body.detail = .committed cb)
    (hp : pb.signed.payload.encodable = true) :
    (C.certificatePayload id r1 r2 pb cb).encodable = true := by
  have field1 := fun k v => encodable_bodyField hchain h1 (k := k) (v := v)
  have field2 := fun k v => encodable_bodyField hchain h2 (k := k) (v := v)
  -- every member is one of the two records', of their bodies' or of the signed payload's
  obtain ⟨henc1, hhash1⟩ := encodable_of_chained hchain h1
  obtain ⟨henc2, hhash2⟩ := encodable_of_chained hchain h2
  have hseq1 := (r1.encodable_iff.mp henc1).1
  obtain ⟨hseq2, -, hstamp, -⟩ := r2.encodable_iff.mp henc2
  have hh := field1 "intent_hash" (.str h) (by simp [Body.toJson, hb1, optStr])
  have hroot := field1 "pre_root" (.str pb.preRoot)
    (by simp [Body.toJson, hb1, Detail.fields, PreparedBody.fields])
  have hcommit := field1 "payload_commitment" (.str pb.payloadCommitment)
    (by simp [Body.toJson, hb1, Detail.fields, PreparedBody.fields])
  have hgen : (cb.postGeneration : ℤ) ≤ Json.maxSafe := by
    have := field2 "post_generation" (.int cb.postGeneration)
      (by simp [Body.toJson, hb2, Detail.fields, CommittedBody.fields])
    simpa using this
  have hpost := field2 "post_root" (.str cb.postRoot)
    (by simp [Body.toJson, hb2, Detail.fields, CommittedBody.fields])
  have hrow := field2 "applied_row" cb.appliedRow.toJson
    (by simp [Body.toJson, hb2, Detail.fields, CommittedBody.fields])
  have hphys := field2 "physical" (.obj (physicalFields cb.storeId))
    (by simp [Body.toJson, hb2, Detail.fields, CommittedBody.fields])
  have hstore := encodable_field? hphys (k := "store_id") (v := .str cb.storeId)
    (by simp [physicalFields])
  have hns := encodable_field? hp pb.signed.reads.ns
  have hkid := encodable_field? hp pb.signed.reads.authorityKid
  have hexp := encodable_field? hp pb.signed.reads.expectedGeneration
  simp only [encodable_str, encodable_int] at hh hroot hcommit hpost hns hkid hexp hstore
  simp [certificatePayload, hb1, optStr, hid, hh, hroot, hcommit, hgen, hpost, hns, hkid, hexp,
    hrow, hstore, hseq1, hseq2, hhash1, hhash2, hstamp, physicalFields, finalizerKid,
    P.encodable_keyId]

/-- A confirmed attempt is finalized. -/
theorem wp_finalize (hb : Begins C n J0 S0 a) {u : Bool}
    (hat : At C J0 S0 a (.confirmed u) s.world) :
    Leads C (C.finalize a.id) (At C J0 S0 a (.finalized u)) (At C J0 S0 a (.confirmed u)) s := by
  obtain ⟨rs, hj, hblock⟩ := hat.block
  obtain ⟨r, cb, hrecs, hr, hcb⟩ := hblock.exists_finalityRecords (by cases u <;> decide)
  have hmem : ∀ x ∈ rs, x ∈ s.world.journal := fun x hx => hj ▸ mem_append_right _ hx
  have hpayload := encodable_certificatePayload (C := C) hat.chained hb.encodable_id
    (hmem _ hblock.record_mem) a.body_eq (hmem r hr) hcb hb.encodable_payload
  have hkid : C.finalizerKid.encodable = true := P.encodable_keyId _
  obtain ⟨cert, hcert, henc⟩ := P.exists_signPayload hpayload C.finalizerSk hkid
  simp only [finalize, Proc.wp_bind, Proc.wp_read, hb.binding_eq hj hblock, hrecs,
    Proc.wp_ofOption_some, hcert]
  rw [show a.record.body.intentHash = some a.hash by rw [a.body_eq]]
  refine wp_advance hb hat (.finalized u) (by cases u <;> rfl) (by cases u <;> rfl) ?_ (by simp) ?_
  · simp [Body.toJson, optStr, hb.encodable_hash, Detail.fields, henc]
  · rintro cert' h rs' hj'
    obtain rfl := append_cancel_left (hj.symm.trans hj')
    cases h
    exact ⟨_, hrecs, hcert⟩

/-- A new intent has no applied row. -/
lemma Begins.appliedRow_eq_none (hs : StoreFacts J0 S0) (hb : Begins C n J0 S0 a) :
    S0.appliedRow a.id = none := by
  refine List.find?_eq_none.mpr fun row hrow hid => ?_
  obtain ⟨r, hr, hrid, hrk⟩ := (hs.applied_iff a.id).mp ⟨row, hrow, by simpa using hid⟩
  have : r ∈ binding J0 a.id := mem_binding.mpr ⟨hr, hrid, by rw [hrk]; rfl⟩
  simp [hb.fresh] at this

/-- What a fresh read sees of a stored attempt. -/
lemma Commits.fresh_read {S : Store} (hs : StoreFacts J0 S0) (hb : Begins C n J0 S0 a)
    (hc : Commits P S0 a S) :
    ∃ post, S.snapshot P = some post ∧
      S.appliedRow a.id = some ⟨a.id, a.hash, post.generation, post.root⟩ ∧
      post.storeId = a.body.storeId ∧ post.generation = a.body.preGeneration + 1 ∧
      post.entries = KeyedTable.ordered (a.body.preEntries.filter (fun r => r.1 ≠ a.intent.key) ++
          [(a.intent.key, a.intent.value)]) := by
  obtain ⟨post, hpost, rfl⟩ := hc
  obtain ⟨-, hid, hgen, hent⟩ := Store.snapshot_upsert hs.keyed hb.pre hpost
  refine ⟨post, hpost, ?_, hid, hgen, hent⟩
  -- the intent is new, so its row is the one just inserted
  have hnone := hb.appliedRow_eq_none hs
  rw [Store.appliedRow] at hnone
  simp [Store.appliedRow, List.find?_append, hnone]

/-- A stored attempt, before or after COMMIT_UNCERTAIN. -/
def Stage.storedAs : Bool → Stage
  | false => .stored
  | true => .uncertainStored

/-- A stored attempt is confirmed and finalized. -/
theorem wp_confirmCommit (hs : StoreFacts J0 S0) (hb : Begins C n J0 S0 a) {u recovered : Bool}
    (hat : At C J0 S0 a (.storedAs u) s.world) :
    (C.confirmCommit a.id recovered).wp
      (fun _ s' => At C J0 S0 a (.finalized u) s'.world ∧ Kept s s' ∧
        s'.world.store = s.world.store)
      (fun e s' => (At C J0 S0 a (.storedAs u) s'.world ∨ At C J0 S0 a (.confirmed u) s'.world) ∧
        Kept s s' ∧ Excused C s e s'.world) s := by
  obtain ⟨rs, hj, hblock⟩ := hat.block
  have hstore := hblock.store
  rw [if_pos (by cases u <;> rfl)] at hstore
  obtain ⟨post, hsnap, hrow, hid, hgen, hent⟩ := hstore.fresh_read hs hb
  have hprep : preparedOf rs = some (a.record, a.body) := by
    simp only [preparedOf, hblock.head, bind_eq_bind, bind_some, a.body_eq]
  have hproblems : freshReadProblems a.body (some a.hash)
      (some ⟨a.id, a.hash, post.generation, post.root⟩) post = [] := by
    simp [freshReadProblems, hid, hgen, hent]
  have hhash : a.record.body.intentHash = some a.hash := by rw [a.body_eq]
  simp only [confirmCommit, Proc.wp_bind, Proc.wp_read, hb.binding_eq hj hblock, hprep,
    Proc.wp_ofOption_some, snapshot, hsnap, hhash, hrow, hproblems]
  -- the COMMITTED record states what was just read
  obtain ⟨hgenc, hentc, hrootc⟩ := Store.encodable_of_snapshot hsnap
  have hstoreId : post.storeId.encodable = true := by
    rw [hid, show a.body.storeId = S0.storeId from (Store.snapshot_eq_some hb.pre).2.1]
    exact hs.storeId
  refine Proc.wp_mono (wp_advance hb hat (.confirmed u) (by cases u <;> rfl)
    (by cases u <;> rfl) ?_ ?_ (by simp)) (fun _ s' h => ?_) fun e s' h => ⟨.inl h.1, h.2⟩
  · simp [Body.toJson, optStr, Detail.fields, CommittedBody.fields, AppliedRow.toJson,
      physicalFields, hb.encodable_id, hb.encodable_hash, hgenc, hentc, hrootc, hstoreId]
  · rintro cb h
    cases h
    exact ⟨post, _, recovered, hsnap, hrow, rfl⟩
  · refine Proc.wp_mono (wp_finalize hb h.1) (fun _ s'' h' => ?_) fun e s'' h' => ?_
    · exact ⟨h'.1, h.2.1.trans h'.2.1, h'.2.2.trans h.2.2⟩
    · exact ⟨.inr h'.1, h.2.1.trans h'.2.1, h.2.1.excused h'.2.2⟩

end Attempt

end VdbC1
