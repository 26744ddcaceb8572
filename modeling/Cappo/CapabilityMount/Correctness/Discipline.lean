import Cappo.CapabilityMount.Correctness.Events

/-!
# The discipline of the sessions

What lets the sessions of the service be verified one by one. A session writes only what is
justified, under the locks of the mounts that the justification speaks of, and while it holds
the lock of a mount nobody else updates the mount, adds a receipt of it, or claims one of its
operations. So what it read under the lock is still so when it commits.

## Main definitions

* `Fenced`: what the lock of a mount keeps;
* `Inv`: the log is audited, and all uncommitted writes are justified and under their locks;
* `Others`: what a session can see of the others;
* `discipline`: these together, for `Sessions.Discipline`.

## Main results

* `Write.Justified.mono`: what is justified stays so under the locks;
* `lockMount_cases`, `commit_cases` and so on: what the calls do;
* `exec_effect`: what a call can do to the shared state.
-/

namespace CapabilityMount

open VdbC1 (PyStr)
open World
open List Option Function Log

variable {D : Deployment}

/-! ## What a lock keeps -/

/-- The mounts whose locks a write rests on. -/
def Write.locks : Write → List PyStr
  | updateMount m _ => [m]
  | insertReceipt r => [r.mountId]
  | insertRedemption r => [r.mountId]
  | insertEvents es => (es.filter fun e => e.site = .beginConsequence).map Event.mountId
  | _ => []

variable {x : Write}

lemma Write.mem_locks_of_receipt {r : Receipt} (h : r ∈ x.receipts) : r.mountId ∈ x.locks := by
  cases x with
  | insertReceipt r' =>
    obtain rfl := mem_singleton.mp h
    exact mem_singleton_self _
  | _ => nomatch h

lemma Write.mem_locks_of_event {e : Event} (h : e ∈ x.events)
    (hsite : e.site = .beginConsequence) : e.mountId ∈ x.locks := by
  cases x with
  | insertEvents es =>
    exact mem_map_of_mem (mem_filter.mpr ⟨h, decide_eq_true hsite⟩)
  | _ => nomatch h

/-- Between two moments, nobody updates a mount, adds a receipt of it or claims one of its
operations. The consumed flag is not kept: an adversary may reset it. -/
structure Fenced (m : PyStr) (log log' : Log) : Prop where
  mounts : ∀ row, log.db.mounts m = some row →
    ∃ row', log'.db.mounts m = some row' ∧ row'.unconsumed = row.unconsumed
  receipts : ∀ r ∈ log'.db.receipts, r.mountId = m → r ∈ log.db.receipts
  claims : ∀ e ∈ log'.db.events, e.site = .beginConsequence → e.mountId = m → e ∈ log.db.events

namespace Fenced

variable {m : PyStr} {log log1 log2 : Log}

lemma refl (m : PyStr) (log : Log) : Fenced m log log :=
  ⟨fun row h => ⟨row, h, rfl⟩, fun _ h _ => h, fun _ h _ _ => h⟩

lemma trans (h1 : Fenced m log log1) (h2 : Fenced m log1 log2) : Fenced m log log2 where
  mounts row hrow := by
    obtain ⟨row1, hrow1, heq1⟩ := h1.mounts row hrow
    obtain ⟨row2, hrow2, heq2⟩ := h2.mounts row1 hrow1
    exact ⟨row2, hrow2, heq2.trans heq1⟩
  receipts r hr hm := h1.receipts r (h2.receipts r hr hm) hm
  claims e he hsite hm := h1.claims e (h2.claims e he hsite hm) hsite hm

end Fenced

variable {e : Entry}

/-- An entry that has no write under the lock of a mount keeps what the lock keeps. -/
lemma Entry.fenced {log : Log} (he : e.Justified D log) {m : PyStr}
    (hm : ∀ x ∈ e.writes, m ∉ x.locks) : Fenced m log (log ++ [e]) where
  mounts row hrow := by
    rw [db_concat]
    cases e with
    | commit i ws =>
      refine ⟨row, Db.mounts_foldl_apply_of_not_mem he.2.1 hrow fun u hu => ?_, rfl⟩
      exact hm _ hu (mem_singleton_self m)
    | nonceReset m' =>
      change ∃ row', Function.update log.db.mounts m' _ m = some row' ∧ _
      by_cases hne : m = m'
      · subst hne
        rw [update_self, hrow]
        exact ⟨row.unconsumed, rfl, rfl⟩
      · rw [update_of_ne hne]
        exact ⟨row, hrow, rfl⟩
    | _ => exact ⟨row, hrow, rfl⟩
  receipts r hr hmount := by
    rw [db_concat, Db.grows_receipts.entry_apply] at hr
    rcases mem_append.mp hr with hr | hr
    · exact hr
    · obtain ⟨x, hx, hrx⟩ := mem_flatMap.mp hr
      exact absurd (hmount ▸ Write.mem_locks_of_receipt hrx) (hm x hx)
  claims ev hev hsite hmount := by
    rw [db_concat, Entry.events_apply] at hev
    rcases mem_append.mp hev with hev | hev
    · exact hev
    · obtain ⟨x, hx, hex⟩ := mem_flatMap.mp hev
      exact absurd (hmount ▸ Write.mem_locks_of_event hex hsite) (hm x hx)

/-! ## Justifications last -/

section Monotone

variable {log log' : Log}

lemma Decided.mono {e : Event} (h : Decided log e) (hpre : log <+: log') : Decided log' e := by
  obtain ⟨pre, i, ws, post, r, row, rfl, h⟩ := h
  obtain ⟨suffix, rfl⟩ := hpre
  exact ⟨pre, i, ws, post ++ suffix, r, row, by rw [append_assoc, cons_append], h⟩

/-- What may be appended still may be when only other mounts have changed. -/
lemma Appended.mono {es : List Event} (h : Appended log es) (hpre : log <+: log')
    (hfenced : ∀ m ∈ (Write.insertEvents es).locks, Fenced m log log') : Appended log' es := by
  have hevents := events_subset hpre
  cases h with
  | authorized version state site decided =>
    exact .authorized version state site (decided.mono hpre)
  | @started latest e row mem continues state receiptId site site' mount live epoch =>
    have hmem : e.mountId ∈ (Write.insertEvents [e]).locks :=
      Write.mem_locks_of_event (mem_singleton_self e) site'
    obtain ⟨row', hrow', heq⟩ := (hfenced _ hmem).mounts row mount
    refine .started (hevents mem) continues state receiptId site site' hrow' ?_ ?_
    · rw [MountRow.congr_of_unconsumed_eq MountRow.terminated (fun _ => rfl) heq, live]
    · rw [MountRow.congr_of_unconsumed_eq MountRow.authorityEpoch (fun _ => rfl) heq, epoch]
  | continued mem continues state site => exact .continued (hevents mem) continues state site
  | recorded mem versions state continues started mountId receiptId receiptId' site site' =>
    exact .recorded (receipts_subset hpre mem) versions state continues started mountId
      receiptId receiptId' site site'

/-- The receipt of an ALLOW that was decided under the lock. -/
theorem Allowed.mono {r : Receipt} {row : MountRow} (h : Allowed D log r row)
    (hlog : log'.Audited D) (hpre : log <+: log') (hfenced : Fenced r.mountId log log') :
    ∃ row', Allowed D log' r row' := by
  obtain ⟨row', hrow', heq⟩ := hfenced.mounts row h.mount
  refine ⟨row', ?_⟩
  have hterminated := MountRow.congr_of_unconsumed_eq MountRow.terminated (fun _ => rfl) heq
  have htokenId := MountRow.congr_of_unconsumed_eq MountRow.tokenId (fun _ => rfl) heq
  have htoken := MountRow.congr_of_unconsumed_eq MountRow.token (fun _ => rfl) heq
  refine ⟨hrow', hterminated.trans h.live, h.tokenId.trans htokenId.symm, h.decision,
    fun r' hr' hm => h.first r' (hfenced.receipts r' hr' hm) hm, h.receiptId,
    htoken ▸ h.allows, htoken ▸ h.coversResource, ?_⟩
  intro lease' hlease'
  rw [htoken]
  obtain ⟨lease, hlease, hbounds⟩ :=
    lease_of_later hlog hpre (isSome_of_eq_some h.mount) hlease'
  exact (h.authority lease hlease).sameBounds hbounds

lemma Redeems.mono {r : Redemption} (h : Redeems log r) (hpre : log <+: log')
    (hfenced : Fenced r.mountId log log') : Redeems log' r where
  decided := by
    obtain ⟨n, latest, row, hn, hredeemable⟩ := h.decided
    obtain ⟨suffix, rfl⟩ := hpre
    refine ⟨n, latest, row, hn.trans (length_append ▸ Nat.le_add_right ..), ?_⟩
    rwa [take_append_of_le_length hn]
  mount := by
    obtain ⟨row, hrow, hlive⟩ := h.mount
    obtain ⟨row', hrow', heq⟩ := hfenced.mounts row hrow
    refine ⟨row', hrow', ?_⟩
    rw [MountRow.congr_of_unconsumed_eq MountRow.terminated (fun _ => rfl) heq, hlive]
  minted := by
    obtain ⟨p, hp, hmessage⟩ := h.minted
    exact ⟨p, permits_subset hpre hp, hmessage⟩

/-- What is justified stays so while the locks that it rests on are held. -/
theorem Write.Justified.mono (hx : x.Justified D log) (hlog : log'.Audited D)
    (hpre : log <+: log') (hfenced : ∀ m ∈ x.locks, Fenced m log log') : x.Justified D log' := by
  cases x with
  | updateMount m u =>
    obtain ⟨row, hrow, hadmits⟩ := hx
    obtain ⟨row', hrow', heq⟩ := (hfenced m (mem_singleton_self m)).mounts row hrow
    exact ⟨row', hrow', hadmits.congr heq⟩
  | insertEvents es => exact Appended.mono hx hpre hfenced
  | insertReceipt r =>
    obtain ⟨row, hrow⟩ := hx
    exact hrow.mono hlog hpre (hfenced _ (mem_singleton_self _))
  | insertRedemption r => exact Redeems.mono hx hpre (hfenced _ (mem_singleton_self _))
  | _ => exact hx

lemma Permit.Justified.mono {p : Permit} (h : p.Justified D log) (hpre : log <+: log') :
    p.Justified D log' where
  operation := by
    obtain ⟨e, he, h⟩ := h.operation
    exact ⟨e, events_subset hpre he, h⟩
  receipt receiptId hr := by
    obtain ⟨e, he, h⟩ := h.receipt receiptId hr
    exact ⟨e, events_subset hpre he, h⟩
  target := h.target

end Monotone

/-! ## The invariant -/

/-- The log is audited, and what is not committed yet is justified and under its locks. -/
structure Inv (D : Deployment) (w : World) : Prop where
  audited : w.log.Audited D
  justified : ∀ i, ∀ x ∈ w.writes i, x.Justified D w.log
  held : ∀ i, ∀ x ∈ w.writes i, ∀ m ∈ x.locks, w.locks m = some i
  single : ∀ i, ((w.writes i).flatMap Write.receipts).length ≤ 1

/-- When a call may be made. -/
def Legal (D : Deployment) (i : ℕ) (op : Op) (w : World) : Prop :=
  match op with
  | .write x => x.Justified D w.log ∧ (∀ m ∈ x.locks, w.locks m = some i) ∧
      (x.receipts = [] ∨ (w.writes i).flatMap Write.receipts = [])
  | .dispatch d permitReceipt => d.Justified D w.log ∧
      ∀ payloads, ∀ p ∈ d.mints permitReceipt payloads, p.Justified D w.log
  | _ => True

/-- What the others leave as it is for session `i`. -/
structure Others (i : ℕ) (w w' : World) : Prop where
  log : w.log <+: w'.log
  locks : ∀ m, w.locks m = some i → w'.locks m = some i
  fenced : ∀ m, w.locks m = some i → Fenced m w.log w'.log
  writes : w'.writes i = w.writes i
  own : ∀ e ∈ w'.log, e.session = some i → e ∈ w.log

/-- A session that was not used has neither uncommitted writes nor entries. -/
structure Unused (i : ℕ) (w : World) : Prop where
  writes : w.writes i = []
  own : ∀ e ∈ w.log, e.session ≠ some i

namespace Others

variable {i : ℕ} {w w1 w2 : World}

lemma refl (i : ℕ) (w : World) : Others i w w :=
  ⟨prefix_rfl, fun _ h => h, fun m _ => .refl m _, rfl, fun _ h _ => h⟩

lemma trans (h1 : Others i w w1) (h2 : Others i w1 w2) : Others i w w2 where
  log := h1.log.trans h2.log
  locks m hm := h2.locks m (h1.locks m hm)
  fenced m hm := (h1.fenced m hm).trans (h2.fenced m (h1.locks m hm))
  writes := h2.writes.trans h1.writes
  own e he hs := h1.own e (h2.own e he hs) hs

/-- What leaves the log, the locks and the writes of the session. -/
lemma of_eq (hlog : w1.log = w.log) (hlocks : ∀ m, w.locks m = some i → w1.locks m = some i)
    (hwrites : w1.writes i = w.writes i) : Others i w w1 where
  log := hlog ▸ prefix_rfl
  locks := hlocks
  fenced m _ := hlog ▸ .refl m _
  writes := hwrites
  own _ he _ := hlog ▸ he

end Others

lemma Unused.others {i : ℕ} {w w' : World} (h : Unused i w) (ho : Others i w w') : Unused i w' where
  writes := ho.writes.trans h.writes
  own e he hs := h.own e (ho.own e he hs) hs

/-! ## What a call does -/

/-- What a call can do to the shared state. -/
inductive Effect (i : ℕ) (w : World) : Op → World → Prop
  | unchanged (op : Op) : Effect i w op w
  | released (op : Op) : Effect i w op (w.release i)
  | locked (m : PyStr) (free : w.locks m = none ∨ w.locks m = some i) :
      Effect i w (.lockMount m) (w.locked i m)
  | incremented : Effect i w .updateSequence
      { w.wrote i .incrementSequence with sequenceLock := some i }
  | wrote (x : Write) : Effect i w (.write x) (w.wrote i x)
  | committed (accepts : w.db.acceptsAll (w.writes i) = true)
      (fresh : w.issuesFresh i = true) : Effect i w .commit (w.committed i)
  | revoked (m : PyStr) (revoked : ℕ → List PyStr) : Effect i w (.markRevoked m) { w with revoked }
  | anchored (e : AnchorEvent) (r : AnchorResult) :
      Effect i w (.anchor e) (w.append (.anchored i e r))
  | dispatched (d : Dispatch) (permitReceipt : Option (Option PyStr)) (payloads : List PyStr) :
      Effect i w (.dispatch d permitReceipt) (w.dispatched i d (d.mints permitReceipt payloads))

section Calls

variable {i : ℕ} {w w' : World} {a : Answer} {α : Type}

variable {r : Except Exn α}

lemma reading_cases (h : w.reading i a v = some (r, w')) :
    (r = .error .database ∧ w' = w.release i) ∨ (r = .ok v ∧ w' = w) := by
  unfold reading at h
  split at h
  · exact .inl (Prod.mk.inj (some.inj h.symm))
  · exact .inr (Prod.mk.inj (some.inj h.symm))

lemma chosen_cases (h : w.chosen i a v = some (r, w')) :
    (r = .error .database ∧ w' = w.release i) ∨ ∃ x, r = .ok x ∧ v = some x ∧ w' = w := by
  unfold chosen at h
  split at h
  · exact .inl (Prod.mk.inj (some.inj h.symm))
  · obtain ⟨x, hx, hpair⟩ := map_eq_some_iff.mp h
    obtain ⟨hr, hw⟩ := Prod.mk.inj hpair
    exact .inr ⟨x, hr.symm, hx, hw.symm⟩

/-- A lock fails, finds no row, or is taken. -/
lemma lockMount_cases {m : PyStr} {r : Except Exn (Option MountRow)}
    (h : w.lockMount i a m = some (r, w')) :
    (r = .error .database ∧ w' = w.release i) ∨
    (r = .ok none ∧ w.db.mounts m = none ∧ w' = w) ∨
    ∃ row, r = .ok (some row) ∧ w.db.mounts m = some row ∧
      (w.locks m = none ∨ w.locks m = some i) ∧ w' = w.locked i m := by
  unfold lockMount at h
  split at h
  · next hfree =>
    split at h
    · exact .inl (Prod.mk.inj (some.inj h.symm))
    · next hnone =>
      obtain ⟨hr, hw⟩ := Prod.mk.inj (some.inj h.symm)
      exact .inr (.inl ⟨hr, hnone, hw⟩)
    · next hsome =>
      obtain ⟨hr, hw⟩ := Prod.mk.inj (some.inj h.symm)
      exact .inr (.inr ⟨_, hr, hsome, hfree, hw⟩)
  · nomatch h

/-- The sequence cannot be updated, is not there, or is incremented. -/
lemma updateSequence_cases {r : Except Exn ℕ} (h : w.updateSequence i a = some (r, w')) :
    (r = .error .database ∧ w' = w.release i) ∨ (r = .ok 0 ∧ w' = w) ∨
    (r = .ok 1 ∧ (w.sequenceLock = none ∨ w.sequenceLock = some i) ∧ w.db.sequence.isSome = true ∧
      w' = { w.wrote i .incrementSequence with sequenceLock := some i }) := by
  unfold updateSequence at h
  split at h
  · next hfree =>
    split at h
    · exact .inl (Prod.mk.inj (some.inj h.symm))
    · exact .inr (.inl (Prod.mk.inj (some.inj h.symm)))
    · next hsome =>
      obtain ⟨hr, hw⟩ := Prod.mk.inj (some.inj h.symm)
      exact .inr (.inr ⟨hr, hfree, isSome_of_eq_some hsome, hw⟩)
  · nomatch h

lemma anchor_cases {e : AnchorEvent} {r : Except Exn AnchorResult}
    (h : w.anchor i a e = some (r, w')) :
    (r = .error .database ∧ w' = w.release i) ∨
    ∃ result, r = .ok result ∧ w' = w.append (.anchored i e result) := by
  unfold anchor at h
  split at h
  · exact .inl (Prod.mk.inj (some.inj h.symm))
  · exact .inr ⟨_, Prod.mk.inj (some.inj h.symm)⟩
  · nomatch h

lemma dispatch_cases
    {r : Except Exn (Except Exn VdbC1.Json)} (h : w.dispatch i a d permitReceipt = some (r, w')) :
    ∃ outcome payloads, r = .ok outcome ∧
      w' = w.dispatched i d (d.mints permitReceipt payloads) := by
  unfold dispatch at h
  split at h
  · exact ⟨_, _, Prod.mk.inj (some.inj h.symm)⟩
  · nomatch h

/-- A commit fails, or all its writes take effect. -/
lemma commit_cases {r : Except Exn Unit} (h : Deployment.commit i a w = some (r, w')) :
    ((∃ e, r = .error e) ∧ w' = w.release i) ∨
    (w.db.acceptsAll (w.writes i) = true ∧ w.issuesFresh i = true ∧ w' = w.committed i) := by
  unfold Deployment.commit at h
  split at h
  · obtain ⟨hr, hw⟩ := Prod.mk.inj (some.inj h.symm)
    exact .inl ⟨⟨_, hr⟩, hw⟩
  · split at h
    · obtain ⟨hr, hw⟩ := Prod.mk.inj (some.inj h.symm)
      exact .inl ⟨⟨_, hr⟩, hw⟩
    · next haccepts =>
      split at h
      · nomatch h
      · next hfresh =>
        refine .inr ⟨by simpa using haccepts, by simpa using hfresh, ?_⟩
        split at h
        · exact (Prod.mk.inj (some.inj h.symm)).2
        · exact (Prod.mk.inj (some.inj h.symm)).2

/-- A permit that matches was minted. -/
lemma permitMatches_cases
    {r : Except Exn Bool} (h : D.permitMatches key presented permit w = some (r, w')) :
    w' = w ∧ (r = .ok true → ∃ p ∈ w.log.permits, permitMessage p = permitMessage permit) := by
  unfold Deployment.permitMatches at h
  split at h
  · obtain ⟨hr, hw⟩ := Prod.mk.inj (some.inj h.symm)
    exact ⟨hw, fun htrue => absurd (hr.symm.trans htrue) nofun⟩
  · split at h
    · split at h
      · next hany =>
        obtain ⟨p, hp, hmessage⟩ := any_eq_true.mp hany
        obtain ⟨-, hw⟩ := Prod.mk.inj (some.inj h.symm)
        exact ⟨hw, fun _ => ⟨p, hp, of_decide_eq_true hmessage⟩⟩
      · nomatch h
    · obtain ⟨hr, hw⟩ := Prod.mk.inj (some.inj h.symm)
      exact ⟨hw, fun htrue => absurd (hr.symm.trans htrue) nofun⟩

variable {op : Op}

lemma effect_reading (h : w.reading i a v = some (r, w')) : Effect i w op w' := by
  rcases reading_cases h with ⟨-, rfl⟩ | ⟨-, rfl⟩
  · exact .released op
  · exact .unchanged op

lemma effect_chosen (h : w.chosen i a v = some (r, w')) : Effect i w op w' := by
  rcases chosen_cases h with ⟨-, rfl⟩ | ⟨x, -, -, rfl⟩
  · exact .released op
  · exact .unchanged op

/-- What a call can do to the shared state. -/
theorem exec_effect {r : Except Exn (Val op)} (h : D.exec i op a w = some (r, w')) :
    Effect i w op w' := by
  cases op with
  | lockMount m =>
    rcases lockMount_cases h with ⟨-, rfl⟩ | ⟨-, -, rfl⟩ | ⟨row, -, -, hfree, rfl⟩
    · exact .released _
    · exact .unchanged _
    · exact .locked m hfree
  | updateSequence =>
    rcases updateSequence_cases h with ⟨-, rfl⟩ | ⟨-, rfl⟩ | ⟨-, -, -, rfl⟩
    · exact .released _
    · exact .unchanged _
    · exact .incremented
  | anchor e =>
    rcases anchor_cases h with ⟨-, rfl⟩ | ⟨result, -, rfl⟩
    · exact .released _
    · exact .anchored e result
  | dispatch d permitReceipt =>
    obtain ⟨outcome, payloads, -, rfl⟩ := dispatch_cases h
    exact .dispatched d permitReceipt payloads
  | commit =>
    rcases commit_cases h with ⟨-, rfl⟩ | ⟨haccepts, hfresh, rfl⟩
    · exact .released _
    · exact .committed haccepts hfresh
  | permitMatches key presented permit =>
    obtain ⟨rfl, -⟩ := permitMatches_cases h
    exact .unchanged _
  | write x =>
    cases h
    exact .wrote x
  | rollback =>
    cases h
    exact .released _
  | now | isRevoked =>
    cases h
    exact .unchanged _
  | markRevoked m =>
    cases h
    exact .revoked m _
  | latestOfExecution | isOnline | fresh | connectorEvidence => exact effect_chosen h
  | lease | latestEvent | inFlight | receipt | priorReceipt | evidenceConsumed | selectNextValue
  | audit => exact effect_reading h

end Calls

/-! ## Every call keeps the invariant -/

section Preservation

variable {i j : ℕ} {w : World}

lemma World.locks_release {m : PyStr} :
    (w.release i).locks m = some j ↔ j ≠ i ∧ w.locks m = some j := by
  change (if w.locks m = some i then none else w.locks m) = some j ↔ _
  split
  · next h =>
    rw [h]
    constructor
    · exact nofun
    · rintro ⟨hne, hij⟩
      exact absurd (some.inj hij).symm hne
  · next h =>
    constructor
    · intro hj
      refine ⟨?_, hj⟩
      rintro rfl
      exact h hj
    · exact fun hj => hj.2

lemma World.writes_release_self : (w.release i).writes i = [] := update_self ..

lemma World.writes_release_of_ne (h : j ≠ i) : (w.release i).writes j = w.writes j :=
  update_of_ne h ..

lemma Others.release (hj : j ≠ i) : Others j w (w.release i) :=
  .of_eq rfl (fun _ hm => locks_release.mpr ⟨hj, hm⟩) (writes_release_of_ne hj)

/-- The end of a transaction keeps the invariant. -/
lemma Inv.release (h : Inv D w) : Inv D (w.release i) := by
  have hcases : ∀ k, (w.release i).writes k = [] ∨ k ≠ i ∧ (w.release i).writes k = w.writes k := by
    intro k
    by_cases hk : k = i
    · exact .inl (hk ▸ writes_release_self)
    · exact .inr ⟨hk, writes_release_of_ne hk⟩
  refine ⟨h.audited, fun k x hx => ?_, fun k x hx m hm => ?_, fun k => ?_⟩
  · rcases hcases k with hnil | ⟨-, heq⟩
    · exact absurd hx (hnil ▸ not_mem_nil)
    · exact h.justified k x (heq ▸ hx)
  · rcases hcases k with hnil | ⟨hk, heq⟩
    · exact absurd hx (hnil ▸ not_mem_nil)
    · exact locks_release.mpr ⟨hk, h.held k x (heq ▸ hx) m hm⟩
  · rcases hcases k with hnil | ⟨-, heq⟩
    · rw [hnil]
      exact Nat.zero_le 1
    · rw [heq]
      exact h.single k

/-- An entry whose writes are under no lock that is still held. -/
theorem Inv.append (h : Inv D w) (he : e.Justified D w.log)
    (hfree : ∀ j m, w.locks m = some j → ∀ x ∈ e.writes, m ∉ x.locks) : Inv D (w.append e) where
  audited := h.audited.concat he
  justified k x hx := (h.justified k x hx).mono (h.audited.concat he) (prefix_append ..)
    fun m hm => Entry.fenced he (hfree k m (h.held k x hx m hm))
  held := h.held
  single := h.single

lemma Others.append (he : e.Justified D w.log) (hsession : e.session ≠ some j)
    (hfree : ∀ m, w.locks m = some j → ∀ x ∈ e.writes, m ∉ x.locks) :
    Others j w (w.append e) where
  log := prefix_append ..
  locks _ hm := hm
  fenced m hm := Entry.fenced he (hfree m hm)
  writes := rfl
  own := forall_mem_append.mpr ⟨fun _ he' _ => he', forall_mem_singleton.mpr fun hs =>
    absurd hs hsession⟩

/-- The commit of a session is justified. -/
lemma Inv.justified_commit (h : Inv D w) (haccepts : w.db.acceptsAll (w.writes i) = true)
    (hfresh : w.issuesFresh i = true) : (Entry.commit i (w.writes i)).Justified D w.log :=
  ⟨h.justified i, haccepts, of_decide_eq_true hfresh, h.single i⟩

/-- The locks that its writes rest on are given back with the commit. -/
lemma Inv.free_commit (h : Inv D w) (j : ℕ) (m : PyStr)
    (hm : (w.release i).locks m = some j) : ∀ x ∈ w.writes i, m ∉ x.locks := by
  intro x hx hmem
  obtain ⟨hne, hj⟩ := locks_release.mp hm
  have hi := h.held i x hx m hmem
  exact hne (mem_unique hj hi)

lemma World.writes_wrote_self (x : Write) : (w.wrote i x).writes i = w.writes i ++ [x] :=
  update_self ..

lemma World.writes_wrote_of_ne (x : Write) (h : j ≠ i) : (w.wrote i x).writes j = w.writes j :=
  update_of_ne h ..

/-- A legal write keeps the invariant. -/
lemma Inv.wrote (h : Inv D w) (hx : Legal D i (.write x) w) : Inv D (w.wrote i x) := by
  obtain ⟨hjustified, hheld, hsingle⟩ := hx
  have hmem : ∀ k, ∀ y ∈ (w.wrote i x).writes k, y ∈ w.writes k ∨ k = i ∧ y = x := by
    intro k y hy
    by_cases hk : k = i
    · subst hk
      rw [writes_wrote_self, mem_append, mem_singleton] at hy
      exact hy.imp_right fun heq => ⟨rfl, heq⟩
    · exact .inl (writes_wrote_of_ne x hk ▸ hy)
  refine ⟨h.audited, fun k y hy => ?_, fun k y hy m hm => ?_, fun k => ?_⟩
  · rcases hmem k y hy with hy | ⟨-, rfl⟩
    · exact h.justified k y hy
    · exact hjustified
  · rcases hmem k y hy with hy | ⟨rfl, rfl⟩
    · exact h.held k y hy m hm
    · exact hheld m hm
  · by_cases hk : k = i
    · subst hk
      rw [writes_wrote_self, flatMap_append, flatMap_singleton, length_append]
      have hone : x.receipts.length ≤ 1 := by cases x <;> simp [Write.receipts]
      rcases hsingle with hnil | hnil
      · rw [hnil]
        exact h.single k
      · rw [hnil, length_nil, Nat.zero_add]
        exact hone
    · rw [writes_wrote_of_ne x hk]
      exact h.single k

lemma Others.wrote (x : Write) (hj : j ≠ i) : Others j w (w.wrote i x) :=
  .of_eq rfl (fun _ hm => hm) (writes_wrote_of_ne x hj)

/-- A lock that nobody else holds is taken. -/
lemma World.locks_locked {m m' : PyStr} (hfree : w.locks m = none ∨ w.locks m = some i)
    (hm' : w.locks m' = some j) : (w.locked i m).locks m' = some j := by
  change Function.update w.locks m (some i) m' = some j
  by_cases hm : m' = m
  · subst hm
    rw [update_self]
    rcases hfree with hfree | hfree
    · nomatch hfree.symm.trans hm'
    · exact hfree.symm.trans hm'
  · rw [update_of_ne hm, hm']

/-- Permits that are minted one after the other. -/
theorem Inv.minted (h : Inv D w) (permits : List Permit)
    (hpermits : ∀ p ∈ permits, p.Justified D w.log) :
    Inv D { w with log := w.log ++ permits.map .minted } ∧
      ∀ j, Others j w { w with log := w.log ++ permits.map .minted } := by
  induction permits generalizing w with
  | nil =>
    rw [map_nil, append_nil]
    exact ⟨h, fun j => .refl j w⟩
  | cons p ps ih =>
    have hp := hpermits p mem_cons_self
    have hw := h.append (e := .minted p) hp fun _ _ _ _ hx => nomatch hx
    obtain ⟨hinv, hothers⟩ := ih hw fun p' hp' =>
      (hpermits p' (mem_cons_of_mem _ hp')).mono (prefix_append ..)
    have heq : w.log ++ (p :: ps).map .minted = (w.append (.minted p)).log ++ ps.map .minted := by
      rw [World.append, append_assoc, map_cons, singleton_append]
    rw [heq]
    refine ⟨hinv, fun j => Others.trans ?_ (hothers j)⟩
    exact .append hp nofun fun _ _ _ hx => nomatch hx

/-- A legal dispatch keeps the invariant, and others do not notice. -/
lemma Inv.dispatched (h : Inv D w) {d : Dispatch} {permits : List Permit}
    (hd : d.Justified D w.log) (hpermits : ∀ p ∈ permits, p.Justified D w.log) :
    Inv D (w.dispatched i d permits) ∧ ∀ j, j ≠ i → Others j w (w.dispatched i d permits) := by
  have hw := h.append (e := .dispatched i d) hd fun _ _ _ _ hx => nomatch hx
  obtain ⟨hinv, hothers⟩ := hw.minted permits fun p hp =>
    (hpermits p hp).mono (prefix_append ..)
  have heq : w.dispatched i d permits = { w.append (.dispatched i d) with
        log := (w.append (.dispatched i d)).log ++ permits.map .minted } := by
    rw [World.dispatched, World.append, append_assoc, singleton_append]
  rw [heq]
  refine ⟨hinv, fun j hj => Others.trans ?_ (hothers j)⟩
  refine .append hd ?_ fun _ _ _ hx => nomatch hx
  exact fun hs => hj (some.inj hs).symm

/-- Whatever a legal call does, the invariant is kept, and for the others it is what they
expect. -/
lemma Effect.preserves {w' : World} (h : Inv D w) (hlegal : Legal D i op w)
    (heffect : Effect i w op w') : Inv D w' ∧ ∀ j, j ≠ i → Others j w w' := by
  cases heffect with
  | unchanged => exact ⟨h, fun j _ => .refl j w⟩
  | released => exact ⟨h.release, fun j hj => .release hj⟩
  | locked m free =>
    refine ⟨⟨h.audited, h.justified, fun k x hx m' hm' => ?_, h.single⟩, fun j _ => ?_⟩
    · exact locks_locked free (h.held k x hx m' hm')
    · exact .of_eq rfl (fun _ hm' => locks_locked free hm') rfl
  | incremented =>
    have hw : Inv D (w.wrote i .incrementSequence) :=
      h.wrote ⟨trivial, fun _ hm => absurd hm not_mem_nil, .inl rfl⟩
    exact ⟨{ hw with }, fun j hj => { Others.wrote .incrementSequence hj with }⟩
  | wrote x => exact ⟨h.wrote hlegal, fun j hj => .wrote x hj⟩
  | committed accepts fresh =>
    have hj := h.justified_commit accepts fresh
    refine ⟨h.release.append hj h.free_commit, fun j hne => ?_⟩
    refine (Others.release hne).trans (.append hj ?_ (h.free_commit j))
    exact fun hs => hne (some.inj hs).symm
  | revoked m revoked => exact ⟨{ h with }, fun j _ => .of_eq rfl (fun _ hm => hm) rfl⟩
  | anchored e r =>
    refine ⟨h.append trivial fun _ _ _ _ hx => absurd hx not_mem_nil, fun j hj => ?_⟩
    refine .append (D := D) trivial ?_ fun _ _ _ hx => nomatch hx
    exact fun hs => hj (some.inj hs).symm
  | dispatched d permitReceipt payloads => exact h.dispatched hlegal.1 (hlegal.2 payloads)

/-- What happens without a session. -/
lemma Environment.preserves {e : Environment} {w' : World} (h : Inv D w)
    (hact : e.act w = some w') : Inv D w' ∧ ∀ j, Others j w w' := by
  cases e with
  | tick | resetNonce =>
    cases hact
    exact ⟨h.append trivial fun _ _ _ _ hx => absurd hx not_mem_nil, fun j =>
      .append (D := D) trivial nofun fun _ _ _ hx => nomatch hx⟩

end Preservation

/-- The discipline of the sessions of the service. -/
def discipline (D : Deployment) : Sessions.Discipline (machine D) where
  inv := Inv D
  legal := Legal D
  others := Others
  unused := Unused
  refl := Others.refl
  trans := Others.trans
  unused_others := Unused.others
  call hinv hlegal hexec := (exec_effect hexec).preserves hinv hlegal
  abort hinv := ⟨hinv.release, fun _ hj => .release hj⟩
  environment hinv hact := Environment.preserves hinv hact

/-- `p` keeps the discipline, and what it returns satisfies `Q`. -/
abbrev Yields (D : Deployment) (i : ℕ) {α : Type} (p : Proc α) (Q : α → World → Prop) (w : World) :
    Prop :=
  (discipline D).yields i p Q w

end CapabilityMount
