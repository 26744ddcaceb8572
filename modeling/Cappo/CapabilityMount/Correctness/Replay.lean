import Cappo.CapabilityMount.Service

/-!
# The tables along the log

What the entries of a log do to the tables: events, receipts and redemptions are only added,
a mount keeps its identity and what it was granted, its epoch only grows and its termination is
final, and a lease keeps its actions and resources.

## Main results

* `Log.events_db`, `Log.receipts_db`: tables that only grow;
* `Db.mounts_foldl_apply`: what a transaction does to a mount;
* `Log.leases_evolve`: what does not change of a lease.
-/

namespace CapabilityMount

open VdbC1 (PyStr)
open List Option Function Log

/-! ## Tables that only grow -/

def Write.events : Write → List Event
  | insertEvents es => es
  | _ => []

def Write.receipts : Write → List Receipt
  | insertReceipt r => [r]
  | _ => []

def Write.redemptions : Write → List Redemption
  | insertRedemption r => [r]
  | _ => []

def Write.evidence : Write → List PyStr
  | consumeEvidence jti => [jti]
  | _ => []

/-- The writes of an entry. -/
def Entry.writes : Entry → List Write
  | commit _ ws => ws
  | _ => []

/-- Everything that was written. -/
def Log.writes (log : Log) : List Write := log.flatMap Entry.writes

@[simp]
lemma Log.writes_append (log log' : Log) :
    writes (log ++ log') = log.writes ++ log'.writes := flatMap_append

lemma Log.db_concat (log : Log) (e : Entry) : db (log ++ [e]) = e.apply log.db := by
  rw [db, foldl_append]
  rfl

/-- A table that is empty at first, and to which every write appends its rows. -/
structure Db.Grows {α : Type} (table : Db → List α) (rows : Write → List α) : Prop where
  empty : table {} = []
  apply : ∀ db w, table (db.apply w) = table db ++ rows w
  mounts : ∀ db mounts, table { db with mounts } = table db

variable {log : Log}

namespace Db.Grows

variable {α : Type} {table : Db → List α} {rows : Write → List α}

lemma foldl_apply (h : Grows table rows) (db : Db) (ws : List Write) :
    table (ws.foldl Db.apply db) = table db ++ ws.flatMap rows := by
  induction ws generalizing db with
  | nil => simp
  | cons w ws ih => rw [foldl_cons, ih, h.apply, flatMap_cons, append_assoc]

lemma entry_apply (h : Grows table rows) (db : Db) (e : Entry) :
    table (e.apply db) = table db ++ e.writes.flatMap rows := by
  cases e with
  | commit i ws => exact h.foldl_apply db ws
  | nonceReset m => exact (h.mounts db _).trans (append_nil _).symm
  | _ => exact (append_nil _).symm

/-- The table after a log is what was written. -/
lemma log_db (h : Grows table rows) (log : Log) : table log.db = log.writes.flatMap rows := by
  induction log using List.reverseRecOn with
  | nil => exact h.empty
  | append_singleton log e ih =>
    rw [db_concat, h.entry_apply, ih, writes_append, flatMap_append]
    simp [writes]

/-- A row that was written is still there, whatever is written next. -/
lemma mem_of_written (h : Grows table rows) {row : α} (hx : x ∈ log.writes)
    (hrow : row ∈ rows x) (ws : List Write) :
    row ∈ table (ws.foldl Db.apply log.db) := by
  rw [h.foldl_apply, h.log_db]
  exact mem_append_left _ (mem_flatMap.mpr ⟨x, hx, hrow⟩)

end Db.Grows

lemma Db.grows_events : Grows Db.events Write.events where
  empty := rfl
  apply db w := by
    cases w with
    | insertEvents es => rfl
    | _ => exact (append_nil _).symm
  mounts _ _ := rfl

lemma Db.grows_receipts : Grows Db.receipts Write.receipts where
  empty := rfl
  apply db w := by
    cases w with
    | insertReceipt r => rfl
    | _ => exact (append_nil _).symm
  mounts _ _ := rfl

lemma Db.grows_redemptions : Grows Db.redemptions Write.redemptions where
  empty := rfl
  apply db w := by
    cases w with
    | insertRedemption r => rfl
    | _ => exact (append_nil _).symm
  mounts _ _ := rfl

lemma Db.grows_evidence : Grows Db.evidence Write.evidence where
  empty := rfl
  apply db w := by
    cases w with
    | consumeEvidence jti => rfl
    | _ => exact (append_nil _).symm
  mounts _ _ := rfl

lemma Entry.events_apply (db : Db) (e : Entry) :
    (e.apply db).events = db.events ++ e.writes.flatMap Write.events :=
  Db.grows_events.entry_apply db e

lemma Log.events_db (log : Log) : log.db.events = log.writes.flatMap Write.events :=
  Db.grows_events.log_db log

lemma Log.receipts_db (log : Log) : log.db.receipts = log.writes.flatMap Write.receipts :=
  Db.grows_receipts.log_db log

lemma Log.events_append (log log' : Log) :
    (db (log ++ log')).events = log.db.events ++ log'.writes.flatMap Write.events := by
  rw [events_db, events_db, writes_append, flatMap_append]

lemma Log.receipts_append (log log' : Log) :
    (db (log ++ log')).receipts = log.db.receipts ++ log'.writes.flatMap Write.receipts := by
  rw [receipts_db, receipts_db, writes_append, flatMap_append]

/-- What is in a table that only grows stays in it. -/
lemma Log.events_subset {log' : Log} (h : log <+: log') : log.db.events ⊆ log'.db.events := by
  obtain ⟨suffix, rfl⟩ := h
  rw [events_append]
  exact subset_append_left _ _

lemma Log.receipts_subset {log' : Log} (h : log <+: log') : log.db.receipts ⊆ log'.db.receipts := by
  obtain ⟨suffix, rfl⟩ := h
  rw [receipts_append]
  exact subset_append_left _ _

lemma Log.permits_subset {log' : Log} (h : log <+: log') : log.permits ⊆ log'.permits := by
  obtain ⟨suffix, rfl⟩ := h
  rw [permits, permits, filterMap_append]
  exact subset_append_left _ _

/-! ## Mounts -/

/-- What a later row of a mount has in common with an earlier one. -/
structure MountRow.Evolves (row row' : MountRow) : Prop where
  mountId : row'.mountId = row.mountId
  id : row'.mount.id = row.mount.id
  scope : row'.mount.scope = row.mount.scope
  tokenMount : row'.token.mountId = row.token.mountId
  executionId : row'.token.executionId = row.token.executionId
  packageRef : row'.token.packageRef = row.token.packageRef
  grants : row'.token.grants = row.token.grants
  policy : row'.token.policy = row.token.policy
  biscuitToken : row'.token.biscuitToken = row.token.biscuitToken
  expiresAt : row'.expiresAt = row.expiresAt
  ownerPrincipal : row'.ownerPrincipal = row.ownerPrincipal
  ownerWorkspace : row'.ownerWorkspace = row.ownerWorkspace
  substrateId : row'.mount.substrateId = row.mount.substrateId
  bootInstanceId : row'.mount.bootInstanceId = row.mount.bootInstanceId
  runtimeKeyThumbprint : row'.mount.runtimeKeyThumbprint = row.mount.runtimeKeyThumbprint
  stateRoot : row'.mount.stateRoot = row.mount.stateRoot
  startClaim : ∀ o, row.startClaimOperationId = some o → row'.startClaimOperationId = some o
  terminated : row.terminated = true → row'.terminated = true
  authorityEpoch : row.authorityEpoch ≤ row'.authorityEpoch

namespace MountRow

lemma Evolves.refl (row : MountRow) : row.Evolves row :=
  ⟨rfl, rfl, rfl, rfl, rfl, rfl, rfl, rfl, rfl, rfl, rfl, rfl, rfl, rfl, rfl, rfl, fun _ h => h,
    fun h => h, le_rfl⟩

lemma Evolves.trans {a b c : MountRow} (hab : a.Evolves b) (hbc : b.Evolves c) : a.Evolves c where
  mountId := hbc.mountId.trans hab.mountId
  id := hbc.id.trans hab.id
  scope := hbc.scope.trans hab.scope
  tokenMount := hbc.tokenMount.trans hab.tokenMount
  executionId := hbc.executionId.trans hab.executionId
  packageRef := hbc.packageRef.trans hab.packageRef
  grants := hbc.grants.trans hab.grants
  policy := hbc.policy.trans hab.policy
  biscuitToken := hbc.biscuitToken.trans hab.biscuitToken
  expiresAt := hbc.expiresAt.trans hab.expiresAt
  ownerPrincipal := hbc.ownerPrincipal.trans hab.ownerPrincipal
  ownerWorkspace := hbc.ownerWorkspace.trans hab.ownerWorkspace
  substrateId := hbc.substrateId.trans hab.substrateId
  bootInstanceId := hbc.bootInstanceId.trans hab.bootInstanceId
  runtimeKeyThumbprint := hbc.runtimeKeyThumbprint.trans hab.runtimeKeyThumbprint
  stateRoot := hbc.stateRoot.trans hab.stateRoot
  startClaim o h := hbc.startClaim o (hab.startClaim o h)
  terminated h := hbc.terminated (hab.terminated h)
  authorityEpoch := hab.authorityEpoch.trans hbc.authorityEpoch

/-- Two rows that differ in the consumed flag only agree in whatever does not read it. -/
lemma congr_of_unconsumed_eq {β : Type} {row row' : MountRow} (f : MountRow → β)
    (hf : ∀ row, f row.unconsumed = f row) (h : row'.unconsumed = row.unconsumed) :
    f row' = f row := by
  rw [← hf row', h, hf]

lemma authorityEpoch_le_epoch (row : MountRow) : row.authorityEpoch ≤ row.epoch := by
  unfold epoch
  split <;> omega

/-- An update that a row admits: epochs grow by one, a terminated mount is neither advanced nor
handed over, and the start is claimed once. -/
def Admits (row : MountRow) : MountUpdate → Prop
  | .consumeNonce => True
  | .claimStart _ => row.startClaimOperationId = none
  | .terminate epoch => epoch = row.epoch + 1
  | .advance epoch | .handover epoch _ _ _ _ _ _ _ =>
    row.terminated = false ∧ epoch = row.epoch + 1

/-- An update that the row admitted when the transaction began. -/
lemma Evolves.update {row cur : MountRow} (h : row.Evolves cur) {u : MountUpdate}
    (hu : row.Admits u) : row.Evolves (u.apply cur) := by
  have hle := row.authorityEpoch_le_epoch
  cases u with
  | consumeNonce => exact { h with }
  | claimStart operationId =>
    exact { h with startClaim := fun o ho => absurd (hu.symm.trans ho) nofun }
  | terminate epoch =>
    obtain rfl := hu
    exact { h with terminated := fun _ => rfl, authorityEpoch := Nat.le_succ_of_le hle }
  | advance | handover =>
    obtain ⟨-, rfl⟩ := hu
    exact { h with authorityEpoch := Nat.le_succ_of_le hle }

lemma Admits.congr {row row' : MountRow} (h : row'.unconsumed = row.unconsumed)
    {u : MountUpdate} (hu : row.Admits u) : row'.Admits u := by
  have hterminated := congr_of_unconsumed_eq terminated (fun _ => rfl) h
  have hepoch := congr_of_unconsumed_eq epoch (fun _ => rfl) h
  cases u with
  | consumeNonce => trivial
  | claimStart operationId =>
    exact (congr_of_unconsumed_eq startClaimOperationId (fun _ => rfl) h).trans hu
  | terminate epoch => exact hu.trans (by rw [hepoch])
  | advance epoch => exact ⟨hterminated.trans hu.1, hu.2.trans (by rw [hepoch])⟩
  | handover epoch tokenId nonce incarnation previous head decision reason =>
    exact ⟨hterminated.trans hu.1, hu.2.trans (by rw [hepoch])⟩

end MountRow

variable {ws : List Write}

namespace Db

section Rows

variable {db : Db} {m m' : PyStr} {row : MountRow} {lease : Lease} {u : MountUpdate}
  {l : LeaseUpdate}

lemma mounts_insertMount_of_ne (h : m ≠ row.mountId) :
    (db.apply (.insertMount row lease)).mounts m = db.mounts m := update_of_ne h _ _

lemma mounts_updateMount_self :
    (db.apply (.updateMount m u)).mounts m = (db.mounts m).map u.apply := update_self ..

lemma mounts_updateMount_of_ne (h : m ≠ m') :
    (db.apply (.updateMount m' u)).mounts m = db.mounts m := update_of_ne h _ _

lemma leases_insertMount_of_ne (h : m ≠ row.mountId) :
    (db.apply (.insertMount row lease)).leases m = db.leases m := update_of_ne h _ _

lemma leases_updateLease_self :
    (db.apply (.updateLease m l)).leases m = (db.leases m).map l.apply := update_self ..

lemma leases_updateLease_of_ne (h : m ≠ m') :
    (db.apply (.updateLease m' l)).leases m = db.leases m := update_of_ne h _ _

/-- A mount is not inserted a second time. -/
lemma ne_of_accepts (hrow : (db.mounts m).isSome = true)
    (h : db.accepts (.insertMount new lease) = true) : m ≠ new.mountId := by
  rintro rfl
  rw [accepts, isNone_iff_eq_none] at h
  rw [h] at hrow
  nomatch hrow

end Rows

section

variable {db : Db} {m : PyStr} {row : MountRow} (haccepts : db.acceptsAll ws = true)
  (hrow : db.mounts m = some row)

include haccepts hrow

/-- A transaction with an update of a mount leaves what the update establishes, if its other updates
of the mount keep it. -/
lemma mounts_foldl_apply_of_mem {P : MountRow → Prop}
    (hkeep : ∀ u, Write.updateMount m u ∈ ws → ∀ cur, P cur → P (u.apply cur))
    (h : P row ∨ ∃ u, Write.updateMount m u ∈ ws ∧ ∀ cur, P (u.apply cur)) :
    ∃ row', (ws.foldl apply db).mounts m = some row' ∧ P row' := by
  induction ws generalizing db row with
  | nil =>
    rcases h with h | ⟨u, h, -⟩
    · exact ⟨row, hrow, h⟩
    · nomatch h
  | cons w ws ih =>
    rw [acceptsAll, Bool.and_eq_true] at haccepts
    rw [foldl_cons]
    have hkeep' := fun u hu => hkeep u (mem_cons_of_mem _ hu)
    -- unless this write is the update, what is left to do is left to the others
    have hrest : (∀ u, w ≠ .updateMount m u) →
        P row ∨ ∃ u, Write.updateMount m u ∈ ws ∧ ∀ cur, P (u.apply cur) := by
      refine fun hw => h.imp_right fun ⟨u, hu, hP⟩ => ⟨u, ?_, hP⟩
      exact (mem_cons.mp hu).resolve_left fun heq => hw u heq.symm
    cases w with
    | insertMount new lease =>
      -- the mount is there, so that another one is inserted
      have hne := ne_of_accepts (isSome_of_eq_some hrow) haccepts.1
      exact ih haccepts.2 (by rw [mounts_insertMount_of_ne hne, hrow]) hkeep' (hrest nofun)
    | updateMount m' u =>
      by_cases hm : m = m'
      · subst hm
        refine ih haccepts.2 (by rw [mounts_updateMount_self, hrow, map_some]) hkeep' ?_
        rcases h with h | ⟨u', hu', hP⟩
        · exact .inl (hkeep u mem_cons_self row h)
        · rcases mem_cons.mp hu' with heq | hu'
          · cases heq
            exact .inl (hP row)
          · exact .inr ⟨u', hu', hP⟩
      · refine ih haccepts.2 (by rw [mounts_updateMount_of_ne hm, hrow]) hkeep' (hrest ?_)
        rintro u' heq
        exact hm (Write.updateMount.inj heq).1.symm
    | _ => exact ih haccepts.2 hrow hkeep' (hrest nofun)

/-- What a transaction does to a mount that was there before: each of its updates was admitted by
the row the mount had then. -/
theorem mounts_foldl_apply (hadmits : ∀ u, Write.updateMount m u ∈ ws → row.Admits u) :
    ∃ row', (ws.foldl apply db).mounts m = some row' ∧ row.Evolves row' :=
  mounts_foldl_apply_of_mem (P := row.Evolves) haccepts hrow
    (fun u hu _ h => h.update (hadmits u hu)) (.inl (.refl row))

/-- A mount that a transaction does not touch. -/
lemma mounts_foldl_apply_of_not_mem (hws : ∀ u, Write.updateMount m u ∉ ws) :
    (ws.foldl apply db).mounts m = some row := by
  obtain ⟨row', hrow', rfl⟩ := mounts_foldl_apply_of_mem (P := (· = row)) haccepts hrow
    (fun u hu => absurd hu (hws u)) (.inl rfl)
  exact hrow'

end

end Db

/-! ## Leases -/

/-- A lease keeps its actions and its resources. -/
structure Lease.SameBounds (lease lease' : Lease) : Prop where
  allowedActions : lease'.allowedActions = lease.allowedActions
  allowedResources : lease'.allowedResources = lease.allowedResources

namespace Db

variable {db : Db} {m : PyStr}

/-- What a transaction does to the lease of a mount that was there before. -/
lemma leases_foldl_apply (haccepts : db.acceptsAll ws = true)
    (hmount : (db.mounts m).isSome = true) :
    (db.leases m = none → (ws.foldl apply db).leases m = none) ∧
    ∀ lease, db.leases m = some lease →
      ∃ lease', (ws.foldl apply db).leases m = some lease' ∧ lease.SameBounds lease' := by
  induction ws generalizing db with
  | nil => exact ⟨fun h => h, fun lease h => ⟨lease, h, rfl, rfl⟩⟩
  | cons w ws ih =>
    rw [acceptsAll, Bool.and_eq_true] at haccepts
    rw [foldl_cons]
    have hne : ∀ new lease, w = .insertMount new lease → m ≠ new.mountId := by
      rintro new lease rfl
      exact ne_of_accepts hmount haccepts.1
    have hmount' : ((db.apply w).mounts m).isSome = true := by
      cases w with
      | insertMount new lease =>
        rwa [mounts_insertMount_of_ne (hne new lease rfl)]
      | updateMount m' u =>
        by_cases hm : m = m'
        · subst hm
          rwa [mounts_updateMount_self, isSome_map]
        · rwa [mounts_updateMount_of_ne hm]
      | _ => exact hmount
    have hstep : (db.leases m = none → (db.apply w).leases m = none) ∧
        ∀ lease, db.leases m = some lease →
          ∃ lease', (db.apply w).leases m = some lease' ∧ lease.SameBounds lease' := by
      cases w with
      | insertMount new lease =>
        rw [leases_insertMount_of_ne (hne new lease rfl)]
        exact ⟨fun h => h, fun lease h => ⟨lease, h, rfl, rfl⟩⟩
      | updateLease m' u =>
        by_cases hm : m = m'
        · subst hm
          rw [leases_updateLease_self]
          exact ⟨fun h => by rw [h, map_none],
            fun lease h => ⟨u.apply lease, by rw [h, map_some], rfl, rfl⟩⟩
        · rw [leases_updateLease_of_ne hm]
          exact ⟨fun h => h, fun lease h => ⟨lease, h, rfl, rfl⟩⟩
      | _ => exact ⟨fun h => h, fun lease h => ⟨lease, h, rfl, rfl⟩⟩
    obtain ⟨hnone, hsome⟩ := ih haccepts.2 hmount'
    refine ⟨fun h => hnone (hstep.1 h), fun lease h => ?_⟩
    obtain ⟨lease1, h1, hb1⟩ := hstep.2 lease h
    obtain ⟨lease2, h2, hb2⟩ := hsome lease1 h1
    exact ⟨lease2, h2, hb2.1.trans hb1.1, hb2.2.trans hb1.2⟩

/-- A mount is never removed. -/
lemma mounts_isSome_apply (h : (db.mounts m).isSome = true) (w : Write) :
    ((db.apply w).mounts m).isSome = true := by
  cases w with
  | insertMount row lease =>
    by_cases hm : m = row.mountId
    · subst hm
      exact congrArg isSome (update_self row.mountId (some row) db.mounts)
    · rw [mounts_insertMount_of_ne hm]
      exact h
  | updateMount m' u =>
    by_cases hm : m = m'
    · subst hm
      rw [mounts_updateMount_self, isSome_map]
      exact h
    · rw [mounts_updateMount_of_ne hm]
      exact h
  | _ => exact h

/-- A write leaves a mount to every lease. -/
lemma mounts_isSome_of_lease_apply
    (h : (db.leases m).isSome = true → (db.mounts m).isSome = true) (w : Write)
    (hlease : ((db.apply w).leases m).isSome = true) :
    ((db.apply w).mounts m).isSome = true := by
  cases w with
  | insertMount row lease =>
    by_cases hm : m = row.mountId
    · subst hm
      exact congrArg isSome (update_self row.mountId (some row) db.mounts)
    · rw [leases_insertMount_of_ne hm] at hlease
      exact mounts_isSome_apply (h hlease) _
  | updateLease m' u =>
    by_cases hm : m = m'
    · subst hm
      rw [leases_updateLease_self, isSome_map] at hlease
      exact h hlease
    · rw [leases_updateLease_of_ne hm] at hlease
      exact h hlease
  | _ => exact mounts_isSome_apply (h hlease) _

end Db

/-- A lease is the lease of a mount. -/
lemma Log.mounts_isSome_of_lease {m : PyStr} (hlease : (log.db.leases m).isSome = true) :
    (log.db.mounts m).isSome = true := by
  induction log using List.reverseRecOn with
  | nil => nomatch hlease
  | append_singleton log e ih =>
    rw [db_concat] at hlease ⊢
    cases e with
    | commit i ws =>
      -- the writes of the transaction, one by one
      have hfold : ∀ (ws : List Write) (db : Db),
          ((db.leases m).isSome = true → (db.mounts m).isSome = true) →
          ((ws.foldl Db.apply db).leases m).isSome = true →
          ((ws.foldl Db.apply db).mounts m).isSome = true := by
        intro ws
        induction ws with
        | nil => exact fun db h => h
        | cons w ws ihw => exact fun db h => ihw _ (Db.mounts_isSome_of_lease_apply h w)
      exact hfold ws _ ih hlease
    | nonceReset m' =>
      change (Function.update (db log).mounts m' _ m).isSome = true
      by_cases hm : m = m'
      · subst hm
        rw [update_self, isSome_map]
        exact ih hlease
      · rw [update_of_ne hm]
        exact ih hlease
    | _ => exact ih hlease

end CapabilityMount
