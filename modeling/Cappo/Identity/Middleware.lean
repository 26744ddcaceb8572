import Cappo.Identity.Tokens
import Cappo.Lib.ReplayMemory
import Cappo.Lib.StatefulChecks

/-!
# Identity enforcement

`ReplayCache`, `IdentityValidator` and `WIDMiddlewareContext.enforce`. A call reads the clock in
several places (`Readings`), each time as whole seconds.

## Main results

* `Enforcer.enforce_eq_ok`: a call that accepts on a state-changing or consequence route has
  validated a workload proof;
* `Enforcer.validateWpt_eq_ok`: what a valid proof is compared with;
* `Enforcer.along_enforce`: no call forgets a token identifier that has not expired.
-/

namespace Identity

open VdbC1 (PyStr Json)
open StatefulChecks (Op lift)

open Checks

/-- The readings of the clock in one call, in the order in which they are made: in `validate_wit`
and by the cache it asks, in `validate_ect`, in `validate_wpt` for the expiry, for the default
expiry and by the cache, and in `validate_authority`. -/
structure Readings where
  wit : ℤ
  witCache : ℤ
  ect : ℤ
  wpt : ℤ
  defaultExp : ℤ
  wptCache : ℤ
  authority : ℤ

/-- The token identifiers that were seen, with their expiry. -/
abbrev ReplayStore := List (Json × Json)

/-- `exp < now` in `_prune`. The expiries in the store are numbers: each was compared before. -/
def expired (now : ℤ) (exp : Json) : Bool := exp.lt? now = some true

/-- `check_and_store`: whether the identifier was new. Only a scalar can be a key. -/
def checkAndStore (now : ℤ) (jti expiresAt : Json) : Op ReplayStore Fault Bool := fun store =>
  if jti.isScalar then
    let claimed := ReplayMemory.claim Json.pyEq (expired now) jti expiresAt store
    (.ok claimed.1, claimed.2)
  else (.error .raised, ReplayMemory.prune (expired now) store)

/-- `RouteClassification`; `PUBLIC` is `unprotected`. -/
inductive RouteClassification where
  | unprotected
  | governed
  | stateChanging
  | consequence
  deriving DecidableEq, Repr

/-- One call of `enforce`: the context's classification and the arguments. -/
structure Call where
  classification : RouteClassification
  method : PyStr
  htu : PyStr
  bodyHash : PyStr
  witPayload : Option Dict := none
  ectPayload : Option Dict := none
  wptPayload : Option Dict := none
  authorityPayload : Option Dict := none
  leaseExecutionId : Option PyStr := none

/-- What a call needs: the audience of the validator, and the hexadecimal SHA-256 of the JSON text
of a dictionary. -/
structure Enforcer where
  expectedAudience : PyStr
  sha256 : Dict → PyStr
  sha256_ne_nil : ∀ d, sha256 d ≠ []

/-- `[a-zA-Z0-9.-]`. -/
def segmentChar (c : VdbC1.CodePoint) : Bool :=
  (97 ≤ c.val && c.val ≤ 122) || (65 ≤ c.val && c.val ≤ 90) || (48 ≤ c.val && c.val ≤ 57) ||
    c.val = 46 || c.val = 45

/-- The pattern of a workload identifier: five segments after `wimse://`. The `$` of the pattern
also matches before a final line feed. -/
def wimsePattern (sub : PyStr) : Bool :=
  let line := if sub.getLast? = some 10 then sub.dropLast else sub
  (PyStr.ofString "wimse://").isPrefixOf line && (let segments := (line.drop 8).splitOn 47
     segments.length = 5 && segments.all fun s => !s.isEmpty && s.all segmentChar)

/-- A dictionary that is not missing and not empty. -/
def present (fault : Fault) : Option Dict → Except Fault Dict
  | some (m :: ms) => .ok (m :: ms)
  | _ => .error fault

namespace Enforcer

variable (E : Enforcer)

/-- The checks of `validate_wit` before it asks the cache. -/
def checkWit (wit : WorkloadIdentityToken) (now : ℤ) : Except Fault Unit := do
  let late ← ofOption .raised (wit.exp.lt? now)
  require (.identity .tokenExpired (some wit.sub) none) !late
  require (.identity .audienceMismatch (some wit.sub) none)
    (wit.aud.pyEq (.str E.expectedAudience))
  match wit.sub with
  | .str sub =>
    require (.identity .malformedWorkloadIdentifier (some wit.sub) none) (wimsePattern sub)
  | _ => .error .raised

/-- `validate_wit`. -/
def validateWit (wit : WorkloadIdentityToken) (t : Readings) : Op ReplayStore Fault Unit := do
  lift (E.checkWit wit t.wit)
  let new ← checkAndStore t.witCache wit.jti wit.exp
  lift (require (.identity .replayDenied (some wit.sub) none) new)

/-- `validate_ect`. -/
def validateEct (ect : ExecutionContextToken) (now : ℤ) : Except Fault Unit := do
  let late ← ofOption .raised (ect.exp.lt? now)
  require (.identity .tokenExpired none (some ect.ephemeralExecutionId)) !late
  require (.identity .audienceMismatch none (some ect.ephemeralExecutionId))
    (ect.aud.pyEq (.str E.expectedAudience))

variable (wpt : WorkloadProofToken) (call : Call)

/-- The check of a proof's expiry, if it has one. -/
def checkExpiry (now : ℤ) : Except Fault Unit :=
  if wpt.exp.truthy then do
    let late ← ofOption .raised (wpt.exp.lt? now)
    require (.identity .tokenExpired none none) !late
  else .ok ()

/-- The check of the authority's hash, if there is one. -/
def checkAuthorityHash : Option PyStr → Except Fault Unit
  | some hash =>
    require (.identity .authorityHashMismatch none none)
      (hash = [] || wpt.authorityHash.pyEq (.str hash))
  | none => .ok ()

/-- The checks of `validate_wpt` before it asks the cache. The hashes of the identity token and of
the execution context are passed and not compared. -/
def checkWpt (_expectedWitHash _expectedEctHash : PyStr)
    (expectedAuthorityHash : Option PyStr) (now : ℤ) : Except Fault Unit := do
  checkExpiry wpt now
  require (.identity .requestBindingMismatch none none)
    (wpt.htm.pyEq (.str call.method) && wpt.htu.pyEq (.str call.htu))
  require (.identity .bodyHashMismatch none none) (wpt.bodyHash.pyEq (.str call.bodyHash))
  checkAuthorityHash wpt expectedAuthorityHash

/-- The expiry under which the cache remembers a proof. -/
def cacheExp (now : ℤ) : Json :=
  if wpt.exp.truthy then wpt.exp else .int (now + 300)

/-- `validate_wpt`. -/
def validateWpt (expectedWitHash expectedEctHash : PyStr)
    (expectedAuthorityHash : Option PyStr) (t : Readings) : Op ReplayStore Fault Unit := do
  lift (checkWpt wpt call expectedWitHash expectedEctHash expectedAuthorityHash t.wpt)
  let new ← checkAndStore t.wptCache wpt.jti (cacheExp wpt t.defaultExp)
  lift (require (.identity .replayDenied none none) new)

/-- `validate_authority`. -/
def validateAuthority (authority : AuthorityArtifact) (ect : ExecutionContextToken) (now : ℤ) :
    Except Fault Unit := do
  let late ← ofOption .raised (authority.expiresAt.lt? now)
  require (.identity .tokenExpired none (some authority.ephemeralExecutionId)) !late
  require (.identity .profileOnlyDenied none none) authority.ephemeralExecutionId.truthy
  require (.identity .candidateActMismatch none (some ect.ephemeralExecutionId))
    (authority.candidateActHash.pyEq ect.candidateActHash)

/-- The requirements of a consequence route beyond the proof. -/
def consequence (wit : WorkloadIdentityToken) (ect : ExecutionContextToken) (call : Call)
    (now : ℤ) : Except Fault Unit :=
  match call.leaseExecutionId with
  | some (c :: id) => require
      (.identity .executionContextLeaseMismatch (some wit.sub) (some ect.ephemeralExecutionId))
      (ect.ephemeralExecutionId.pyEq (.str (c :: id)))
  | _ => do
    let payload ← present
      (.identity .missingAuthority (some wit.sub) (some ect.ephemeralExecutionId))
      call.authorityPayload
    let authority ← ofOption .raised
      (AuthorityArtifact.ofPayload (FieldMap.erase "_mock_hash" payload))
    validateAuthority authority ect now

/-- The authority's hash, if there is one that is not empty. -/
def authorityHash : Option PyStr :=
  match call.authorityPayload with
  | some (m :: ms) => some (E.sha256 (m :: ms))
  | _ => none

/-- The requirements of a state-changing route beyond the identity, and those of a consequence
route. -/
def enforceProof (witPayload ectPayload : Dict) (wit : WorkloadIdentityToken)
    (ect : ExecutionContextToken) (call : Call) (t : Readings) : Op ReplayStore Fault Unit := do
  let wptPayload ← lift (present
    (.identity .missingWorkloadProof (some wit.sub) (some ect.ephemeralExecutionId))
    call.wptPayload)
  let wpt ← lift (ofOption .raised (WorkloadProofToken.ofPayload wptPayload))
  validateWpt wpt call (E.sha256 witPayload) (E.sha256 ectPayload) (E.authorityHash call) t
  if call.classification = .stateChanging then pure ()
  else lift (consequence wit ect call t.authority)

/-- `enforce`. -/
def enforce (t : Readings) : Op ReplayStore Fault Unit :=
  if call.classification = .unprotected then pure ()
  else do
    let witPayload ← lift (present (.identity .missingWorkloadIdentity none none) call.witPayload)
    let ectPayload ← lift (present (.identity .missingExecutionContext none none) call.ectPayload)
    let wit ← lift (ofOption .raised (WorkloadIdentityToken.ofPayload witPayload))
    let ect ← lift (ofOption .raised (ExecutionContextToken.ofPayload ectPayload))
    E.validateWit wit t
    lift (E.validateEct ect t.ect)
    if call.classification = .governed then pure ()
    else E.enforceProof witPayload ectPayload wit ect call t

/-! ## What a call accepts -/

variable {E} {call : Call} {t : Readings} {store store' : ReplayStore} {wpt : WorkloadProofToken}

lemma checkAndStore_eq_ok {now : ℤ} :
    checkAndStore now jti exp store = (.ok new, store') ↔ jti.isScalar = true ∧
      ReplayMemory.claim Json.pyEq (expired now) jti exp store = (new, store') := by
  unfold checkAndStore
  split_ifs with hscalar
  · show ((.ok _, _) : Except Fault Bool × ReplayStore) = _ ↔ _
    rw [Prod.mk.injEq, Except.ok.injEq, Prod.ext_iff]
    exact ⟨fun h => ⟨hscalar, h⟩, fun h => h.2⟩
  · exact ⟨fun h => (nomatch h), fun h => absurd h.1 hscalar⟩

variable {authorityHash : Option PyStr}

/-- What a valid proof is compared with, and that its identifier was new. -/
theorem validateWpt_eq_ok {witHash ectHash : PyStr} :
    validateWpt wpt call witHash ectHash authorityHash t store = (.ok (), store') ↔
      checkWpt wpt call witHash ectHash authorityHash t.wpt = .ok () ∧ wpt.jti.isScalar = true ∧
      ReplayMemory.claim Json.pyEq (expired t.wptCache) wpt.jti (cacheExp wpt t.defaultExp) store =
        (true, store') := by
  simp only [validateWpt, StatefulChecks.bind_eq_ok, StatefulChecks.lift_eq_ok,
    checkAndStore_eq_ok, require_eq_ok]
  constructor
  · rintro ⟨_, _, ⟨hcheck, rfl⟩, new, _, hclaim, rfl, rfl⟩
    exact ⟨hcheck, hclaim⟩
  · rintro ⟨hcheck, hclaim⟩
    exact ⟨(), store, ⟨hcheck, rfl⟩, true, store', hclaim, rfl, rfl⟩

lemma checkExpiry_eq_ok {now : ℤ} :
    checkExpiry wpt now = .ok u ↔ (wpt.exp.truthy = true → wpt.exp.lt? now = some false) := by
  unfold checkExpiry
  split_ifs with htruthy
  · simp only [bind_eq_ok, ofOption_eq_ok, require_eq_ok, htruthy,
      forall_const]
    constructor
    · rintro ⟨late, hlate, hnot⟩
      rw [hlate]
      simpa using hnot
    · intro h
      exact ⟨false, h, rfl⟩
  · simp [htruthy]

/-- What a proof is compared with. -/
lemma checkWpt_eq_ok {now : ℤ} : checkWpt wpt call witHash ectHash authorityHash now = .ok () ↔
      (wpt.exp.truthy = true → wpt.exp.lt? now = some false) ∧ wpt.htm = .str call.method ∧
      wpt.htu = .str call.htu ∧ wpt.bodyHash = .str call.bodyHash ∧
      ∀ hash, authorityHash = some hash → hash ≠ [] → wpt.authorityHash = .str hash := by
  have hauth : checkAuthorityHash wpt authorityHash = .ok () ↔
      ∀ hash, authorityHash = some hash → hash ≠ [] → wpt.authorityHash = .str hash := by
    cases authorityHash with
    | none => simp [checkAuthorityHash]
    | some hash =>
      simp only [checkAuthorityHash, require_eq_ok, Bool.or_eq_true, decide_eq_true_eq,
        Json.pyEq_str_iff, Option.some.injEq, forall_eq']
      tauto
  simp only [checkWpt, bind_eq_ok, checkExpiry_eq_ok, require_eq_ok, hauth,
    Bool.and_eq_true, Json.pyEq_str_iff]
  constructor
  · rintro ⟨_, hexp, _, ⟨hhtm, hhtu⟩, _, hbody, hauthority⟩
    exact ⟨hexp, hhtm, hhtu, hbody, hauthority⟩
  · rintro ⟨hexp, hhtm, hhtu, hbody, hauthority⟩
    exact ⟨(), hexp, (), ⟨hhtm, hhtu⟩, (), hbody, hauthority⟩

lemma present_eq_ok : present fault payload = .ok d ↔ payload = some d ∧ d ≠ [] := by
  unfold present
  split
  · simp only [Except.ok.injEq, Option.some.injEq]
    constructor
    · rintro rfl
      exact ⟨rfl, List.cons_ne_nil _ _⟩
    · exact fun h => h.1
  · next hother =>
    refine ⟨fun h => (nomatch h), ?_⟩
    rintro ⟨rfl, hne⟩
    obtain ⟨m, ms, rfl⟩ := List.exists_cons_of_ne_nil hne
    exact absurd rfl (hother m ms)

/-- A call on a state-changing or consequence route returns when the identity is valid, the proof
is valid, and a consequence route's own requirements are met. -/
theorem enforce_eq_ok
    (hroute : call.classification = .stateChanging ∨ call.classification = .consequence) :
    E.enforce call t store = (.ok (), store') ↔
      ∃ witPayload ectPayload wptPayload wit ect wpt store1,
        present (.identity .missingWorkloadIdentity none none) call.witPayload = .ok witPayload ∧
        present (.identity .missingExecutionContext none none) call.ectPayload = .ok ectPayload ∧
        WorkloadIdentityToken.ofPayload witPayload = some wit ∧
        ExecutionContextToken.ofPayload ectPayload = some ect ∧
        E.validateWit wit t store = (.ok (), store1) ∧ E.validateEct ect t.ect = .ok () ∧
        call.wptPayload = some wptPayload ∧ wptPayload ≠ [] ∧
        WorkloadProofToken.ofPayload wptPayload = some wpt ∧
        validateWpt wpt call (E.sha256 witPayload) (E.sha256 ectPayload) (E.authorityHash call) t
          store1 = (.ok (), store') ∧
        (call.classification = .consequence → consequence wit ect call t.authority = .ok ()) := by
  have hprotected : call.classification ≠ .unprotected := by
    rcases hroute with h | h <;> rw [h] <;> decide
  have hproof : call.classification ≠ .governed := by
    rcases hroute with h | h <;> rw [h] <;> decide
  have hlast : ∀ wit ect (s : ReplayStore) (u : Unit),
      (if call.classification = .stateChanging then pure ()
        else lift (consequence wit ect call t.authority) : Op ReplayStore Fault Unit) s =
          (.ok u, store') ↔
      (call.classification = .consequence → consequence wit ect call t.authority = .ok ()) ∧
        s = store' := by
    intro wit ect s u
    rcases hroute with h | h
    · rw [if_pos h, StatefulChecks.pure_eq_ok, h]
      simp
    · rw [if_neg (by rw [h]; decide), StatefulChecks.lift_eq_ok, h]
      simp
  simp only [enforce, if_neg hprotected, if_neg hproof, enforceProof, StatefulChecks.bind_eq_ok,
    StatefulChecks.lift_eq_ok, hlast, ofOption_eq_ok]
  constructor
  · rintro ⟨witPayload, _, ⟨hwitp, rfl⟩, ectPayload, _, ⟨hectp, rfl⟩, wit, _, ⟨hwit, rfl⟩, ect, _,
      ⟨hect, rfl⟩, _, store1, hvalid, _, _, ⟨hvalid', rfl⟩, wptPayload, _, ⟨hwptp, rfl⟩, wpt, _,
      ⟨hwpt, rfl⟩, _, _, hvalid'', hcons, rfl⟩
    obtain ⟨hwptp, hne⟩ := present_eq_ok.mp hwptp
    exact ⟨witPayload, ectPayload, wptPayload, wit, ect, wpt, store1, hwitp, hectp, hwit, hect,
      hvalid, hvalid', hwptp, hne, hwpt, hvalid'', hcons⟩
  · rintro ⟨witPayload, ectPayload, wptPayload, wit, ect, wpt, store1, hwitp, hectp, hwit, hect,
      hvalid, hvalid', hwptp, hne, hwpt, hvalid'', hcons⟩
    exact ⟨witPayload, _, ⟨hwitp, rfl⟩, ectPayload, _, ⟨hectp, rfl⟩, wit, _, ⟨hwit, rfl⟩, ect, _,
      ⟨hect, rfl⟩, (), store1, hvalid, (), _, ⟨hvalid', rfl⟩, wptPayload, _,
      ⟨present_eq_ok.mpr ⟨hwptp, hne⟩, rfl⟩, wpt, _, ⟨hwpt, rfl⟩, (), _, hvalid'', hcons, rfl⟩

/-! ## What a call forgets -/

/-- The relation of a call's steps: what has not expired at `now` is kept. -/
def Remembers (now : ℤ) : ReplayStore → ReplayStore → Prop :=
  ReplayMemory.Keeps fun exp => expired now exp = false

lemma expired_mono {now now' : ℤ} (h : now ≤ now') (he : expired now' exp = false) :
    expired now exp = false := by
  unfold expired at he ⊢
  rw [decide_eq_false_iff_not] at he ⊢
  exact fun hlt => he (Json.lt?_mono (by exact_mod_cast h) hlt)

lemma along_checkAndStore {now now' : ℤ} (h : now ≤ now') (jti exp : Json) :
    StatefulChecks.Along (Remembers now') (checkAndStore now jti exp) := by
  intro store
  unfold checkAndStore
  split_ifs
  · exact ReplayMemory.keeps_claim fun _ => expired_mono h
  · exact ReplayMemory.keeps_prune fun _ => expired_mono h

variable {now : ℤ}

lemma Remembers.refl (s : ReplayStore) : Remembers now s s := ReplayMemory.Keeps.refl

lemma Remembers.trans (s u v : ReplayStore) :
    Remembers now s u → Remembers now u v → Remembers now s v := ReplayMemory.Keeps.trans

lemma along_lift {α : Type} (c : Except Fault α) :
    StatefulChecks.Along (Remembers now) (lift c : Op ReplayStore Fault α) :=
  .lift .refl c

lemma along_validateWit (E : Enforcer) (wit : WorkloadIdentityToken) (hwit : t.witCache ≤ now) :
    StatefulChecks.Along (Remembers now) (E.validateWit wit t) :=
  .bind .trans (along_lift _) fun _ =>
    .bind .trans (along_checkAndStore hwit _ _) fun _ => along_lift _

lemma along_enforceProof (E : Enforcer) (witPayload ectPayload : Dict)
    (wit : WorkloadIdentityToken) (ect : ExecutionContextToken) (call : Call)
    (hwpt : t.wptCache ≤ now) :
    StatefulChecks.Along (Remembers now) (E.enforceProof witPayload ectPayload wit ect call t) := by
  refine .bind .trans (along_lift _) fun _ => .bind .trans (along_lift _) fun _ =>
    .bind .trans ?_ fun _ => ?_
  · exact .bind .trans (along_lift _) fun _ =>
      .bind .trans (along_checkAndStore hwpt _ _) fun _ => along_lift _
  · split_ifs
    · exact .pure .refl ()
    · exact along_lift _

/-- No call forgets what has not expired at its last reading of the clock. -/
theorem along_enforce (E : Enforcer) (call : Call) (hwit : t.witCache ≤ now)
    (hwpt : t.wptCache ≤ now) : StatefulChecks.Along (Remembers now) (E.enforce call t) := by
  by_cases hprotected : call.classification = .unprotected
  · rw [enforce, if_pos hprotected]
    exact .pure .refl ()
  · rw [enforce, if_neg hprotected]
    refine .bind .trans (along_lift _) fun _ => .bind .trans (along_lift _) fun _ =>
      .bind .trans (along_lift _) fun _ => .bind .trans (along_lift _) fun _ =>
      .bind .trans (along_validateWit E _ hwit) fun _ => .bind .trans (along_lift _) fun _ => ?_
    split_ifs
    · exact .pure .refl ()
    · exact along_enforceProof E _ _ _ _ call hwpt

end Enforcer

end Identity
