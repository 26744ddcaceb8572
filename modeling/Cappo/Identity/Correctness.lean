import Cappo.Identity.Middleware

/-!
# Single use and bindings of workload proofs

The replay cache remembers a proof up to the proof's `exp`, or for five minutes if it has none; a
proof without `exp` does not expire. The proof is compared with the request and the authority, and
not with the other two tokens.

## Main results

* `accepted_at_most_once`: a proof that the cache does not outlive is accepted at most once;
* `accepted_again`: a proof without `exp` is accepted again when the cache has forgotten it;
* `accepted_binds_request`: what an accepted proof is bound to;
* `accepted_with_other_hash`: an accepted proof with a `wit_hash` of another token.
-/

namespace Identity

open VdbC1

open WorkloadProofToken
open List

/-- A call, and the readings of the clock in it. -/
structure Request where
  call : Call
  t : Readings

/-- The clock does not go back during a call. -/
structure Readings.Ordered (t : Readings) : Prop where
  witCache : t.wit ≤ t.witCache
  ect : t.witCache ≤ t.ect
  wpt : t.ect ≤ t.wpt
  defaultExp : t.wpt ≤ t.defaultExp
  wptCache : t.defaultExp ≤ t.wptCache
  authority : t.wptCache ≤ t.authority

/-- The clock does not go back, from reading to reading. -/
def Clocked (rs : List Request) : Prop :=
  (∀ r ∈ rs, r.t.Ordered) ∧ rs.Pairwise fun p q => p.t.authority ≤ q.t.wit

/-- The call is on a route that needs a proof, and presents this one: the tokens are equal member
by member, where the spelling of the numbers does not matter. -/
def Call.presents (call : Call) (w : WorkloadProofToken) : Bool :=
  (call.classification = .stateChanging || call.classification = .consequence) &&
    (call.wptPayload.bind ofPayload).any fun w' =>
      w'.members.pyNorm = w.members.pyNorm

/-- How often a proof is accepted. -/
def accepts (E : Enforcer) (w : WorkloadProofToken) : ReplayStore → List Request → ℕ
  | _, [] => 0
  | store, r :: rs =>
    accepts E w (E.enforce r.call r.t store).2 rs +
      if r.call.presents w && (E.enforce r.call r.t store).1.isOk then 1 else 0

/-- A proof that was presented at `p` is not forgotten at `q` before it has expired. A proof with
`exp` does not expire between the two readings of `q`; one without is presented again within the
five minutes. -/
def Outlives (w : WorkloadProofToken) (p q : Readings) : Prop :=
  if w.exp.truthy then ¬ (w.exp.lt? q.wpt = some false ∧ w.exp.lt? q.wptCache = some true)
  else q.wptCache ≤ p.defaultExp + 300

variable {E : Enforcer} {w w' : WorkloadProofToken} {call : Call} {t : Readings}
  {store store' : ReplayStore} {r : Request} {rs : List Request}

/-! ## Equal proofs -/

lemma presents_iff : call.presents w = true ↔
    (call.classification = .stateChanging ∨ call.classification = .consequence) ∧
      ∃ payload w', call.wptPayload = some payload ∧
        ofPayload payload = some w' ∧ w'.members.pyNorm = w.members.pyNorm := by
  simp only [Call.presents, Bool.and_eq_true, Bool.or_eq_true, decide_eq_true_eq,
    Option.any_eq_true, Option.bind_eq_some_iff]
  constructor
  · rintro ⟨hroute, w', ⟨payload, hpayload, hw'⟩, hsame⟩
    exact ⟨hroute, payload, w', hpayload, hw', hsame⟩
  · rintro ⟨hroute, payload, w', hpayload, hw', hsame⟩
    exact ⟨hroute, w', ⟨payload, hpayload, hw'⟩, hsame⟩

lemma jti_exp_of_same (h : w'.members.pyNorm = w.members.pyNorm) :
    w'.jti.pyNorm = w.jti.pyNorm ∧ w'.exp.pyNorm = w.exp.pyNorm := by
  simp only [members, Json.pyNorm_arr, map_cons, Json.arr.injEq, List.cons.injEq] at h
  obtain ⟨-, -, -, -, -, -, hjti, -, hexp, -⟩ := h
  exact ⟨hjti, hexp⟩

lemma truthy_of_pyNorm_eq {x y : Json} (h : x.pyNorm = y.pyNorm) : x.truthy = y.truthy := by
  rw [← Json.truthy_pyNorm x, h, Json.truthy_pyNorm]

lemma lt?_of_pyNorm_eq {x y : Json} (h : x.pyNorm = y.pyNorm) (n : ℚ) : x.lt? n = y.lt? n := by
  rw [← Json.lt?_pyNorm n x, h, Json.lt?_pyNorm]

/-- The cache forgets equal proofs at the same moment. -/
lemma expired_cacheExp (h : w'.exp.pyNorm = w.exp.pyNorm) (now seen : ℤ) :
    expired now (Enforcer.cacheExp w' seen) = expired now (Enforcer.cacheExp w seen) := by
  unfold Enforcer.cacheExp
  rw [truthy_of_pyNorm_eq h]
  split_ifs
  · rw [expired, expired, lt?_of_pyNorm_eq h]
  · rfl

/-! ## Single use -/

/-- The check of the expiry lets the proof pass. -/
def Unexpired (w : WorkloadProofToken) (now : ℤ) : Prop :=
  w.exp.truthy = true → w.exp.lt? now = some false

/-- The store remembers the identifier of the proof up to `now`. -/
def Remembered (w : WorkloadProofToken) (now : ℤ) (store : ReplayStore) : Prop :=
  ∃ jti exp, (jti, exp) ∈ store ∧ jti.pyNorm = w.jti.pyNorm ∧ expired now exp = false

lemma Remembered.of_remembers (h : Remembered w now store)
    (hkeep : Enforcer.Remembers now store store') : Remembered w now store' := by
  obtain ⟨jti, exp, hmem, hjti, hlive⟩ := h
  exact ⟨jti, exp, hkeep jti exp hmem hlive, hjti, hlive⟩

/-- A proof that is accepted has not expired, and its identifier was claimed. -/
lemma claimed_of_ok (hpresents : call.presents w = true)
    (hok : E.enforce call t store = (.ok (), store')) :
    Unexpired w t.wpt ∧ ∃ w' wit store1, w'.members.pyNorm = w.members.pyNorm ∧
      E.validateWit wit t store = (.ok (), store1) ∧
      ReplayMemory.claim Json.pyEq (expired t.wptCache) w'.jti (Enforcer.cacheExp w' t.defaultExp)
        store1 = (true, store') := by
  obtain ⟨hroute, payload, w', hpayload, hw', hsame⟩ := presents_iff.mp hpresents
  obtain ⟨_, _, payload', wit, _, wpt, store1, -, -, -, -, hwit, -, hpayload', -, hwpt, hvalid,
    -⟩ := (Enforcer.enforce_eq_ok hroute).mp hok
  -- the token that is validated is the one that is presented
  obtain rfl : payload = payload' := Option.mem_unique hpayload hpayload'
  obtain rfl : w' = wpt := Option.mem_unique hw' hwpt
  obtain ⟨hcheck, -, hclaim⟩ := Enforcer.validateWpt_eq_ok.mp hvalid
  have hexp := (Enforcer.checkWpt_eq_ok.mp hcheck).1
  obtain ⟨-, hsameExp⟩ := jti_exp_of_same hsame
  rw [truthy_of_pyNorm_eq hsameExp, lt?_of_pyNorm_eq hsameExp] at hexp
  exact ⟨hexp, w', wit, store1, hsame, hwit, hclaim⟩

/-- A proof that is remembered is not accepted. -/
lemma not_ok_of_remembered (hjti : w.jti.pyEq w.jti = true) (hclock : t.Ordered)
    (hpresents : call.presents w = true)
    (hrem : Unexpired w t.wpt → Remembered w t.wptCache store) :
    E.enforce call t store ≠ (.ok (), store') := by
  intro hok
  obtain ⟨hexp, w', wit, store1, hsame, hwit, hclaim⟩ := claimed_of_ok hpresents hok
  have hle : t.witCache ≤ t.wptCache :=
    hclock.ect.trans (hclock.wpt.trans (hclock.defaultExp.trans hclock.wptCache))
  have hkeep := Enforcer.along_validateWit E wit hle store
  rw [hwit] at hkeep
  obtain ⟨jti, exp, hmem, hnorm, hlive⟩ := (hrem hexp).of_remembers hkeep
  have hequal : jti.pyEq w'.jti = true := by
    refine Json.pyEq_iff.mpr ⟨hnorm.trans (jti_exp_of_same hsame).1.symm, ?_⟩
    show (jti.pyNorm).all _ _ = true
    rw [hnorm]
    exact (Json.pyEq_iff.mp hjti).2
  have hrefused := ReplayMemory.refused_of_mem (e := Enforcer.cacheExp w' t.defaultExp) hmem hlive
    hequal
  rw [hclaim] at hrefused
  nomatch hrefused

lemma Clocked.tail (h : Clocked (r :: rs)) : Clocked rs :=
  ⟨fun q hq => h.1 q (mem_cons_of_mem _ hq), (pairwise_cons.mp h.2).2⟩

/-- No later call has an earlier reading. -/
lemma Clocked.le_wptCache (h : Clocked (r :: rs)) (hq : q ∈ rs) :
    r.t.witCache ≤ q.t.wptCache ∧ r.t.wptCache ≤ q.t.wptCache := by
  have hr := h.1 r mem_cons_self
  have hq' := h.1 q (mem_cons_of_mem _ hq)
  have hrq : r.t.authority ≤ q.t.wit := (pairwise_cons.mp h.2).1 q hq
  have := hr.ect
  have := hr.wpt
  have := hr.defaultExp
  have := hr.wptCache
  have := hr.authority
  have := hq'.witCache
  have := hq'.ect
  have := hq'.wpt
  have := hq'.defaultExp
  have := hq'.wptCache
  constructor <;> omega

/-- What a call keeps is there for a later one. -/
lemma Remembered.of_enforce (hclock : Clocked (r :: rs)) (hq : q ∈ rs)
    (h : Remembered w q.t.wptCache store) :
    Remembered w q.t.wptCache (E.enforce r.call r.t store).2 :=
  h.of_remembers (Enforcer.along_enforce E r.call (hclock.le_wptCache hq).1
    (hclock.le_wptCache hq).2 store)

lemma accepts_cons_of_not (h : ∀ store', ¬ (r.call.presents w = true ∧
    E.enforce r.call r.t store = (.ok (), store'))) :
    accepts E w store (r :: rs) = accepts E w (E.enforce r.call r.t store).2 rs := by
  rw [accepts, if_neg, Nat.add_zero]
  intro hpass
  obtain ⟨hpresents, hok⟩ := Bool.and_eq_true_iff.mp hpass
  rcases hrun : E.enforce r.call r.t store with ⟨e | u, store'⟩
  · rw [hrun] at hok
    nomatch hok
  · exact h store' ⟨hpresents, hrun⟩

/-- While a proof is remembered up to its expiry, it is not accepted. -/
lemma accepts_eq_zero (hjti : w.jti.pyEq w.jti = true) (hclock : Clocked rs)
    (hrem : ∀ q ∈ rs, q.call.presents w = true → Unexpired w q.t.wpt →
      Remembered w q.t.wptCache store) : accepts E w store rs = 0 := by
  induction rs generalizing store with
  | nil => rfl
  | cons r rs ih =>
    rw [accepts_cons_of_not]
    · exact ih hclock.tail fun q hq hpresents hexp =>
        (hrem q (mem_cons_of_mem _ hq) hpresents hexp).of_enforce hclock hq
    · rintro store' ⟨hpresents, hok⟩
      exact not_ok_of_remembered hjti (hclock.1 r mem_cons_self) hpresents
        (hrem r mem_cons_self hpresents) hok

/-- An accepted proof is remembered for as long as `Outlives` asks. -/
lemma remembered_of_ok (hpresents : call.presents w = true)
    (hok : E.enforce call t store = (.ok (), store')) (hlives : Outlives w t q)
    (hexp : Unexpired w q.wpt) : Remembered w q.wptCache store' := by
  obtain ⟨-, w', _, _, hsame, -, hclaim⟩ := claimed_of_ok hpresents hok
  obtain ⟨hjti, hsameExp⟩ := jti_exp_of_same hsame
  refine ⟨w'.jti, _, (ReplayMemory.claim_eq_true hclaim).1, hjti, ?_⟩
  rw [expired_cacheExp hsameExp, expired, decide_eq_false_iff_not, Enforcer.cacheExp]
  unfold Outlives at hlives
  split_ifs at hlives ⊢ with htruthy
  · exact fun hlate => hlives ⟨hexp htruthy, hlate⟩
  · simp only [Json.lt?, Option.some.injEq, decide_eq_true_eq, not_lt]
    exact_mod_cast hlives

/-- In every run of calls on a clock that does not go back, from every store, a proof is accepted
at most once if the cache does not forget it before it has expired. An identifier that is not equal
to itself cannot be remembered. -/
theorem accepted_at_most_once (E : Enforcer) (w : WorkloadProofToken) (store : ReplayStore)
    (rs : List Request) (hclock : Clocked rs) (hjti : w.jti.pyEq w.jti = true)
    (hlives : rs.Pairwise fun p q =>
      p.call.presents w = true → q.call.presents w = true → Outlives w p.t q.t) :
    accepts E w store rs ≤ 1 := by
  induction rs generalizing store with
  | nil => exact Nat.zero_le 1
  | cons r rs ih =>
    obtain ⟨hhead, htail⟩ := pairwise_cons.mp hlives
    by_cases hpass : ∃ store', r.call.presents w = true ∧
        E.enforce r.call r.t store = (.ok (), store')
    · obtain ⟨store', hpresents, hok⟩ := hpass
      have hzero : accepts E w (E.enforce r.call r.t store).2 rs = 0 := by
        rw [hok]
        exact accepts_eq_zero hjti hclock.tail fun q hq hq' hexp =>
          remembered_of_ok hpresents hok (hhead q hq hpresents hq') hexp
      rw [accepts, hzero]
      split_ifs <;> omega
    · rw [accepts_cons_of_not (not_exists.mp hpass)]
      exact ih _ hclock.tail htail

/-- A validator for one audience, with a hash that is always the same. -/
def Enforcer.reference : Enforcer where
  expectedAudience := "api"
  sha256 _ := "0"
  sha256_ne_nil _ := by decide

/-- A proof for `POST /a`, without `exp`, that names the hash of another identity token. -/
def referenceProof : Dict :=
  [("htm", "POST"), ("htu", "/a"), ("body_hash", "b"), ("wit_hash", "1"), ("ect_hash", "1"),
    ("authority_hash", "0"), ("jti", "p"), ("cnf", .obj [])]

/-- What a call presents as its authority. -/
def referenceAuthority : Dict := [("authority_id", "a")]

/-- A state-changing call that presents a proof and an authority, with an identity token of its
own. -/
def referenceCall (jti : String) (proof : Dict) : Call where
  classification := .stateChanging
  method := "POST"
  htu := "/a"
  bodyHash := "b"
  witPayload := some [("iss", "i"), ("sub", "wimse://a/b/c/d/e"), ("aud", "api"),
    ("exp", .int 1000), ("iat", .int 0), ("jti", .str (PyStr.ofString jti)), ("cnf", .obj [])]
  ectPayload := some [("iss", "i"), ("sub", "s"), ("aud", "api"), ("exp", .int 1000),
    ("iat", .int 0), ("jti", "j"), ("ephemeral_execution_id", "e"), ("candidate_act_hash", "c"),
    ("cnf", .obj [])]
  wptPayload := some proof
  authorityPayload := some referenceAuthority

/-- All readings of a call at one moment. -/
def Readings.at (now : ℤ) : Readings := ⟨now, now, now, now, now, now, now⟩

lemma Readings.ordered_at (now : ℤ) : (Readings.at now).Ordered :=
  ⟨le_rfl, le_rfl, le_rfl, le_rfl, le_rfl, le_rfl⟩

/-- A proof without `exp` that is presented twice within five minutes. -/
theorem accepted_at_most_once_within : ∃ w, WorkloadProofToken.ofPayload referenceProof = some w ∧
    accepts .reference w [] [⟨referenceCall "1" referenceProof, .at 0⟩,
      ⟨referenceCall "2" referenceProof, .at 300⟩] ≤ 1 := by
  refine ⟨_, rfl, accepted_at_most_once _ _ _ _ ⟨?_, ?_⟩ (by decide +kernel) ?_⟩
  · simp [Readings.ordered_at]
  · simp [Readings.at]
  · refine pairwise_pair.mpr fun _ _ => ?_
    rw [Outlives, if_neg (by decide +kernel)]
    decide

/-- A proof without `exp` is accepted again after five minutes. -/
theorem accepted_again : ∃ w, WorkloadProofToken.ofPayload referenceProof = some w ∧
    Clocked [⟨referenceCall "1" referenceProof, .at 0⟩,
      ⟨referenceCall "2" referenceProof, .at 301⟩] ∧
    accepts .reference w [] [⟨referenceCall "1" referenceProof, .at 0⟩,
      ⟨referenceCall "2" referenceProof, .at 301⟩] = 2 := by
  refine ⟨_, rfl, ⟨?_, ?_⟩, ?_⟩
  · simp [Readings.ordered_at]
  · simp [Readings.at]
  · decide +kernel

/-! ## Bindings -/

/-- The proof with other hashes of the identity token and of the execution context. -/
def rebind (witHash ectHash : Json) (payload : Dict) : Dict :=
  ("wit_hash", witHash) :: ("ect_hash", ectHash) ::
    FieldMap.erase "wit_hash" (FieldMap.erase "ect_hash" payload)

lemma lookup_rebind (witHash ectHash : Json) (payload : Dict) (key : PyStr) :
    FieldMap.lookup key (rebind witHash ectHash payload) =
      if key = "wit_hash" then some witHash
      else if key = "ect_hash" then some ectHash
      else FieldMap.lookup key payload := by
  simp only [rebind, FieldMap.lookup_cons, FieldMap.lookup_erase]
  by_cases hwit : key = "wit_hash"
  · simp only [if_pos hwit]
  · by_cases hect : key = "ect_hash"
    · simp only [if_neg hwit, if_pos hect]
    · simp only [if_neg hwit, if_neg hect]

/-- The other members stay as they are. -/
lemma ofPayload_rebind (h : ofPayload payload = some w)
    (witHash ectHash : Json) : ofPayload (rebind witHash ectHash payload) =
      some { w with witHash := witHash, ectHash := ectHash } := by
  obtain ⟨get, hget, hw⟩ := Option.bind_eq_some_iff.mp h
  obtain ⟨hknown, hrequired, rfl⟩ := construct_eq_some.mp hget
  refine Option.bind_eq_some_iff.mpr ⟨_, construct_eq_some.mpr ⟨?_, ?_, rfl⟩, ?_⟩
  · intro m hm
    simp only [rebind, FieldMap.erase, mem_cons, mem_filter] at hm
    rcases hm with rfl | rfl | ⟨⟨hm, -⟩, -⟩
    · exact mem_map_of_mem (by decide)
    · exact mem_map_of_mem (by decide)
    · exact hknown m hm
  · intro name hname
    rw [lookup_rebind]
    split_ifs
    · rfl
    · rfl
    · exact hrequired name hname
  · cases hw
    simp only [lookup_rebind, PyStr.ofString_inj]
    rfl

lemma checkWpt_rebind {hash hash' : PyStr} {authorityHash : Option PyStr} {now : ℤ}
    (payload : Option Dict) (witHash ectHash : Json) :
    Enforcer.checkWpt { w with witHash := witHash, ectHash := ectHash }
        { call with wptPayload := payload } hash hash' authorityHash now =
      Enforcer.checkWpt w call hash hash' authorityHash now := by
  rcases authorityHash with _ | authorityHash <;> rfl

/-- A proof that is accepted on a state-changing or consequence route names the method, the URI and
the body of the request, and the authority that is presented. The hashes of the identity token and
of the execution context are not compared: with any others the request is accepted as well. -/
theorem accepted_binds_request
    (hroute : call.classification = .stateChanging ∨ call.classification = .consequence)
    (hok : E.enforce call t store = (.ok (), store')) :
    ∃ payload w, call.wptPayload = some payload ∧
      WorkloadProofToken.ofPayload payload = some w ∧
      w.htm = .str call.method ∧ w.htu = .str call.htu ∧ w.bodyHash = .str call.bodyHash ∧
      (∀ authority, call.authorityPayload = some authority → authority ≠ [] →
        w.authorityHash = .str (E.sha256 authority)) ∧
      ∀ witHash ectHash, E.enforce
        { call with wptPayload := some (rebind witHash ectHash payload) } t store =
          (.ok (), store') := by
  obtain ⟨witPayload, ectPayload, payload, wit, ect, w, store₁, hwitp, hectp, hwit, hect, hvalid,
    hvalid', hpayload, -, hw, hproof, hcons⟩ := (Enforcer.enforce_eq_ok hroute).mp hok
  obtain ⟨hcheck, hscalar, hclaim⟩ := Enforcer.validateWpt_eq_ok.mp hproof
  obtain ⟨-, hhtm, hhtu, hbody, hauthority⟩ := Enforcer.checkWpt_eq_ok.mp hcheck
  refine ⟨payload, w, hpayload, hw, hhtm, hhtu, hbody, ?_, ?_⟩
  · intro authority hpresented hne
    obtain ⟨m, ms, rfl⟩ := exists_cons_of_ne_nil hne
    exact hauthority _ (by rw [Enforcer.authorityHash, hpresented]) (E.sha256_ne_nil _)
  · intro witHash ectHash
    let call' : Call := { call with wptPayload := some (rebind witHash ectHash payload) }
    let w' : WorkloadProofToken := { w with witHash := witHash, ectHash := ectHash }
    have hw' : ofPayload (rebind witHash ectHash payload) = some w' :=
      ofPayload_rebind hw witHash ectHash
    have hcheck' := (checkWpt_rebind (some (rebind witHash ectHash payload)) witHash ectHash).trans
      hcheck
    have hproof' : Enforcer.validateWpt w' call' (E.sha256 witPayload) (E.sha256 ectPayload)
        (E.authorityHash call') t store₁ = (.ok (), store') :=
      Enforcer.validateWpt_eq_ok.mpr ⟨hcheck', hscalar, hclaim⟩
    have hroute' : call'.classification = .stateChanging ∨ call'.classification = .consequence :=
      hroute
    exact (Enforcer.enforce_eq_ok hroute').mpr ⟨witPayload, ectPayload, _, wit, ect, w', store₁,
      hwitp, hectp, hwit, hect, hvalid, hvalid', rfl, cons_ne_nil _ _, hw', hproof', hcons⟩

lemma exists_reference_accepted : ∃ store',
    Enforcer.reference.enforce (referenceCall "1" referenceProof) (.at 0) [] =
      (.ok (), store') := by
  have hok : (Enforcer.reference.enforce (referenceCall "1" referenceProof) (.at 0) []).1.isOk =
      true := by decide +kernel
  rcases hrun : Enforcer.reference.enforce (referenceCall "1" referenceProof) (.at 0) [] with
    ⟨e | u, store'⟩
  · rw [hrun] at hok
    nomatch hok
  · exact ⟨store', rfl⟩

/-- A call whose proof names the authority that is presented, and the hash of another identity
token. -/
theorem accepted_binds_request_reference : ∃ store', ∃ payload w,
    Enforcer.reference.enforce (referenceCall "1" referenceProof) (.at 0) [] = (.ok (), store') ∧
      (referenceCall "1" referenceProof).wptPayload = some payload ∧
      WorkloadProofToken.ofPayload payload = some w ∧ w.htm = "POST" ∧
      w.authorityHash = .str (Enforcer.reference.sha256 referenceAuthority) := by
  obtain ⟨store', hok⟩ := exists_reference_accepted
  obtain ⟨payload, w, hpayload, hw, hhtm, -, -, hauthority, -⟩ :=
    accepted_binds_request (.inl rfl) hok
  have hbound := hauthority referenceAuthority rfl (cons_ne_nil _ _)
  exact ⟨store', payload, w, hok, hpayload, hw, hhtm, hbound⟩

/-- A call is accepted with a proof that names the hashes of other tokens. -/
theorem accepted_with_other_hash : ∃ w store',
    Enforcer.reference.enforce (referenceCall "1" referenceProof) (.at 0) [] = (.ok (), store') ∧
      WorkloadProofToken.ofPayload referenceProof = some w ∧
      ∀ payload, (referenceCall "1" referenceProof).witPayload = some payload →
        w.witHash ≠ .str (Enforcer.reference.sha256 payload) ∧
        ∀ payload', (referenceCall "1" referenceProof).ectPayload = some payload' →
          w.ectHash ≠ .str (Enforcer.reference.sha256 payload') := by
  obtain ⟨store', hok⟩ := exists_reference_accepted
  have hother : Json.str "1" ≠ .str "0" := by
    simp [PyStr.ofString_inj]
  exact ⟨_, store', hok, rfl, fun _ _ => ⟨hother, fun _ _ => hother⟩⟩

end Identity
