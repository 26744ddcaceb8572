import Cappo.CapabilityMount.Correctness.Serving

/-!
# What the writers vouch for

A second discipline of the sessions, without locks. A session knows its own entries and its
uncommitted writes, and that the log grows; what it may write is up to a `Voucher`, which asks for
something that a longer log does not take back. What the voucher asks holds of all that is ever
committed.

## Main results

* `Voucher.wp_of_only`: a program whose writes are vouched for from some moment on;
* `Voucher.served`: what a session that serves one request establishes, whatever the others do.
-/

namespace CapabilityMount

open Sessions.Discipline List

variable {D : Deployment} {i j : ℕ} {w w1 w2 w' : World} {α β : Type}

/-! ## What a session sees -/

/-- A session that has no lock. -/
structure Free (i : ℕ) (w : World) : Prop where
  locks : ∀ m, w.locks m ≠ some i
  sequenceLock : w.sequenceLock ≠ some i

/-- What the others leave as it is for session `i`, whatever they do. -/
structure Apart (i : ℕ) (w w' : World) : Prop where
  log : w.log <+: w'.log
  writes : w'.writes i = w.writes i
  own : ∀ e ∈ w'.log, e.session = some i → e ∈ w.log
  free : Free i w → Free i w'

namespace Apart

lemma refl (i : ℕ) (w : World) : Apart i w w := ⟨prefix_rfl, rfl, fun _ h _ => h, id⟩

lemma trans (h1 : Apart i w w1) (h2 : Apart i w1 w2) : Apart i w w2 where
  log := h1.log.trans h2.log
  writes := h2.writes.trans h1.writes
  own e he hs := h1.own e (h2.own e he hs) hs
  free h := h2.free (h1.free h)

variable {entries : List Entry}

/-- Entries of others are added to the log. -/
theorem append (hlog : w'.log = w.log ++ entries) (hentries : ∀ e ∈ entries, e.session ≠ some i)
    (hwrites : w'.writes i = w.writes i) (hfree : Free i w → Free i w') : Apart i w w' where
  log := hlog ▸ prefix_append ..
  writes := hwrites
  own e he hs := by
    rw [hlog] at he
    exact (mem_append.mp he).resolve_right fun hmem => hentries e hmem hs
  free := hfree

lemma of_eq (hlog : w'.log = w.log) (hwrites : w'.writes i = w.writes i)
    (hfree : Free i w → Free i w') : Apart i w w' :=
  append (hlog.trans (append_nil _).symm) (fun _ he => nomatch he) hwrites
    hfree

end Apart

lemma Free.release (h : Free j w) : Free j (w.release i) where
  locks m hm := h.locks m (World.locks_release.mp hm).2
  sequenceLock := by
    change (if w.sequenceLock = some i then none else w.sequenceLock) ≠ some j
    split
    · exact nofun
    · exact h.sequenceLock

variable {op : Op}

/-- A call of one session, seen by another. -/
theorem Effect.apart (h : Effect i w op w') (hj : j ≠ i) : Apart j w w' := by
  have hi : some i ≠ some j := fun h => hj (Option.some.inj h).symm
  have hone : ∀ {e : Entry}, e.session = some i → ∀ e' ∈ [e], e'.session ≠ some j := by
    rintro e he e' hmem
    rw [mem_singleton.mp hmem, he]
    exact hi
  cases h with
  | unchanged => exact .refl j w
  | released => exact .of_eq rfl (World.writes_release_of_ne hj) .release
  | locked m free =>
    refine .of_eq rfl rfl fun h => ⟨fun m' => ?_, h.sequenceLock⟩
    change Function.update w.locks m (some i) m' ≠ some j
    by_cases hm : m' = m
    · rwa [hm, Function.update_self]
    · rw [Function.update_of_ne hm]
      exact h.locks m'
  | incremented =>
    exact .of_eq rfl (World.writes_wrote_of_ne .incrementSequence hj) fun h => ⟨h.locks, hi⟩
  | wrote x => exact .of_eq rfl (World.writes_wrote_of_ne x hj) fun h => ⟨h.locks, h.sequenceLock⟩
  | committed accepts fresh =>
    refine .append rfl (hone rfl) (World.writes_release_of_ne hj) fun h => ?_
    exact ⟨(h.release (i := i)).locks, (h.release (i := i)).sequenceLock⟩
  | revoked m revoked => exact .of_eq rfl rfl fun h => ⟨h.locks, h.sequenceLock⟩
  | anchored e r => exact .append rfl (hone rfl) rfl fun h => ⟨h.locks, h.sequenceLock⟩
  | dispatched d permitReceipt payloads =>
    refine .append rfl (fun e he => ?_) rfl fun h => ⟨h.locks, h.sequenceLock⟩
    rcases mem_cons.mp he with rfl | he
    · exact hi
    · obtain ⟨p, -, rfl⟩ := mem_map.mp he
      exact nofun

lemma Environment.apart {e : Environment} (hact : e.act w = some w') : Apart j w w' := by
  cases e <;> cases hact <;>
    exact .append rfl (fun e he => mem_singleton.mp he ▸ nofun) rfl
      fun h => ⟨h.locks, h.sequenceLock⟩

/-- A session that was not used, and has no lock either. -/
structure Fresh (i : ℕ) (w : World) : Prop extends Unused i w, Free i w

lemma Fresh.apart (h : Fresh i w) (ho : Apart i w w') : Fresh i w' where
  writes := ho.writes.trans h.writes
  own e he hs := h.own e (ho.own e he hs) hs
  toFree := ho.free h.toFree

/-- The end of a transaction. -/
lemma free_release : Free i (w.release i) where
  locks m hm := (World.locks_release.mp hm).1 rfl
  sequenceLock := by
    change (if w.sequenceLock = some i then none else w.sequenceLock) ≠ some i
    split
    · exact nofun
    · assumption

/-! ## Vouchers -/

/-- What is asked of a write of a session, given the log at that moment. -/
structure Voucher where
  ok : ℕ → Write → Log → Prop
  mono : ∀ {i : ℕ} {x : Write} {log log' : Log}, ok i x log → log <+: log' → ok i x log'
  sequence : ∀ i log, ok i .incrementSequence log

namespace Voucher

variable (V : Voucher)

/-- All that was written is vouched for. -/
structure Inv (w : World) : Prop where
  log : ∀ i ws, .commit i ws ∈ w.log → ∀ x ∈ ws, V.ok i x w.log
  writes : ∀ i, ∀ x ∈ w.writes i, V.ok i x w.log

variable {V}

/-- What is written to the log was written to a transaction before. -/
lemma Inv.of_sources (h : V.Inv w) (hlog : w.log <+: w'.log)
    (hcommitted : ∀ i ws, .commit i ws ∈ w'.log → .commit i ws ∈ w.log ∨ ws = w.writes i)
    (hwritten : ∀ i, ∀ x ∈ w'.writes i, x ∈ w.writes i ∨ V.ok i x w.log) : V.Inv w' where
  log i ws hws x hx := by
    rcases hcommitted i ws hws with hws | rfl
    · exact V.mono (h.log i ws hws x hx) hlog
    · exact V.mono (h.writes i x hx) hlog
  writes i x hx := V.mono ((hwritten i x hx).elim (h.writes i x) id) hlog

lemma mem_of_release (hx : x ∈ (w.release i).writes j) : x ∈ w.writes j := by
  by_cases hj : j = i
  · subst hj
    rw [World.writes_release_self] at hx
    nomatch hx
  · exact World.writes_release_of_ne hj ▸ hx

lemma Inv.release (h : V.Inv w) : V.Inv (w.release i) :=
  h.of_sources prefix_rfl (fun _ _ hx => .inl hx) fun _ _ hx => .inl (mem_of_release hx)

lemma Inv.wrote (h : V.Inv w) (hx : V.ok i x w.log) : V.Inv (w.wrote i x) := by
  refine h.of_sources prefix_rfl (fun _ _ hx => .inl hx) fun k y hy => ?_
  by_cases hk : k = i
  · subst hk
    rw [World.writes_wrote_self] at hy
    refine (mem_append.mp hy).imp_right fun hy => ?_
    rwa [mem_singleton.mp hy]
  · exact .inl (World.writes_wrote_of_ne x hk ▸ hy)

/-- Entries that are no commits. -/
theorem Inv.append (h : V.Inv w) (hlog : w'.log = w.log ++ entries)
    (hentries : ∀ i ws, .commit i ws ∉ entries) (hwrites : w'.writes = w.writes) : V.Inv w' := by
  refine h.of_sources (hlog ▸ prefix_append ..) (fun i ws hws => .inl ?_)
    fun i x hx => .inl (hwrites ▸ hx)
  rw [hlog, mem_append] at hws
  exact hws.resolve_right (hentries i ws)

/-- A call keeps what is vouched for. -/
theorem Inv.effect (h : V.Inv w) (hlegal : ∀ x, op = .write x → V.ok i x w.log)
    (heffect : Effect i w op w') : V.Inv w' := by
  cases heffect with
  | unchanged => exact h
  | released => exact h.release
  | locked | revoked => exact { h with }
  | incremented => exact { h.wrote (V.sequence i w.log) with }
  | wrote x => exact h.wrote (hlegal x rfl)
  | committed accepts fresh =>
    refine h.of_sources (prefix_append ..) (fun k ws hws => ?_)
      fun _ _ hx => .inl (mem_of_release hx)
    refine (mem_append.mp hws).imp_right fun hws => ?_
    obtain ⟨rfl, rfl⟩ := Entry.commit.inj (mem_singleton.mp hws)
    rfl
  | anchored e r =>
    exact h.append rfl (fun _ _ he => Entry.noConfusion (mem_singleton.mp he)) rfl
  | dispatched d permitReceipt payloads =>
    refine h.append rfl (fun i ws he => ?_) rfl
    rcases mem_cons.mp he with he | he
    · exact Entry.noConfusion he
    · obtain ⟨p, -, hp⟩ := mem_map.mp he
      exact Entry.noConfusion hp

lemma Inv.environment {e : Environment} (h : V.Inv w) (hact : e.act w = some w') : V.Inv w' := by
  cases e <;> cases hact <;>
    exact h.append rfl (fun _ _ he => Entry.noConfusion (mem_singleton.mp he)) rfl

variable (V) in
/-- The discipline under which writes are vouched for. -/
def discipline (D : Deployment) : Sessions.Discipline (machine D) where
  inv := V.Inv
  legal i op w := ∀ x, op = .write x → V.ok i x w.log
  others := Apart
  unused := Fresh
  refl := Apart.refl
  trans := Apart.trans
  unused_others := Fresh.apart
  call hinv hlegal hexec :=
    ⟨hinv.effect hlegal (exec_effect hexec), fun _ hj => (exec_effect hexec).apart hj⟩
  abort hinv := ⟨hinv.release, fun _ hj => .of_eq rfl (World.writes_release_of_ne hj) .release⟩
  environment hinv hact := ⟨hinv.environment hact, fun _ => Environment.apart hact⟩

variable {Q : β → World → Prop}

/-- A call that writes nothing, and what follows it. -/
lemma wp_call (hop : ∀ x, op ≠ .write x)
    (hf : ∀ w1 a v w2, Apart i w w1 → V.Inv w2 → D.exec i op a w1 = some (.ok v, w2) →
      (V.discipline D).yields i (f v) Q w2) :
    (V.discipline D).yields i (perform op >>= f) Q w :=
  wp_bind (wp_perform fun w1 ho _ => ⟨fun x hx => absurd hx (hop x), fun a w2 hinv2 =>
    ⟨fun v hexec => hf w1 a v w2 ho hinv2 hexec, fun _ _ => trivial⟩⟩)

/-- A program whose writes are vouched for from some moment on. -/
theorem wp_of_only {log : Log} {p : Proc α}
    (hp : p.Only fun op => ∀ x, op = .write x → ∀ log', log <+: log' → V.ok i x log')
    (hlog : log <+: w.log) : (V.discipline D).wp i p (fun _ w' => log <+: w'.log)
      (fun _ w' => log <+: w'.log) w := by
  induction p generalizing w with
  | done r => cases r <;> exact hlog
  | call op next ih =>
    intro w1 ho _
    have hlog1 := hlog.trans ho.log
    exact ⟨fun x hx => hp.1 x hx w1.log hlog1, fun a r w2 hexec =>
      ih r (hp.2 r) (hlog1.trans (exec_log op hexec))⟩

/-- A session of which nothing is asked may run every program. -/
lemma wp_of_forall (h : ∀ x log, V.ok i x log) (p : Proc α) :
    (V.discipline D).yields i p (fun _ _ => True) w := by
  induction p generalizing w with
  | done r => cases r <;> trivial
  | call op next ih => exact fun w1 _ _ => ⟨fun x _ => h x _, fun a r w2 _ => ih r⟩

/-- The voucher that asks for nothing. -/
def anything : Voucher where
  ok _ _ _ := True
  mono _ _ := trivial
  sequence _ _ := trivial

lemma inv_anything : anything.Inv w := ⟨fun _ _ _ _ _ => trivial, fun _ _ _ => trivial⟩

lemma sound_anything (hrun : D.run es = some c) :
    (anything.discipline D).Sound (fun _ _ _ => True) c := by
  refine sound (fun q j w _ _ => wp_of_forall (fun _ _ => trivial) _)
    (fun _ _ _ _ _ _ _ => trivial) ?_ hrun
  exact ⟨inv_anything, fun _ _ => ⟨⟨rfl, fun _ he => nomatch he⟩, ⟨nofun, nofun⟩⟩,
    fun _ _ hp => nomatch hp⟩

end Voucher

/-- Whatever is done first. -/
lemma wp_whatever (hf : ∀ a w', (Voucher.anything.discipline D).yields i (f a) Q w') :
    (Voucher.anything.discipline D).yields i (p >>= f) Q w :=
  wp_seq Voucher.inv_anything (Voucher.wp_of_forall (fun _ _ => trivial) p)
    (fun a w' _ _ => hf a w')

/-! ## Sessions -/

section Serving

variable {V : Voucher} {request : Request} {R : Response → Log → Prop}

/-- A session has no lock when it is closed, and closing it leaves the log as it is. -/
lemma wp_serve_of_handle (hR : ∀ {r w w'}, R r w.log → Apart i w w' → R r w'.log) (hinv : V.Inv w)
    (h : (V.discipline D).yields i (D.handle request) (fun r w => R r w.log) w) :
    (V.discipline D).yields i (D.serve request) (fun r w => Free i w ∧ R r w.log) w := by
  refine wp_bind (wp_attempt (wp_mono_inv' hinv h (fun response w1 _ hresponse => ?_)
    fun e w1 _ _ => ?_))
  · refine Voucher.wp_call (fun _ => Op.noConfusion) fun w2 a v w3 ho _ hexec => ?_
    cases hexec
    have hlog : R response w2.log := hR hresponse ho
    exact wp_pure ⟨free_release, hlog⟩
  · exact Voucher.wp_call (fun _ => Op.noConfusion) fun _ _ _ _ _ _ _ => wp_throw trivial

/-- What a session that serves a request has written and what its answer says, whatever the others
do: the voucher asks something of this session only. -/
theorem Voucher.served (hothers : ∀ j x log, j ≠ i → V.ok j x log)
    (hR : ∀ {r w w'}, R r w.log → Apart i w w' → R r w'.log)
    {es es' : Schedule} {c c' : Config}
    (hrun : D.run es = some c)
    (hserve : c.run (machine D) D.serve (.start i request :: es') = some c')
    (hsafe : V.Inv c.shared → Fresh i c.shared → (V.discipline D).yields i (D.handle request)
      (fun r w => R r w.log) c.shared) :
    Fresh i c.shared ∧ (∀ ws, .commit i ws ∈ c'.shared.log → ∀ x ∈ ws, V.ok i x c'.shared.log) ∧
      ∀ r, c'.result i = some (.ok r) → Free i c'.shared ∧ R r c'.shared.log := by
  have hc := sound_anything hrun
  have hunused : c.sessions i = .unused := by
    obtain ⟨c1, hnext, -⟩ := Option.bind_eq_some_iff.mp hserve
    cases Sessions.Config.next_spec hnext with
    | start unused => exact unused
  have hfresh : Fresh i c.shared := hc.unused i hunused
  -- before it is started, the session has written nothing
  have hinv : V.Inv c.shared := by
    refine ⟨fun j ws hws x _ => hothers j x _ ?_, fun j x hx => hothers j x _ ?_⟩
    · rintro rfl
      exact hfresh.own _ hws rfl
    · rintro rfl
      exact absurd hx (hfresh.writes ▸ not_mem_nil)
  have hother : ∀ (j : ℕ) (p : Proc Response) (w : World), j ≠ i →
      (V.discipline D).yields j p (fun _ _ => True) w :=
    fun j p w hj => wp_of_forall (fun x log => hothers j x log hj) p
  have hV : (V.discipline D).Sound (fun _ _ _ => True) c := by
    refine ⟨hinv, hc.unused, fun j p hp => hother j p _ ?_⟩
    rintro rfl
    nomatch hunused.symm.trans hp
  obtain ⟨-, hsound⟩ := hV.follow (R := fun r w => Free i w ∧ R r w.log)
    (fun q j w hj _ _ => hother j _ w hj) (fun _ _ _ h ho _ => ⟨ho.free h.1, hR h.2 ho⟩)
    (fun hfresh => wp_serve_of_handle hR hinv (hsafe hinv hfresh)) hserve
  exact ⟨hfresh, hsound.inv.log i, fun r hr => hsound.post_of_result hr rfl⟩

end Serving

end CapabilityMount
