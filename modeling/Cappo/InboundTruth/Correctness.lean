import Mathlib.Data.List.Pairwise
import Cappo.InboundTruth.Enforcer
import Cappo.Lib.Checks

/-!
# What certified context guarantees

`certify_context` returns the claims that no sole higher authority outvotes. Where several claims
share the highest authority of their group and agree, the claims below them are returned too,
whatever they say; and a requirement is held against the number of claims of its domain only.

## Main results

* `certifyContext_eq_ok`: which claims are returned, and what they have passed;
* `certifyContext_consistent_iff`: when the returned claims do not contradict each other;
* `certifyContext_met_iff`: when they meet the requirements.
-/

namespace InboundTruth

open VdbC1 (PyStr Json)
open List

variable {T : Texts} {L : TruthLedger} {claims claims' admitted group base : List TruthClaim}
  {requirements : List FactRequirement} {trustedClock : ℤ} {c w : TruthClaim}

/-- The claims that speak of what a claim speaks of. -/
def rivals (claims : List TruthClaim) (c : TruthClaim) : List TruthClaim :=
  claims.filter fun x => x.key = c.key

namespace TruthLedger

variable (L)

/-- The authority of a claim. -/
def score (c : TruthClaim) : ℤ := L.getAuthorityScore c.factType

/-- No claim of the group has a higher authority. -/
def Top (group : List TruthClaim) (c : TruthClaim) : Prop := ∀ x ∈ group, L.score x ≤ L.score c

instance : DecidablePred (L.Top group) := fun _ => List.decidableBAll ..

/-- The claims with the highest authority of a group. -/
def winners (group : List TruthClaim) : List TruthClaim := group.filter (L.Top group)

/-- A sole winner of the group has a higher authority. -/
def Outvoted (claims : List TruthClaim) (c : TruthClaim) : Prop :=
  (L.winners (rivals claims c)).length = 1 ∧ ¬L.Top (rivals claims c) c

instance : DecidablePred (L.Outvoted claims) := fun _ => instDecidableAnd

/-- The claims that no sole winner outvotes. -/
def standing (claims : List TruthClaim) : List TruthClaim :=
  claims.filter fun c => ¬L.Outvoted claims c

end TruthLedger

namespace TruthClaim

/-- The claims have the same value. -/
def Agrees (c c' : TruthClaim) : Prop := Json.pyEq c.payload.value c'.payload.value = true

instance (c c' : TruthClaim) : Decidable (c.Agrees c') := inferInstanceAs (Decidable (_ = true))

lemma Agrees.symm {c' : TruthClaim} (h : c.Agrees c') : c'.Agrees c := Json.pyEq_symm h

lemma Agrees.trans {c' c'' : TruthClaim} (h : c.Agrees c') (h' : c'.Agrees c'') :
    c.Agrees c'' := Json.pyEq_trans h h'

end TruthClaim

/-! ## Passes -/

variable {f : TruthClaim → TruthClaim}

lemma pass_eq_ok : pass check f seen claims = .ok claims' ↔
      (∀ c ∈ claims, check c = none) ∧ claims' = seen ++ claims.map f := by
  induction claims generalizing seen with
  | nil => simp [pass, eq_comm]
  | cons c rest ih =>
    rw [pass]
    cases hcheck : check c with
    | none => simp [ih, hcheck]
    | some fault => simp [hcheck]

/-! ## One group -/

lemma update_nil (f : TruthClaim → TruthClaim) (claims : List TruthClaim) :
    update [] f claims = claims := by simp [update]

lemma update_congr (f : TruthClaim → TruthClaim)
    (h : ∀ c, c ∈ marked ↔ c ∈ marked') : update marked f claims = update marked' f claims := by
  unfold update
  simp only [h]

namespace TruthLedger

instance : Std.Total fun a b : ℤ × TruthClaim => b.1 ≤ a.1 := ⟨fun a b => le_total b.1 a.1⟩

instance : IsTrans (ℤ × TruthClaim) fun a b => b.1 ≤ a.1 := ⟨fun _ _ _ h h' => h'.trans h⟩

lemma scores_perm (group : List TruthClaim) :
    (L.scores group).Perm (group.map fun c => (L.score c, c)) := perm_insertionSort ..

variable {rest : List (ℤ × TruthClaim)}

/-- The first of the scores is the highest, and the claims that have it are the winners. -/
lemma winners_perm (h : L.scores group = (highest, w) :: rest) :
    (L.winners group).Perm (w :: (rest.filter fun s => s.1 = highest).map Prod.snd) := by
  have hperm := L.scores_perm group
  have hsorted : (L.scores group).Pairwise fun a b => b.1 ≤ a.1 := pairwise_insertionSort ..
  rw [h, pairwise_cons] at hsorted
  rw [h] at hperm
  -- a claim is a winner exactly if it has the score of the first one
  have hmem : ∀ c ∈ group, (L.score c, c) ∈ (highest, w) :: rest := fun c hc =>
    hperm.mem_iff.mpr (mem_map_of_mem hc)
  obtain ⟨first, hfirst, heq⟩ := mem_map.mp (hperm.mem_iff.mp mem_cons_self)
  obtain ⟨hscore, rfl⟩ := Prod.mk.inj heq
  have htop : ∀ c ∈ group,
      (decide (L.Top group c) = true ↔ decide (L.score c = highest) = true) := by
    intro c hc
    rw [decide_eq_true_iff, decide_eq_true_iff]
    constructor
    · intro htop
      have hge := htop first hfirst
      rcases mem_cons.mp (hmem c hc) with hhead | htail
      · exact (Prod.mk.inj hhead).1
      · have hle := hsorted.1 _ htail
        dsimp only at hle
        omega
    · intro hc x hx
      rcases mem_cons.mp (hmem x hx) with hhead | htail
      · have := (Prod.mk.inj hhead).1
        omega
      · have hle := hsorted.1 _ htail
        dsimp only at hle
        omega
  have hwinners : L.winners group = (((group.map fun c => (L.score c, c)).filter
      fun s => s.1 = highest).map Prod.snd) := by
    rw [filter_map, map_map]
    show _ = ((group.filter fun c => L.score c = highest).map id)
    rw [map_id]
    exact filter_congr fun c hc => Bool.eq_iff_iff.mpr (htop c hc)
  rw [hwinners]
  have hfilter := ((hperm.filter fun s => s.1 = highest).map Prod.snd).symm
  rwa [filter_cons, if_pos (decide_eq_true rfl)] at hfilter

end TruthLedger

namespace TruthLedger

lemma mem_winners : w ∈ L.winners group ↔ w ∈ group ∧ L.Top group w := by
  simp [winners]

/-- A group of one has a sole winner, who outvotes nobody. -/
lemma top_of_length_le_one (hlength : group.length ≤ 1) (hc : c ∈ group) : L.Top group c := by
  intro x hx
  obtain ⟨y, rfl⟩ := length_eq_one_iff.mp (le_antisymm hlength (length_pos_of_mem hc))
  rw [mem_singleton.mp hx, mem_singleton.mp hc]

/-- With a sole winner, the claims behind it are those that are not at the top. -/
lemma mem_losers_iff (h : L.scores group = (highest, w) :: rest) (hsole : L.winners group = [w]) :
    c ∈ rest.map Prod.snd ↔ c ∈ group ∧ ¬L.Top group c := by
  have hperm := L.scores_perm group
  rw [h] at hperm
  have htop : ∀ x ∈ group, L.Top group x ↔ x = w := fun x hx => by
    rw [← mem_singleton, ← hsole, mem_winners, and_iff_right hx]
  have hgroup : ∀ x, x ∈ group ↔ x = w ∨ x ∈ rest.map Prod.snd := fun x => by
    have hmem := (hperm.map Prod.snd).mem_iff (a := x)
    rw [map_map, map_cons, mem_cons] at hmem
    rw [hmem]
    simp
  -- the winner stands once in the group, so it is not among the others
  have hcount : w ∉ rest.map Prod.snd := by
    intro hw
    obtain ⟨s, hs, rfl⟩ := mem_map.mp hw
    obtain ⟨x, -, rfl⟩ := mem_map.mp (hperm.mem_iff.mp (mem_cons_of_mem _ hs))
    obtain ⟨y, -, hy⟩ := mem_map.mp (hperm.mem_iff.mp mem_cons_self)
    obtain ⟨rfl, rfl⟩ := Prod.mk.inj hy
    have hlength := (L.winners_perm h).length_eq
    simp only [hsole, length_cons, length_map, length_nil] at hlength
    have hpos : 0 < (rest.filter fun s => s.1 = L.score y).length :=
      length_pos_of_mem (mem_filter.mpr ⟨hs, decide_eq_true rfl⟩)
    omega
  constructor
  · intro hc
    have hmem := (hgroup c).mpr (.inr hc)
    refine ⟨hmem, fun ht => ?_⟩
    obtain rfl := (htop c hmem).mp ht
    exact hcount hc
  · rintro ⟨hc, hnot⟩
    exact ((hgroup c).mp hc).resolve_left fun heq => hnot ((htop c hc).mpr heq)

/-- A group that is resolved: its winners agree, and the claims that a sole winner outvotes are
rejected. -/
lemma resolveGroup_eq_ok (h : L.resolveGroup claims group = .ok claims') :
    (L.winners group).Pairwise TruthClaim.Agrees ∧ ∃ reason, claims' =
      update (group.filter fun c => (L.winners group).length = 1 ∧ ¬L.Top group c)
        (TruthClaim.resolve .rejected reason) claims := by
  -- nobody is rejected unless there is a sole winner and someone below it
  have hnobody : (∀ c ∈ group, ¬((L.winners group).length = 1 ∧ ¬L.Top group c)) →
      claims = update (group.filter fun c => (L.winners group).length = 1 ∧ ¬L.Top group c)
        (TruthClaim.resolve .rejected []) claims := fun hnone => by
    rw [filter_eq_nil_iff.mpr fun c hc => by simpa using hnone c hc, update_nil]
  unfold resolveGroup at h
  split at h
  · next hlength =>
    cases h
    refine ⟨?_, [], hnobody fun c hc hout => hout.2 (top_of_length_le_one hlength hc)⟩
    refine List.Pairwise.filter _ ?_
    rcases Nat.le_one_iff_eq_zero_or_eq_one.mp hlength with hzero | hone
    · rw [length_eq_zero_iff.mp hzero]
      exact .nil
    · obtain ⟨c, rfl⟩ := length_eq_one_iff.mp hone
      exact pairwise_singleton _ _
  split at h
  · cases h
  split at h
  · next hscores =>
    have hperm := L.scores_perm group
    rw [hscores] at hperm
    obtain rfl := map_eq_nil_iff.mp hperm.nil_eq.symm
    cases h
    exact ⟨.nil, [], hnobody fun c hc => nomatch hc⟩
  next highest winner rest hscores =>
  have hwinners := L.winners_perm hscores
  split at h
  · next htied =>
    cases h
    rw [htied] at hwinners
    have hsole := perm_singleton.mp hwinners
    refine ⟨hsole ▸ pairwise_singleton _ _, _, update_congr _ fun c => ?_⟩
    rw [mem_losers_iff hscores hsole, mem_filter, hsole]
    simp
  · next tied hne =>
    split at h
    · cases h
    next hagree =>
    cases h
    generalize (rest.filter fun s => s.1 = highest).map Prod.snd = tied at *
    have hagree : ∀ t ∈ tied, t.Agrees winner := fun t ht => by
      have hnot := any_eq_false.mp (Bool.eq_false_iff.mpr hagree) t ht
      show Json.pyEq _ _ = true
      simpa using hnot
    refine ⟨?_, [], hnobody fun c _ hout => ?_⟩
    · refine (hwinners.pairwise_iff fun h => h.symm).mpr ?_
      refine pairwise_cons.mpr ⟨fun t ht => (hagree t ht).symm, ?_⟩
      exact List.Pairwise.imp_of_mem (fun ha hb _ => (hagree _ ha).trans (hagree _ hb).symm)
        (pairwise_of_forall (R := fun _ _ => True) fun _ _ => trivial)
    · have hlength := hout.1
      rw [hwinners.length_eq, length_cons] at hlength
      exact hne (length_eq_zero_iff.mp (by omega))

end TruthLedger

/-! ## All groups -/

/-- What the resolution has made of each claim: those that were outvoted are rejected, and the
others are as they were. -/
structure Resolves (L : TruthLedger) (base : List TruthClaim) (done : TruthClaim → Prop)
    (f : TruthClaim → TruthClaim) : Prop where
  key : ∀ c, (f c).key = c.key
  rejected : ∀ c ∈ base, done c → L.Outvoted base c → (f c).state = .rejected
  kept : ∀ c ∈ base, done c → ¬L.Outvoted base c → f c = c
  untouched : ∀ c ∈ base, ¬done c → f c = c

namespace TruthLedger

variable {k : PyStr × PyStr × PyStr × PyStr}

variable {done : TruthClaim → Prop}

/-- One more group. -/
lemma resolves_update (hf : Resolves L base done f) (hk : ∀ c, c.key = k → ¬done c)
    (reason : PyStr) (hgroup : group = base.filter fun x => x.key = k) :
    ∃ f', update (group.filter fun c => (L.winners group).length = 1 ∧ ¬L.Top group c)
        (TruthClaim.resolve .rejected reason) (base.map f) = base.map f' ∧
      Resolves L base (fun c => done c ∨ c.key = k) f' := by
  have hmarked : ∀ c, c ∈ (group.filter fun c => (L.winners group).length = 1 ∧ ¬L.Top group c) ↔
      c ∈ base ∧ c.key = k ∧ L.Outvoted base c := by
    intro c
    rw [mem_filter, decide_eq_true_iff, hgroup, mem_filter, decide_eq_true_iff, and_assoc]
    refine and_congr_right fun _ => and_congr_right fun hc => ?_
    rw [Outvoted, rivals, hc]
  generalize (group.filter fun c => (L.winners group).length = 1 ∧ ¬L.Top group c) = marked at *
  refine ⟨fun c => if f c ∈ marked then (f c).resolve .rejected reason else f c, ?_, ?_⟩
  · rw [update, map_map]
    rfl
  -- a claim of this group has not been touched before, and one of another group is not marked
  have hother : ∀ c, c.key ≠ k → f c ∉ marked := fun c hc hmem =>
    hc ((hf.key c).symm.trans ((hmarked _).mp hmem).2.1)
  have hself : ∀ c ∈ base, c.key = k → (f c ∈ marked ↔ L.Outvoted base c) := fun c hc hkey => by
    rw [hf.untouched c hc (hk c hkey), hmarked, and_iff_right hc, and_iff_right hkey]
  constructor
  · intro c
    split
    · exact hf.key c
    · exact hf.key c
  · intro c hc hdone hout
    by_cases hkey : c.key = k
    · rw [if_pos ((hself c hc hkey).mpr hout)]
      rfl
    · rw [if_neg (hother c hkey)]
      exact hf.rejected c hc (hdone.resolve_right hkey) hout
  · intro c hc hdone hout
    by_cases hkey : c.key = k
    · rw [if_neg fun hmem => hout ((hself c hc hkey).mp hmem)]
      exact hf.untouched c hc (hk c hkey)
    · rw [if_neg (hother c hkey)]
      exact hf.kept c hc (hdone.resolve_right hkey) hout
  · intro c hc hdone
    rw [not_or] at hdone
    rw [if_neg (hother c hdone.2)]
    exact hf.untouched c hc hdone.1

/-- The loop over the groups. -/
lemma foldlM_resolveGroup {gs : List ((PyStr × PyStr × PyStr × PyStr) × List TruthClaim)}
    (hf : Resolves L base done f) (hkeys : (gs.map Prod.fst).Nodup)
    (hdone : ∀ c, c.key ∈ gs.map Prod.fst → ¬done c)
    (hgroups : ∀ g ∈ gs, g.2 = base.filter fun x => x.key = g.1)
    (h : gs.foldlM (fun claims g => L.resolveGroup claims g.2) (base.map f) = .ok claims') :
    (∀ g ∈ gs, (L.winners g.2).Pairwise TruthClaim.Agrees) ∧ ∃ f', claims' = base.map f' ∧
      Resolves L base (fun c => done c ∨ c.key ∈ gs.map Prod.fst) f' := by
  induction gs generalizing done f with
  | nil =>
    cases h
    refine ⟨fun g hg => absurd hg not_mem_nil, f, rfl, ?_⟩
    simpa using hf
  | cons g gs ih =>
    rw [foldlM_cons, Checks.bind_eq_ok] at h
    obtain ⟨claims1, hfirst, hrest⟩ := h
    rw [map_cons, nodup_cons] at hkeys
    obtain ⟨hagree, reason, rfl⟩ := resolveGroup_eq_ok hfirst
    obtain ⟨f1, hf1, hresolves⟩ := resolves_update hf (k := g.1)
      (fun c hc => hdone c (by simp [hc])) reason (hgroups g mem_cons_self)
    rw [hf1] at hrest
    obtain ⟨hwinners, f', rfl, hf'⟩ := ih hresolves hkeys.2
      (fun c hc hor => hor.elim (hdone c (mem_cons_of_mem _ hc)) fun heq => hkeys.1 (heq ▸ hc))
      (fun g' hg' => hgroups g' (mem_cons_of_mem _ hg')) hrest
    refine ⟨forall_mem_cons.mpr ⟨hagree, hwinners⟩, f', rfl, ?_⟩
    simpa only [map_cons, mem_cons, or_assoc] using hf'

/-- The claims that are left after the resolution, and what is known about the winners. -/
lemma resolveGroups_eq_ok (hbase : ∀ c ∈ base, c.state = .authoritative)
    (h : L.resolveGroups base = .ok claims') :
    (∀ c ∈ base, (L.winners (rivals base c)).Pairwise TruthClaim.Agrees) ∧
      claims'.filter (fun c => c.state = .authoritative) = L.standing base := by
  have hinit : Resolves L base (fun _ => False) id :=
    ⟨fun _ => rfl, fun _ _ => False.elim, fun _ _ => False.elim, fun _ _ _ => rfl⟩
  have hmem : ∀ c ∈ base, c.key ∈ (Grouping.groups TruthClaim.key base).map Prod.fst :=
    fun c hc => Grouping.mem_keys_groups.mpr ⟨c, hc, rfl⟩
  obtain ⟨hwinners, f, rfl, hf⟩ := foldlM_resolveGroup hinit Grouping.nodup_keys_groups
    (fun _ _ => id) (fun g hg => (Grouping.mem_groups_iff.mp hg).1) (by rwa [map_id])
  constructor
  · intro c hc
    refine hwinners (c.key, rivals base c) (Grouping.mem_groups_iff.mpr ⟨rfl, ?_⟩)
    exact ne_nil_of_mem (mem_filter.mpr ⟨hc, decide_eq_true rfl⟩)
  · have hstate : ∀ c ∈ base, ((f c).state = .authoritative ↔ ¬L.Outvoted base c) := by
      intro c hc
      constructor
      · intro hstate hout
        exact absurd (hstate.symm.trans (hf.rejected c hc (.inr (hmem c hc)) hout)) nofun
      · intro hout
        rw [hf.kept c hc (.inr (hmem c hc)) hout]
        exact hbase c hc
    rw [filter_map, standing]
    have hfilter : base.filter ((fun c => decide (c.state = .authoritative)) ∘ f) =
        base.filter fun c => ¬L.Outvoted base c :=
      filter_congr fun c hc => by
        rw [Function.comp_apply]
        exact decide_eq_decide.mpr (hstate c hc)
    rw [hfilter]
    refine (map_congr_left fun c hc => ?_).trans (map_id _)
    rw [mem_filter, decide_eq_true_iff] at hc
    exact hf.kept c hc.1 (.inr (hmem c hc.1)) hc.2

end TruthLedger

/-! ## The whole -/

section Become

variable (state : ClaimState)

lemma rivals_map_become (claims : List TruthClaim) (c : TruthClaim) :
    rivals (claims.map (TruthClaim.become state)) (c.become state) =
      (rivals claims c).map (TruthClaim.become state) := by
  rw [rivals, filter_map]
  rfl

lemma top_map_become :
    L.Top (group.map (TruthClaim.become state)) (c.become state) ↔ L.Top group c :=
  forall_mem_map

lemma winners_map_become : L.winners (group.map (TruthClaim.become state)) =
    (L.winners group).map (TruthClaim.become state) := by
  rw [TruthLedger.winners, filter_map]
  exact congrArg _ (filter_congr fun c _ => decide_eq_decide.mpr (top_map_become state))

lemma outvoted_map_become :
    L.Outvoted (claims.map (TruthClaim.become state)) (c.become state) ↔ L.Outvoted claims c := by
  rw [TruthLedger.Outvoted, rivals_map_become, winners_map_become, top_map_become, length_map]
  exact Iff.rfl

lemma standing_map_become : L.standing (claims.map (TruthClaim.become state)) =
    (L.standing claims).map (TruthClaim.become state) := by
  rw [TruthLedger.standing, filter_map]
  refine congrArg _ (filter_congr fun c _ => decide_eq_decide.mpr ?_)
  exact not_congr (outvoted_map_become state)

end Become

lemma admitClaims_eq_ok (h : admitClaims T requirements claims = .ok admitted) :
    admitted = (claims.filter fun c => c.state = .authoritative).map
      (TruthClaim.become .admissible) := by
  unfold admitClaims at h
  dsimp only at h
  split at h
  · cases h
  split at h
  · exact (Except.ok.inj h).symm
  · cases h

/-- The claims that are returned are those that no sole higher authority outvotes, and the winners
of every group agree. -/
theorem certifyContext_eq_ok
    (h : certifyContext T L claims requirements trustedClock = .ok admitted) :
    admitted = (L.standing claims).map (TruthClaim.become .admissible) ∧
      ∀ c ∈ claims, (L.winners (rivals claims c)).Pairwise TruthClaim.Agrees := by
  simp only [certifyContext, Checks.bind_eq_ok, pass_eq_ok, nil_append, map_id] at h
  obtain ⟨_, ⟨-, rfl⟩, _, ⟨-, rfl⟩, _, ⟨-, rfl⟩, _, ⟨-, rfl⟩, resolved, hresolve, hadmit⟩ := h
  rw [map_map, map_map] at hresolve
  change L.resolveGroups (claims.map (TruthClaim.become .authoritative)) = _ at hresolve
  obtain ⟨hwinners, hstanding⟩ := L.resolveGroups_eq_ok (forall_mem_map.mpr fun _ _ => rfl) hresolve
  constructor
  · rw [admitClaims_eq_ok hadmit, hstanding, standing_map_become, map_map]
    rfl
  · intro c hc
    have hagree := hwinners _ (mem_map_of_mem hc)
    rw [rivals_map_become, winners_map_become, pairwise_map] at hagree
    exact hagree

/-! ## Contradictions -/

/-- Of two claims about the same thing, both have the same value. -/
def Consistent (c c' : TruthClaim) : Prop := c.key = c'.key → c.Agrees c'

instance : Std.Symm Consistent := ⟨fun _ _ h hkey => (h hkey.symm).symm⟩

/-- The winners of every group agree, one group at a time or all together. -/
lemma pairwise_winners
    (h : ∀ c ∈ claims, (L.winners (rivals claims c)).Pairwise TruthClaim.Agrees) :
    claims.Pairwise fun c c' => c.key = c'.key → L.Top (rivals claims c) c →
      L.Top (rivals claims c) c' → c.Agrees c' := by
  have hgroup : ∀ x ∈ claims, claims.Pairwise fun c c' => c.key = x.key → c'.key = x.key →
      L.Top (rivals claims x) c → L.Top (rivals claims x) c' → c.Agrees c' := by
    intro x hx
    have hpairwise := h x hx
    rw [TruthLedger.winners, pairwise_filter, rivals, pairwise_filter] at hpairwise
    refine hpairwise.imp fun hcc' hc hc' htop htop' => ?_
    exact hcc' (decide_eq_true hc) (decide_eq_true hc') (decide_eq_true htop) (decide_eq_true htop')
  refine pairwise_iff_getElem.mpr fun i j hi hj hij hkey => ?_
  exact pairwise_iff_getElem.mp (hgroup _ (getElem_mem hi)) i j hi hj hij rfl hkey.symm

/-- Some claim of a group has the highest authority. -/
lemma exists_winner (hc : c ∈ group) : ∃ w, w ∈ L.winners group := by
  cases hscores : L.scores group with
  | nil =>
    have hperm := L.scores_perm group
    rw [hscores] at hperm
    rw [map_eq_nil_iff.mp hperm.nil_eq.symm] at hc
    nomatch hc
  | cons s rest =>
    exact ⟨s.2, (L.winners_perm hscores).mem_iff.mpr mem_cons_self⟩

/-- Where several claims share the highest authority of their group, the claims below them have
their value. -/
def TruthLedger.Unanimous (L : TruthLedger) (claims : List TruthClaim) : Prop :=
  ∀ c ∈ claims, ∀ w ∈ L.winners (rivals claims c), 1 < (L.winners (rivals claims c)).length →
    L.score c < L.score w → c.Agrees w

/-- A claim that is below the winners of its group and is not outvoted agrees with them. -/
lemma TruthLedger.Unanimous.agrees (h : L.Unanimous claims) (hc : c ∈ claims)
    (hstand : ¬L.Outvoted claims c) (hbelow : ¬L.Top (rivals claims c) c)
    (hw : w ∈ L.winners (rivals claims c)) : c.Agrees w := by
  have hseveral : (L.winners (rivals claims c)).length ≠ 1 := fun hone => hstand ⟨hone, hbelow⟩
  have hpos := length_pos_of_mem hw
  refine h c hc w hw (by omega) ?_
  by_contra hge
  refine hbelow fun x hx => ?_
  have hle := (TruthLedger.mem_winners.mp hw).2 x hx
  omega

/-- The returned claims do not contradict each other exactly if, wherever several claims share the
highest authority of their group, the claims below them agree with them. -/
theorem certifyContext_consistent_iff
    (h : certifyContext T L claims requirements trustedClock = .ok admitted) :
    admitted.Pairwise Consistent ↔ L.Unanimous claims := by
  obtain ⟨rfl, hwinners⟩ := certifyContext_eq_ok h
  have hbecome : ((L.standing claims).map (TruthClaim.become .admissible)).Pairwise Consistent ↔
      (L.standing claims).Pairwise Consistent := pairwise_map
  rw [hbecome]
  constructor
  · intro hconsistent c hc w hw hseveral hlower
    obtain ⟨hwr, -⟩ := TruthLedger.mem_winners.mp hw
    obtain ⟨hwc, hkey⟩ := mem_filter.mp hwr
    have hkey : w.key = c.key := of_decide_eq_true hkey
    -- with several winners nobody of the group is outvoted
    have hstand : ∀ x ∈ claims, x.key = c.key → x ∈ L.standing claims := by
      intro x hx hxc
      refine mem_filter.mpr ⟨hx, decide_eq_true fun hout => ?_⟩
      have hone := hout.1
      rw [rivals, hxc] at hone
      exact absurd hone hseveral.ne'
    have hne : c ≠ w := by
      rintro rfl
      exact lt_irrefl _ hlower
    exact hconsistent.forall (hstand c hc rfl) (hstand w hwc hkey) hne hkey.symm
  · intro hunanimous
    rw [TruthLedger.standing, pairwise_filter]
    refine List.Pairwise.imp_of_mem (fun {c c'} hc hc' htops hstand hstand' hkey => ?_)
      (pairwise_winners hwinners)
    have hrivals : rivals claims c' = rivals claims c := by rw [rivals, rivals, hkey]
    have hagrees := fun w => hunanimous.agrees (w := w) hc (of_decide_eq_true hstand)
    have hagrees' := fun w => hunanimous.agrees (w := w) hc' (of_decide_eq_true hstand')
    rw [hrivals] at hagrees'
    have hmem : c ∈ rivals claims c := mem_filter.mpr ⟨hc, decide_eq_true rfl⟩
    have hmem' : c' ∈ rivals claims c := mem_filter.mpr ⟨hc', decide_eq_true hkey.symm⟩
    by_cases htop : L.Top (rivals claims c) c
    · by_cases htop' : L.Top (rivals claims c) c'
      · exact htops hkey htop htop'
      · exact (hagrees' c htop' (TruthLedger.mem_winners.mpr ⟨hmem, htop⟩)).symm
    · by_cases htop' : L.Top (rivals claims c) c'
      · exact hagrees c' htop (TruthLedger.mem_winners.mpr ⟨hmem', htop'⟩)
      · -- both are below, and agree with one of the winners
        obtain ⟨w, hw⟩ := exists_winner (L := L) hmem
        exact (hagrees w htop hw).trans (hagrees' w htop' hw).symm

namespace Sample

/-- The texts of numbers and of strings, and a list of texts with its commas. -/
def texts : Texts where
  str
    | .int n => CapabilityMount.JsonText.intText n
    | .str s => s
    | _ => []
  reprList names := "[" ++ [44].intercalate names ++ "]"

/-- Everyone signs, no source has a history, and an override is above a base fact. -/
def ledger : TruthLedger where
  approvedSigners _ := ["signer"]
  canonicalHeads _ := none
  authorityHierarchy factType :=
    if factType = "FIN_OVERRIDE" then some 20
    else if factType = "FIN_BASE" then some 10 else none

/-- The spending limit, as a source states it. -/
def limit (sourceId factType : String) (value : ℤ) : TruthClaim where
  claimId := PyStr.ofString sourceId
  sourceId := PyStr.ofString sourceId
  sourceDomain := "fin.domain"
  tenantId := "tenant_1"
  factType := PyStr.ofString factType
  version := 1
  signer := "signer"
  payload := {
    subject := "ws_123"
    predicate := "max_spend"
    value := .int value
    scope := "prod" }
  evaluationTimeLocked := 1000
  expiresAt := 2000

end Sample

/-- A single override outvotes the base fact. -/
theorem certifyContext_consistent_override :
    ∃ admitted, certifyContext Sample.texts Sample.ledger
        [Sample.limit "a" "FIN_OVERRIDE" 100, Sample.limit "b" "FIN_BASE" 200] [] 1500 =
      .ok admitted ∧ admitted.length = 1 ∧ admitted.Pairwise Consistent := by
  have hok : certifyContext Sample.texts Sample.ledger
      [Sample.limit "a" "FIN_OVERRIDE" 100, Sample.limit "b" "FIN_BASE" 200] [] 1500 =
      .ok [(Sample.limit "a" "FIN_OVERRIDE" 100).become .admissible] := by decide +kernel
  refine ⟨_, hok, rfl, (certifyContext_consistent_iff hok).mpr ?_⟩
  unfold TruthLedger.Unanimous
  decide +kernel

/-- Two overrides that agree leave the base fact in the context, although it contradicts them. -/
theorem certifyContext_contradicts :
    ∃ admitted, certifyContext Sample.texts Sample.ledger [Sample.limit "a" "FIN_OVERRIDE" 100,
        Sample.limit "b" "FIN_OVERRIDE" 100, Sample.limit "c" "FIN_BASE" 200] [] 1500 =
      .ok admitted ∧ ¬admitted.Pairwise Consistent := by
  refine ⟨[(Sample.limit "a" "FIN_OVERRIDE" 100).become .admissible,
    (Sample.limit "b" "FIN_OVERRIDE" 100).become .admissible,
    (Sample.limit "c" "FIN_BASE" 200).become .admissible], by decide +kernel, fun h => ?_⟩
  rw [pairwise_cons] at h
  have hagrees := h.1 ((Sample.limit "c" "FIN_BASE" 200).become .admissible) (by simp) rfl
  exact absurd hagrees (by decide +kernel)

/-! ## Requirements -/

/-- What a requirement asks of the claims. -/
structure FactRequirement.Met (req : FactRequirement) (trustedClock : ℤ)
    (claims : List TruthClaim) : Prop where
  fresh : ∃ c ∈ claims, c.factType = req.factDomain ∧
    trustedClock - c.evaluationTimeLocked ≤ req.maxAgeSeconds
  corroborated : req.corroborationRequired = true → ∃ c ∈ claims, ∃ c' ∈ claims,
    c.factType = req.factDomain ∧ c'.factType = req.factDomain ∧ c.sourceId ≠ c'.sourceId ∧
      c.payload.subject = c'.payload.subject ∧ c.payload.predicate = c'.payload.predicate ∧
      c.payload.scope = c'.payload.scope ∧ c.Agrees c'

lemma FactRequirement.met_map_become {req : FactRequirement} (state : ClaimState) :
    req.Met trustedClock (claims.map (TruthClaim.become state)) ↔ req.Met trustedClock claims := by
  constructor
  · rintro ⟨hfresh, hcorroborated⟩
    refine ⟨?_, fun hrequired => ?_⟩
    · obtain ⟨_, hmem, hdomain, hage⟩ := hfresh
      obtain ⟨c, hc, rfl⟩ := mem_map.mp hmem
      exact ⟨c, hc, hdomain, hage⟩
    · obtain ⟨_, hmem, _, hmem', hrest⟩ := hcorroborated hrequired
      obtain ⟨c, hc, rfl⟩ := mem_map.mp hmem
      obtain ⟨c', hc', rfl⟩ := mem_map.mp hmem'
      exact ⟨c, hc, c', hc', hrest⟩
  · rintro ⟨hfresh, hcorroborated⟩
    refine ⟨?_, fun hrequired => ?_⟩
    · obtain ⟨c, hc, hdomain, hage⟩ := hfresh
      exact ⟨_, mem_map_of_mem hc, hdomain, hage⟩
    · obtain ⟨c, hc, c', hc', hrest⟩ := hcorroborated hrequired
      exact ⟨_, mem_map_of_mem hc, _, mem_map_of_mem hc', hrest⟩

/-- The returned claims meet the requirements exactly if, of the claims that were given, those that
no sole higher authority outvotes do: neither the age of a claim nor the sources of several are
looked at on the way. -/
theorem certifyContext_met_iff
    (h : certifyContext T L claims requirements trustedClock = .ok admitted) :
    (∀ req ∈ requirements, req.Met trustedClock admitted) ↔
      ∀ req ∈ requirements, req.Met trustedClock (L.standing claims) := by
  obtain ⟨rfl, -⟩ := certifyContext_eq_ok h
  refine forall_congr' fun req => forall_congr' fun _ => ?_
  exact FactRequirement.met_map_become .admissible

namespace Sample

/-- Spending limits of the last minute, from two sources. -/
def corroboratedLimit : FactRequirement where
  factDomain := "FIN_BASE"
  maxAgeSeconds := 60
  corroborationRequired := true

end Sample

/-- Two sources that agree and were evaluated in time. -/
theorem certifyContext_met_corroborated :
    ∃ admitted, certifyContext Sample.texts Sample.ledger
        [Sample.limit "a" "FIN_BASE" 100, Sample.limit "b" "FIN_BASE" 100]
        [Sample.corroboratedLimit] 1030 = .ok admitted ∧
      ∀ req ∈ [Sample.corroboratedLimit], req.Met 1030 admitted := by
  have hok : certifyContext Sample.texts Sample.ledger
      [Sample.limit "a" "FIN_BASE" 100, Sample.limit "b" "FIN_BASE" 100]
      [Sample.corroboratedLimit] 1030 =
      .ok [(Sample.limit "a" "FIN_BASE" 100).become .admissible,
        (Sample.limit "b" "FIN_BASE" 100).become .admissible] := by decide +kernel
  refine ⟨_, hok, (certifyContext_met_iff hok).mpr fun req hreq => ?_⟩
  obtain rfl := mem_singleton.mp hreq
  have hstanding : Sample.ledger.standing
      [Sample.limit "a" "FIN_BASE" 100, Sample.limit "b" "FIN_BASE" 100] =
      [Sample.limit "a" "FIN_BASE" 100, Sample.limit "b" "FIN_BASE" 100] := by decide +kernel
  rw [hstanding]
  exact ⟨⟨_, mem_cons_self, by decide +kernel⟩,
    fun _ => ⟨_, mem_cons_self, _, mem_cons_of_mem _ mem_cons_self,
      by decide +kernel⟩⟩

/-- The same claim given twice, evaluated long ago, passes for a fresh and corroborated one: every
returned claim is too old, and all come from one source. -/
theorem certifyContext_unmet :
    ∃ admitted, certifyContext Sample.texts Sample.ledger
        [Sample.limit "a" "FIN_BASE" 100, Sample.limit "a" "FIN_BASE" 100]
        [Sample.corroboratedLimit] 1900 = .ok admitted ∧
      (∀ c ∈ admitted, Sample.corroboratedLimit.maxAgeSeconds < 1900 - c.evaluationTimeLocked) ∧
      (∀ c ∈ admitted, ∀ c' ∈ admitted, c.sourceId = c'.sourceId) ∧
      ¬Sample.corroboratedLimit.Met 1900 admitted := by
  have hold : ∀ c ∈ [(Sample.limit "a" "FIN_BASE" 100).become .admissible,
      (Sample.limit "a" "FIN_BASE" 100).become .admissible],
      Sample.corroboratedLimit.maxAgeSeconds < 1900 - c.evaluationTimeLocked := by decide +kernel
  refine ⟨_, by decide +kernel, hold, by decide +kernel, fun hmet => ?_⟩
  obtain ⟨c, hc, -, hage⟩ := hmet.fresh
  exact absurd hage (not_le.mpr (hold c hc))

end InboundTruth
