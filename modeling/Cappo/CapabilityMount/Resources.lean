import Cappo.VdbC1.Json

/-!
# Resource bounds

A set of resource bounds covers resources: `"*"` covers every resource and also the request
that names none, a bound that ends in `"/*"` covers the names below that directory, and any
other bound covers one name. Sets are lists here; only membership matters.

## Main results

* `resourceIn_intersection`: the intersection of two sets of bounds covers what both cover;
* `allBelow_iff`, `resourceIn_subset_iff`: when the subset test is right.
-/

namespace CapabilityMount

open VdbC1 (PyStr)
open List

/-- `"*"`. -/
def star : PyStr := "*"

/-- `bound.endswith("/*")`. -/
def isDirectory (bound : PyStr) : Bool := (PyStr.ofString "/*").isSuffixOf bound

/-- `resource == bound or (bound.endswith("/*") and resource.startswith(bound[:-1]))`. -/
def covers (bound resource : PyStr) : Bool :=
  resource = bound || (isDirectory bound && bound.dropLast.isPrefixOf resource)

/-- `_resource_in` of `service.py`. -/
def resourceIn (resource : Option PyStr) (allowed : List PyStr) : Bool :=
  if star ∈ allowed then true
  else
    match resource with
    | none => false
    | some resource => allowed.any fun bound => covers bound resource

/-- The common part of two bounds, neither of which is `"*"`, as a set of at most one bound. -/
def meet (res1 res2 : PyStr) : List PyStr :=
  if res1 = res2 then [res1]
  else if isDirectory res2 && res2.dropLast.isPrefixOf res1 then [res1]
  else if isDirectory res1 && res1.dropLast.isPrefixOf res2 then [res2]
  else []

/-- `CapabilityLease._resource_intersection`. -/
def resourceIntersection (set1 set2 : List PyStr) : List PyStr :=
  if star ∈ set1 ∧ star ∈ set2 then [star]
  else if star ∈ set1 then set2
  else if star ∈ set2 then set1
  else set1.flatMap fun res1 => set2.flatMap (meet res1)

/-- `CapabilityLease._resource_issubset`. -/
def resourceIssubset (subset superset : List PyStr) : Bool :=
  if star ∈ superset then true
  else subset.all fun sRes => superset.any fun pRes =>
    pRes = sRes || (isDirectory pRes &&
      (pRes.dropLast.isPrefixOf sRes || sRes = pRes.dropLast.dropLast))

lemma covers_iff {bound resource : PyStr} : covers bound resource = true ↔
      resource = bound ∨ isDirectory bound = true ∧ bound.dropLast <+: resource := by
  simp [covers]

lemma isDirectory_iff : isDirectory bound = true ↔ ∃ dir, bound = dir ++ "/*" := by
  rw [isDirectory, isSuffixOf_iff_suffix]
  exact ⟨fun ⟨dir, h⟩ => ⟨dir, h.symm⟩, fun ⟨dir, h⟩ => ⟨dir, h.symm⟩⟩

/-- A directory bound that starts with another's directory lies below it: what is left when the
final `"*"` is dropped still starts with that directory. -/
lemma dropLast_isPrefix_dropLast (hb : isDirectory b = true)
    (hc : isDirectory c = true) (h : c.dropLast <+: b) : c.dropLast <+: b.dropLast := by
  obtain ⟨d, rfl⟩ := isDirectory_iff.mp hb
  obtain ⟨e, rfl⟩ := isDirectory_iff.mp hc
  have hdrop : ∀ x : PyStr, (x ++ "/*").dropLast = x ++ "/" := by
    intro x
    rw [dropLast_append_of_ne_nil (by decide)]
    rfl
  rw [hdrop] at h ⊢
  rw [hdrop]
  have hsplit : d ++ PyStr.ofString "/*" = d ++ PyStr.ofString "/" ++ [42] := by
    rw [append_assoc]
    rfl
  rw [hsplit] at h
  rcases prefix_concat_iff.mp h with heq | hpre
  · -- one ends in "/", the other in "*"
    have hlast := congrArg List.getLast? heq
    rw [List.getLast?_append, List.getLast?_append,
      show (PyStr.ofString "/").getLast? = some 47 by decide] at hlast
    exact absurd (Option.some.inj hlast) (by decide)
  · exact hpre

/-- What a bound covers below another one, the other covers too. -/
lemma covers_of_below (hc : isDirectory c = true) (h : c.dropLast <+: b)
    (hr : covers b r = true) : covers c r = true := by
  rw [covers_iff] at hr ⊢
  rcases hr with rfl | ⟨hb, hpre⟩
  · exact .inr ⟨hc, h⟩
  · exact .inr ⟨hc, (dropLast_isPrefix_dropLast hb hc h).trans hpre⟩

/-- The common part of two bounds covers what both cover. -/
lemma exists_covers_meet :
    (∃ x ∈ meet b c, covers x r = true) ↔ covers b r = true ∧ covers c r = true := by
  rw [meet]
  split_ifs with heq hbelow habove
  · subst heq
    simp
  · simp only [Bool.and_eq_true, isPrefixOf_iff_prefix] at hbelow
    simp only [mem_singleton, exists_eq_left]
    exact ⟨fun hr => ⟨hr, covers_of_below hbelow.1 hbelow.2 hr⟩, And.left⟩
  · simp only [Bool.and_eq_true, isPrefixOf_iff_prefix] at habove
    simp only [mem_singleton, exists_eq_left]
    exact ⟨fun hr => ⟨covers_of_below habove.1 habove.2 hr, hr⟩, And.right⟩
  · -- a resource under both would put one of the two directories below the other
    simp only [Bool.and_eq_true, isPrefixOf_iff_prefix, not_and] at hbelow habove
    simp only [not_mem_nil, false_and, exists_false, false_iff, not_and, covers_iff]
    rintro (rfl | ⟨hb, hpre⟩) (rfl | ⟨hc, hpre'⟩)
    · exact heq rfl
    · exact hbelow hc hpre'
    · exact habove hb hpre
    · rcases prefix_or_prefix_of_prefix hpre hpre' with h | h
      · exact habove hb <| h.trans <| dropLast_prefix c
      · exact hbelow hc <| h.trans <| dropLast_prefix b

variable {allowed : List PyStr} {resource : Option PyStr}

lemma resourceIn_of_star (h : star ∈ allowed) : resourceIn resource allowed = true := by
  unfold resourceIn
  rw [if_pos h]

lemma resourceIn_iff (h : star ∉ allowed) : resourceIn resource allowed = true ↔
      ∃ r, resource = some r ∧ ∃ bound ∈ allowed, covers bound r = true := by
  unfold resourceIn
  rw [if_neg h]
  cases resource with
  | none => simp
  | some r => simp [any_eq_true]

lemma star_not_mem_meet (hb : b ≠ star) (hc : c ≠ star) : star ∉ meet b c := by
  rw [meet]
  split_ifs <;> simp [hb.symm, hc.symm]

/-- Effective authority over resources is the meet of the two sets of bounds. -/
theorem resourceIn_intersection (resource : Option PyStr) (set1 set2 : List PyStr) :
    resourceIn resource (resourceIntersection set1 set2) = true ↔
      resourceIn resource set1 = true ∧ resourceIn resource set2 = true := by
  rw [resourceIntersection]
  split_ifs with hboth h1 h2
  · simp [resourceIn_of_star, hboth.1, hboth.2]
  · simp [resourceIn_of_star h1]
  · simp [resourceIn_of_star h2]
  · have hstar : star ∉ set1.flatMap fun res1 => set2.flatMap (meet res1) := by
      simp only [mem_flatMap, not_exists, not_and]
      intro b hb c hc
      exact star_not_mem_meet (fun h => h1 (h ▸ hb)) fun h => h2 (h ▸ hc)
    rw [resourceIn_iff hstar, resourceIn_iff h1, resourceIn_iff h2]
    constructor
    · rintro ⟨r, rfl, x, hx, hr⟩
      simp only [mem_flatMap] at hx
      obtain ⟨b, hb, c, hc, hx⟩ := hx
      obtain ⟨hbr, hcr⟩ := exists_covers_meet.mp ⟨x, hx, hr⟩
      exact ⟨⟨r, rfl, b, hb, hbr⟩, r, rfl, c, hc, hcr⟩
    · rintro ⟨⟨r, rfl, b, hb, hbr⟩, r', hr', c, hc, hcr⟩
      cases hr'
      obtain ⟨x, hx, hxr⟩ := exists_covers_meet.mpr ⟨hbr, hcr⟩
      refine ⟨r, rfl, x, ?_, hxr⟩
      simp only [mem_flatMap]
      exact ⟨b, hb, c, hc, hx⟩

/-! ## The subset test -/

/-- A bound that is equal to another one, or lies below its directory. -/
def Below (b c : PyStr) : Prop := c = b ∨ isDirectory c = true ∧ c.dropLast <+: b

/-- Every bound of the first set lies below one of the second. -/
def AllBelow (subset superset : List PyStr) : Prop :=
  star ∈ superset ∨ ∀ b ∈ subset, ∃ c ∈ superset, Below b c

/-- The subset test admits the bound only as the bare name of a directory, which no bound on its
contents covers. -/
def OnlyBareName (superset : List PyStr) (b : PyStr) : Prop :=
  star ∉ superset ∧ (∃ c ∈ superset, isDirectory c = true ∧ b = c.dropLast.dropLast) ∧
    ∀ c ∈ superset, ¬ Below b c

lemma resourceIssubset_iff : resourceIssubset subset superset = true ↔ star ∈ superset ∨
    ∀ b ∈ subset, ∃ c ∈ superset, Below b c ∨ isDirectory c = true ∧ b = c.dropLast.dropLast := by
  rw [resourceIssubset]
  split_ifs with hstar
  · simp [hstar]
  · simp [hstar, Below, and_or_left, or_assoc]

/-- A subset that passes the test lies below its superset, unless a bare name made it pass. -/
theorem allBelow_iff (h : resourceIssubset subset superset = true) :
    AllBelow subset superset ↔ ∀ b ∈ subset, ¬ OnlyBareName superset b := by
  constructor
  · rintro (hstar | hbelow) b hb ⟨hnostar, -, hnone⟩
    · exact hnostar hstar
    · obtain ⟨c, hc, hle⟩ := hbelow b hb
      exact hnone c hc hle
  · intro hnames
    refine or_iff_not_imp_left.mpr fun hstar b hb => ?_
    obtain ⟨c, hc, hle | hbare⟩ := (resourceIssubset_iff.mp h).resolve_left hstar b hb
    · exact ⟨c, hc, hle⟩
    · by_contra! hnone
      exact hnames b hb ⟨hstar, ⟨c, hc, hbare⟩, hnone⟩

lemma Below.covers (h : Below b c) (hr : covers b r = true) : covers c r = true := by
  rcases h with rfl | ⟨hc, hpre⟩
  · exact hr
  · exact covers_of_below hc hpre hr

/-- Only `"*"` is above `"*"`. -/
lemma Below.eq_star (h : Below star c) : c = star := by
  rcases h with h | ⟨hc, hpre⟩
  · exact h
  · -- a directory without its final "*" ends in "/"
    obtain ⟨dir, rfl⟩ := isDirectory_iff.mp hc
    have hdrop : (dir ++ "/*").dropLast = dir ++ [47] := by
      rw [dropLast_append_of_ne_nil (by decide)]
      rfl
    rw [hdrop] at hpre
    have hmem : (47 : VdbC1.CodePoint) ∈ star := hpre.subset (by simp)
    exact absurd hmem (by decide)

/-- If every bound lies below one of the superset, so does all that is covered. -/
lemma AllBelow.resourceIn (h : AllBelow subset superset) (hr : resourceIn resource subset = true) :
    resourceIn resource superset = true := by
  rcases h with hstar | hbelow
  · exact resourceIn_of_star hstar
  · by_cases hsuper : star ∈ superset
    · exact resourceIn_of_star hsuper
    · have hsub : star ∉ subset := by
        intro hmem
        obtain ⟨c, hc, hle⟩ := hbelow star hmem
        exact hsuper (hle.eq_star ▸ hc)
      obtain ⟨r, rfl, b, hb, hcovers⟩ := (resourceIn_iff hsub).mp hr
      obtain ⟨c, hc, hle⟩ := hbelow b hb
      exact (resourceIn_iff hsuper).mpr ⟨r, rfl, c, hc, hle.covers hcovers⟩

/-- What the first set covers the second covers exactly if every bound lies below another. -/
theorem resourceIn_subset_iff {subset superset : List PyStr} :
    (∀ resource, resourceIn resource subset = true → resourceIn resource superset = true) ↔
      AllBelow subset superset := by
  refine ⟨fun h => ?_, fun h resource hr => h.resourceIn hr⟩
  by_cases hsuper : star ∈ superset
  · exact .inl hsuper
  · refine .inr fun b hb => ?_
    -- a set covers its own bounds, read as names
    have hself : resourceIn (some b) subset = true := by
      by_cases hsub : star ∈ subset
      · exact resourceIn_of_star hsub
      · exact (resourceIn_iff hsub).mpr ⟨b, rfl, b, hb, covers_iff.mpr (.inl rfl)⟩
    obtain ⟨r, hr, c, hc, hcovers⟩ := (resourceIn_iff hsuper).mp (h _ hself)
    cases hr
    exact ⟨c, hc, (covers_iff.mp hcovers).imp Eq.symm id⟩

end CapabilityMount
