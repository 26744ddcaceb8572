import Cappo.Lib.AuditLog

/-!
# Logs whose entries point back

An entry of a log has a name and may point at a name. In a log that grows by appending (`Grown`)
an entry points at an earlier one or nowhere. Such a log is one chain in its own order (`Chained`)
if no two of its entries point the same way: the first entry that does not point at the one before
it points where an earlier entry does.

## Main results

* `chained_of_nodup`: pointers that differ make a chain;
* `eq_tip_of_leaf` and `leaf_concat`: in a chain exactly the last entry is pointed at by none;
* `eq_nil_of_tip`: the last name of a longer chain is not among the earlier ones.
-/

namespace BackLinks

open AuditLog List

variable {α β : Type*} (name : α → β) (prev : α → Option β)

/-- Every entry points nowhere or at an earlier one. -/
def Grown (log : List α) : Prop :=
  Audited (fun pre a => ∀ h, prev a = some h → h ∈ pre.map name) log

/-- The name of the last entry. -/
def tip (log : List α) : Option β := log.getLast?.map name

/-- Every entry points at the one before it, the first one nowhere. -/
def Chained (log : List α) : Prop := Audited (fun pre a => prev a = tip name pre) log

variable {name prev} {log more : List α} {a b : α}

@[simp]
lemma tip_concat : tip name (log ++ [a]) = some (name a) := by
  rw [tip, List.getLast?_concat, Option.map_some]

lemma mem_of_tip {h : β} (htip : tip name log = some h) : h ∈ log.map name := by
  obtain ⟨a, ha, rfl⟩ := Option.map_eq_some_iff.mp htip
  exact mem_map_of_mem (mem_of_getLast? ha)

/-- An entry that is not the last one has one after it. -/
theorem exists_after (h : a ∈ log) : log.getLast? = some a ∨
    ∃ pre b post, log = pre ++ a :: b :: post := by
  obtain ⟨pre, post, rfl⟩ := append_of_mem h
  cases post with
  | nil => exact .inl (List.getLast?_concat)
  | cons b post => exact .inr ⟨pre, b, post, rfl⟩

lemma Chained.prev_after (hlog : Chained name prev log) {pre post : List α}
    (hsplit : log = pre ++ a :: b :: post) : prev b = some (name a) := by
  have hb := hlog (pre ++ [a]) b post (by rw [hsplit, append_assoc, singleton_append])
  rw [hb, tip_concat]

/-- Entries that were appended after a log stay behind what comes to stand between. -/
theorem Grown.insert {post : List α} (hlog : Grown name prev (log ++ post))
    (hmore : Grown name prev (log ++ more)) : Grown name prev (log ++ more ++ post) := by
  induction post using List.reverseRecOn with
  | nil => rwa [append_nil]
  | append_singleton post a ih =>
    rw [← append_assoc] at hlog ⊢
    obtain ⟨hpost, ha⟩ := audited_concat_iff.mp hlog
    refine audited_concat_iff.mpr ⟨ih hpost, fun h hh => ?_⟩
    have hmem := ha h hh
    simp only [map_append, mem_append] at hmem ⊢
    exact hmem.imp_left .inl

/-- Pointers that differ make a chain. -/
theorem chained_of_nodup (hgrown : Grown name prev log) (hnodup : (log.map prev).Nodup) :
    Chained name prev log := by
  induction log using List.reverseRecOn with
  | nil => exact audited_nil
  | append_singleton log a ih =>
    rw [map_append, nodup_append] at hnodup
    obtain ⟨hlog, -, hdiffer⟩ := hnodup
    have hchained := ih hgrown.left hlog
    have hfresh : prev a ∉ log.map prev := fun h =>
      hdiffer _ h _ (mem_singleton_self _) rfl
    refine audited_concat_iff.mpr ⟨hchained, ?_⟩
    cases hprev : prev a with
    | none =>
      cases log with
      | nil => rfl
      | cons first rest =>
        have hfirst : prev first = none := hchained [] first rest rfl
        rw [hprev, ← hfirst] at hfresh
        exact absurd (mem_map_of_mem mem_cons_self) hfresh
    | some h =>
      obtain ⟨b, hb, rfl⟩ := mem_map.mp ((audited_concat_iff.mp hgrown).2 h hprev)
      rcases exists_after hb with hlast | ⟨pre, c, post, hsplit⟩
      · rw [tip, hlast, Option.map_some]
      · -- the entry after `b` points at it already
        rw [hprev, ← hchained.prev_after hsplit] at hfresh
        refine absurd (mem_map_of_mem ?_) hfresh
        simp [hsplit]

/-- In a chain, an entry that is pointed at by none is the last. -/
theorem eq_tip_of_leaf (hlog : Chained name prev log) (ha : a ∈ log)
    (hleaf : ∀ b ∈ log, prev b ≠ some (name a)) : tip name log = some (name a) := by
  rcases exists_after ha with hlast | ⟨pre, b, post, hsplit⟩
  · rw [tip, hlast, Option.map_some]
  · refine absurd (hlog.prev_after hsplit) (hleaf b ?_)
    simp [hsplit]

/-- The last name of a longer log is not among the earlier ones. -/
theorem eq_nil_of_tip {h : β} (hnodup : ((log ++ more).map name).Nodup)
    (htip : tip name (log ++ more) = some h) (hmem : h ∈ log.map name) : more = [] := by
  rcases eq_nil_or_concat' more with rfl | ⟨more, a, rfl⟩
  · rfl
  · rw [← append_assoc, tip_concat, Option.some.injEq] at htip
    subst htip
    rw [map_append, nodup_append] at hnodup
    refine absurd rfl (hnodup.2.2 _ hmem _ ?_)
    exact mem_map_of_mem mem_concat_self

/-- In a chain, the last entry is pointed at by none. -/
theorem leaf_concat (hlog : Chained name prev (log ++ [a]))
    (hnodup : ((log ++ [a]).map name).Nodup) : ∀ b ∈ log ++ [a], prev b ≠ some (name a) := by
  intro b hb hprev
  obtain ⟨pre, post, hsplit⟩ := append_of_mem hb
  have htip := (hlog pre b post hsplit).symm.trans hprev
  have hlast : tip name (pre ++ b :: post) = some (name a) := by rw [← hsplit, tip_concat]
  rw [hsplit] at hnodup
  exact absurd (eq_nil_of_tip hnodup hlast (mem_of_tip htip)) (cons_ne_nil b post)

end BackLinks
