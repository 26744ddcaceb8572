import Mathlib.Data.Set.Finite.Basic

/-!
# Walks along links

Following a partial successor function `next` from a node passes a list of nodes
(`LinkWalk.Walk`), unless it comes back to a node it has passed and never ends. The walk from
a node is determined by the node, so a node that is passed twice is passed forever.

## Main results

* `LinkWalk.Walk.unique`: one node starts at most one walk;
* `LinkWalk.exists_walk_iff`: among finitely many nodes a walk ends exactly when it reaches
  no cycle;
* `LinkWalk.Walk.nodup_map`: the nodes of a walk differ in whatever determines the next node.
-/

namespace LinkWalk

open Relation

variable {α β : Type*} {next : α → Option α} {a b : α} {l l' : List α}

/-- There is a link from `a` to `b`. -/
def Link (next : α → Option α) (a b : α) : Prop := next a = some b

/-- The nodes passed from `a` on, up to one without a successor. -/
inductive Walk (next : α → Option α) : α → List α → Prop
  | last {a : α} (h : next a = none) : Walk next a [a]
  | step {a b : α} {l : List α} (h : next a = some b) (w : Walk next b l) : Walk next a (a :: l)

/-- A walk passes on to the walk from the next node. -/
theorem Walk.tail (w : Walk next a l) (h : next a = some b) :
    ∃ l', l = a :: l' ∧ Walk next b l' := by
  cases w with
  | last hlast => nomatch hlast.symm.trans h
  | step hstep w =>
    obtain rfl := Option.mem_unique hstep h
    exact ⟨_, rfl, w⟩

lemma Walk.unique (w : Walk next a l) (w' : Walk next a l') : l = l' := by
  induction w generalizing l' with
  | last h =>
    cases w' with
    | last => rfl
    | step h' => nomatch h.symm.trans h'
  | step h _ ih =>
    obtain ⟨l'', rfl, w''⟩ := w'.tail h
    rw [ih w'']

lemma Walk.exists_eq_cons (w : Walk next a l) : ∃ l', l = a :: l' := by
  cases w with
  | last => exact ⟨[], rfl⟩
  | step => exact ⟨_, rfl⟩

/-- Consecutive nodes are linked. -/
theorem Walk.isChain (w : Walk next a l) : l.IsChain (Link next) := by
  induction w with
  | last => exact .singleton _
  | step h w ih =>
    obtain ⟨l', rfl⟩ := w.exists_eq_cons
    exact .cons_cons h ih

/-- Linked nodes up to one without a successor are a walk. -/
theorem walk_of_isChain (h : (a :: l).IsChain (Link next))
    (hlast : next ((a :: l).getLast (List.cons_ne_nil a l)) = none) : Walk next a (a :: l) := by
  induction l generalizing a with
  | nil => exact .last hlast
  | cons b l ih =>
    rw [List.isChain_cons_cons] at h
    exact .step h.1 (ih h.2 hlast)

variable {s : Set α}

/-- Every node but the first is the successor of another one. -/
theorem Walk.subset (w : Walk next a l) (ha : a ∈ s) (hs : ∀ x y, next x = some y → y ∈ s) :
    ∀ x ∈ l, x ∈ s := by
  induction w with
  | last => exact fun x hx => List.mem_singleton.mp hx ▸ ha
  | step h _ ih =>
    intro x hx
    rcases List.mem_cons.mp hx with rfl | hx
    · exact ha
    · exact ih (hs _ _ h) x hx

/-- From a node on the way the walk is no longer than from the start. -/
theorem Walk.of_mem (w : Walk next a l) (h : b ∈ l) :
    ∃ l', Walk next b l' ∧ l'.length ≤ l.length := by
  induction w with
  | last hlast =>
    obtain rfl := List.mem_singleton.mp h
    exact ⟨_, .last hlast, le_rfl⟩
  | step hstep w ih =>
    rcases List.mem_cons.mp h with rfl | h
    · exact ⟨_, .step hstep w, le_rfl⟩
    · obtain ⟨l', w', hle⟩ := ih h
      exact ⟨l', w', hle.trans (Nat.le_succ _)⟩

/-- The nodes differ in whatever determines the next node. -/
theorem Walk.nodup_map {f : α → β} (hf : ∀ x y, f x = f y → next x = next y)
    (w : Walk next a l) : (l.map f).Nodup := by
  induction w with
  | last => exact List.nodup_singleton _
  | @step a b l h w ih =>
    refine List.nodup_cons.mpr ⟨fun hmem => ?_, ih⟩
    obtain ⟨x, hx, hfx⟩ := List.mem_map.mp hmem
    -- from `x` the walk would have to pass `l` once more
    obtain ⟨l', w', hle⟩ := w.of_mem hx
    obtain ⟨l'', rfl, w''⟩ := w'.tail ((hf x a hfx).trans h)
    obtain rfl := w.unique w''
    exact absurd hle (Nat.not_succ_le_self _)

/-- After one link or more the rest of the walk is shorter. -/
theorem Walk.of_transGen (w : Walk next a l) (h : TransGen (Link next) a b) :
    ∃ l', Walk next b l' ∧ l'.length < l.length := by
  induction h with
  | single h =>
    obtain ⟨l', rfl, w'⟩ := w.tail h
    exact ⟨l', w', Nat.lt_succ_self _⟩
  | tail _ h ih =>
    obtain ⟨l', w', hlt⟩ := ih
    obtain ⟨l'', rfl, w''⟩ := w'.tail h
    exact ⟨l'', w'', (Nat.lt_succ_self _).trans hlt⟩

/-- No node that a walk reaches lies on a cycle. -/
theorem Walk.acyclic (w : Walk next a l) (h : ReflTransGen (Link next) a b) :
    ¬ TransGen (Link next) b b := by
  intro hcycle
  obtain ⟨l', w', -⟩ : ∃ l', Walk next b l' ∧ l'.length ≤ l.length := by
    rcases reflTransGen_iff_eq_or_transGen.mp h with rfl | h
    · exact ⟨l, w, le_rfl⟩
    · exact (w.of_transGen h).imp fun _ => And.imp_right le_of_lt
  obtain ⟨l'', w'', hlt⟩ := w'.of_transGen hcycle
  exact absurd (congrArg List.length (w''.unique w')) hlt.ne

/-- Among finitely many nodes a walk ends if it reaches no cycle. -/
theorem exists_walk (hs : s.Finite) (hnext : ∀ x y, next x = some y → y ∈ s)
    (h : ∀ x, ReflTransGen (Link next) a x → ¬ TransGen (Link next) x x) :
    ∃ l, Walk next a l := by
  -- the reachable nodes are well founded under "comes after"
  let R := {x // ReflTransGen (Link next) a x}
  let after : R → R → Prop := fun y x => TransGen (Link next) x.1 y.1
  have : Finite R := by
    refine ((hs.insert a).subset fun x hx => ?_).to_subtype
    rcases ReflTransGen.cases_tail hx with rfl | ⟨y, -, hy⟩
    · exact Set.mem_insert _ _
    · exact Set.mem_insert_of_mem _ (hnext y x hy)
  have : IsTrans R after := ⟨fun _ _ _ hxy hyz => hyz.trans hxy⟩
  have : Std.Irrefl after := ⟨fun x hx => h x.1 x.2 hx⟩
  have hwf : WellFounded after := Finite.wellFounded_of_trans_of_irrefl after
  suffices ∀ x : R, ∃ l, Walk next x.1 l from this ⟨a, .refl⟩
  intro x
  induction x using hwf.induction with
  | h x ih =>
    cases hx : next x.1 with
    | none => exact ⟨_, .last hx⟩
    | some y =>
      obtain ⟨l, w⟩ := ih ⟨y, x.2.tail hx⟩ (.single hx)
      exact ⟨_, .step hx w⟩

lemma exists_walk_iff (hs : s.Finite) (hnext : ∀ x y, next x = some y → y ∈ s) :
    (∃ l, Walk next a l) ↔ ∀ x, ReflTransGen (Link next) a x → ¬ TransGen (Link next) x x := by
  constructor
  · rintro ⟨l, w⟩ x hx
    exact w.acyclic hx
  · exact exists_walk hs hnext

end LinkWalk
