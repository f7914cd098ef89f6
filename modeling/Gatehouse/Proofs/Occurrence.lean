import Gatehouse.Linter

/-!
Places in the tree of a contract. A place is a node together with the nodes above it, so that
what a rule asks of a node's surroundings can be asked of the place alone.
-/
namespace Gatehouse

/-- A node with the nodes above it, the nearest first. `decorates` tells whether the node stands
among its parent's decorators. -/
structure Occurrence where
  tree : Tree
  above : List Tree
  decorates : Bool

def Occurrence.topLevel (o : Occurrence) : Bool :=
  !o.decorates && o.above.head?.any (fun parent => parent.kind == .module)

namespace Tree

mutual
/-- The places in a tree under the nodes `above`, in the order of a walk: the node itself, what
its children hold, what its decorators hold. -/
def occurrencesFrom (above : List Tree) (decorates : Bool) : Tree → List Occurrence
  | .node kind line ident ds cs =>
    let t := Tree.node kind line ident ds cs
    ⟨t, above, decorates⟩
      :: (occurrencesOf (t :: above) false cs ++ occurrencesOf (t :: above) true ds)

def occurrencesOf (above : List Tree) (decorates : Bool) : List Tree → List Occurrence
  | [] => []
  | t :: ts => occurrencesFrom above decorates t ++ occurrencesOf above decorates ts
end

/-- The places in a whole tree. -/
def occurrences (root : Tree) : List Occurrence := root.occurrencesFrom [] false

theorem occurrencesOf_eq_flatMap (above : List Tree) (decorates : Bool) (ts : List Tree) :
    occurrencesOf above decorates ts = ts.flatMap (occurrencesFrom above decorates) := by
  induction ts with
  | nil => rfl
  | cons t ts ih => rw [occurrencesOf, ih, List.flatMap_cons]

theorem occurrencesFrom_eq (above : List Tree) (decorates : Bool) (t : Tree) :
    t.occurrencesFrom above decorates =
      ⟨t, above, decorates⟩ :: (t.children.flatMap (occurrencesFrom (t :: above) false)
        ++ t.decorators.flatMap (occurrencesFrom (t :: above) true)) := by
  cases t
  rw [occurrencesFrom, occurrencesOf_eq_flatMap, occurrencesOf_eq_flatMap]
  rfl

theorem mem_occurrences_of_mem_children {root c : Tree} (h : c ∈ root.children) :
    ⟨c, [root], false⟩ ∈ root.occurrences := by
  have hself : ⟨c, [root], false⟩ ∈ c.occurrencesFrom [root] false := by
    rw [occurrencesFrom_eq]
    exact List.mem_cons_self
  rw [occurrences, occurrencesFrom_eq]
  exact List.mem_cons_of_mem _ (List.mem_append_left _ (List.mem_flatMap.mpr ⟨c, h, hself⟩))

mutual
theorem suffix_above_of_mem {above : List Tree} {decorates : Bool} {o : Occurrence} :
    (t : Tree) → o ∈ t.occurrencesFrom above decorates → above <:+ o.above
  | .node kind line ident ds cs, h => by
    rw [occurrencesFrom, List.mem_cons, List.mem_append] at h
    rcases h with rfl | h | h
    · exact List.suffix_refl above
    · exact (List.suffix_cons _ above).trans (suffix_above_of_mem_all cs h)
    · exact (List.suffix_cons _ above).trans (suffix_above_of_mem_all ds h)

theorem suffix_above_of_mem_all {above : List Tree} {decorates : Bool} {o : Occurrence} :
    (ts : List Tree) → o ∈ occurrencesOf above decorates ts → above <:+ o.above
  | [], h => by simp [occurrencesOf] at h
  | t :: ts, h => by
    rw [occurrencesOf, List.mem_append] at h
    rcases h with h | h
    · exact suffix_above_of_mem t h
    · exact suffix_above_of_mem_all ts h
end

mutual
/-- The nodes above a place in a tree are places in it too, each with less above it, unless they
stand above the whole tree. -/
theorem above_occurs {above : List Tree} {decorates : Bool} {o : Occurrence} {a : Tree} :
    (t : Tree) → o ∈ t.occurrencesFrom above decorates → a ∈ o.above → a ∈ above ∨
      ∃ b ∈ t.occurrencesFrom above decorates, b.tree = a ∧ b.above.length < o.above.length
  | .node kind line ident ds cs, h, ha => by
    rw [occurrencesFrom, List.mem_cons, List.mem_append] at h
    rw [occurrencesFrom]
    rcases h with rfl | h | h
    · exact Or.inl ha
    · have hl := (suffix_above_of_mem_all cs h).length_le
      rcases above_occurs_all cs h ha with hc | ⟨b, hb, hbo⟩
      · rcases List.mem_cons.mp hc with rfl | hc
        · exact Or.inr ⟨_, List.mem_cons_self, rfl, hl⟩
        · exact Or.inl hc
      · exact Or.inr ⟨b, by simp [hb], hbo⟩
    · have hl := (suffix_above_of_mem_all ds h).length_le
      rcases above_occurs_all ds h ha with hc | ⟨b, hb, hbo⟩
      · rcases List.mem_cons.mp hc with rfl | hc
        · exact Or.inr ⟨_, List.mem_cons_self, rfl, hl⟩
        · exact Or.inl hc
      · exact Or.inr ⟨b, by simp [hb], hbo⟩

theorem above_occurs_all {above : List Tree} {decorates : Bool} {o : Occurrence} {a : Tree} :
    (ts : List Tree) → o ∈ occurrencesOf above decorates ts → a ∈ o.above → a ∈ above ∨
      ∃ b ∈ occurrencesOf above decorates ts, b.tree = a ∧ b.above.length < o.above.length
  | [], h, _ => by simp [occurrencesOf] at h
  | t :: ts, h, ha => by
    rw [occurrencesOf, List.mem_append] at h
    rw [occurrencesOf]
    rcases h with h | h
    · exact (above_occurs t h ha).imp_right fun ⟨b, hb, hbo⟩ => ⟨b, by simp [hb], hbo⟩
    · exact (above_occurs_all ts h ha).imp_right fun ⟨b, hb, hbo⟩ => ⟨b, by simp [hb], hbo⟩
end

end Tree

namespace Policy

/-- Is the node refused with all that is in it? -/
def blocks (p : Policy) (t : Tree) : Bool :=
  t.kind == .classDef || t.kind == .asyncFunctionDef || t.kind == .importFrom || !p.allows t.kind

/-- Is nothing above the place refused? -/
def sees (p : Policy) (o : Occurrence) : Bool := o.above.all (fun a => !p.blocks a)

/-- The places in a tree that are not inside a refused node. -/
def visible (p : Policy) (root : Tree) : List Occurrence := root.occurrences.filter p.sees

theorem blocks_eq_false_of_visible {p : Policy} {root : Tree}
    (h : ∀ o ∈ p.visible root, p.blocks o.tree = false) {o : Occurrence}
    (ho : o ∈ root.occurrences) : p.blocks o.tree = false := by
  -- What stands above a place has less above it, so it is not refused and hides nothing.
  induction hn : o.above.length using Nat.strongRecOn generalizing o with
  | ind n ih =>
    refine h o (List.mem_filter.mpr ⟨ho, List.all_eq_true.mpr fun a ha => ?_⟩)
    rcases Tree.above_occurs root ho ha with hroot | ⟨b, hb, rfl, hlt⟩
    · cases hroot
    · simp [ih _ (hn ▸ hlt) hb rfl]

theorem visible_eq_occurrences {p : Policy} {root : Tree}
    (h : ∀ o ∈ root.occurrences, p.blocks o.tree = false) : p.visible root = root.occurrences := by
  refine List.filter_eq_self.mpr fun o ho => List.all_eq_true.mpr fun a ha => ?_
  rcases Tree.above_occurs root ho ha with hroot | ⟨b, hb, rfl, -⟩
  · cases hroot
  · simp [h b hb]

end Policy
end Gatehouse
