import Gatehouse.Proofs.Cst.Names

/-!
Chains of assignments as they stand in a text: an assignment that is right of another is the next
link of its chain.
-/
namespace Gatehouse.Cst

/-- The links of a chain of assignments: the assignment, and those of an assignment that is right
of it. -/
def links : Cst → List Cst
  | .node .assignment r sp cs => .node .assignment r sp cs :: linksRight cs
  | _ => []
where
  /-- The first child on the right of a link. -/
  linksRight : List Cst → List Cst
    | [] => []
    | d :: ds => if d.role == some .right then d.links else linksRight ds

/-- What stands at the end of a chain of assignments, if anything does. -/
def chainEnd? : Cst → Option Cst
  | .node .assignment _ _ cs => endRight? cs
  | c => some c
where
  /-- The first child on the right of a link. -/
  endRight? : List Cst → Option Cst
    | [] => none
    | d :: ds => if d.role == some .right then d.chainEnd? else endRight? ds

/-- Is there an annotation beside the target? -/
def isAnnotated (c : Cst) : Bool := (c.child? .typeHint).isSome

section

variable {c link last : Cst}

theorem links_eq_nil (h : c.tag ≠ .assignment) : c.links = [] := by
  obtain ⟨tag, role, sp, cs⟩ := c
  rw [links]
  intro role' sp' cs' heq
  exact h (Cst.node.inj heq).1

theorem chainEnd?_eq_some (h : c.tag ≠ .assignment) : c.chainEnd? = some c := by
  obtain ⟨tag, role, sp, cs⟩ := c
  rw [chainEnd?]
  intro role' sp' cs' heq
  exact h (Cst.node.inj heq).1

theorem links_of_assignment (h : c.tag = .assignment) :
    c.links = c :: (c.child? .right).toList.flatMap links := by
  have hright : ∀ cs, links.linksRight cs
      = (cs.find? (fun d => d.role == some .right)).toList.flatMap links := by
    intro cs
    induction cs with
    | nil => rfl
    | cons d ds ih =>
      rw [links.linksRight, List.find?_cons]
      by_cases hd : d.role == some .right <;> simp [hd, ih]
  obtain ⟨tag, role, sp, cs⟩ := c
  obtain rfl : tag = .assignment := h
  rw [links, hright]
  rfl

theorem chainEnd?_of_assignment (h : c.tag = .assignment) :
    c.chainEnd? = (c.child? .right).bind chainEnd? := by
  have hright : ∀ cs, chainEnd?.endRight? cs
      = (cs.find? (fun d => d.role == some .right)).bind chainEnd? := by
    intro cs
    induction cs with
    | nil => rfl
    | cons d ds ih =>
      rw [chainEnd?.endRight?, List.find?_cons]
      by_cases hd : d.role == some .right <;> simp [hd, ih]
  obtain ⟨tag, role, sp, cs⟩ := c
  obtain rfl : tag = .assignment := h
  rw [chainEnd?, hright]
  rfl

theorem mem_allNodes_of_mem_links (h : link ∈ c.links) : link ∈ c.allNodes := by
  induction c using inductionOn with
  | step c ih =>
    by_cases htag : c.tag = .assignment
    · rw [links_of_assignment htag, List.mem_cons, List.mem_flatMap] at h
      rcases h with rfl | ⟨right, hright, hlink⟩
      · exact self_mem_nodes
      · have hmem := mem_children_of_child? (Option.mem_toList.mp hright)
        exact mem_allNodes.mpr (Or.inr ⟨right, hmem, ih right hmem hlink⟩)
    · rw [links_eq_nil htag] at h
      cases h

theorem mem_allNodes_of_chainEnd? (h : c.chainEnd? = some last) : last ∈ c.allNodes := by
  induction c using inductionOn with
  | step c ih =>
    by_cases htag : c.tag = .assignment
    · rw [chainEnd?_of_assignment htag, Option.bind_eq_some_iff] at h
      obtain ⟨right, hright, hlast⟩ := h
      have hmem := mem_children_of_child? hright
      exact mem_allNodes.mpr (Or.inr ⟨right, hmem, ih right hmem hlast⟩)
    · obtain rfl := Option.some.inj ((chainEnd?_eq_some htag).symm.trans h)
      exact self_mem_nodes

end

end Gatehouse.Cst
