import Gatehouse.Proofs.Cst.Names

/-!
Concrete trees that conform to the grammar, as far as lowering takes the grammar's word for it. All
else it looks for itself, and it refuses a node that lacks a part.
-/
namespace Gatehouse

/-- What the grammar says of a node over given children, and lowering does not check: there is an
operator between any two operands of a comparison, of which there are two at least, and the other
name of what is imported is an identifier. -/
def Tag.allows (tag : Tag) (cs : List Cst) : Bool :=
  match tag with
  | .comparisonOperator =>
    let operators := (cs.filter fun d => d.role == some .operators && !d.tag.isExtra).length
    operators != 0 && (cs.filter Cst.isProper).length == operators + 1
  | .aliasedImport => cs.all fun d => d.role != some .alias || d.tag == .identifier
  | _ => true

namespace Cst

mutual
/-- Does every node of the tree conform to the grammar? -/
def conforms : Cst → Bool
  | .node tag _ _ cs => tag.allows cs && allConform cs

def allConform : List Cst → Bool
  | [] => true
  | c :: cs => c.conforms && allConform cs
end

theorem allConform_iff {cs : List Cst} : allConform cs = true ↔ ∀ c ∈ cs, c.conforms = true := by
  induction cs with
  | nil => simp [allConform]
  | cons c cs ih => simp [allConform, ih]

theorem conforms_iff {c : Cst} : c.conforms = true
    ↔ c.tag.allows c.children = true ∧ ∀ d ∈ c.children, d.conforms = true := by
  obtain ⟨tag, r, sp, cs⟩ := c
  simp [conforms, allConform_iff, Cst.tag, Cst.children]

section

variable {c : Cst} (h : c.conforms = true)

include h

theorem conforms_of_mem_allNodes {d : Cst} (hd : d ∈ c.allNodes) : d.conforms = true := by
  induction c using inductionOn with
  | step c ih =>
    obtain rfl | ⟨e, he, hd⟩ := mem_allNodes.mp hd
    · exact h
    · exact ih e he ((conforms_iff.mp h).2 e he) hd

theorem conforms_proper : ∀ d ∈ c.proper, d.conforms = true :=
  fun _ hd => conforms_of_mem_allNodes h (mem_allNodes_of_mem_proper hd)

theorem conforms_child? {r : Role} {d : Cst} (hd : c.child? r = some d) : d.conforms = true :=
  conforms_of_mem_allNodes h (mem_allNodes_of_child? hd)

theorem operators_of_comparison (htag : c.tag = .comparisonOperator) :
    c.childrenIn .operators ≠ [] ∧ c.proper.length = (c.childrenIn .operators).length + 1 := by
  have hallows := (conforms_iff.mp h).1
  simp only [htag, Tag.allows, Bool.and_eq_true, bne_iff_ne, beq_iff_eq] at hallows
  exact ⟨fun hnil => hallows.1 (congrArg List.length hnil), hallows.2⟩

theorem identifier_of_alias (htag : c.tag = .aliasedImport) {d : Cst}
    (hd : c.child? .alias = some d) : d.tag = .identifier := by
  have hallows := (conforms_iff.mp h).1
  have hrole := List.find?_some hd
  simp only [htag, Tag.allows, List.all_eq_true] at hallows
  have hd := hallows d (List.mem_of_find?_eq_some hd)
  simpa [beq_iff_eq.mp hrole] using hd

end

end Cst
end Gatehouse
