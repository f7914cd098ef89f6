import Gatehouse.Proofs.Cst.Names

/-!
Targets as they stand in a text: names, attributes and subscripts, and lists, brackets and splats
around targets. The names that a target binds are those that are reached in it without going into
an attribute or a subscript.
-/
namespace Gatehouse

def Tag.isPattern : Tag → Bool
  | .patternList | .tuplePattern | .listPattern | .listSplatPattern => true
  | _ => false

def Tag.isPlace : Tag → Bool
  | .identifier | .attributeAccess | .subscript => true
  | _ => false

namespace Cst

mutual
/-- Is the node a target? -/
def isTarget : Cst → Bool
  | .node tag _ _ cs =>
    tag.isPlace || (tag.isPattern && areTargets cs
      && (tag != .listSplatPattern || (cs.filter isProper).length == 1))

def areTargets : List Cst → Bool
  | [] => true
  | c :: cs => (!c.isProper || c.isTarget) && areTargets cs
end

def opens (p d : Cst) : Bool := p.tag.isPattern && d.isProper

/-- The identifiers that a target binds, in the order of the text. -/
def boundIdentifiers (c : Cst) : List Cst := c.identifiers opens

section

variable {c : Cst}

theorem areTargets_iff {cs : List Cst} :
    areTargets cs = true ↔ ∀ d ∈ cs.filter isProper, d.isTarget = true := by
  induction cs with
  | nil => simp [areTargets]
  | cons c cs ih =>
    rw [areTargets, Bool.and_eq_true, ih]
    cases hc : c.isProper <;> simp [hc]

theorem isTarget_iff : c.isTarget = true ↔ c.tag.isPlace = true
    ∨ c.tag.isPattern = true ∧ (∀ d ∈ c.proper, d.isTarget = true)
      ∧ (c.tag = .listSplatPattern → ∃ d, c.proper = [d]) := by
  obtain ⟨tag, r, sp, cs⟩ := c
  simp only [isTarget, Bool.or_eq_true, Bool.and_eq_true, areTargets_iff, bne_iff_ne, beq_iff_eq,
    List.length_eq_one_iff, Cst.tag, proper, children, and_assoc, ne_eq, Decidable.imp_iff_not_or]

/-- An identifier binds itself, and a list, brackets or a splat what the targets in it bind. Nothing
is bound in anything else. -/
theorem boundIdentifiers_eq (c : Cst) :
    c.boundIdentifiers = (if c.tag = .identifier then [c] else [])
      ++ if c.tag.isPattern then c.proper.flatMap boundIdentifiers else [] := by
  obtain ⟨tag, r, sp, cs⟩ := c
  have hunder : ∀ ds, identifiersUnder opens (.node tag r sp cs) ds
      = if tag.isPattern then (ds.filter isProper).flatMap boundIdentifiers else [] := by
    intro ds
    induction ds with
    | nil => simp [identifiersUnder]
    | cons d ds ih =>
      rw [identifiersUnder, ih]
      cases hp : tag.isPattern <;> cases hd : d.isProper <;>
        simp [opens, Cst.tag, hp, hd, boundIdentifiers]
  rw [boundIdentifiers, identifiers, hunder]
  rfl

theorem boundIdentifiers_of_identifier (h : c.tag = .identifier) : c.boundIdentifiers = [c] := by
  simp [boundIdentifiers_eq, h, Tag.isPattern]

theorem boundIdentifiers_of_isAccess (h : c.tag = .attributeAccess ∨ c.tag = .subscript) :
    c.boundIdentifiers = [] := by
  rcases h with h | h <;> simp [boundIdentifiers_eq, h, Tag.isPattern]

theorem boundIdentifiers_of_isPattern (h : c.tag.isPattern = true) :
    c.boundIdentifiers = c.proper.flatMap boundIdentifiers := by
  have hname : c.tag ≠ .identifier := by
    intro hname
    rw [hname] at h
    cases h
  rw [boundIdentifiers_eq, if_neg hname, if_pos h, List.nil_append]

end

end Cst
end Gatehouse
