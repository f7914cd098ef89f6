import Gatehouse.Proofs.Lowering.Expressed
import Gatehouse.Proofs.Tree.WellFormed

/-!
The kinds of nodes that expressions and operators are lowered to, whatever their parts are like.
-/
namespace Gatehouse.Lowering

open Gatehouse.Tree

theorem isBinary_of_binaryKind? {sign : String} {kind : Kind} (h : binaryKind? sign = some kind) :
    kind.isBinary = true := by
  unfold binaryKind? at h
  split at h <;> cases h <;> rfl

theorem isUnary_of_unaryKind? {sign : String} {kind : Kind} (h : unaryKind? sign = some kind) :
    kind.isUnary = true := by
  unfold unaryKind? at h
  split at h <;> cases h <;> rfl

theorem isComparison_of_comparisonKind? {sign : String} {kind : Kind}
    (h : comparisonKind? sign = some kind) : kind.isComparison = true := by
  unfold comparisonKind? at h
  split at h <;> cases h <;> rfl

theorem truthKind_cases (operator : String) :
    truthKind operator = .andOf ∨ truthKind operator = .orOf := by
  unfold truthKind
  split
  · exact Or.inl rfl
  · exact Or.inr rfl

theorem isOperator_truthKind (operator : String) : (truthKind operator).isOperator = true := by
  rcases truthKind_cases operator with h | h <;> rw [h] <;> rfl

section

variable {s : Source} {lower : Cst → Kind → Result Tree} {c : Cst} {context kind : Kind} {t : Tree}

theorem isExpression_of_mem_textKinds (h : kind ∈ textKinds) : kind.isExpression = true := by
  simp only [textKinds, List.mem_cons, List.not_mem_nil, or_false] at h
  rcases h with rfl | rfl | rfl <;> rfl

theorem isExpression_of_comprehensionKind? {tag : Tag} (h : tag.comprehensionKind? = some kind) :
    kind.isExpression = true := by
  unfold Tag.comprehensionKind? at h
  split at h <;> cases h <;> rfl

/-- An expression is lowered to one. -/
theorem Expressed.isExpression (h : Expressed s lower c context t)
    (hlower : ∀ d x u, lower d x = .ok u → u.kind.isExpression = true) :
    t.kind.isExpression = true := by
  cases h with
  | call _ h =>
    obtain ⟨callee, given, ts, rfl, -⟩ := h
    rfl
  | comparison _ h =>
    obtain ⟨first, rest, left, kinds, right, -, rfl, -⟩ := h
    rfl
  | string _ hkind => exact isExpression_of_mem_textKinds (mem_textKinds_of_stringKind hkind)
  | strings _ hkind =>
    exact isExpression_of_mem_textKinds (mem_textKinds_of_joinedKind hkind (by decide))
  | comprehension hkind => exact isExpression_of_comprehensionKind? hkind
  | wrapped _ h =>
    obtain ⟨d, -, h⟩ := h
    exact hlower d context t h
  | yield =>
    rw [branch, Tree.kind]
    split <;> rfl
  | _ => rfl

/-- What holds of all that is lowered under a comparison, and of operators, holds of all that the
comparison has under it. -/
theorem IsComparison.all {p : Tree → Prop} (h : IsComparison lower c t)
    (hoperand : ∀ u, LowersUnder lower .load c u → p u)
    (hoperator : ∀ op : Kind, op.isOperator = true → p (.leaf op c.line)) :
    ∃ ts, t = .branch .compare c.line ts ∧ ∀ u ∈ ts, p u := by
  obtain ⟨first, rest, left, kinds, right, hproper, rfl, hleft, hkinds, hright⟩ := h
  have hmem : ∀ d ∈ first :: rest, d ∈ c.allNodes := fun d hd =>
    Cst.mem_allNodes_of_mem_proper (hproper ▸ hd)
  obtain ⟨hfirst, hrest⟩ := List.forall_mem_cons.mp hmem
  have hoperators : ∀ u ∈ kinds.map (leaf · c.line), p u := fun u hu => by
    obtain ⟨op, hop, rfl⟩ := List.mem_map.mp hu
    exact hoperator op (Kind.isOperator_of_isComparison
      (forall_of_forall₂ hkinds (fun _ _ _ => isComparison_of_comparisonKind?) op hop))
  exact ⟨_, rfl, List.forall_mem_append.mpr
    ⟨List.forall_mem_cons.mpr ⟨hoperand left ⟨first, hfirst, hleft⟩, hoperators⟩,
      fun u hu => hoperand u (under_of_forall₂ hright hrest u hu)⟩⟩

end

theorem isExpression_of_expression {s : Source} {levels : Nat} {c : Cst} {context : Kind} {t : Tree}
    (h : expression s levels c context = .ok t) : t.kind.isExpression = true := by
  induction levels generalizing c context t with
  | zero => cases h
  | succ levels ih => exact (expressed h).isExpression fun _ _ _ hu => ih hu

end Gatehouse.Lowering
