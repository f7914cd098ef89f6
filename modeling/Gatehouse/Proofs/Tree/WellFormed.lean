import Gatehouse.Proofs.Occurrence

/-!
Well-formed trees. Rules take the parts of a node by their places: the parameters of a function are
its first child, the value of an assignment is its last. A node that had its parts elsewhere would
be passed by without a word.
-/
namespace Gatehouse

namespace Kind

def takesContext : Kind → Bool
  | .name | .attributeOf | .subscript | .listDisplay | .tuple | .starred => true
  | _ => false

def isInner (kind : Kind) : Bool := kind != .module && !kind.isContext

def isExpression : Kind → Bool
  | .boolOp | .namedExpr | .binOp | .unaryOp | .lambda | .ifExp | .dict | .setDisplay | .listComp
  | .setComp | .dictComp | .generatorExp | .await | .yield | .yieldFrom | .compare | .call
  | .joinedStr | .num | .str | .bytes | .nameConstant | .ellipsis | .attributeOf | .subscript
  | .starred | .name | .listDisplay | .tuple => true
  | _ => false

def isBinary : Kind → Bool
  | .add | .sub | .mult | .matMult | .div | .modulo | .pow | .lShift | .rShift | .bitOr | .bitXor
  | .bitAnd | .floorDiv => true
  | _ => false

def isUnary : Kind → Bool
  | .invert | .notOf | .uAdd | .uSub => true
  | _ => false

def isComparison : Kind → Bool
  | .eq | .notEq | .lt | .ltE | .gt | .gtE | .isSame | .isNotSame | .isIn | .isNotIn => true
  | _ => false

/-- What a node of a kind has: its identifier, and its children in their places. -/
@[reducible] def Parts (kind : Kind) (ident : Option String) (cs : List Tree) : Prop :=
  match kind with
  | .load | .store | .del => ident = none ∧ cs = []
  | .name => ident.isSome ∧ ∃ x, cs = [x] ∧ x.kind.isContext
  | .attributeOf => ident.isSome ∧ ∃ value x, cs = [value, x]
      ∧ value.kind.isExpression ∧ x.kind.isContext
  | .subscript => ∃ value part x, cs = [value, part, x] ∧ value.kind.isExpression
      ∧ (part.kind = .index ∨ part.kind = .slice) ∧ x.kind.isContext
  | .index => ∃ value, cs = [value] ∧ value.kind.isExpression
  | .listDisplay => ∃ elements x, cs = elements ++ [x]
      ∧ (∀ e ∈ elements, e.kind.isExpression) ∧ x.kind.isContext
  | .tuple => ∃ elements x, cs = elements ++ [x]
      ∧ (∀ e ∈ elements, e.kind.isExpression ∨ e.kind = .slice) ∧ x.kind.isContext
  | .starred => ∃ value x, cs = [value, x] ∧ value.kind.isExpression ∧ x.kind.isContext
  | .functionDef | .asyncFunctionDef => ident.isSome
      ∧ ∃ given rest, cs = given :: rest ∧ given.kind = .arguments
  | .classDef => ident.isSome
  | .arguments => ∃ given defaults, cs = given ++ defaults
      ∧ (∀ a ∈ given, a.kind = .arg) ∧ ∀ d ∈ defaults, d.kind.isExpression
  | .arg => ident.isSome ∧ cs.length ≤ 1
  | .importFrom => ident.isSome ∧ ∀ c ∈ cs, c.kind = .alias
  | .importModule => ∀ c ∈ cs, c.kind = .alias
  | .alias => ident.isSome
      ∧ (cs = [] ∨ ∃ line name, cs = [.named .name line name [.leaf .store line]])
  | .assign => ∃ targets value, cs = targets ++ [value] ∧ targets ≠ []
      ∧ (∀ t ∈ targets, t.kind.isExpression) ∧ value.kind.isExpression
  | .binOp | .augAssign => ∃ left op right, cs = [left, op, right]
      ∧ left.kind.isExpression ∧ op.kind.isBinary ∧ right.kind.isExpression
  | .unaryOp => ∃ op value, cs = [op, value] ∧ op.kind.isUnary ∧ value.kind.isExpression
  | .boolOp => ∃ op values, cs = op :: values ∧ (op.kind = .andOf ∨ op.kind = .orOf)
      ∧ 2 ≤ values.length ∧ ∀ v ∈ values, v.kind.isExpression
  | .compare => ∃ first ops rest, cs = first :: (ops ++ rest) ∧ ops.length = rest.length
      ∧ ops ≠ [] ∧ first.kind.isExpression ∧ (∀ op ∈ ops, op.kind.isComparison)
      ∧ ∀ v ∈ rest, v.kind.isExpression
  | .keyword => ∃ value, cs = [value] ∧ value.kind.isExpression
  | .call => ∃ callee given, cs = callee :: given ∧ callee.kind.isExpression
  | .comprehension => ∃ target values conditions, cs = target :: values :: conditions
      ∧ ∀ v ∈ cs, v.kind.isExpression
  | .lambda => ∃ given body, cs = [given, body] ∧ given.kind = .arguments ∧ body.kind.isExpression
  | _ => True

theorem isInner_of_isExpression {kind : Kind} (h : kind.isExpression = true) :
    kind.isInner = true := by
  cases kind <;> first
    | rfl
    | cases h

def isOperator (kind : Kind) : Bool :=
  kind.isBinary || kind.isUnary || kind.isComparison || kind == .andOf || kind == .orOf

theorem isOperator_of_isBinary {kind : Kind} (h : kind.isBinary = true) :
    kind.isOperator = true := by
  simp [isOperator, h]

theorem isOperator_of_isUnary {kind : Kind} (h : kind.isUnary = true) : kind.isOperator = true := by
  simp [isOperator, h]

theorem isOperator_of_isComparison {kind : Kind} (h : kind.isComparison = true) :
    kind.isOperator = true := by
  simp [isOperator, h]

theorem isInner_of_isOperator {kind : Kind} (h : kind.isOperator = true) :
    kind.isInner = true := by
  cases kind <;> first
    | rfl
    | cases h

theorem parts_of_isOperator {kind : Kind} (h : kind.isOperator = true) (ident : Option String)
    (cs : List Tree) : kind.Parts ident cs := by
  cases kind <;> first
    | exact trivial
    | cases h

theorem takesContext_of_isOperator {kind : Kind} (h : kind.isOperator = true) :
    kind.takesContext = false := by
  cases kind <;> first
    | rfl
    | cases h

end Kind

namespace Tree

/-- The children of a node but for the context at the end. -/
def operands (t : Tree) : List Tree :=
  if t.kind.takesContext then t.children.dropLast else t.children

/-- Every node of the tree has the parts of its kind. Only its root may be a module, contexts stand
nowhere but at the end of nodes that take one, and only definitions are decorated. -/
inductive WellFormed : Tree → Prop
  | intro {t : Tree} (parts : t.kind.Parts t.ident t.children)
      (root : ∀ c ∈ t.decorators ++ t.children, c.kind ≠ .module)
      (contexts : ∀ c ∈ t.decorators ++ t.operands, c.kind.isContext = false)
      (decorated : t.decorators ≠ [] → t.kind.isDefinition = true)
      (decorators : ∀ d ∈ t.decorators, WellFormed d)
      (children : ∀ c ∈ t.children, WellFormed c) : WellFormed t

/-- A well-formed tree that may stand under another, where no context is asked for. -/
structure IsPart (t : Tree) : Prop where
  wellFormed : t.WellFormed
  inner : t.kind.isInner = true

structure IsValue (t : Tree) : Prop where
  wellFormed : t.WellFormed
  expression : t.kind.isExpression = true

section

variable {t : Tree} {kind context : Kind} {line : Nat} {ident : Option String} {ds cs : List Tree}

theorem IsValue.isPart (h : t.IsValue) : t.IsPart :=
  ⟨h.wellFormed, Kind.isInner_of_isExpression h.expression⟩

theorem IsPart.ne_module (h : t.IsPart) : t.kind ≠ .module := by
  have hinner := h.inner
  simp only [Kind.isInner, Bool.and_eq_true, bne_iff_ne] at hinner
  exact hinner.1

theorem IsPart.isContext_eq_false (h : t.IsPart) : t.kind.isContext = false := by
  have hinner := h.inner
  simp only [Kind.isInner, Bool.and_eq_true, Bool.not_eq_true'] at hinner
  exact hinner.2

theorem wellFormed_node (hkind : kind.takesContext = false) (hparts : kind.Parts ident cs)
    (hdecorated : ds ≠ [] → kind.isDefinition = true) (hds : ∀ d ∈ ds, d.IsPart)
    (hcs : ∀ c ∈ cs, c.IsPart) : (node kind line ident ds cs).WellFormed := by
  have hall : ∀ c ∈ ds ++ cs, c.IsPart := List.forall_mem_append.mpr ⟨hds, hcs⟩
  have hoperands : (node kind line ident ds cs).operands = cs := by
    simp [operands, Tree.kind, Tree.children, hkind]
  refine .intro hparts (fun c hc => (hall c hc).ne_module) ?_ hdecorated
    (fun d hd => (hds d hd).wellFormed) fun c hc => (hcs c hc).wellFormed
  rw [hoperands]
  exact fun c hc => (hall c hc).isContext_eq_false

theorem wellFormed_branch (hkind : kind.takesContext = false) (hparts : kind.Parts none cs)
    (hcs : ∀ c ∈ cs, c.IsPart) : (branch kind line cs).WellFormed :=
  wellFormed_node hkind hparts (fun h => absurd rfl h) (fun d hd => by cases hd) hcs

theorem wellFormed_named {name : String} (hkind : kind.takesContext = false)
    (hparts : kind.Parts (some name) cs) (hcs : ∀ c ∈ cs, c.IsPart) :
    (named kind line name cs).WellFormed :=
  wellFormed_node hkind hparts (fun h => absurd rfl h) (fun d hd => by cases hd) hcs

theorem wellFormed_context (h : context.isContext = true) : (leaf context line).WellFormed := by
  refine .intro ?_ (fun c hc => by cases hc) (fun c hc => ?_) (fun h => absurd rfl h)
    (fun d hd => by cases hd) fun c hc => by cases hc
  · cases context <;> first
      | exact ⟨rfl, rfl⟩
      | cases h
  · cases context <;> cases hc

/-- A node over parts, with a context at the end. -/
theorem wellFormed_inContext (cs : List Tree) (hkind : kind.takesContext = true)
    (hcontext : context.isContext = true)
    (hparts : kind.Parts ident (cs ++ [leaf context line])) (hcs : ∀ c ∈ cs, c.IsPart) :
    (node kind line ident [] (cs ++ [leaf context line])).WellFormed := by
  have hoperands : (node kind line ident [] (cs ++ [leaf context line])).operands = cs := by
    simp [operands, Tree.kind, Tree.children, hkind]
  have hlast : (leaf context line).kind ≠ .module := by
    cases context <;> first
      | exact Kind.noConfusion
      | cases hcontext
  refine .intro hparts ?_ ?_ (fun h => absurd rfl h) (fun d hd => by cases hd) ?_
  · change ∀ c ∈ cs ++ [leaf context line], c.kind ≠ .module
    exact List.forall_mem_append.mpr ⟨fun c hc => (hcs c hc).ne_module,
      List.forall_mem_singleton.mpr hlast⟩
  · rw [hoperands]
    exact fun c hc => (hcs c hc).isContext_eq_false
  · exact List.forall_mem_append.mpr ⟨fun c hc => (hcs c hc).wellFormed,
      List.forall_mem_singleton.mpr (wellFormed_context hcontext)⟩

theorem isPart_operator (h : kind.isOperator = true) : (leaf kind line).IsPart :=
  ⟨wellFormed_branch (Kind.takesContext_of_isOperator h) (Kind.parts_of_isOperator h _ _)
    fun c hc => (by cases hc), Kind.isInner_of_isOperator h⟩

theorem WellFormed.of_mem_occurrencesFrom (h : t.WellFormed) {above : List Tree} {decorates : Bool}
    {o : Occurrence} (ho : o ∈ t.occurrencesFrom above decorates) : o.tree.WellFormed := by
  induction h generalizing above decorates with
  | intro parts root contexts decorated hds hcs ihds ihcs =>
    rw [occurrencesFrom_eq, List.mem_cons, List.mem_append] at ho
    rcases ho with rfl | ho | ho
    · exact .intro parts root contexts decorated hds hcs
    · obtain ⟨c, hc, ho⟩ := List.mem_flatMap.mp ho
      exact ihcs c hc ho
    · obtain ⟨d, hd, ho⟩ := List.mem_flatMap.mp ho
      exact ihds d hd ho

theorem WellFormed.assignParts (h : t.WellFormed) (hkind : t.kind = .assign) :
    ∃ targets value, t.assignParts = some (targets, value) ∧ targets ≠ [] := by
  cases h with
  | intro parts _ _ _ _ _ =>
    rw [hkind] at parts
    obtain ⟨targets, value, hcs, hne, -⟩ := parts
    exact ⟨targets, value, by simp [Tree.assignParts, hkind, hcs], hne⟩

end

end Tree
end Gatehouse
