import Gatehouse.Tree

/-!
The statements of a tree, in the order of a walk. The rest of a tree is of minor kinds: expressions,
their operators and contexts, and the parts that statements have beside blocks.
-/
namespace Gatehouse

namespace Kind

def isStatement : Kind → Bool
  | .functionDef | .asyncFunctionDef | .classDef | .returnValue | .delete | .assign | .augAssign
  | .annAssign | .forEach | .asyncForEach | .whileLoop | .ifElse | .withBlock | .asyncWithBlock
  | .matchCases | .raise | .tryExcept | .assert | .importModule | .importFrom | .globalNames
  | .nonlocalNames | .expr | .pass | .breakLoop | .continueLoop | .typeAlias => true
  | _ => false

def isMinor (kind : Kind) : Bool := kind != .module && !kind.isStatement

theorem isStatement_of_isMinor {kind : Kind} (h : kind.isMinor = true) :
    kind.isStatement = false := by
  simp only [isMinor, Bool.and_eq_true, Bool.not_eq_true'] at h
  exact h.2

theorem isMinor_of_isContext {kind : Kind} (h : kind.isContext = true) : kind.isMinor = true := by
  cases kind <;> first
    | rfl
    | cases h

end Kind

namespace Tree

mutual
/-- The statements of a tree: the node itself if it is one, those of its children, those of its
decorators. -/
def statements : Tree → List Tree
  | .node kind line ident ds cs =>
    (if kind.isStatement then [.node kind line ident ds cs] else [])
      ++ (statementsOf cs ++ statementsOf ds)

def statementsOf : List Tree → List Tree
  | [] => []
  | t :: ts => t.statements ++ statementsOf ts
end

section

variable {t : Tree}

theorem statementsOf_eq_flatMap (ts : List Tree) : statementsOf ts = ts.flatMap statements := by
  induction ts with
  | nil => rfl
  | cons t ts ih => rw [statementsOf, ih, List.flatMap_cons]

theorem statements_eq (t : Tree) : t.statements = (if t.kind.isStatement then [t] else [])
    ++ (t.children.flatMap statements ++ t.decorators.flatMap statements) := by
  cases t
  rw [statements, statementsOf_eq_flatMap, statementsOf_eq_flatMap]
  rfl

theorem statements_of_isStatement (h : t.kind.isStatement = true)
    (hds : ∀ d ∈ t.decorators, d.statements = []) :
    t.statements = t :: t.children.flatMap statements := by
  rw [statements_eq, if_pos h, List.flatMap_eq_nil_iff.mpr hds, List.append_nil,
    List.singleton_append]

theorem statements_of_isMinor {kind : Kind} (h : kind.isMinor = true) (line : Nat)
    (ident : Option String) (cs : List Tree) :
    (node kind line ident [] cs).statements = cs.flatMap statements := by
  rw [statements, if_neg (by simp [Kind.isStatement_of_isMinor h]), statementsOf_eq_flatMap]
  simp [statementsOf]

end

end Tree
end Gatehouse
