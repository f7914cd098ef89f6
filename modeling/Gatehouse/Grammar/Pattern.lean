import Gatehouse.Cst

/-!
Targets. What stands left of an assignment is read as an expression first; it is a target if it is
made of names, attributes, subscripts, splats of these, and brackets around targets.
-/
namespace Gatehouse.Grammar

def isSplatTarget (c : Cst) : Bool :=
  c.tag == .identifier || c.tag == .attributeAccess || c.tag == .subscript

mutual
def toPattern? : Cst → Option Cst
  | .node .identifier r s cs => some (.node .identifier r s cs)
  | .node .attributeAccess r s cs => some (.node .attributeAccess r s cs)
  | .node .subscript r s cs => some (.node .subscript r s cs)
  | .node .listSplat r s cs =>
    if cs.any isSplatTarget then some (.node .listSplatPattern r s cs) else none
  | .node .parenthesizedExpression r s cs => (toPatterns? cs).map (.node .tuplePattern r s ·)
  | .node .tuple r s cs => (toPatterns? cs).map (.node .tuplePattern r s ·)
  | .node .listDisplay r s cs => (toPatterns? cs).map (.node .listPattern r s ·)
  | _ => none

/-- The targets that a list of expressions denotes; signs between them stay. -/
def toPatterns? : List Cst → Option (List Cst)
  | [] => some []
  | c :: cs =>
    match c.tag with
    | .token _ => (toPatterns? cs).map (c :: ·)
    | _ => do
      let p ← toPattern? c
      let ps ← toPatterns? cs
      return p :: ps
end

/-- The target that a list of expressions denotes: one expression alone is a target itself, with a
comma it is a list of targets. -/
def targetOf? (items : List Cst) : Option Cst :=
  match items with
  | [c] => toPattern? c
  | cs => (toPatterns? cs).map (Cst.join .patternList)

end Gatehouse.Grammar
