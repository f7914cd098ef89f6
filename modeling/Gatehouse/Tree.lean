import Gatehouse.Kind

/-!
The tree of a contract: what is left of its source once spelling is gone. Every rule is stated on
these trees. Decorators are kept apart from children because only definitions have them.
-/
namespace Gatehouse

/-- A node with its kind, its line (from 1), its identifier if it has one, its decorators and its
children. Operators and contexts carry the line of their parent. -/
inductive Tree where
  | node (kind : Kind) (line : Nat) (ident : Option String) (decorators children : List Tree)
  deriving Repr, Inhabited

namespace Tree

def kind : Tree → Kind
  | .node k _ _ _ _ => k

def line : Tree → Nat
  | .node _ l _ _ _ => l

def ident : Tree → Option String
  | .node _ _ i _ _ => i

def decorators : Tree → List Tree
  | .node _ _ _ ds _ => ds

def children : Tree → List Tree
  | .node _ _ _ _ cs => cs

def branch (kind : Kind) (line : Nat) (children : List Tree) : Tree :=
  .node kind line none [] children

def named (kind : Kind) (line : Nat) (ident : String) (children : List Tree) : Tree :=
  .node kind line (some ident) [] children

def leaf (kind : Kind) (line : Nat) : Tree := branch kind line []

mutual
def size : Tree → Nat
  | .node _ _ _ ds cs => 1 + sizes ds + sizes cs

def sizes : List Tree → Nat
  | [] => 0
  | t :: ts => t.size + sizes ts
end

/-- An assignment's targets and its value, the last child. Other kinds have no parts. -/
def assignParts (t : Tree) : Option (List Tree × Tree) :=
  if t.kind = .assign then t.children.getLast?.map (fun v => (t.children.dropLast, v)) else none

/-- The dotted text of a chain of names and attributes; a call is its callee followed by a pair of
parentheses. -/
def dottedName : Tree → Option String
  | .node .name _ i _ _ => i
  | .node .attributeOf _ i _ (c :: _) => do
    let base ← c.dottedName
    let last ← i
    return base ++ "." ++ last
  | .node .call _ _ _ (c :: _) => do
    let base ← c.dottedName
    return base ++ "()"
  | _ => none

/-- The functions that stand directly under a node; asynchronous ones do not count. -/
def functions (t : Tree) : List Tree :=
  t.children.filter (fun c => c.kind = .functionDef)

end Tree
end Gatehouse
