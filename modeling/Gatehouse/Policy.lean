import Gatehouse.Kind
import Gatehouse.SafeNames

/-!
What is admitted: kinds of node, decorators, roots of imports, the names that make storage cells
and the names visible to a contract. A policy is a value; a check is made against the one it is
given.
-/
namespace Gatehouse

structure ImportRoot where
  path : String
  deriving DecidableEq, Repr, Inhabited

def ImportRoot.qualify (root : ImportRoot) (name : String) : String := root.path ++ "." ++ name

structure UnknownRoot where
  path : String
  deriving DecidableEq, Repr, Inhabited

def UnknownRoot.message (e : UnknownRoot) : String := "import root not permitted: " ++ e.path

structure Policy where
  allows : Kind → Bool
  exportMark : String
  constructMark : String
  importRoots : List ImportRoot
  storageCells : List String
  reservedKeywords : List String
  safeNames : SafeNames

namespace Policy

/-- The kinds that the standard policy admits. An import of single names is among them because a
rule of its own reports it. -/
def admitted : Kind → Bool
  | .module | .functionDef | .returnValue | .assign | .augAssign | .forEach | .whileLoop | .ifElse
  | .assert | .importModule | .importFrom | .alias | .globalNames | .expr | .pass | .boolOp
  | .binOp | .unaryOp | .dict | .setDisplay | .listComp | .comprehension | .compare | .call
  | .keyword | .num | .str | .nameConstant | .attributeOf | .subscript | .index | .slice
  | .starred | .name | .listDisplay | .tuple | .arguments | .arg | .load | .store | .add | .sub
  | .mult | .div | .modulo | .pow | .andOf | .orOf | .notOf | .uSub | .eq | .notEq | .lt | .ltE
  | .gt | .gtE | .isIn | .isNotIn => true
  | _ => false

def standardRoot : ImportRoot := ⟨"seneca.contracts"⟩

def testRoot : ImportRoot := ⟨"test_contracts"⟩

def standard : Policy where
  allows := admitted
  exportMark := "export"
  constructMark := "construct"
  importRoots := [standardRoot, testRoot]
  storageCells := ["Hash", "Variable", "ForeignHash", "ForeignVariable"]
  reservedKeywords := ["contract", "name"]
  safeNames := .standard

def allow (p : Policy) (kind : Kind) : Policy :=
  { p with allows := fun k => k == kind || p.allows k }

def deny (p : Policy) (kind : Kind) : Policy :=
  { p with allows := fun k => k != kind && p.allows k }

def withDecorators (p : Policy) (exportMark constructMark : String) : Policy :=
  { p with exportMark, constructMark }

def withImportRoot (p : Policy) (root : ImportRoot) : Policy :=
  if root ∈ p.importRoots then p else { p with importRoots := p.importRoots ++ [root] }

def withSafeNames (p : Policy) (safeNames : SafeNames) : Policy := { p with safeNames }

def whitelist (p : Policy) : List Kind := Kind.all.filter p.allows

def isExport (p : Policy) (decorator : String) : Bool := decorator == p.exportMark

def isConstructor (p : Policy) (decorator : String) : Bool := decorator == p.constructMark

def isMark (p : Policy) (decorator : String) : Bool :=
  p.isExport decorator || p.isConstructor decorator

def isStorageCell (p : Policy) (name : String) : Bool := p.storageCells.contains name

def isReservedKeyword (p : Policy) (name : String) : Bool := p.reservedKeywords.contains name

def importRoot (p : Policy) (path : String) : Except UnknownRoot ImportRoot :=
  match p.importRoots.find? (fun r => r.path == path) with
  | some r => .ok r
  | none => .error ⟨path⟩

end Policy
end Gatehouse
