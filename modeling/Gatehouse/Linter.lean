import Gatehouse.Registry
import Gatehouse.Tree
import Gatehouse.Violation

/-!
The check of a contract: one walk over its tree that collects every breach, in the order in which
they are met. A node comes before its children, and they come before its decorators. Nothing is
looked at inside a node that the policy refuses.
-/
namespace Gatehouse

/-- What a walk has met so far: breaches, and the functions marked as exports and as constructor. -/
structure Findings where
  violations : Array Violation
  exportSeen : Bool
  exports : List String
  constructor : Option String
  deriving Repr, Inhabited

namespace Findings

def empty : Findings := ⟨#[], false, [], none⟩

def add (f : Findings) (v : Violation) : Findings := { f with violations := f.violations.push v }

def addAll (f : Findings) (vs : List Violation) : Findings := vs.foldl add f

/-- Notes an export. A name is listed once. -/
def addExport (f : Findings) (name : String) : Findings :=
  { f with exportSeen := true, exports := if name ∈ f.exports then f.exports else f.exports ++ [name] }

@[simp] theorem violations_add (f : Findings) (v : Violation) :
    (f.add v).violations.toList = f.violations.toList ++ [v] := by simp [add]

@[simp] theorem violations_addExport (f : Findings) (name : String) :
    (f.addExport name).violations = f.violations := rfl

end Findings

/-- The functions of a contract that can be called from outside, and the one that sets it up. -/
structure EntryPoints where
  exports : List String
  constructor : Option String
  deriving DecidableEq, Repr, Inhabited

inductive Outcome where
  | pass
  | fail (messages : List String)
  deriving DecidableEq, Repr, Inhabited

namespace Outcome

def isPass : Outcome → Bool
  | .pass => true
  | .fail _ => false

def messages : Outcome → List String
  | .pass => []
  | .fail messages => messages

def ofViolations (vs : List Violation) : Outcome :=
  if vs.isEmpty then .pass else .fail (vs.map Violation.message)

end Outcome

namespace Linter

def isHidden (name : String) : Bool := name.toList.head? == some '_'

def nameViolations (t : Tree) : List Violation :=
  match t.ident with
  | some name => if isHidden name then [.underscore name t.line] else []
  | none => []

def attributeViolations (t : Tree) : List Violation :=
  match t.ident with
  | some name => if isHidden name then [.attributeAccess name t.line] else []
  | none => []

def firstPart (name : String) : String := String.ofList (name.toList.takeWhile (· != '.'))

/-- The breach of an import that binds a hidden name. An import under another name has that name as
a child. -/
def aliasViolations (t : Tree) : List Violation :=
  match t.children, t.ident with
  | [], some name =>
    if isHidden (firstPart name) then [.underscore (firstPart name) t.line] else []
  | _, _ => []

def boundNames : Tree → List String
  | .node .name _ ident _ _ => ident.toList
  | .node .tuple _ _ _ cs => boundNamesOf cs
  | .node .listDisplay _ _ _ cs => boundNamesOf cs
  | .node .starred _ _ _ cs => boundNamesOf cs
  | _ => []
where
  /-- The same for several targets. -/
  boundNamesOf : List Tree → List String
    | [] => []
    | t :: ts => boundNames t ++ boundNamesOf ts

/-- The bare name that a decorator consists of, if it is one that functions may carry. -/
def markOf? (p : Policy) (decorator : Tree) : Option String :=
  if decorator.kind = .name then decorator.ident.filter p.isMark else none

section

variable (p : Policy) (r : Registry)

def importedViolations (topLevel : Bool) (line : Nat) (t : Tree) : List Violation :=
  match t.ident with
  | none => []
  | some name =>
    if !topLevel then [.statement .nestedImport line name]
    else if r.confirms name then []
    else [.statement .unknownContract line name]

/-- The storage cell that a value makes, if it is a call of one by its name. -/
def storageCell? (value : Tree) : Option String :=
  if value.kind = .call then
    match value.children with
    | callee :: _ => if callee.kind = .name then callee.ident.filter p.isStorageCell else none
    | [] => none
  else none

def hasSeveralTargets (targets : List Tree) : Bool :=
  decide (1 < targets.length)
    || targets.any (fun t => t.kind == .tuple || t.kind == .listDisplay)

def cellKeywordViolations (t : Tree) : List Violation :=
  match t.kind, t.ident with
  | .keyword, some name =>
    if p.isReservedKeyword name then [.statement .keywordOverloading t.line name] else []
  | _, _ => []

/-- The breaches of an assignment: a storage cell with several targets or with a reserved keyword,
and targets that bind the name of a cell. -/
def storageViolations (t : Tree) : List Violation :=
  match t.assignParts with
  | none => []
  | some (targets, value) =>
    let ofCell :=
      match storageCell? p value with
      | none => []
      | some cell =>
        (if hasSeveralTargets targets then [.statement .severalTargets t.line cell] else [])
          ++ value.children.flatMap (cellKeywordViolations p)
    let bound := (targets.flatMap boundNames).filter p.isStorageCell
    ofCell ++ bound.map (.statement .keywordOverloading t.line)

/-- A node that is refused with all that is in it, and the breach that it is. -/
def refusal? (t : Tree) : Option Violation :=
  match t.kind with
  | .classDef | .asyncFunctionDef => some (.illegalDefinition t.kind)
  | .importFrom =>
    if p.allows .importFrom then some (.importFrom t.line)
    else some (.illegalSyntax .importFrom t.line)
  | kind => if p.allows kind then none else some (.illegalSyntax kind t.line)

def ownViolations (topLevel : Bool) (t : Tree) : List Violation :=
  match t.kind with
  | .name | .arg | .keyword | .functionDef => nameViolations t
  | .attributeOf => attributeViolations t
  | .importModule => t.children.flatMap (importedViolations r topLevel t.line)
  | .alias => aliasViolations t
  | .assign => storageViolations p t
  | _ => []

/-- Notes one decorator of the function `t`. Only a function at the top level is an export or the
constructor; the first of several constructors counts. -/
def decorate (topLevel : Bool) (t : Tree) (f : Findings) (decorator : Tree) : Findings :=
  let name := t.ident.getD ""
  match markOf? p decorator with
  | none =>
    let shown := decorator.dottedName.getD decorator.kind.label
    f.add (.statement .invalidDecorator decorator.line shown)
  | some mark =>
    if !topLevel then f
    else if p.isExport mark then f.addExport name
    else
      match f.constructor with
      | some _ => f.add (.statement .severalConstructors t.line name)
      | none => { f with constructor := some name }

def decorateAll (topLevel : Bool) (t : Tree) (f : Findings) : Findings :=
  let f :=
    if 1 < t.decorators.length then
      f.add (.statement .severalDecorators t.line (t.ident.getD ""))
    else f
  t.decorators.foldl (decorate p topLevel t) f

def examine (topLevel : Bool) (t : Tree) (f : Findings) : Findings :=
  let f := f.addAll (ownViolations p r topLevel t)
  if t.kind = .functionDef then decorateAll p topLevel t f else f

mutual
/-- Walks a tree. The nodes directly under a module are at the top level. -/
def visit (topLevel : Bool) (f : Findings) : Tree → Findings
  | .node kind line ident decorators children =>
    let t := Tree.node kind line ident decorators children
    match refusal? p t with
    | some v => f.add v
    | none =>
      let f := examine p r topLevel t f
      visitAll false (visitAll (kind == .module) f children) decorators

def visitAll (topLevel : Bool) (f : Findings) : List Tree → Findings
  | [] => f
  | t :: ts => visitAll topLevel (visit topLevel f t) ts
end

theorem visitAll_eq_foldl (topLevel : Bool) (f : Findings) (ts : List Tree) :
    visitAll p r topLevel f ts = ts.foldl (visit p r topLevel) f := by
  induction ts generalizing f with
  | nil => rw [visitAll]; rfl
  | cons t ts ih => rw [visitAll, ih, List.foldl_cons]

def run (module : Tree) : Findings :=
  let f := visit p r false .empty module
  if f.exportSeen then f else f.add .noExport

def inspect (module : Tree) : List Violation := (run p r module).violations.toList

def check (module : Tree) : Outcome := .ofViolations (inspect p r module)

def mark (name : String) (points : EntryPoints) (decorator : Tree) : EntryPoints :=
  match markOf? p decorator with
  | none => points
  | some m =>
    if p.isExport m && !points.exports.contains name then
      { points with exports := points.exports ++ [name] }
    else if p.isConstructor m && points.constructor.isNone then
      { points with constructor := some name }
    else points

def entryPoints (module : Tree) : EntryPoints :=
  module.functions.foldl (fun points t =>
    match t.ident with
    | none => points
    | some name => t.decorators.foldl (mark p name) points) ⟨[], none⟩

end

end Linter
end Gatehouse
