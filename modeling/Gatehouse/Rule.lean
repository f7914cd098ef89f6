/-!
The thirteen rules a contract can breach, in the fixed order that numbers them.
-/
namespace Gatehouse

inductive Rule where
  | illegalSyntax
  | underscore
  | nestedImport
  | importFrom
  | unknownContract
  | classDefinition
  | asyncFunction
  | invalidDecorator
  | severalConstructors
  | severalDecorators
  | keywordOverloading
  | severalTargets
  | noExport
  deriving DecidableEq, Repr, Inhabited

namespace Rule

def all : List Rule :=
  [.illegalSyntax, .underscore, .nestedImport, .importFrom, .unknownContract, .classDefinition,
   .asyncFunction, .invalidDecorator, .severalConstructors, .severalDecorators,
   .keywordOverloading, .severalTargets, .noExport]

def number (r : Rule) : Nat := all.idxOf r + 1

def code (r : Rule) : String := "S" ++ toString r.number

def description : Rule → String
  | .illegalSyntax => "Illegal seneca syntax type used"
  | .underscore => "Illicit use of '_' before variable"
  | .nestedImport => "Illicit use of Nested imports"
  | .importFrom => "ImportFrom ast nodes not yet supported"
  | .unknownContract => "Contract not found in lib"
  | .classDefinition => "Illicit use of classes"
  | .asyncFunction => "Illicit use of Async functions"
  | .invalidDecorator => "Invalid decorator used"
  | .severalConstructors => "Multiple use of constructors detected"
  | .severalDecorators => "Illicit use of multiple decorators"
  | .keywordOverloading => "Illicit keyword overloading"
  | .severalTargets => "Multiple targets to ORM definition detected"
  | .noExport => "no valid export found"

/-- What every message about a rule says: its code and its description. -/
def trigger (r : Rule) : String := r.code ++ "- " ++ r.description

def ofCode? (s : String) : Option Rule := all.find? (fun r => r.code == s)

end Rule
end Gatehouse
