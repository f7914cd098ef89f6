import Gatehouse.Kind
import Gatehouse.Rule

/-!
A breach of a rule, and the fixed wording that reports it.
-/
namespace Gatehouse

inductive Template where
  | spaced
  | compact
  | lineOnly
  | accessDenied
  | illegalType
  | terminal
  deriving DecidableEq, Repr, Inhabited

def Template.label : Template → String
  | .spaced => "spaced"
  | .compact => "compact"
  | .lineOnly => "line_only"
  | .accessDenied => "access_denied"
  | .illegalType => "illegal_type"
  | .terminal => "terminal"

/-- A breach. A class and an asynchronous function are reported by their kind and without a line, a
missing export without either. -/
inductive Violation where
  | illegalSyntax (kind : Kind) (line : Nat)
  | underscore (name : String) (line : Nat)
  | attributeAccess (name : String) (line : Nat)
  | importFrom (line : Nat)
  | illegalDefinition (kind : Kind)
  | statement (rule : Rule) (line : Nat) (detail : String)
  | noExport
  deriving DecidableEq, Repr, Inhabited

namespace Violation

def rule : Violation → Rule
  | .illegalSyntax _ _ => .illegalSyntax
  | .underscore _ _ | .attributeAccess _ _ => .underscore
  | .importFrom _ => .importFrom
  | .illegalDefinition kind => if kind = .classDef then .classDefinition else .asyncFunction
  | .statement rule _ _ => rule
  | .noExport => .noExport

def line? : Violation → Option Nat
  | .illegalSyntax _ line | .underscore _ line | .attributeAccess _ line | .importFrom line
  | .statement _ line _ => some line
  | .illegalDefinition _ | .noExport => none

/-- The text at fault: a kind, a name, a module or a decorator. -/
def detail? : Violation → Option String
  | .illegalSyntax kind _ | .illegalDefinition kind => some kind.label
  | .underscore name _ | .attributeAccess name _ => some name
  | .statement _ _ detail => some detail
  | .importFrom _ | .noExport => none

def template : Violation → Template
  | .illegalSyntax _ _ | .underscore _ _ => .spaced
  | .attributeAccess _ _ => .accessDenied
  | .importFrom _ => .lineOnly
  | .illegalDefinition _ => .illegalType
  | .statement _ _ _ => .compact
  | .noExport => .terminal

/-- The wording of a breach. That of an attribute leaves its line out. -/
def message (v : Violation) : String :=
  let line := toString (v.line?.getD 0)
  let detail := v.detail?.getD ""
  let trigger := v.rule.trigger
  match v.template with
  | .spaced => "Line " ++ line ++ " : " ++ trigger ++ " : " ++ detail
  | .compact => "Line " ++ line ++ ": " ++ trigger ++ ": " ++ detail
  | .lineOnly => "Line " ++ line ++ ": " ++ trigger
  | .accessDenied => "Error : Incorrect use of <_> access denied for var : " ++ detail
  | .illegalType => "Error : Illegal AST type: " ++ detail
  | .terminal => trigger

end Violation
end Gatehouse
