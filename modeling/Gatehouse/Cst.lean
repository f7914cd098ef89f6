/-!
The concrete syntax tree: every word and sign of a source in its place. Nodes are of named kinds
or are bare tokens; a child may play a role in its parent. What could not be read stands in the
tree as a fault.
-/
namespace Gatehouse

/-- The kind of a node of the concrete tree. A `token` is a word or sign with no kind of its own.
An `error` is text that fits nowhere, a `missing` node a token that should have been there. -/
inductive Tag where
  | token (text : String)
  | error
  | missing (expected : String)
  | module | importStatement | importPrefix | relativeImport | futureImportStatement
  | importFromStatement | aliasedImport | wildcardImport | printStatement | chevron
  | assertStatement | expressionStatement | namedExpression | returnStatement | deleteStatement
  | raiseStatement | passStatement | breakStatement | continueStatement | ifStatement
  | elifClause | elseClause | matchStatement | caseClause | forStatement | whileStatement
  | tryStatement | exceptClause | finallyClause | withStatement | withClause | withItem
  | functionDefinition | parameters | lambdaParameters | listSplat | dictionarySplat
  | globalStatement | nonlocalStatement | execStatement | typeAliasStatement | classDefinition
  | typeParameter | parenthesizedListSplat | argumentList | decoratedDefinition | decorator
  | block | expressionList | dottedName | casePattern | asPattern | unionPattern | listPattern
  | tuplePattern | dictPattern | keywordPattern | splatPattern | classPattern | complexPattern
  | patternList | defaultParameter | typedDefaultParameter | typedParameter | listSplatPattern
  | dictionarySplatPattern | asPatternTarget | notOperator | booleanOperator | binaryOperator
  | unaryOperator | comparisonOperator | lambda | assignment | augmentedAssignment | yield
  | attributeAccess | subscript | slice | ellipsis | call | typeExpression | splatType
  | genericType | unionType | constrainedType | memberType | keywordArgument | listDisplay
  | setDisplay | tuple | dictionary | pair | listComprehension | dictionaryComprehension
  | setComprehension | generatorExpression | parenthesizedExpression | forInClause | ifClause
  | conditionalExpression | concatenatedString | stringLiteral | stringStart | stringContent
  | stringEnd | interpolation | formatSpecifier | formatExpression | typeConversion
  | integerLiteral | floatLiteral | identifier | trueLiteral | falseLiteral | noneLiteral | await
  | positionalSeparator | keywordSeparator | comment | lineContinuation
  deriving DecidableEq, Repr, Inhabited

inductive Role where
  | name | value | left | right | operator | operators | argument | condition | consequence
  | alternative | body | subject | definition | object | attributeName | subscript | function
  | arguments | parameters | returnType | typeParameters | superclasses | typeHint | alias
  | moduleName | cause | code | guard | key | expression | typeConversion | formatSpecifier
  deriving DecidableEq, Repr, Inhabited

namespace Tag

/-- The name of a kind, as messages show it; a token is named by its text. -/
def name : Tag → String
  | .token text => text
  | .error => "ERROR"
  | .missing expected => expected
  | .module => "module"
  | .importStatement => "import_statement"
  | .importPrefix => "import_prefix"
  | .relativeImport => "relative_import"
  | .futureImportStatement => "future_import_statement"
  | .importFromStatement => "import_from_statement"
  | .aliasedImport => "aliased_import"
  | .wildcardImport => "wildcard_import"
  | .printStatement => "print_statement"
  | .chevron => "chevron"
  | .assertStatement => "assert_statement"
  | .expressionStatement => "expression_statement"
  | .namedExpression => "named_expression"
  | .returnStatement => "return_statement"
  | .deleteStatement => "delete_statement"
  | .raiseStatement => "raise_statement"
  | .passStatement => "pass_statement"
  | .breakStatement => "break_statement"
  | .continueStatement => "continue_statement"
  | .ifStatement => "if_statement"
  | .elifClause => "elif_clause"
  | .elseClause => "else_clause"
  | .matchStatement => "match_statement"
  | .caseClause => "case_clause"
  | .forStatement => "for_statement"
  | .whileStatement => "while_statement"
  | .tryStatement => "try_statement"
  | .exceptClause => "except_clause"
  | .finallyClause => "finally_clause"
  | .withStatement => "with_statement"
  | .withClause => "with_clause"
  | .withItem => "with_item"
  | .functionDefinition => "function_definition"
  | .parameters => "parameters"
  | .lambdaParameters => "lambda_parameters"
  | .listSplat => "list_splat"
  | .dictionarySplat => "dictionary_splat"
  | .globalStatement => "global_statement"
  | .nonlocalStatement => "nonlocal_statement"
  | .execStatement => "exec_statement"
  | .typeAliasStatement => "type_alias_statement"
  | .classDefinition => "class_definition"
  | .typeParameter => "type_parameter"
  | .parenthesizedListSplat => "parenthesized_list_splat"
  | .argumentList => "argument_list"
  | .decoratedDefinition => "decorated_definition"
  | .decorator => "decorator"
  | .block => "block"
  | .expressionList => "expression_list"
  | .dottedName => "dotted_name"
  | .casePattern => "case_pattern"
  | .asPattern => "as_pattern"
  | .unionPattern => "union_pattern"
  | .listPattern => "list_pattern"
  | .tuplePattern => "tuple_pattern"
  | .dictPattern => "dict_pattern"
  | .keywordPattern => "keyword_pattern"
  | .splatPattern => "splat_pattern"
  | .classPattern => "class_pattern"
  | .complexPattern => "complex_pattern"
  | .patternList => "pattern_list"
  | .defaultParameter => "default_parameter"
  | .typedDefaultParameter => "typed_default_parameter"
  | .typedParameter => "typed_parameter"
  | .listSplatPattern => "list_splat_pattern"
  | .dictionarySplatPattern => "dictionary_splat_pattern"
  | .asPatternTarget => "as_pattern_target"
  | .notOperator => "not_operator"
  | .booleanOperator => "boolean_operator"
  | .binaryOperator => "binary_operator"
  | .unaryOperator => "unary_operator"
  | .comparisonOperator => "comparison_operator"
  | .lambda => "lambda"
  | .assignment => "assignment"
  | .augmentedAssignment => "augmented_assignment"
  | .yield => "yield"
  | .attributeAccess => "attribute"
  | .subscript => "subscript"
  | .slice => "slice"
  | .ellipsis => "ellipsis"
  | .call => "call"
  | .typeExpression => "type"
  | .splatType => "splat_type"
  | .genericType => "generic_type"
  | .unionType => "union_type"
  | .constrainedType => "constrained_type"
  | .memberType => "member_type"
  | .keywordArgument => "keyword_argument"
  | .listDisplay => "list"
  | .setDisplay => "set"
  | .tuple => "tuple"
  | .dictionary => "dictionary"
  | .pair => "pair"
  | .listComprehension => "list_comprehension"
  | .dictionaryComprehension => "dictionary_comprehension"
  | .setComprehension => "set_comprehension"
  | .generatorExpression => "generator_expression"
  | .parenthesizedExpression => "parenthesized_expression"
  | .forInClause => "for_in_clause"
  | .ifClause => "if_clause"
  | .conditionalExpression => "conditional_expression"
  | .concatenatedString => "concatenated_string"
  | .stringLiteral => "string"
  | .stringStart => "string_start"
  | .stringContent => "string_content"
  | .stringEnd => "string_end"
  | .interpolation => "interpolation"
  | .formatSpecifier => "format_specifier"
  | .formatExpression => "format_expression"
  | .typeConversion => "type_conversion"
  | .integerLiteral => "integer"
  | .floatLiteral => "float"
  | .identifier => "identifier"
  | .trueLiteral => "true"
  | .falseLiteral => "false"
  | .noneLiteral => "none"
  | .await => "await"
  | .positionalSeparator => "positional_separator"
  | .keywordSeparator => "keyword_separator"
  | .comment => "comment"
  | .lineContinuation => "line_continuation"

def isNamed : Tag → Bool
  | .token _ => false
  | .missing _ => false
  | _ => true

def isExtra : Tag → Bool
  | .comment | .lineContinuation => true
  | _ => false

def isFault : Tag → Bool
  | .error | .missing _ => true
  | _ => false

end Tag

namespace Role

def label : Role → String
  | .name => "name"
  | .value => "value"
  | .left => "left"
  | .right => "right"
  | .operator => "operator"
  | .operators => "operators"
  | .argument => "argument"
  | .condition => "condition"
  | .consequence => "consequence"
  | .alternative => "alternative"
  | .body => "body"
  | .subject => "subject"
  | .definition => "definition"
  | .object => "object"
  | .attributeName => "attribute"
  | .subscript => "subscript"
  | .function => "function"
  | .arguments => "arguments"
  | .parameters => "parameters"
  | .returnType => "return_type"
  | .typeParameters => "type_parameters"
  | .superclasses => "superclasses"
  | .typeHint => "type"
  | .alias => "alias"
  | .moduleName => "module_name"
  | .cause => "cause"
  | .code => "code"
  | .guard => "guard"
  | .key => "key"
  | .expression => "expression"
  | .typeConversion => "type_conversion"
  | .formatSpecifier => "format_specifier"

end Role

/-- A stretch of the source: its first byte, the byte after its last one, and the row of the first. -/
structure Span where
  start : Nat
  stop : Nat
  row : Nat
  deriving DecidableEq, Repr, Inhabited

inductive Cst where
  | node (tag : Tag) (role : Option Role) (span : Span) (children : List Cst)
  deriving Repr, Inhabited

namespace Cst

def tag : Cst → Tag
  | .node t _ _ _ => t

def role : Cst → Option Role
  | .node _ r _ _ => r

def span : Cst → Span
  | .node _ _ s _ => s

def children : Cst → List Cst
  | .node _ _ _ cs => cs

def line (c : Cst) : Nat := c.span.row + 1

/-- Does the node have a kind of its own and count as more than a remark? -/
def isProper (c : Cst) : Bool := c.tag.isNamed && !c.tag.isExtra

def proper (c : Cst) : List Cst := c.children.filter isProper

def child? (c : Cst) (r : Role) : Option Cst := c.children.find? (fun d => d.role == some r)

def childrenIn (c : Cst) (r : Role) : List Cst :=
  c.children.filter (fun d => d.role == some r && !d.tag.isExtra)

def hasToken (c : Cst) (text : String) : Bool :=
  c.children.any (fun d => d.tag == .token text)

def inRole (r : Role) : Cst → Cst
  | .node t _ s cs => .node t (some r) s cs

def retag (t : Tag) : Cst → Cst
  | .node _ r s cs => .node t r s cs

@[simp] theorem tag_inRole (r : Role) (c : Cst) : (c.inRole r).tag = c.tag := by cases c; rfl
@[simp] theorem role_inRole (r : Role) (c : Cst) : (c.inRole r).role = some r := by cases c; rfl
@[simp] theorem children_inRole (r : Role) (c : Cst) : (c.inRole r).children = c.children := by
  cases c; rfl

@[simp] theorem tag_retag (t : Tag) (c : Cst) : (c.retag t).tag = t := by cases c; rfl
@[simp] theorem role_retag (t : Tag) (c : Cst) : (c.retag t).role = c.role := by cases c; rfl
@[simp] theorem children_retag (t : Tag) (c : Cst) : (c.retag t).children = c.children := by
  cases c; rfl

/-- Joins children to a node, from the first byte of the first to the last byte of the last. -/
def join (t : Tag) (children : List Cst) : Cst :=
  match children with
  | [] => .node t none ⟨0, 0, 0⟩ []
  | first :: rest =>
    let last := rest.getLast?.getD first
    .node t none ⟨first.span.start, last.span.stop, first.span.row⟩ children

mutual
def size : Cst → Nat
  | .node _ _ _ cs => 1 + sizes cs

def sizes : List Cst → Nat
  | [] => 0
  | c :: cs => c.size + sizes cs
end

theorem sizes_append (as bs : List Cst) : sizes (as ++ bs) = sizes as + sizes bs := by
  induction as with
  | nil => simp [sizes]
  | cons a as ih => simp [sizes, ih, Nat.add_assoc]

theorem size_eq (c : Cst) : c.size = 1 + sizes c.children := by
  cases c; simp [size, children]

mutual
def hasFault : Cst → Bool
  | .node t _ _ cs => t.isFault || anyFault cs

def anyFault : List Cst → Bool
  | [] => false
  | c :: cs => c.hasFault || anyFault cs
end

end Cst
end Gatehouse
