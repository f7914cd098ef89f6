import Gatehouse.Cst
import Gatehouse.Source
import Gatehouse.Tree

/-!
Lowering: from the concrete tree to the tree that rules are stated on. Children come in the order
of meaning (a comparison's operators before its further operands, keywords after positional
arguments), so that a walk meets breaches in the order in which they are reported. Each kind of
the concrete tree lowers to one kind or is refused. Parts that the rules have no kind for (the
parameters of a function's types, the other name of an expression, an annotation inside of a chain
of assignments) are passed by. Statements and expressions may nest no deeper than `maxNesting`.
-/
namespace Gatehouse

inductive SyntaxFault where
  | invalid
  | unsupported (construct : String)
  | lacking (construct part : String)
  | tooDeep (limit : Nat)
  deriving DecidableEq, Repr

/-- A text that cannot be read: it is not text, or it has a fault on a line. -/
inductive ReadError where
  | encoding
  | syntaxError (line : Nat) (fault : SyntaxFault)
  deriving DecidableEq, Repr

namespace SyntaxFault

def message : SyntaxFault → String
  | .invalid => "invalid syntax"
  | .unsupported construct => "unsupported construct \x60" ++ construct ++ "\x60"
  | .lacking construct part => "\x60" ++ construct ++ "\x60 is missing its " ++ part
  | .tooDeep limit => "too many nested levels (limit " ++ toString limit ++ ")"

end SyntaxFault

namespace ReadError

def message : ReadError → String
  | .encoding => "Parse failure: Non-UTF-8 source"
  | .syntaxError line fault =>
    "Syntax error at line " ++ toString line ++ ": " ++ fault.message

end ReadError

namespace Lowering

def maxNesting : Nat := 200

abbrev Result (α : Type) := Except ReadError α

def unsupported {α : Type} (c : Cst) : Result α :=
  .error (.syntaxError c.line (.unsupported c.tag.name))

def required (c : Cst) (r : Role) : Result Cst :=
  match c.child? r with
  | some d => .ok d
  | none => .error (.syntaxError c.line (.lacking c.tag.name r.label))

def firstProper (c : Cst) : Result Cst :=
  match c.proper with
  | d :: _ => .ok d
  | [] => unsupported c

def text (s : Source) (c : Cst) : Result String :=
  match s.text? c.span.start c.span.stop with
  | some t => .ok t
  | none => .error .encoding

def binaryKind? : String → Option Kind
  | "+" => some .add
  | "-" => some .sub
  | "*" => some .mult
  | "@" => some .matMult
  | "/" => some .div
  | "%" => some .modulo
  | "**" => some .pow
  | "<<" => some .lShift
  | ">>" => some .rShift
  | "|" => some .bitOr
  | "^" => some .bitXor
  | "&" => some .bitAnd
  | "//" => some .floorDiv
  | _ => none

def unaryKind? : String → Option Kind
  | "-" => some .uSub
  | "+" => some .uAdd
  | "~" => some .invert
  | _ => none

def comparisonKind? : String → Option Kind
  | "==" => some .eq
  | "!=" | "<>" => some .notEq
  | "<" => some .lt
  | "<=" => some .ltE
  | ">" => some .gt
  | ">=" => some .gtE
  | "is" => some .isSame
  | "is not" => some .isNotSame
  | "in" => some .isIn
  | "not in" => some .isNotIn
  | _ => none

def augmentedSign (t : String) : String :=
  String.ofList (t.toList.reverse.dropWhile (· == '=')).reverse

def operatorOf (look : String → Option Kind) (op : Cst) : Result Kind :=
  match look op.tag.name with
  | some k => .ok k
  | none => unsupported op

/-- A display in a context: its elements and then the context. -/
def inContext (kind : Kind) (line : Nat) (elements : List Tree) (context : Kind) : Tree :=
  .branch kind line (elements ++ [.leaf context line])

def stringPrefix (t : String) : List Char :=
  (t.toList.takeWhile (fun c => c != '"' && c != '\'')).map Char.toLower

def stringKindOf (t : String) : Kind :=
  let letters := stringPrefix t
  if letters.contains 'f' || letters.contains 't' then .joinedStr
  else if letters.contains 'b' then .bytes
  else .str

def stringKind (s : Source) (c : Cst) : Result Kind := stringKindOf <$> text s c

/-- What two strings side by side are: interpolated if one is, else bytes if one is. -/
def joinKinds (kind next : Kind) : Kind :=
  if next = .joinedStr then .joinedStr
  else if next = .bytes ∧ kind = .str then .bytes
  else kind

def joinedKind (s : Source) : List Cst → Kind → Result Kind
  | [], kind => .ok kind
  | c :: cs, kind => do
    let next ← stringKind s c
    joinedKind s cs (joinKinds kind next)

theorem size_le_of_find {p : Cst → Bool} {cs : List Cst} {c : Cst} (h : cs.find? p = some c) :
    c.size ≤ Cst.sizes cs := by
  induction cs with
  | nil => simp at h
  | cons d ds ih =>
    rw [List.find?_cons] at h
    split at h
    · cases h; simp [Cst.sizes]
    · have := ih h; simp only [Cst.sizes]; omega

/-- Two children found by tests that exclude each other are two. -/
theorem sizes_le_of_find {p q : Cst → Bool} (hpq : ∀ c, p c = true → q c = false)
    {cs : List Cst} {c d : Cst} (hc : cs.find? p = some c) (hd : cs.find? q = some d) :
    c.size + d.size ≤ Cst.sizes cs := by
  induction cs with
  | nil => simp at hc
  | cons e es ih =>
    rw [List.find?_cons] at hc hd
    split at hc
    · rename_i hp
      cases hc
      rw [hpq _ hp] at hd
      have := size_le_of_find hd
      simp only [Cst.sizes]; omega
    · split at hd
      · cases hd
        have := size_le_of_find hc
        simp only [Cst.sizes]; omega
      · have := ih hc hd
        simp only [Cst.sizes]; omega

theorem sizes_left_right {c l r : Cst} (hl : c.child? .left = some l)
    (hr : c.child? .right = some r) : l.size + r.size < c.size := by
  have := sizes_le_of_find (p := fun d => d.role == some Role.left)
    (q := fun d => d.role == some Role.right)
    (by intro d hd; simp only [beq_iff_eq] at hd; rw [hd]; rfl) hl hr
  rw [Cst.size_eq c]; omega

def isLink (operator : String) (c : Cst) : Bool :=
  c.tag == .booleanOperator && (c.child? .operator).any (fun op => op.tag.name == operator)

/-- The operands of a chain of one operation of truth, from left to right. The links wait on a
stack, so that a long chain is not a deep one. A link that lacks an operand ends the list. -/
def chainOperands (operator : String) : List Cst → List (Result Cst)
  | [] => []
  | c :: pending =>
    if isLink operator c then
      match _hr : c.child? .right with
      | none => [required c .right]
      | some r =>
        match _hl : c.child? .left with
        | none => [required c .left]
        | some l => chainOperands operator (l :: r :: pending)
    else .ok c :: chainOperands operator pending
termination_by cs => Cst.sizes cs
decreasing_by
  · have := sizes_left_right _hl _hr
    simp only [Cst.sizes]; omega
  · have := Cst.size_eq c
    simp only [Cst.sizes]; omega

section

variable (s : Source) (lower : Cst → Kind → Result Tree)

def lowerAll (context : Kind) (cs : List Cst) : Result (List Tree) :=
  cs.mapM (fun c => lower c context)

/-- A slice: the bounds that are there. -/
def slice (c : Cst) : Result Tree := do
  return .branch .slice c.line (← lowerAll lower .load c.proper)

/-- A subscript among several: a slice or a value. -/
def subscriptPart (c : Cst) : Result Tree :=
  if c.tag = .slice then slice lower c else lower c .load

def subscripts (line : Nat) (cs : List Cst) : Result Tree := do
  match cs with
  | [c] =>
    if c.tag = .slice then slice lower c
    else return .branch .index line [← lower c .load]
  | many =>
    let parts ← many.mapM (subscriptPart lower)
    return .branch .index line [inContext .tuple line parts .load]

/-- An argument, on the left if it goes by position and on the right if it goes by keyword. -/
def argument (c : Cst) : Result (Tree ⊕ Tree) :=
  match c.tag with
  | .keywordArgument => do
    let key ← text s (← required c .name)
    let value ← lower (← required c .value) .load
    return .inr (.named .keyword c.line key [value])
  | .dictionarySplat => do
    let value ← lower (← firstProper c) .load
    return .inr (.branch .keyword c.line [value])
  | _ => .inl <$> lower c .load

/-- Arguments: those by position, then those by keyword, each in the order of the text. -/
def arguments (c : Cst) : Result (List Tree) := do
  let each ← c.proper.mapM (argument s lower)
  return each.filterMap Sum.getLeft? ++ each.filterMap Sum.getRight?

def parameterName (c : Cst) : Result Tree :=
  match c.tag with
  | .identifier => do return .named .arg c.line (← text s c) []
  | .listSplatPattern | .dictionarySplatPattern => do
    let inner ← firstProper c
    splatName inner
  | _ => unsupported c
where
  /-- The same under the splat; splats do not nest in a text. -/
  splatName : Cst → Result Tree
    | .node .identifier r sp cs => do
      return .named .arg (sp.row + 1) (← text s (.node .identifier r sp cs)) []
    | .node .listSplatPattern r sp cs => splatNames (.node .listSplatPattern r sp cs) cs
    | .node .dictionarySplatPattern r sp cs => splatNames (.node .dictionarySplatPattern r sp cs) cs
    | c => unsupported c
  /-- The first node of a kind of its own decides. -/
  splatNames (whole : Cst) : List Cst → Result Tree
    | [] => unsupported whole
    | c :: cs => if c.isProper then splatName c else splatNames whole cs

def annotatedParameter (c target : Cst) : Result Tree := do
  let arg ← parameterName s target
  match c.child? .typeHint with
  | none => return arg
  | some kind =>
    let kind ← lower kind .load
    return .node arg.kind arg.line arg.ident arg.decorators (arg.children ++ [kind])

/-- A parameter and its default value; separators are neither. -/
def parameter (c : Cst) : Result (Option Tree × Option Tree) :=
  match c.tag with
  | .identifier => do
    return (some (.named .arg c.line (← text s c) []), none)
  | .typedParameter => do
    return (some (← annotatedParameter s lower c (← firstProper c)), none)
  | .defaultParameter | .typedDefaultParameter => do
    let arg ← annotatedParameter s lower c (← required c .name)
    let value ← lower (← required c .value) .load
    return (some arg, some value)
  | .listSplatPattern | .dictionarySplatPattern => do
    return (some (← parameterName s c), none)
  | .keywordSeparator | .positionalSeparator => .ok (none, none)
  | _ => unsupported c

/-- Parameters, then default values, each in the order of the text. Without a list of parameters
the node is on the given line. -/
def parameters (c : Option Cst) (line : Nat) : Result Tree := do
  match c with
  | none => return .leaf .arguments line
  | some c =>
    let each ← c.proper.mapM (parameter s lower)
    return .branch .arguments c.line (each.filterMap (·.1) ++ each.filterMap (·.2))

/-- The keys and values of an entry of a dictionary; a splat has values only. -/
def dictionaryEntry (c : Cst) : Result (List Tree × List Tree) :=
  match c.tag with
  | .pair => do
    let key ← lower (← required c .key) .load
    let value ← lower (← required c .value) .load
    return ([key], [value])
  | .dictionarySplat => do return ([], ← lowerAll lower .load c.proper)
  | _ => unsupported c

def addToLast (t : Tree) : List Tree → Option (List Tree)
  | [] => none
  | [.node k l i ds cs] => some [.node k l i ds (cs ++ [t])]
  | u :: v :: rest => (addToLast t (v :: rest)).map (u :: ·)

/-- The values a clause of a comprehension runs over; several count as a tuple. -/
def sources (line : Nat) (cs : List Cst) : Result Tree := do
  match cs with
  | [c] => lower c .load
  | many => return inContext .tuple line (← lowerAll lower .load many) .load

/-- One clause more. A condition belongs to the last loop before it. -/
def clause (read : List Tree) (c : Cst) : Result (List Tree) :=
  match c.tag with
  | .forInClause => do
    let target ← lower (← required c .left) .store
    let values ← sources lower c.line (c.childrenIn .right)
    return read ++ [.branch .comprehension c.line [target, values]]
  | .ifClause => do
    let condition ← lower (← firstProper c) .load
    match addToLast condition read with
    | some read => return read
    | none => unsupported c
  | _ => unsupported c

/-- A comprehension: its element, or key and value, and then its loops. -/
def comprehension (kind : Kind) (c : Cst) : Result Tree := do
  let body ← required c .body
  let element ←
    if body.tag = .pair then do
      let key ← lower (← required body .key) .load
      let value ← lower (← required body .value) .load
      pure [key, value]
    else pure [← lower body .load]
  let loops ← (c.proper.drop 1).foldlM (clause lower) []
  return .branch kind c.line (element ++ loops)

/-- The node of an expression in a context; what is under it is lowered by `lower`. -/
def expressionNode (c : Cst) (context : Kind) : Result Tree := do
  let line := c.line
  match c.tag with
  | .identifier => return .named .name line (← text s c) [.leaf context line]
  | .attributeAccess =>
    let value ← lower (← required c .object) .load
    let last ← text s (← required c .attributeName)
    return .named .attributeOf line last [value, .leaf context line]
  | .subscript =>
    let value ← lower (← required c .value) .load
    let part ← subscripts lower line (c.childrenIn .subscript)
    return .branch .subscript line [value, part, .leaf context line]
  | .call =>
    let callee ← lower (← required c .function) .load
    let given ← required c .arguments
    if given.tag = .generatorExpression then
      return .branch .call line [callee, ← lower given .load]
    else return .branch .call line (callee :: (← arguments s lower given))
  | .binaryOperator =>
    let op ← operatorOf binaryKind? (← required c .operator)
    let left ← lower (← required c .left) .load
    let right ← lower (← required c .right) .load
    return .branch .binOp line [left, .leaf op line, right]
  | .unaryOperator =>
    let op ← operatorOf unaryKind? (← required c .operator)
    let value ← lower (← required c .argument) .load
    return .branch .unaryOp line [.leaf op line, value]
  | .notOperator =>
    let value ← lower (← required c .argument) .load
    return .branch .unaryOp line [.leaf .notOf line, value]
  | .booleanOperator =>
    let operator := (← required c .operator).tag.name
    let op := if operator = "and" then Kind.andOf else .orOf
    let operands ← (chainOperands operator [c]).mapM (fun r => do lower (← r) .load)
    return .branch .boolOp line (.leaf op line :: operands)
  | .comparisonOperator =>
    let ops ← (c.childrenIn .operators).mapM (operatorOf comparisonKind?)
    match c.proper with
    | [] => unsupported c
    | first :: rest =>
      let left ← lower first .load
      let right ← lowerAll lower .load rest
      return .branch .compare line ([left] ++ ops.map (.leaf · line) ++ right)
  | .integerLiteral | .floatLiteral => return .named .num line (← text s c) []
  | .stringLiteral => return .leaf (← stringKind s c) line
  | .concatenatedString => return .leaf (← joinedKind s c.proper .str) line
  | .trueLiteral => return .named .nameConstant line "True" []
  | .falseLiteral => return .named .nameConstant line "False" []
  | .noneLiteral => return .named .nameConstant line "None" []
  | .ellipsis => return .leaf .ellipsis line
  | .listDisplay | .listPattern =>
    return inContext .listDisplay line (← lowerAll lower context c.proper) context
  | .tuple | .expressionList | .patternList | .tuplePattern =>
    return inContext .tuple line (← lowerAll lower context c.proper) context
  | .setDisplay => return .branch .setDisplay line (← lowerAll lower .load c.proper)
  | .dictionary =>
    let each ← c.proper.mapM (dictionaryEntry lower)
    return .branch .dict line (each.flatMap (·.1) ++ each.flatMap (·.2))
  | .listComprehension => comprehension lower .listComp c
  | .setComprehension => comprehension lower .setComp c
  | .generatorExpression => comprehension lower .generatorExp c
  | .dictionaryComprehension => comprehension lower .dictComp c
  | .parenthesizedExpression | .typeExpression | .asPattern | .asPatternTarget =>
    lower (← firstProper c) context
  | .listSplat | .listSplatPattern =>
    let value ← lower (← firstProper c) context
    return .branch .starred line [value, .leaf context line]
  | .conditionalExpression =>
    match c.proper with
    | [body, test, other] =>
      let test ← lower test .load
      let body ← lower body .load
      let other ← lower other .load
      return .branch .ifExp line [test, body, other]
    | _ => unsupported c
  | .lambda =>
    let given ← parameters s lower (c.child? .parameters) line
    let body ← lower (← required c .body) .load
    return .branch .lambda line [given, body]
  | .namedExpression =>
    let key ← lower (← required c .name) .store
    let value ← lower (← required c .value) .load
    return .branch .namedExpr line [key, value]
  | .await => return .branch .await line [← lower (← firstProper c) .load]
  | .yield =>
    let kind := if c.hasToken "from" then Kind.yieldFrom else .yield
    return .branch kind line (← lowerAll lower .load c.proper)
  | _ => unsupported c

end

def expression (s : Source) : Nat → Cst → Kind → Result Tree
  | 0, c, _ => .error (.syntaxError c.line (.tooDeep maxNesting))
  | levels + 1, c, context => expressionNode s (expression s levels) c context

section

variable (s : Source) (lower : Cst → Kind → Result Tree)

/-- A module's name in an import, with the name it is bound to if that is another one. -/
def importAlias (c : Cst) : Result Tree :=
  match c.tag with
  | .dottedName => do return .named .alias c.line (← text s c) []
  | .aliasedImport => do
    let called ← text s (← required c .name)
    let bound ← lower (← required c .alias) .store
    return .named .alias c.line called [bound]
  | _ => unsupported c

def chain (right : Cst) : Result (List Tree) :=
  match right with
  | .node .assignment r sp cs => do
    let c := Cst.node .assignment r sp cs
    let target ← lower (← required c .left) .store
    let rest ← chainRight c cs
    return target :: rest
  | c => do return [← lower c .load]
where
  /-- The first child on the right of a link. -/
  chainRight (whole : Cst) : List Cst → Result (List Tree)
    | [] => .error (.syntaxError whole.line (.lacking whole.tag.name Role.right.label))
    | d :: ds => if d.role == some .right then chain d else chainRight whole ds

/-- An assignment on the line of its statement. An annotation makes it a declaration. -/
def assignment (c : Cst) (line : Nat) : Result Tree := do
  let target ← lower (← required c .left) .store
  match c.child? .typeHint with
  | some kind =>
    let kind ← lower kind .load
    match c.child? .right with
    | some value => return .branch .annAssign line [target, kind, ← lower value .load]
    | none => return .branch .annAssign line [target, kind]
  | none =>
    let rest ← chain lower (← required c .right)
    return .branch .assign line (target :: rest)

def augmentedAssignment (c : Cst) (line : Nat) : Result Tree := do
  let op ← operatorOf (fun t => binaryKind? (augmentedSign t)) (← required c .operator)
  let target ← lower (← required c .left) .store
  let value ← lower (← required c .right) .load
  return .branch .augAssign line [target, .leaf op line, value]

def expressionStatement (c : Cst) : Result Tree := do
  let line := c.line
  match c.proper with
  | [d] =>
    if d.tag = .assignment then assignment lower d line
    else if d.tag = .augmentedAssignment then augmentedAssignment lower d line
    else return .branch .expr line [← lower d .load]
  | many =>
    return .branch .expr line [inContext .tuple line (← lowerAll lower .load many) .load]

/-- The old printing statement is a call if its one argument is in parentheses. -/
def printStatement (c : Cst) : Result Tree := do
  match c.proper with
  | [d] =>
    if d.tag = .parenthesizedExpression ∨ d.tag = .tuple then
      if (← text s d).startsWith "(" then
        let given ← lowerAll lower .load d.proper
        let callee := Tree.named .name c.line "print" [.leaf .load c.line]
        return .branch .expr c.line [.branch .call c.line (callee :: given)]
      else unsupported c
    else unsupported c
  | _ => unsupported c

def deleted (c : Cst) : Result (List Tree) :=
  if c.tag = .expressionList then lowerAll lower .del c.proper
  else do return [← lower c .del]

def withItem (c : Cst) : Result Tree := do
  let value ← required c .value
  if value.tag = .asPattern then
    let context ← lowerAll lower .load (value.proper.take 1)
    let bound ← lowerAll lower .store (value.child? .alias).toList
    return .branch .withItem c.line (context ++ bound)
  else return .branch .withItem c.line [← lower value .load]

variable (block : Cst → Result (List Tree))

def body (c : Cst) (r : Role) : Result (List Tree) := do block (← required c r)

def otherwise (c : Cst) : Result (List Tree) :=
  match c.child? .alternative with
  | some clause => body block clause .body
  | none => .ok []

def handlerPart (c : Cst) : Result (List Tree) :=
  if c.tag = .block then block c else do return [← lower c .load]

def tryClause (c : Cst) : Result (List Tree) :=
  match c.tag with
  | .exceptClause => do
    let parts ← c.proper.mapM (handlerPart lower block)
    return [.branch .exceptHandler c.line parts.flatten]
  | .elseClause | .finallyClause => do
    let parts ← (c.proper.filter (·.tag == .block)).mapM block
    return parts.flatten
  | _ => .ok []

def function (c : Cst) (decorators : List Tree) : Result Tree := do
  let kind := if c.hasToken "async" then Kind.asyncFunctionDef else .functionDef
  let called ← text s (← required c .name)
  let given ← parameters s lower (c.child? .parameters) c.line
  let statements ← body block c .body
  let returned ← lowerAll lower .load (c.child? .returnType).toList
  return .node kind c.line (some called) decorators ([given] ++ statements ++ returned)

def classNode (c : Cst) (decorators : List Tree) : Result Tree := do
  let called ← text s (← required c .name)
  let bases ← match c.child? .superclasses with
    | some given => arguments s lower given
    | none => pure []
  let statements ← body block c .body
  return .node .classDef c.line (some called) decorators (bases ++ statements)

/-- The node of a statement; what is under it is lowered by the functions given. -/
def statementNode (branches : List Cst → Result (List Tree)) (c : Cst) : Result Tree := do
  let line := c.line
  match c.tag with
  | .expressionStatement => expressionStatement lower c
  | .returnStatement => return .branch .returnValue line (← lowerAll lower .load c.proper)
  | .passStatement => return .leaf .pass line
  | .breakStatement => return .leaf .breakLoop line
  | .continueStatement => return .leaf .continueLoop line
  | .ifStatement =>
    let condition ← lower (← required c .condition) .load
    let statements ← body block c .consequence
    let others ← branches (c.childrenIn .alternative)
    return .branch .ifElse line (condition :: statements ++ others)
  | .forStatement =>
    let kind := if c.hasToken "async" then Kind.asyncForEach else .forEach
    let target ← lower (← required c .left) .store
    let values ← lower (← required c .right) .load
    let statements ← body block c .body
    let others ← otherwise block c
    return .branch kind line ([target, values] ++ statements ++ others)
  | .whileStatement =>
    let condition ← lower (← required c .condition) .load
    let statements ← body block c .body
    let others ← otherwise block c
    return .branch .whileLoop line ([condition] ++ statements ++ others)
  | .functionDefinition => function s lower block c []
  | .classDefinition => classNode s lower block c []
  | .decoratedDefinition =>
    let decorators ← (c.proper.filter (·.tag == .decorator)).mapM
      (fun d => do lower (← firstProper d) .load)
    let definition ← required c .definition
    match definition.tag with
    | .functionDefinition => function s lower block definition decorators
    | .classDefinition => classNode s lower block definition decorators
    | _ => unsupported definition
  | .importStatement =>
    return .branch .importModule line (← (c.childrenIn .name).mapM (importAlias s lower))
  | .importFromStatement =>
    let base ← text s (← required c .moduleName)
    let names ← (c.childrenIn .name).mapM (importAlias s lower)
    let all := if c.proper.any (·.tag == .wildcardImport) then [Tree.named .alias line "*" []]
      else []
    return .named .importFrom line base (names ++ all)
  | .futureImportStatement =>
    return .named .importFrom line "__future__" (← (c.childrenIn .name).mapM (importAlias s lower))
  | .globalStatement => return .branch .globalNames line (← lowerAll lower .store c.proper)
  | .nonlocalStatement => return .branch .nonlocalNames line (← lowerAll lower .store c.proper)
  | .assertStatement => return .branch .assert line (← lowerAll lower .load c.proper)
  | .deleteStatement =>
    return .branch .delete line (← c.proper.mapM (deleted lower)).flatten
  | .raiseStatement => return .branch .raise line (← lowerAll lower .load c.proper)
  | .tryStatement =>
    let statements ← body block c .body
    let clauses ← c.proper.mapM (tryClause lower block)
    return .branch .tryExcept line (statements ++ clauses.flatten)
  | .withStatement =>
    let kind := if c.hasToken "async" then Kind.asyncWithBlock else .withBlock
    let items ← ((c.proper.filter (·.tag == .withClause)).flatMap Cst.proper).mapM
      (withItem lower)
    let statements ← body block c .body
    return .branch kind line (items ++ statements)
  | .matchStatement =>
    return .branch .matchCases line (← lowerAll lower .load (c.childrenIn .subject))
  | .typeAliasStatement => return .leaf .typeAlias line
  | .printStatement => printStatement s lower c
  | _ => unsupported c

end

mutual
def statement (s : Source) : Nat → Cst → Result Tree
  | 0, c => .error (.syntaxError c.line (.tooDeep maxNesting))
  | levels + 1, c =>
    statementNode s (expression s levels) (fun b => b.proper.mapM (statement s levels))
      (branches s levels) c

/-- Lowers what follows the block of a choice. A further condition is a choice in its place, one
level down; nothing is read after an `else`. -/
def branches (s : Source) : Nat → List Cst → Result (List Tree)
  | _, [] => .ok []
  | 0, c :: _ =>
    match c.tag with
    | .elseClause => body (fun b => b.proper.mapM (statement s 0)) c .body
    | .elifClause => .error (.syntaxError c.line (.tooDeep maxNesting))
    | _ => unsupported c
  | levels + 1, c :: rest =>
    match c.tag with
    | .elseClause => body (fun b => b.proper.mapM (statement s (levels + 1))) c .body
    | .elifClause => do
      let condition ← expression s levels (← required c .condition) .load
      let statements ← body (fun b => b.proper.mapM (statement s levels)) c .consequence
      let others ← branches s levels rest
      return [.branch .ifElse c.line (condition :: statements ++ others)]
    | _ => unsupported c
end

def module (s : Source) (c : Cst) : Result Tree := do
  return .branch .module 1 (← c.proper.mapM (statement s maxNesting))

end Lowering
end Gatehouse
