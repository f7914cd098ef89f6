import Gatehouse.Grammar.Statement
import Gatehouse.Grammar.Case

/-!
Statements that hold others, and whole texts. A block ends where a line stands further left than
it; a colon with nothing after it opens an empty block.
-/
namespace Gatehouse.Grammar

def statementStart (inBlock : Bool) : Expect := { dedent := inBlock, quote := true }

def blockStart : Expect := { indent := true, newline := true, quote := true }

section

variable (nested : Nested) (block : Reader (List Cst)) (inBlock : Bool)

/-- Statements as a block; an empty one takes no room. -/
def asBlock (statements : List Cst) : Reader Cst := do
  match statements with
  | [] => Reader.empty .block
  | cs => return Cst.join .block cs

/-- The block after a colon: statements on the line, an indented block, or nothing. -/
def suite : Reader Cst := do
  let x ← Reader.peek blockStart
  match x.token with
  | .indent =>
    Reader.pass x
    asBlock (← block)
  | .newline =>
    Reader.pass x
    Reader.empty .block
  | _ => asBlock (← simpleStatements nested blockStart)

def colonSuite (role : Role) : Reader (List Cst) := do
  let colon ← sign plain ":"
  let body ← suite nested block
  return [colon, body.inRole role]

def elseClause : Reader (List Cst) := do
  match ← word? (statementStart inBlock) "else" with
  | none => return []
  | some head => return [Cst.join .elseClause ([head] ++ (← colonSuite nested block .body))]

def ifStatement (x : Lexeme) : Reader Cst := do
  let head ← Reader.accept x (.token "if")
  let condition ← nested (.expression 0) operand plain
  let body ← colonSuite nested block .consequence
  let branches ← Reader.iterate (fun (read : List Cst) => do
    match ← word? (statementStart inBlock) "elif" with
    | none => return .inr read
    | some head =>
      let condition ← nested (.expression 0) operand plain
      let body ← colonSuite nested block .consequence
      let c := Cst.join .elifClause ([head, condition.inRole .condition] ++ body)
      return .inl (read ++ [c.inRole .alternative])) []
  let otherwise ← elseClause nested block inBlock
  return Cst.join .ifStatement ([head, condition.inRole .condition] ++ body ++ branches
    ++ otherwise.map (Cst.inRole .alternative))

def forStatement (before : List Cst) (here : Expect) : Reader Cst := do
  let head ← word here "for"
  let left ← leftSide (target nested)
  let in_ ← word plain "in"
  let right ← expressions nested operand plain
  let body ← colonSuite nested block .body
  let otherwise ← elseClause nested block inBlock
  return Cst.join .forStatement (before ++ [head, left.inRole .left, in_, right.inRole .right]
    ++ body ++ otherwise.map (Cst.inRole .alternative))

def whileStatement (x : Lexeme) : Reader Cst := do
  let head ← Reader.accept x (.token "while")
  let condition ← nested (.expression 0) operand plain
  let body ← colonSuite nested block .body
  let otherwise ← elseClause nested block inBlock
  return Cst.join .whileStatement ([head, condition.inRole .condition] ++ body
    ++ otherwise.map (Cst.inRole .alternative))

def exceptClause (head : Cst) : Reader Cst := do
  let star ← sign? operand "*"
  let x ← Reader.peek operand
  let values ←
    if x.token == .sign ":" then pure []
    else
      let first ← nested (.expression 0) operand plain
      separated "," plain (pure true) (Cst.inRole .value <$> nested (.expression 0) operand plain)
        [first.inRole .value]
  let colon ← sign plain ":"
  let body ← suite nested block
  return Cst.join .exceptClause ([head] ++ star.toList ++ values ++ [colon, body])

def tryStatement (x : Lexeme) : Reader Cst := do
  let head ← Reader.accept x (.token "try")
  let body ← colonSuite nested block .body
  let handlers ← Reader.iterate (fun (read : List Cst) => do
    match ← word? (statementStart inBlock) "except" with
    | none => return .inr read
    | some head => return .inl (read ++ [← exceptClause nested block head])) []
  let otherwise ← elseClause nested block inBlock
  let last ← do
    match ← word? (statementStart inBlock) "finally" with
    | none => pure []
    | some head =>
      let colon ← sign plain ":"
      let body ← suite nested block
      pure [Cst.join .finallyClause [head, colon, body]]
  return Cst.join .tryStatement ([head] ++ body ++ handlers ++ otherwise ++ last)

def withItem (c : Cst) : Cst := Cst.join .withItem [c.inRole .value]

def isPlainEntry (c : Cst) : Bool :=
  c.tag != .yield && (c.tag != .listSplat || c.children.any isSplatTarget)

/-- A tuple of two or more plain entries stands for as many contexts in parentheses. -/
def withClause (items : List Cst) : Cst :=
  let each := items.map (fun c => if c.tag == .token "," then c else withItem c)
  match items with
  | [c] =>
    let entries := c.proper
    if c.tag == .tuple && decide (2 ≤ entries.length) && entries.all isPlainEntry then
      Cst.join .withClause
        (c.children.map (fun d => if d.tag.isNamed then withItem d else d))
    else Cst.join .withClause each
  | _ => Cst.join .withClause each

def withStatement (before : List Cst) (here : Expect) : Reader Cst := do
  let head ← word here "with"
  let items ← expressionItems nested operand plain
  let body ← colonSuite nested block .body
  return Cst.join .withStatement (before ++ [head, withClause items] ++ body)

def typeParameters : Reader (List Cst) := do
  match ← sign? plain "[" with
  | none => return []
  | some open_ =>
    let first ← nested .typeHint operand closing
    let items ← separated "," closing (not <$> atSign operandOrClose "]")
      (nested .typeHint operandOrClose closing) [first]
    let close ← sign closing "]"
    return [(Cst.join .typeParameter ([open_] ++ items ++ [close])).inRole .typeParameters]

def functionDefinition (before : List Cst) (here : Expect) : Reader Cst := do
  let head ← word here "def"
  let called ← name plain
  let types ← typeParameters nested
  let open_ ← sign plain "("
  let tuple (here : Expect) : Reader Cst := do
    match toPattern? (← parentheses nested (target nested) (← Reader.peek here)) with
    | some p => return p
    | none => Reader.refuseHere
  let given ←
    if ← atSign closing ")" then pure []
    else parameterList (parameter nested (splatted nested) tuple true) closing closing
  let close ← sign closing ")"
  let parameters := (Cst.join .parameters ([open_] ++ given ++ [close])).inRole .parameters
  let start := before ++ [head, called.inRole .name] ++ types ++ [parameters]
  match ← sign? plain "->" with
  | none => return Cst.join .functionDefinition (start ++ (← colonSuite nested block .body))
  | some arrow =>
    let returning (constrained : Bool) : Reader Cst := do
      let kind ← annotationWith nested constrained operand plain
      let body ← colonSuite nested block .body
      return Cst.join .functionDefinition (start ++ [arrow, kind.inRole .returnType] ++ body)
    Reader.orElse (returning false) (returning true)

def classDefinition (here : Expect) : Reader Cst := do
  let head ← word here "class"
  let called ← name plain
  let types ← typeParameters nested
  let x ← Reader.peek plain
  let bases ←
    if x.token == .sign "(" then
      pure [(← arguments nested (target nested) false x).inRole .superclasses]
    else pure []
  let body ← colonSuite nested block .body
  return Cst.join .classDefinition ([head, called.inRole .name] ++ types ++ bases ++ body)

def decoratedDefinition (here : Expect) : Reader Cst := do
  let decorators ← Reader.iterate (fun ((read, here) : List Cst × Expect) => do
    match ← sign? here "@" with
    | none => return .inr read
    | some at_ =>
      let value ← nested (.expression 0) operand lineEnd
      let x ← Reader.peek lineEnd
      if x.token == .newline then
        Reader.passWithin x
        return .inl (read ++ [Cst.join .decorator [at_, value]], plain)
      else Reader.refuse x) ([], here)
  let x ← Reader.peek plain
  let definition ←
    match x.token with
    | .word "class" => classDefinition nested block plain
    | .word "async" =>
      let async_ ← Reader.accept x (.token "async")
      functionDefinition nested block [async_] plain
    | _ => functionDefinition nested block [] plain
  return Cst.join .decoratedDefinition (decorators ++ [definition.inRole .definition])

def caseClause (head : Cst) : Reader Cst := do
  let first ← casePattern nested operand plain
  let patterns ← separated "," plain
    (do
      let x ← Reader.peek operand
      return x.token != .sign ":" && x.token != .word "if")
    (casePattern nested operand plain) [first]
  let guard ← do
    match ← word? plain "if" with
    | none => pure []
    | some if_ =>
      let condition ← nested (.expression 0) operand plain
      pure [(Cst.join .ifClause [if_, condition]).inRole .guard]
  let body ← colonSuite nested block .consequence
  return Cst.join .caseClause ([head] ++ patterns ++ guard ++ body)

def matchStatement (here : Expect) : Reader Cst := do
  let head ← word here "match"
  let follow := orQuote lineEnd
  let first ← nested (.expression 0) follow plain
  let subjects ← separated "," plain (startsExpression <$> Reader.peek operand)
    (Cst.inRole .subject <$> nested (.expression 0) operand plain) [first.inRole .subject]
  let colon ← sign plain ":"
  let x ← Reader.peek { indent := true, newline := true }
  let cases ←
    match x.token with
    | .indent =>
      Reader.pass x
      Reader.iterate (fun (read : List Cst) => do
        let y ← Reader.peek { dedent := true }
        match y.token with
        | .dedent =>
          Reader.pass y
          return .inr read
        | .word "case" =>
          let head ← Reader.accept y (.token "case")
          let c ← caseClause nested block head
          return .inl (read ++ [c.inRole .alternative])
        | _ => Reader.refuse y) []
    | .newline =>
      Reader.pass x
      pure []
    | _ => Reader.refuse x
  let body ← asBlock cases
  return Cst.join .matchStatement ([head] ++ subjects ++ [colon, body.inRole .body])

def statement (here : Expect) : Reader (List Cst) := do
  let x ← Reader.peek here
  let one (r : Reader Cst) : Reader (List Cst) := do return [← r]
  match x.token with
  | .word "if" => one (ifStatement nested block inBlock x)
  | .word "for" => one (forStatement nested block inBlock [] here)
  | .word "while" => one (whileStatement nested block inBlock x)
  | .word "try" => one (tryStatement nested block inBlock x)
  | .word "with" => one (withStatement nested block [] here)
  | .word "def" => one (functionDefinition nested block [] here)
  | .word "class" => one (classDefinition nested block here)
  | .sign "@" => one (decoratedDefinition nested block here)
  | .word "match" =>
    Reader.orElse (simpleStatements nested here) (one (matchStatement nested block here))
  | .word "async" =>
    let y ← Reader.peekPast lineEnd x
    match y.token with
    | .word "def" =>
      let async_ ← Reader.accept x (.token "async")
      one (functionDefinition nested block [async_] lineEnd)
    | .word "for" =>
      let async_ ← Reader.accept x (.token "async")
      one (forStatement nested block inBlock [async_] lineEnd)
    | .word "with" =>
      let async_ ← Reader.accept x (.token "async")
      one (withStatement nested block [async_] lineEnd)
    | _ => simpleStatements nested here
  | _ => simpleStatements nested here

end

/-- The statements of a block up to its end, or of the whole text, nested at most `n` deep. -/
def statements : Nat → (inBlock : Bool) → Reader (List Cst)
  | 0, _ => Reader.refuseHere
  | n + 1, inBlock =>
    Reader.iterate (fun (read : List Cst) => do
      let here := statementStart inBlock
      let x ← Reader.peek here
      match x.token, inBlock with
      | .dedent, true =>
        Reader.pass x
        return .inr read
      | .ending, false => return .inr read
      | _, _ =>
        let next ← statement nested (statements n true) inBlock here
        return .inl (read ++ next)) []

def wholeText : Reader (List Cst) := fun s c => statements (s.size + 2) false s c

/-- Before anything is read. A mark of the order of bytes is no part of the text. -/
def beginning (s : Source) : Cursor :=
  ⟨if s.peek 0 == '\uFEFF' then 1 else 0, Layout.initial, [], none⟩

/-- The row of the fault that a refusal shows. A token that stands in the way of text that fits
without it is the fault itself. -/
def faultRow (s : Source) (e : Refusal) : Nat :=
  let row := s.row e.reach
  if row ≤ e.row then e.row
  else
    match wholeText (s.blanked e.reach e.stop) (beginning s) with
    | .ok _ => row
    | .error f => if row < f.row then row else e.row

/-- The stretch of a whole text: it starts with the first statement, or with a remark before that. -/
def spanOf (s : Source) (cs : List Cst) : Span :=
  let first := Lexeme.spanEnd s Lexeme.isBlank 0
  match cs with
  | [] => ⟨s.offset first, s.bytes.size, s.row first⟩
  | c :: _ => ⟨min (s.offset first) c.span.start, s.bytes.size, min (s.row first) c.span.row⟩

/-- The tree of a text. A text that does not fit the grammar has a fault in its tree, on the row
that is to blame. -/
def tree (s : Source) : Cst :=
  match wholeText s (beginning s) with
  | .ok (cs, _) => .node .module none (spanOf s cs) cs
  | .error e =>
    .node .module none ⟨0, s.bytes.size, 0⟩
      [.node .error none ⟨0, s.bytes.size, faultRow s e⟩ []]

end Gatehouse.Grammar
