import Gatehouse.Grammar.Expression

/-!
Statements that take a line, or part of one.
-/
namespace Gatehouse.Grammar

def augmentations : List String :=
  ["+=", "-=", "*=", "/=", "@=", "//=", "%=", "**=", ">>=", "<<=", "&=", "^=", "|="]

section

variable (nested : Nested)

/-- The right side of an assignment, in which further assignments may stand, nested at most `n`
deep. -/
def rightSide : Nat → Reader Cst
  | 0 => Reader.refuseHere
  | n + 1 => do
    let x ← Reader.peek operand
    if x.token == .word "yield" then yieldExpression nested operand lineEnd
    else
      let items ← expressionItems nested operand lineEnd
      match ← assignment (rightSide n) items with
      | some c => return c
      | none => return asExpressionList items
where
  /-- The assignment that begins with the given expressions, if one of its signs follows. -/
  assignment (right : Reader Cst) (items : List Cst) : Reader (Option Cst) := do
    let x ← Reader.peek lineEnd
    let left : Reader Cst := do
      match targetOf? items with
      | some t => return t.inRole .left
      | none => Reader.refuse x
    match x.token with
    | .sign "=" =>
      let t ← left
      let equals ← Reader.accept x (.token "=")
      let value ← right
      return some (Cst.join .assignment [t, equals, value.inRole .right])
    | .sign ":" =>
      let t ← left
      let colon ← Reader.accept x (.token ":")
      let kind ← nested .typeHint operand lineEnd
      let start := [t, colon, kind.inRole .typeHint]
      match ← sign? lineEnd "=" with
      | none => return some (Cst.join .assignment start)
      | some equals =>
        let value ← right
        return some (Cst.join .assignment (start ++ [equals, value.inRole .right]))
    | .sign s =>
      if augmentations.contains s then
        let t ← left
        let op ← Reader.accept x (.token s)
        let value ← right
        return some (Cst.join .augmentedAssignment [t, op.inRole .operator, value.inRole .right])
      else return none
    | _ => return none

def expressionStatement (here : Expect) : Reader Cst := do
  let x ← Reader.peek here
  if x.token == .word "yield" then
    return Cst.join .expressionStatement [← yieldExpression nested here lineEnd]
  else
    let items ← expressionItems nested here lineEnd
    let s ← source
    match ← rightSide.assignment nested (rightSide nested (s.size + 2)) items with
    | some c => return Cst.join .expressionStatement [c]
    | none => return Cst.join .expressionStatement items

def endsHere : Reader Unit := do
  let x ← Reader.peek (orQuote lineEnd)
  if x.token == .newline || x.token == .sign ";" then pure () else Reader.refuse x

def whole (r : Reader Cst) : Reader Cst := do
  let c ← r
  endsHere
  return c

def imported (follow : Expect) : Reader Cst := do
  let called ← Cst.join .dottedName <$>
    separated "." follow (pure true) (name plain) [← name plain]
  match ← word? follow "as" with
  | none => return called.inRole .name
  | some as_ =>
    let other ← name plain
    return (Cst.join .aliasedImport [called.inRole .name, as_, other.inRole .alias]).inRole .name

/-- Imported names with commas; one may stand at the end. -/
def importList (follow : Expect) : Reader (List Cst) := do
  let first ← imported follow
  let more : Reader Bool := do
    match (← Reader.peek follow).token with
    | .word w => return isName w
    | _ => return false
  separated "," follow more (imported follow) [first]

/-- Points before a module's name. Three points together count as three. -/
def importPoints : Reader (List Cst) :=
  Reader.iterate (fun (read : List Cst) => do
    let x ← Reader.peek plain
    if x.token == .sign "." || x.token == .sign "..." then
      let point ← Reader.accept { x with token := .sign ".", stop := x.start + 1 } (.token ".")
      return .inl (read ++ [point])
    else return .inr read) []

/-- What an import takes from a module: everything, a list, or a list in parentheses. -/
def importTail (all : Bool) : Reader (List Cst) := do
  let x ← Reader.peek plain
  match x.token with
  | .sign "*" =>
    if all then return [Cst.join .wildcardImport [← Reader.accept x (.token "*")]]
    else Reader.refuse x
  | .sign "(" =>
    let open_ ← Reader.accept x (.token "(")
    let items ← importList closing
    let close ← sign closing ")"
    return [open_] ++ items ++ [close]
  | _ => importList lineEnd

def importFrom (x : Lexeme) : Reader Cst := do
  let head ← Reader.accept x (.token "from")
  let y ← Reader.peek plain
  if y.token == .word "__future__" then
    let future ← Reader.accept y (.token "__future__")
    let import_ ← word plain "import"
    let items ← importTail false
    return Cst.join .futureImportStatement ([head, future, import_] ++ items)
  else
    let points ← importPoints
    let base ←
      if points.isEmpty then
        Cst.join .dottedName <$> separated "." plain (pure true) (name plain) [← name plain]
      else
        let relative := [Cst.join .importPrefix points]
        let z ← Reader.peek plain
        match z.token with
        | .word w =>
          if isName w then
            let called ← Cst.join .dottedName <$>
              separated "." plain (pure true) (name plain) [← name plain]
            pure (Cst.join .relativeImport (relative ++ [called]))
          else pure (Cst.join .relativeImport relative)
        | _ => pure (Cst.join .relativeImport relative)
    let import_ ← word plain "import"
    let items ← importTail true
    return Cst.join .importFromStatement ([head, base.inRole .moduleName, import_] ++ items)

def printStatement (here : Expect) : Reader Cst := do
  let head ← word here "print"
  let argument (here : Expect) : Reader Cst :=
    Cst.inRole .argument <$> nested (.expression 0) here lineEnd
  let more : Reader Bool := startsExpression <$> Reader.peek (orQuote lineEnd)
  let x ← Reader.peek (orQuote lineEnd)
  if x.token == .sign ">>" then
    let into ← Reader.accept x (.token ">>")
    let file ← nested (.expression 0) operand lineEnd
    let rest ← separated "," lineEnd more (argument (orQuote lineEnd)) []
    return Cst.join .printStatement ([head, Cst.join .chevron [into, file]] ++ rest)
  else
    let first ← argument (orQuote lineEnd)
    let items ← separated "," lineEnd more (argument (orQuote lineEnd)) [first]
    return Cst.join .printStatement ([head] ++ items)

def execStatement (x : Lexeme) : Reader Cst := do
  let head ← Reader.accept x (.token "exec")
  let y ← Reader.peek (orQuote lineEnd)
  let code ←
    match y.token with
    | .quote => simpleString nested y
    | _ => name (orQuote lineEnd)
  let start := [head, code.inRole .code]
  match ← word? lineEnd "in" with
  | none => return Cst.join .execStatement start
  | some in_ =>
    let first ← nested (.expression 0) operand lineEnd
    let items ← separated "," lineEnd (pure true) (nested (.expression 0) operand lineEnd) [first]
    return Cst.join .execStatement (start ++ [in_] ++ items)

def typeAlias (here : Expect) : Reader Cst := do
  let head ← word here "type"
  let left ← nested .typeHint (orQuote lineEnd) plain
  let equals ← sign plain "="
  let right ← nested .typeHint operand lineEnd
  return Cst.join .typeAliasStatement [head, left.inRole .left, equals, right.inRole .right]

def nameList (x : Lexeme) (w : String) (tag : Tag) : Reader Cst := do
  let head ← Reader.accept x (.token w)
  let items ← separated "," lineEnd (pure true) (name plain) [← name plain]
  return Cst.join tag ([head] ++ items)

def optionalExpressions : Reader (List Cst) := do
  if startsExpression (← Reader.peek (orQuote lineEnd)) then
    return [← expressions nested (orQuote lineEnd) lineEnd]
  else return []

def simpleStatement (here : Expect) : Reader Cst := do
  let x ← Reader.peek here
  match x.token with
  | .word "import" =>
    let head ← Reader.accept x (.token "import")
    let items ← importList lineEnd
    return Cst.join .importStatement ([head] ++ items)
  | .word "from" => importFrom x
  | .word "print" =>
    Reader.orElse (whole (expressionStatement nested here)) (printStatement nested here)
  | .word "exec" =>
    let y ← Reader.peekPast (orQuote lineEnd) x
    match y.token with
    | .quote => execStatement nested x
    | .word w => if isName w then execStatement nested x else expressionStatement nested here
    | _ => expressionStatement nested here
  | .word "type" =>
    Reader.orElse (whole (typeAlias nested here)) (expressionStatement nested here)
  | .word "assert" =>
    let head ← Reader.accept x (.token "assert")
    let first ← nested (.expression 0) operand lineEnd
    let items ← separated "," lineEnd (pure true) (nested (.expression 0) operand lineEnd) [first]
    return Cst.join .assertStatement ([head] ++ items)
  | .word "return" =>
    let head ← Reader.accept x (.token "return")
    return Cst.join .returnStatement ([head] ++ (← optionalExpressions nested))
  | .word "del" =>
    let head ← Reader.accept x (.token "del")
    return Cst.join .deleteStatement [head, ← expressions nested operand lineEnd]
  | .word "raise" =>
    let head ← Reader.accept x (.token "raise")
    let value ← optionalExpressions nested
    match ← word? lineEnd "from" with
    | none => return Cst.join .raiseStatement ([head] ++ value)
    | some from_ =>
      let cause ← nested (.expression 0) operand lineEnd
      return Cst.join .raiseStatement ([head] ++ value ++ [from_, cause.inRole .cause])
  | .word "pass" => return Cst.join .passStatement [← Reader.accept x (.token "pass")]
  | .word "break" => return Cst.join .breakStatement [← Reader.accept x (.token "break")]
  | .word "continue" => return Cst.join .continueStatement [← Reader.accept x (.token "continue")]
  | .word "global" => nameList x "global" .globalStatement
  | .word "nonlocal" => nameList x "nonlocal" .nonlocalStatement
  | _ => expressionStatement nested here

def simpleStatements (here : Expect) : Reader (List Cst) := do
  let first ← simpleStatement nested here
  Reader.iterate (fun (read : List Cst) => do
    let x ← Reader.peek lineEnd
    match x.token with
    | .newline =>
      Reader.pass x
      return .inr read
    | .sign ";" =>
      let mark ← Reader.accept x (.token ";")
      let y ← Reader.peek (orQuote lineEnd)
      if y.token == .newline then
        Reader.pass y
        return .inr (read ++ [mark])
      else
        let next ← simpleStatement nested (orQuote lineEnd)
        return .inl (read ++ [mark, next])
    | _ => Reader.refuse x) [first]

end

end Gatehouse.Grammar
