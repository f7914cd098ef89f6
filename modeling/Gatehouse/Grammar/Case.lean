import Gatehouse.Grammar.Expression

/-!
Patterns of case clauses.
-/
namespace Gatehouse.Grammar

/-- A number in a pattern, with a sign before it and a second number after it if it is complex. -/
def caseNumber (here follow : Expect) : Reader Cst := do
  let number (here : Expect) : Reader Cst := do
    let x ← Reader.peek here
    match x.token with
    | .integer => Reader.accept x .integerLiteral
    | .float => Reader.accept x .floatLiteral
    | _ => Reader.refuse x
  let minus ← sign? here "-"
  let first ← number (if minus.isSome then plain else here)
  let x ← Reader.peek follow
  match x.token with
  | .sign "+" | .sign "-" =>
    let op ← Reader.accept x (match x.token with | .sign t => .token t | _ => .error)
    let second ← number plain
    return Cst.join .complexPattern (minus.toList ++ [first, op, second])
  | _ =>
    match minus with
    | some m => return Cst.join .casePattern [m, first]
    | none => return first

def dottedName (here follow : Expect) : Reader Cst := do
  let first ← name here
  Cst.join .dottedName <$> separated "." follow (pure true) (name plain) [first]

section

variable (nested : Nested) (pattern : Expect → Expect → Reader Cst)

def splatPattern (x : Lexeme) (t : String) : Reader Cst := do
  let star ← Reader.accept x (.token t)
  let base ← name plain
  return Cst.join .splatPattern [star, base]

def patternGroup (close : String) (tag : Tag) (before : List Cst) (open_ : Lexeme) (t : String) :
    Reader Cst := do
  let head ← Reader.accept open_ (.token t)
  match ← sign? operandOrClose close with
  | some last => return Cst.join tag (before ++ [head, last])
  | none =>
    let first ← pattern operandOrClose closing
    let items ← separated "," closing (not <$> atSign operandOrClose close)
      (pattern operandOrClose closing) [first]
    let last ← sign closing close
    return Cst.join tag (before ++ [head] ++ items ++ [last])

def patternOperand (simple : Expect → Expect → Reader Cst) (here follow : Expect) :
    Reader Cst := do
  let x ← Reader.peek here
  match x.token with
  | .word "True" => Reader.accept x .trueLiteral
  | .word "False" => Reader.accept x .falseLiteral
  | .word "None" => Reader.accept x .noneLiteral
  | .word "_" => Reader.accept x (.token "_")
  | .word w =>
    if isName w then
      let called ← dottedName here follow
      let y ← Reader.peek follow
      if y.token == .sign "(" then patternGroup pattern ")" .classPattern [called] y "("
      else return called
    else Reader.refuse x
  | .integer | .float | .sign "-" => caseNumber here follow
  | .quote => strings nested x follow
  | .sign "*" => splatPattern x "*"
  | .sign "**" => splatPattern x "**"
  | .sign "(" => patternGroup pattern ")" .tuplePattern [] x "("
  | .sign "[" => patternGroup pattern "]" .listPattern [] x "["
  | .sign "\x7b" =>
    let entry (here : Expect) : Reader Cst := do
      let y ← Reader.peek here
      if y.token == .sign "*" then splatPattern y "*"
      else if y.token == .sign "**" then splatPattern y "**"
      else
        let key ← simple here plain
        let colon ← sign plain ":"
        let value ← pattern operand closing
        return Cst.join .pair [key.inRole .key, colon, value.inRole .value]
    patternGroup (fun here _ => entry here) "\x7d" .dictPattern [] x "\x7b"
  | _ => Reader.refuse x

def alternatives (one : Expect → Expect → Reader Cst) (here follow : Expect) : Reader Cst := do
  let first ← one here follow
  let items ← separated "|" follow (pure true) (one operand follow) [first]
  match items with
  | [c] => return c
  | cs => return Cst.join .unionPattern cs

def fullPattern (simple : Expect → Expect → Reader Cst) (here follow : Expect) : Reader Cst := do
  let x ← Reader.peek here
  let y ← Reader.peekPast follow x
  let base ←
    match x.token, y.token with
    | .word w, .sign "=" =>
      if isName w && w != "_" then
        let key ← Reader.accept x .identifier
        let equals ← sign follow "="
        let value ← simple operand follow
        pure (Cst.join .keywordPattern [key, equals, value])
      else Reader.refuse x
    | _, _ => simple here follow
  Reader.iterate (fun (left : Cst) => do
    match ← word? follow "as" with
    | none => return .inr left
    | some as_ =>
      let last ← name plain
      return .inl (Cst.join .casePattern [Cst.join .asPattern [left, as_, last]]))
    (Cst.join .casePattern [base])

end

/-- The two levels of patterns, nested at most `n` deep: alternatives where `simple`, else with
keywords and names. -/
def patternAt (nested : Nested) : Nat → (simple : Bool) → Expect → Expect → Reader Cst
  | 0, _, _, _ => Reader.refuseHere
  | n + 1, simple, here, follow =>
    let full := patternAt nested n false
    let alternative := alternatives
      (patternOperand nested full (patternAt nested n true))
    if simple then alternative here follow
    else fullPattern alternative here follow

def casePattern (nested : Nested) (here follow : Expect) : Reader Cst := fun s c =>
  patternAt nested (s.size + 2) false here follow s c

end Gatehouse.Grammar
