import Gatehouse.Grammar.Word

/-!
Lists of expressions, and strings with what is interpolated in them.
-/
namespace Gatehouse.Grammar

/-- Expressions with commas between them; a comma may stand at the end. Answers the expressions
with the commas. -/
def expressionItems (nested : Nested) (here follow : Expect) : Reader (List Cst) := do
  let first ← nested (.expression 0) here follow
  separated "," follow (startsExpression <$> Reader.peek (orQuote follow))
    (nested (.expression 0) (orQuote follow) follow) [first]

/-- One expression as it is, several or one with a comma as a list. -/
def asExpressionList (items : List Cst) : Cst :=
  match items with
  | [c] => c
  | cs => Cst.join .expressionList cs

def expressions (nested : Nested) (here follow : Expect) : Reader Cst :=
  asExpressionList <$> expressionItems nested here follow

def yieldExpression (nested : Nested) (here follow : Expect) : Reader Cst := do
  let head ← word here "yield"
  let x ← Reader.peek (orQuote follow)
  if x.token == .word "from" then
    let from_ ← Reader.accept x (.token "from")
    let value ← nested (.expression 0) operand follow
    return Cst.join .yield [head, from_, value]
  else if startsExpression x then
    let value ← expressions nested (orQuote follow) follow
    return Cst.join .yield [head, value]
  else return Cst.join .yield [head]

def isHex : Char → Bool := Lexeme.isHexDigit

def areAll (s : Source) (p : Char → Bool) (i : Nat) : Nat → Bool
  | 0 => true
  | n + 1 => !s.atEnd i && p (s.peek i) && areAll s p (i + 1) n

/-- The end of the escape that begins with the backslash at `i`. A backslash that begins none
stands for itself. -/
def escapeEnd (s : Source) (i : Nat) : Nat :=
  let c := s.peek (i + 1)
  let digit (k : Nat) : Bool := (s.peek k).isDigit
  if c == 'u' && areAll s isHex (i + 2) 4 then i + 6
  else if c == 'U' && areAll s isHex (i + 2) 8 then i + 10
  else if c == 'x' && areAll s isHex (i + 2) 2 then i + 4
  else if c.isDigit then
    if digit (i + 2) then (if digit (i + 3) then i + 4 else i + 3) else i + 2
  else if c == '\n' then i + 2
  else if c == '\r' && s.peek (i + 2) == '\n' then i + 3
  else if ['\'', '"', 'a', 'b', 'f', 'r', 'n', 't', 'v', '\\'].contains c then i + 2
  else if c == 'N' && s.peek (i + 2) == '\x7b' then
    let stop := Lexeme.spanEnd s (fun d => d != '\x7d' && d != '\x00') (i + 3)
    if i + 3 < stop && s.peek stop == '\x7d' then stop + 1 else i + 1
  else i + 1

def stretch (c : Cursor) (t : Token) (start stop : Nat) : Lexeme := ⟨t, start, stop, c.layout⟩

def stringPart (tag : Tag) (stop : Nat) : Reader Cst := do
  let c ← Reader.cursor
  Reader.accept (stretch c .stray c.place stop) tag

def source : Reader Source := fun s c => .ok (s, c)

def conversion? : Reader (Option Cst) := do
  let x ← Reader.peek closing
  let s ← source
  let letter := s.peek x.stop
  if x.token == .sign "!" && decide ('a' ≤ letter) && decide (letter ≤ 'z') then
    some <$> Reader.accept { x with stop := x.stop + 1 } .typeConversion
  else return none

mutual
/-- From the opening brace of an interpolation to its closing one, which is left. -/
def interpolation (nested : Nested) (tag : Tag) : Nat → Lexeme → Reader Cst
  | 0, x => Reader.refuse x
  | n + 1, x => do
    let open_ ← Reader.accept x (.token "\x7b")
    let y ← Reader.peek operand
    let value ←
      if y.token == .word "yield" then yieldExpression nested operand closing
      else expressions nested operand closing
    let equals ← sign? closing "="
    let conversion ← conversion?
    let z ← Reader.peek closing
    let format ←
      if z.token == .sign ":" || z.token == .sign ":=" then
        some <$> formatSpecifier nested n { z with token := .sign ":", stop := z.start + 1 }
      else pure none
    let close ← sign closing "\x7d"
    return Cst.join tag ([open_, value.inRole .expression] ++ equals.toList
      ++ (conversion.map (Cst.inRole .typeConversion)).toList
      ++ (format.map (Cst.inRole .formatSpecifier)).toList ++ [close])

def formatSpecifier (nested : Nested) : Nat → Lexeme → Reader Cst
  | 0, x => Reader.refuse x
  | n + 1, x => do
    let colon ← Reader.accept x (.token ":")
    Reader.iterate (fun (read : List Cst) => do
      let c ← Reader.cursor
      let s ← source
      let ch := s.peek c.place
      if s.atEnd c.place || ch == '\x00' then Reader.refuseHere
      else if ch == '\x7d' then return .inr (Cst.join .formatSpecifier read)
      else if ch == '\x7b' then
        let y := stretch c (.sign "\x7b") c.place (c.place + 1)
        let inner ← interpolation nested .formatExpression n y
        return .inl (read ++ [inner])
      else if ch == '\n' then
        Reader.goTo { c with place := c.place + 1 }
        return .inl read
      else
        let stop := Lexeme.spanEnd s
          (fun d => d != '\x7b' && d != '\x7d' && d != '\n' && d != '\x00') c.place
        let text ← stringPart (.token "") stop
        return .inl (read ++ [text])) [colon]
end

def simpleString (nested : Nested) (x : Lexeme) : Reader Cst := do
  let start ← Reader.accept x .stringStart
  Reader.iterate (fun (read : List Cst) => do
    let c ← Reader.cursor
    let s ← source
    match c.layout.strings with
    | [] => Reader.refuseHere
    | d :: _ =>
      match Layout.piece s d c.place with
      | .content stop =>
        let part ← stringPart .stringContent stop
        return .inl (read ++ [part])
      | .doubledBrace stop =>
        let part ← stringPart .stringContent stop
        return .inl (read ++ [part])
      | .close stop =>
        let part ← stringPart .stringEnd stop
        let after ← Reader.cursor
        Reader.goTo { after with
          layout := Layout.closeString after.layout, opened := after.opened.tail }
        return .inr (Cst.join .stringLiteral (read ++ [part]))
      | .other =>
        if s.peek c.place == '\\' then
          let part ← stringPart .stringContent (escapeEnd s c.place)
          return .inl (read ++ [part])
        else
          let i := Lexeme.spanEnd s Lexeme.isBlank c.place
          if s.peek i == '\x7b' then
            let y := stretch c (.sign "\x7b") i (i + 1)
            let inner ← interpolation nested .interpolation s.size y
            return .inl (read ++ [inner])
          else if s.peek i == '#' then
            Reader.goTo { c with place := Layout.remarkEnd s i }
            return .inl read
          else
            match Lexeme.continuedLine? s i with
            | some stop =>
              Reader.goTo { c with place := stop }
              return .inl read
            | none => Reader.refuseHere) [start]

def strings (nested : Nested) (x : Lexeme) (follow : Expect) : Reader Cst := do
  let first ← simpleString nested x
  let all ← Reader.iterate (fun (read : List Cst) => do
    let y ← Reader.peek (orQuote follow)
    if y.token == .quote then
      let next ← simpleString nested y
      return .inl (read ++ [next])
    else return .inr read) [first]
  match all with
  | [c] => return c
  | cs => return Cst.join .concatenatedString cs

end Gatehouse.Grammar
