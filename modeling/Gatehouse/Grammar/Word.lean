import Gatehouse.Reader

/-!
Words and signs of the grammar: which words are reserved, what can begin an expression, and readers
for single tokens.
-/
namespace Gatehouse.Grammar

/-- A phrase whose reading may nest: expressions down to a tier, operations down to a binding
power, what a comprehension runs over, and annotations. -/
inductive Phrase where
  | expression (tier : Nat)
  | primary (power : Nat)
  | iterable
  | typeHint
  deriving DecidableEq, Repr

/-- Reads a phrase. The first expectation holds at its first token, the second after its last. -/
abbrev Nested := Phrase → Expect → Expect → Reader Cst

def reserved : List String :=
  ["False", "await", "else", "import", "pass", "None", "break", "except", "in", "raise", "True",
   "class", "finally", "is", "return", "and", "continue", "for", "lambda", "try", "as", "def",
   "from", "nonlocal", "while", "assert", "del", "global", "not", "with", "async", "elif", "if",
   "or", "yield"]

def isName (w : String) : Bool := !reserved.contains w

/-- May the word name a value? Two reserved words may, where nothing else makes sense of them. -/
def isValueName (w : String) : Bool := isName w || w == "async" || w == "await"

/-- Words of the grammar that are not reserved; they name values where they cannot do their part. -/
def isSoftWord (w : String) : Bool :=
  w == "print" || w == "exec" || w == "async" || w == "await" || w == "match"

def operandSigns : List String := ["(", "[", "\x7b", "-", "+", "~", "*", "..."]

def startsOperand (x : Lexeme) : Bool :=
  match x.token with
  | .word w => isValueName w || w == "True" || w == "False" || w == "None"
  | .integer | .float | .quote => true
  | .sign t => operandSigns.contains t
  | _ => false

def startsExpression (x : Lexeme) : Bool :=
  startsOperand x || x.token == .word "not" || x.token == .word "lambda"

def plain : Expect := {}

def operand : Expect := { quote := true }

def operandOrClose : Expect := { quote := true, close := true }

def closing : Expect := { close := true }

def lineEnd : Expect := { newline := true }

def orQuote (e : Expect) : Expect := { e with quote := true }

def sign (e : Expect) (t : String) : Reader Cst := do
  let x ← Reader.peek e
  if x.token == .sign t then Reader.accept x (.token t) else Reader.refuse x

def word (e : Expect) (w : String) : Reader Cst := do
  let x ← Reader.peek e
  if x.token == .word w then Reader.accept x (.token w) else Reader.refuse x

def sign? (e : Expect) (t : String) : Reader (Option Cst) := do
  let x ← Reader.peek e
  if x.token == .sign t then some <$> Reader.accept x (.token t) else pure none

def word? (e : Expect) (w : String) : Reader (Option Cst) := do
  let x ← Reader.peek e
  if x.token == .word w then some <$> Reader.accept x (.token w) else pure none

def name (e : Expect) : Reader Cst := do
  let x ← Reader.peek e
  match x.token with
  | .word w => if isName w then Reader.accept x .identifier else Reader.refuse x
  | _ => Reader.refuse x

def atSign (e : Expect) (t : String) : Reader Bool := do
  return (← Reader.peek e).token == .sign t

/-- Items one or more times with a sign between them; the signs are kept. After a sign at the end
the reader `more` tells whether another item follows. -/
def separated (t : String) (follow : Expect) (more : Reader Bool) (item : Reader Cst)
    (first : List Cst) : Reader (List Cst) :=
  Reader.iterate (fun (read : List Cst) => do
    match ← sign? follow t with
    | none => return .inr read
    | some mark =>
      if ← more then
        let c ← item
        return .inl (read ++ [mark, c])
      else return .inr (read ++ [mark])) first

end Gatehouse.Grammar
