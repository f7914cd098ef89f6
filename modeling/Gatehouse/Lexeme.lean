import Gatehouse.Layout
import Gatehouse.Text.Identifier

/-!
Words, numbers and signs. The longest piece of text that is one of them is taken; blanks, comments
and continued lines before it are passed over, with a look at the layout after each of them.
-/
namespace Gatehouse

/-- What a stretch of text is to the grammar. -/
inductive Token where
  | newline
  | indent
  | dedent
  | quote
  | word (text : String)
  | integer
  | float
  | sign (text : String)
  | ending
  | stray
  deriving DecidableEq, Repr, Inhabited

/-- A token with its first character, the character after it, and the layout after it. -/
structure Lexeme where
  token : Token
  start : Nat
  stop : Nat
  layout : Layout
  deriving Repr, Inhabited

namespace Lexeme

def isBlank (c : Char) : Bool :=
  (decide (9 ≤ c.toNat) && decide (c.toNat ≤ 13)) || c == ' ' || c == '\uFEFF' || c == '\u2060'
    || c == '\u200B'

def spanEnd (s : Source) (p : Char → Bool) (i : Nat) : Nat :=
  if i < s.size then (if p (s.peek i) then spanEnd s p (i + 1) else i) else i
termination_by s.size - i

theorem le_spanEnd (s : Source) (p : Char → Bool) (i : Nat) : i ≤ spanEnd s p i := by
  fun_induction spanEnd s p i <;> omega

def digitsEnd (s : Source) (i : Nat) : Nat :=
  if h : i < s.size then
    if (s.peek i).isDigit then
      let j := spanEnd s Char.isDigit (i + 1)
      have : i < j := Nat.lt_of_lt_of_le (Nat.lt_succ_self i) (le_spanEnd s Char.isDigit (i + 1))
      if s.peek j == '_' then digitsEnd s (j + 1) else j
    else i
  else i
termination_by s.size - i

def pastLowLine (s : Source) (i : Nat) : Nat := if s.peek i == '_' then i + 1 else i

theorem le_pastLowLine (s : Source) (i : Nat) : i ≤ pastLowLine s i := by
  unfold pastLowLine
  split <;> omega

/-- Digits of a base in groups, each of which may begin with one low line. -/
def basedEnd (s : Source) (p : Char → Bool) (i : Nat) : Nat :=
  if _h : i < s.size then
    if _hk : pastLowLine s i < spanEnd s p (pastLowLine s i) then
      basedEnd s p (spanEnd s p (pastLowLine s i))
    else i
  else i
termination_by s.size - i
decreasing_by
  have := le_pastLowLine s i
  omega

def optional (s : Source) (cs : List Char) (i : Nat) : Nat :=
  if cs.contains (s.peek i) && !s.atEnd i then i + 1 else i

def isHexDigit (c : Char) : Bool :=
  c.isDigit || (decide ('a' ≤ c) && decide (c ≤ 'f')) || (decide ('A' ≤ c) && decide (c ≤ 'F'))

def isOctalDigit (c : Char) : Bool := decide ('0' ≤ c) && decide (c ≤ '7')

def isBinaryDigit (c : Char) : Bool := c == '0' || c == '1'

def baseDigits (c : Char) : Option (Char → Bool) :=
  if c == 'x' || c == 'X' then some isHexDigit
  else if c == 'o' || c == 'O' then some isOctalDigit
  else if c == 'b' || c == 'B' then some isBinaryDigit
  else none

def integerEnd (s : Source) (i : Nat) : Nat :=
  let d := digitsEnd s i
  let plain := if i < d then optional s ['L', 'l', 'j', 'J'] d else i
  if s.peek i == '0' then
    match baseDigits (s.peek (i + 1)) with
    | some p =>
      let k := basedEnd s p (i + 2)
      if i + 2 < k then optional s ['L', 'l'] k else plain
    | none => plain
  else plain

def exponentEnd (s : Source) (i : Nat) : Nat :=
  if s.peek i == 'e' || s.peek i == 'E' then
    let j := optional s ['+', '-'] (i + 1)
    let k := digitsEnd s j
    if j < k then k else i
  else i

/-- The end of a number with a point or an exponent at `i`, or `i`. -/
def floatEnd (s : Source) (i : Nat) : Nat :=
  let d := digitsEnd s i
  let stop :=
    if s.peek d == '.' then
      let f := digitsEnd s (d + 1)
      if i < d || d + 1 < f then exponentEnd s f else i
    else if i < d then
      let x := exponentEnd s d
      if d < x then x else i
    else i
  if i < stop then optional s ['j', 'J'] stop else i

def signs : List String :=
  ["**=", "//=", ">>=", "<<=", "...",
   "**", "//", ">>", "<<", "<=", ">=", "==", "!=", "<>", ":=", "->", "+=", "-=", "*=", "/=", "%=",
   "@=", "&=", "|=", "^=",
   "+", "-", "*", "/", "%", "@", "&", "|", "^", "~", "<", ">", "(", ")", "[", "]", "\x7b", "\x7d",
   ",", ":", ".", ";", "=", "!"]

def beginsWith (s : Source) (i : Nat) : List Char → Bool
  | [] => true
  | c :: cs => !s.atEnd i && s.peek i == c && beginsWith s (i + 1) cs

def signAt? (s : Source) (i : Nat) : Option String :=
  signs.find? (fun t => beginsWith s i t.toList)

/-- Is the backslash at `i` followed by a line end, or by NUL or the end of the text? Answers the
place after that. -/
def continuedLine? (s : Source) (i : Nat) : Option Nat :=
  if s.peek i == '\\' then
    if s.peek (i + 1) == '\n' then some (i + 2)
    else if s.peek (i + 1) == '\r' && s.peek (i + 2) == '\n' then some (i + 3)
    else if s.peek (i + 1) == '\x00' then some (i + 2)
    else none
  else none

/-- A token with no part in layout, or the end of a remark that stands there instead. -/
inductive Plain where
  | token (token : Token) (start stop : Nat)
  | remark (stop : Nat)
  deriving Repr

def plainAt (s : Source) (i : Nat) : Plain :=
  let i := spanEnd s isBlank i
  let c := s.peek i
  if s.atEnd i then .token .ending i i
  else if c == '#' then .remark (Layout.remarkEnd s (i + 1))
  else if Text.isIdentifierStart c then
    let j := spanEnd s Text.isIdentifierPart (i + 1)
    .token (.word (s.slice i j)) i j
  else
    let n := integerEnd s i
    let f := floatEnd s i
    if i < f && n < f then .token .float i f
    else if i < n then .token .integer i n
    else
      match signAt? s i with
      | some t => .token (.sign t) i (i + t.length)
      | none =>
        match continuedLine? s i with
        | some stop => .remark stop
        | none => .token .stray i (i + 1)

def ofMark : Layout.Mark → Token
  | .newline => .newline
  | .indent => .indent
  | .dedent => .dedent
  | .quote => .quote

def read (s : Source) (e : Expect) (l : Layout) (i : Nat) : Lexeme :=
  match Layout.scan s e l i with
  | some m => ⟨ofMark m.mark, m.start, m.stop, m.layout⟩
  | none =>
    match plainAt s i with
    | .token t start stop => ⟨t, start, stop, l⟩
    | .remark stop => if _h : i < stop ∧ i < s.size then read s e l stop else ⟨.stray, i, i, l⟩
termination_by s.size - i

end Lexeme
end Gatehouse
