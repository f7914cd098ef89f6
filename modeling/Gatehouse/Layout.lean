import Gatehouse.Source

/-!
Layout: line ends, indentation and the edges of strings. These tokens depend on what the grammar
can take next, so each look at the text is told what to expect. A line end where none is expected
is a blank; a line that stands further left than its block closes the block unless a bracket or a
new line may still follow.
-/
namespace Gatehouse

/-- What may come next, as far as layout depends on it. -/
structure Expect where
  newline : Bool := false
  indent : Bool := false
  dedent : Bool := false
  quote : Bool := false
  close : Bool := false
  deriving DecidableEq, Repr, Inhabited

/-- How a string was opened: its closing quote and what its prefix says. -/
structure Delimiter where
  quote : Char
  raw : Bool
  format : Bool
  bytes : Bool
  triple : Bool
  deriving DecidableEq, Repr, Inhabited

/-- Open blocks, innermost first, open strings, innermost first, and whether the string met last
is one with interpolations. -/
structure Layout where
  margins : List Nat
  strings : List Delimiter
  interpolated : Bool
  deriving DecidableEq, Repr, Inhabited

namespace Layout

/-- The start of a text: one block at the left edge. -/
def initial : Layout := ⟨[0], [], false⟩

def margin (l : Layout) : Nat := l.margins.headD 0

/-- Blanks before a token: where they end, whether a line ended in them, how far the last line is
indented, and how far the first comment that stands on a line of its own is. -/
structure Gap where
  stop : Nat
  lineEnded : Bool
  indent : Nat
  remark : Option Nat
  deriving DecidableEq, Repr, Inhabited

def widen (width by_ : Nat) : Nat := (width + by_) % 65536

/-- The end of a comment's line: the next line end or NUL. -/
def remarkEnd (s : Source) (i : Nat) : Nat :=
  if i < s.size then
    if s.peek i == '\n' || s.peek i == '\x00' then i else remarkEnd s (i + 1)
  else i
termination_by s.size - i

theorem le_remarkEnd (s : Source) (i : Nat) : i ≤ remarkEnd s i := by
  fun_induction remarkEnd s i <;> omega

/-- Passes over blanks from `g.stop` on. With `remarks`, comments on lines of their own are passed
over too, and a comment after a token on its line stops the look at once. So does a backslash that
does not continue the line. -/
def skipGap (s : Source) (remarks : Bool) (g : Gap) : Option Gap :=
  if _h : g.stop < s.size then
    match s.peek g.stop with
    | '\n' => skipGap s remarks { g with stop := g.stop + 1, lineEnded := true, indent := 0 }
    | ' ' => skipGap s remarks { g with stop := g.stop + 1, indent := widen g.indent 1 }
    | '\r' => skipGap s remarks { g with stop := g.stop + 1, indent := 0 }
    | '\x0c' => skipGap s remarks { g with stop := g.stop + 1, indent := 0 }
    | '\t' => skipGap s remarks { g with stop := g.stop + 1, indent := widen g.indent 8 }
    | '#' =>
      if remarks then
        if g.lineEnded then
          skipGap s remarks { g with
            stop := remarkEnd s g.stop + 1, indent := 0, remark := some (g.remark.getD g.indent) }
        else none
      else some g
    | '\\' =>
      let next := if s.peek (g.stop + 1) == '\r' then g.stop + 2 else g.stop + 1
      if s.peek next == '\n' || s.atEnd next then skipGap s remarks { g with stop := next + 1 }
      else none
    | _ => some g
  else some { g with indent := 0, lineEnded := true }
termination_by s.size - g.stop
decreasing_by
  all_goals simp_wf
  all_goals have := le_remarkEnd s g.stop
  all_goals (try split) <;> omega

/-- The closing quote of an opening one at `i`, with the place after it: three quotes open a long
string. -/
def openQuote (s : Source) (i : Nat) : Option (Char × Bool × Nat) :=
  let c := s.peek i
  if c == '\x60' then some (c, false, i + 1)
  else if c == '\'' || c == '"' then
    if s.peek (i + 1) == c && s.peek (i + 2) == c then some (c, true, i + 3)
    else some (c, false, i + 1)
  else none

def openString (s : Source) (i : Nat) (d : Delimiter) : Option (Delimiter × Nat) :=
  if _h : i < s.size then
    let c := s.peek i
    if c == 'f' || c == 'F' || c == 't' || c == 'T' then openString s (i + 1) { d with format := true }
    else if c == 'r' || c == 'R' then openString s (i + 1) { d with raw := true }
    else if c == 'b' || c == 'B' then openString s (i + 1) { d with bytes := true }
    else if c == 'u' || c == 'U' then openString s (i + 1) d
    else (openQuote s i).map (fun (q, triple, stop) => ({ d with quote := q, triple := triple }, stop))
  else none
termination_by s.size - i

inductive Mark where
  | newline | indent | dedent | quote
  deriving DecidableEq, Repr, Inhabited

/-- A layout token with its place and the layout after it. Line ends and changes of indentation
take no room in the text. -/
structure Marked where
  mark : Mark
  start : Nat
  stop : Nat
  layout : Layout
  deriving Repr

def scan (s : Source) (e : Expect) (l : Layout) (i : Nat) : Option Marked := do
  let g ← skipGap s (e.indent || e.dedent || e.newline) ⟨i, false, 0, none⟩
  let atQuote := s.peek g.stop == '"' || s.peek g.stop == '\'' || s.peek g.stop == '\x60'
  let closes := e.dedent || (!e.newline && !(e.quote && atQuote) && !e.close)
  let outside := match g.remark with
    | some width => decide (width < l.margin)
    | none => true
  if g.lineEnded && e.indent && decide (l.margin < g.indent) then
    return ⟨.indent, i, i, { l with margins := g.indent :: l.margins }⟩
  else if g.lineEnded && closes && decide (g.indent < l.margin) && !l.interpolated && outside then
    return ⟨.dedent, i, i, { l with margins := l.margins.tail }⟩
  else if g.lineEnded && e.newline then
    return ⟨.newline, i, i, l⟩
  else if g.remark.isNone && e.quote then
    let (d, stop) ← openString s g.stop ⟨'"', false, false, false, false⟩
    return ⟨.quote, g.stop, stop, { l with strings := d :: l.strings, interpolated := d.format }⟩
  else none

inductive Piece where
  | content (stop : Nat)
  | doubledBrace (stop : Nat)
  | close (stop : Nat)
  | other
  deriving DecidableEq, Repr

/-- Passes a backslash of a raw string with what it guards: a quote or backslash, and a line end. -/
def rawBackslash (s : Source) (d : Delimiter) (i : Nat) : Nat :=
  let j := if s.peek (i + 1) == d.quote || s.peek (i + 1) == '\\' then i + 2 else i + 1
  if s.peek j == '\r' then (if s.peek (j + 1) == '\n' then j + 2 else j + 1)
  else if s.peek j == '\n' then j + 1
  else j

theorem lt_rawBackslash (s : Source) (d : Delimiter) (i : Nat) : i < rawBackslash s d i := by
  simp only [rawBackslash]
  repeat' split
  all_goals omega

/-- Text of a string from `i` on, `full` if some has been read already. The run ends before an
escape, a brace of an interpolated string, or the closing quote. -/
def run (s : Source) (d : Delimiter) (full : Bool) (i : Nat) : Piece :=
  if _h : i < s.size then
    let c := s.peek i
    let kept := if full then Piece.content i else Piece.other
    if c == '\x00' then .other
    else if (c == '\x7b' || c == '\x7d') && d.format then kept
    else if c == '\\' then
      if d.raw then run s d full (rawBackslash s d i)
      else if d.bytes then
        let n := s.peek (i + 1)
        if n == 'N' || n == 'u' || n == 'U' then run s d true (i + 3) else kept
      else kept
    else if c == d.quote then
      if d.triple then
        if s.peek (i + 1) == c then
          if s.peek (i + 2) == c then (if full then .content i else .close (i + 3))
          else .content (i + 2)
        else .content (i + 1)
      else if full then .content i else .close (i + 1)
    else if c == '\n' && full && !d.triple then .other
    else run s d true (i + 1)
  else .other
termination_by s.size - i
decreasing_by
  · have := lt_rawBackslash s d i; omega
  · omega
  · omega

def piece (s : Source) (d : Delimiter) (i : Nat) : Piece :=
  let c := s.peek i
  if d.format && (c == '\x7b' || c == '\x7d') then
    if s.peek (i + 1) == c then .doubledBrace (i + 2) else .other
  else run s d false i

def closeString (l : Layout) : Layout := { l with strings := l.strings.tail, interpolated := false }

end Layout
end Gatehouse
