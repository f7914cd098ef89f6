/-!
A contract's text as a sequence of characters with places. Bytes that are no UTF-8 are kept: each
reads as one replacement character, and only asking for the text they stand in fails.
-/
namespace Gatehouse

/-- A character with the place of its first byte and its row, both from 0. -/
structure Glyph where
  char : Char
  offset : Nat
  row : Nat
  deriving Repr, Inhabited

/-- A text: its bytes and its characters, with the row on which it ends. -/
structure Source where
  bytes : ByteArray
  glyphs : Array Glyph
  lastRow : Nat

namespace Source

/-- The character that starts at a byte and the number of bytes it takes. A byte that starts no
character stands for one replacement character. -/
def charAt (bytes : ByteArray) (i : Nat) : Char × Nat :=
  match bytes.utf8DecodeChar? i with
  | some c => (c, c.utf8Size)
  | none => ('\uFFFD', 1)

/-- Characters from byte `i` on, appended to those already read, and the row after them. -/
def decodeFrom (bytes : ByteArray) (i row : Nat) (read : Array Glyph) : Array Glyph × Nat :=
  if i < bytes.size then
    let (c, w) := charAt bytes i
    if _h : 0 < w then
      decodeFrom bytes (i + w) (if c == '\n' then row + 1 else row) (read.push ⟨c, i, row⟩)
    else (read, row)
  else (read, row)
termination_by bytes.size - i

def ofBytes (bytes : ByteArray) : Source :=
  let (glyphs, row) := decodeFrom bytes 0 0 #[]
  ⟨bytes, glyphs, row⟩

def size (s : Source) : Nat := s.glyphs.size

/-- The character at a place; past the end it is NUL, which also ends what a NUL in the text ends. -/
def peek (s : Source) (i : Nat) : Char :=
  match s.glyphs[i]? with
  | some g => g.char
  | none => '\x00'

def atEnd (s : Source) (i : Nat) : Bool := decide (s.size ≤ i)

def offset (s : Source) (i : Nat) : Nat :=
  match s.glyphs[i]? with
  | some g => g.offset
  | none => s.bytes.size

def row (s : Source) (i : Nat) : Nat :=
  match s.glyphs[i]? with
  | some g => g.row
  | none => s.lastRow

def blanked (s : Source) (start stop : Nat) : Source :=
  { s with glyphs := s.glyphs.mapIdx fun i g =>
      if start ≤ i ∧ i < stop then { g with char := ' ' } else g }

def slice (s : Source) (start stop : Nat) : String :=
  String.ofList ((s.glyphs.extract start stop).toList.map Glyph.char)

def text? (s : Source) (start stop : Nat) : Option String :=
  String.fromUTF8? (s.bytes.extract start stop)

end Source
end Gatehouse
