import Gatehouse.Bytes
import Gatehouse.Entry
import Gatehouse.Search

/-!
The archive of registered contracts, and how it is read in place. Texts of more than eight bytes
come first, one entry after the other. Then come the entries, fifty-six bytes each: name, root,
digest, time. The last eight bytes tell where the entries begin and how many there are. All
places are told by their distance from where they are told.
-/
namespace Gatehouse

open Bytes

namespace Archive

def slotSize : Nat := 8

def entrySize : Nat := 56

def footSize : Nat := 8

def textBytes (s : String) : List UInt8 := s.toUTF8.data.toList

def ofTextBytes? (bytes : List UInt8) : Option String := String.fromUTF8? ⟨bytes.toArray⟩

/-- The part of a text that does not stand in its slot: all of it or nothing. -/
def outside (text : List UInt8) : List UInt8 := if text.length ≤ slotSize then [] else text

/-- How the length of a text outside is written. The bits that mark it out are `10`. -/
def longLength (n : Nat) : Nat := n % 64 + 128 + n / 64 * 256

def ofLongLength (n : Nat) : Nat := n % 64 + n / 256 * 64

theorem ofLongLength_longLength (n : Nat) : ofLongLength (longLength n) = n := by
  unfold ofLongLength longLength
  omega

/-- Is the text so short that its length can be written? It takes thirty bits. -/
def isTellable (text : List UInt8) : Bool := decide (text.length < 0x40000000)

/-- The slot at `here` of a text; if it does not fit, it begins at `there`. -/
def slot (text : List UInt8) (there here : Nat) : List UInt8 :=
  if text.length ≤ slotSize then text ++ List.replicate (slotSize - text.length) 255
  else littleEndian 4 (longLength text.length) ++ distance here there

def outsideOf (e : Entry) : List UInt8 := outside (textBytes e.name) ++ outside (textBytes e.root)

def entryBytes (e : Entry) (there here : Nat) : List UInt8 :=
  let name := textBytes e.name
  slot name there here
    ++ slot (textBytes e.root) (there + (outside name).length) (here + slotSize)
    ++ e.digest.bytes.toList ++ littleEndian 8 e.registeredAt.toNat

def entriesBytes : List Entry → Nat → Nat → List UInt8
  | [], _, _ => []
  | e :: es, there, here =>
    entryBytes e there here ++ entriesBytes es (there + (outsideOf e).length) (here + entrySize)

/-- Zeros up to a multiple of eight; none where there are no entries. -/
def padding (size : Nat) : List UInt8 := List.replicate ((8 - size % 8) % 8) 0

def encode (es : List Entry) : List UInt8 :=
  let texts := es.flatMap outsideOf
  let start := texts ++ padding texts.length
  let foot := start.length + entrySize * es.length
  start ++ entriesBytes es 0 start.length ++ distance foot start.length
    ++ littleEndian 4 es.length

/-- What a slot says: the text, or where it begins and how long it is. -/
inductive Slot where
  | inside (text : List UInt8)
  | outside (start length : Nat)
  deriving Repr

/-- Reads the slot at a place. A text in its slot ends before the first byte 255. -/
def readSlot? (bytes : List UInt8) (here : Nat) : Option Slot :=
  let slot := stretch bytes here slotSize
  match slot with
  | [] => none
  | b :: _ =>
    if b.toNat / 64 = 2 then
      (placeAt? here (slot.drop 4)).map
        (.outside · (ofLongLength (ofLittleEndian (slot.take 4))))
    else some (.inside (slot.takeWhile (· != 255)))

def textAt? (bytes : List UInt8) (here : Nat) : Option String :=
  match readSlot? bytes here with
  | none => none
  | some (.inside text) => ofTextBytes? text
  | some (.outside start length) => ofTextBytes? (stretch bytes start length)

/-- Checks the slot at a place. Its text is UTF-8; outside, it lies between `free` and `limit`.
Answers where the text after it may begin: texts outside do not overlap and keep the order of their
slots. -/
def checkSlot (bytes : List UInt8) (limit here free : Nat) : Option Nat :=
  match readSlot? bytes here, textAt? bytes here with
  | some (.inside _), some _ => some free
  | some (.outside start length), some _ =>
    if free ≤ start ∧ start + length ≤ limit then some (start + length) else none
  | _, _ => none

def checkEntries (bytes : List UInt8) (limit : Nat) : Nat → Nat → Nat → Bool
  | 0, _, _ => true
  | n + 1, here, free =>
    match checkSlot bytes limit here free with
    | none => false
    | some free =>
      match checkSlot bytes limit (here + slotSize) free with
      | none => false
      | some free => checkEntries bytes limit n (here + entrySize) free

def digestAt (bytes : List UInt8) (here : Nat) : Digest :=
  ⟨Vector.ofFn fun i => (stretch bytes here 32).getD i 0⟩

def entryAt? (bytes : List UInt8) (here : Nat) : Option Entry := do
  let name ← textAt? bytes here
  let root ← textAt? bytes (here + slotSize)
  return {
    name, root
    digest := digestAt bytes (here + 2 * slotSize)
    registeredAt := UInt64.ofNat (ofLittleEndian (stretch bytes (here + 48) 8)) }

end Archive

/-- An archive that has been checked, read in place. -/
structure Archive where
  bytes : List UInt8
  start : Nat
  size : Nat
  deriving Repr

namespace Archive

/-- Checks an archive. Its entries lie before its foot, on a multiple of eight bytes, and the foot
on a multiple of four. -/
def ofBytes? (bytes : List UInt8) : Option Archive :=
  let foot := bytes.length - footSize
  let size := ofLittleEndian (stretch bytes (foot + 4) 4)
  if bytes.length < footSize ∨ foot % 4 ≠ 0 then none
  else
    match placeAt? foot (stretch bytes foot 4) with
    | none => none
    | some start =>
      if start % 8 = 0 ∧ start + entrySize * size ≤ foot ∧ checkEntries bytes start size start 0
      then some ⟨bytes, start, size⟩
      else none

def entry? (a : Archive) (i : Nat) : Option Entry :=
  if i < a.size then entryAt? a.bytes (a.start + entrySize * i) else none

def toList (a : Archive) : List Entry := (List.range a.size).filterMap a.entry?

def compareAt (a : Archive) (name : String) (i : Nat) : Ordering :=
  match textAt? a.bytes (a.start + entrySize * i) with
  | some n => compare n name
  | none => .lt

/-- The entry of a name. Entries have to be in the order of their names. -/
def find? (a : Archive) (name : String) : Option Entry :=
  (Search.run (a.compareAt name) a.size).found?.bind a.entry?

end Archive
end Gatehouse
