import Gatehouse.Digest.Compression

/-!
The digest of a text: BLAKE3 with thirty-two bytes of output. The text is cut into chunks, each
chunk is a chain of blocks, and the chunks are the leaves of a tree whose left half is the largest
full one.
-/
namespace Gatehouse

structure Digest where
  bytes : Vector UInt8 32
  deriving DecidableEq, Repr

namespace Digest

instance : Inhabited Digest := ⟨⟨Vector.replicate 32 0⟩⟩

def blockSize : Nat := 64

def chunkSize : Nat := 1024

/-- The byte at a place; past the end a text goes on with zeros. -/
def byteAt (bytes : ByteArray) (i : Nat) : UInt8 :=
  if h : i < bytes.size then bytes[i] else 0

def wordAt (bytes : ByteArray) (i : Nat) : Word :=
  (byteAt bytes i).toUInt32 ||| (byteAt bytes (i + 1)).toUInt32 <<< 8
    ||| (byteAt bytes (i + 2)).toUInt32 <<< 16 ||| (byteAt bytes (i + 3)).toUInt32 <<< 24

def blockAt (bytes : ByteArray) (i : Nat) : Block := Vector.ofFn fun j => wordAt bytes (i + 4 * j)

/-- The last compression of a chunk of which `length` bytes from `start` on are left, after the
chaining value of those before. -/
def chunkFrom (bytes : ByteArray) (place start length : Nat) (chain : Chain) (marks : Word) :
    Compression :=
  let block := blockAt bytes start
  if length ≤ blockSize then
    ⟨chain, block, place, UInt32.ofNat length, marks ||| Compression.chunkEnd⟩
  else
    let next := (Compression.mk chain block place 64 marks).run
    chunkFrom bytes place (start + blockSize) (length - blockSize) next 0
termination_by length
decreasing_by simp only [blockSize] at *; omega

def chunk (bytes : ByteArray) (place : Nat) : Compression :=
  let start := place * chunkSize
  chunkFrom bytes place start (min chunkSize (bytes.size - start)) initialChain
    Compression.chunkStart

/-- Chunks of the left half of a tree with `n` chunks: the largest power of two below `n`. -/
def leftHalf (n : Nat) : Nat := 1 <<< Nat.log2 (n - 1)

theorem leftHalf_pos (n : Nat) : 0 < leftHalf n := by
  rw [leftHalf, Nat.one_shiftLeft]
  exact Nat.two_pow_pos _

theorem leftHalf_lt {n : Nat} (h : 1 < n) : leftHalf n < n := by
  rw [leftHalf, Nat.one_shiftLeft]
  exact Nat.lt_of_le_of_lt (Nat.log2_self_le (by omega)) (by omega)

/-- The last compression of the tree over `n` chunks from the chunk `place` on. -/
def subtree (bytes : ByteArray) (place n : Nat) : Compression :=
  if h : n ≤ 1 then chunk bytes place
  else
    let m := leftHalf n
    have hl : m < n := leftHalf_lt (by omega)
    have hp : 0 < m := leftHalf_pos n
    .ofParent (subtree bytes place m).run (subtree bytes (place + m) (n - m)).run
termination_by n
decreasing_by
  · exact hl
  · exact Nat.sub_lt (Nat.lt_trans hp hl) hp

/-- Number of chunks of a text; an empty one has one. -/
def chunkCount (bytes : ByteArray) : Nat := max 1 ((bytes.size + chunkSize - 1) / chunkSize)

def byteOf (w : Word) (i : Nat) : UInt8 := (w >>> UInt32.ofNat (8 * i)).toUInt8

def ofBytes (bytes : ByteArray) : Digest :=
  let chain := (subtree bytes 0 (chunkCount bytes)).atRoot.run
  ⟨Vector.ofFn fun i => byteOf (chain.get ⟨i.val / 4, by omega⟩) (i.val % 4)⟩

def hexDigit (n : Nat) : Char := "0123456789abcdef".toList.getD n '0'

def hexOfByte (b : UInt8) : List Char := [hexDigit (b.toNat / 16), hexDigit (b.toNat % 16)]

def hex (d : Digest) : String := String.ofList (d.bytes.toList.flatMap hexOfByte)

end Digest
end Gatehouse
