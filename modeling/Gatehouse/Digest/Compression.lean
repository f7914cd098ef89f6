/-!
The compression function of BLAKE3: a chaining value, a block of sixteen words and the block's place
give the next chaining value. Words are little-endian.
-/
namespace Gatehouse.Digest

abbrev Word := UInt32

abbrev Chain := Vector Word 8

abbrev Block := Vector Word 16

def initialChain : Chain :=
  #v[0x6A09E667, 0xBB67AE85, 0x3C6EF372, 0xA54FF53A, 0x510E527F, 0x9B05688C, 0x1F83D9AB, 0x5BE0CD19]

def rotateRight (w n : Word) : Word := (w >>> n) ||| (w <<< (32 - n))

def mix (v : Block) (a b c d : Fin 16) (x y : Word) : Block :=
  let va := v[a] + v[b] + x
  let vd := rotateRight (v[d] ^^^ va) 16
  let vc := v[c] + vd
  let vb := rotateRight (v[b] ^^^ vc) 12
  let va := va + vb + y
  let vd := rotateRight (vd ^^^ va) 8
  let vc := vc + vd
  let vb := rotateRight (vb ^^^ vc) 7
  ((((v.set a va).set b vb).set c vc).set d vd)

/-- One round: the columns, then the diagonals. -/
def round (v m : Block) : Block :=
  let v := mix v 0 4 8 12 m[0] m[1]
  let v := mix v 1 5 9 13 m[2] m[3]
  let v := mix v 2 6 10 14 m[4] m[5]
  let v := mix v 3 7 11 15 m[6] m[7]
  let v := mix v 0 5 10 15 m[8] m[9]
  let v := mix v 1 6 11 12 m[10] m[11]
  let v := mix v 2 7 8 13 m[12] m[13]
  mix v 3 4 9 14 m[14] m[15]

def permuted (m : Block) : Block :=
  #v[m[2], m[6], m[3], m[10], m[7], m[0], m[4], m[13], m[1], m[11], m[12], m[5], m[9], m[14],
    m[15], m[8]]

def rounds : Nat → Block → Block → Block
  | 0, v, _ => v
  | n + 1, v, m => rounds n (round v m) (permuted m)

/-- What is compressed: a block after a chaining value, with its place, its length in bytes and
the marks of what it begins or ends. -/
structure Compression where
  chain : Chain
  block : Block
  place : Nat
  length : Word
  marks : Word

namespace Compression

def chunkStart : Word := 1
def chunkEnd : Word := 2
def parent : Word := 4
def root : Word := 8

def state (c : Compression) : Block :=
  let h := c.chain
  let k := initialChain
  #v[h[0], h[1], h[2], h[3], h[4], h[5], h[6], h[7], k[0], k[1], k[2], k[3],
    UInt32.ofNat c.place, UInt32.ofNat (c.place >>> 32), c.length, c.marks]

def run (c : Compression) : Chain :=
  let v := rounds 7 c.state c.block
  #v[v[0] ^^^ v[8], v[1] ^^^ v[9], v[2] ^^^ v[10], v[3] ^^^ v[11], v[4] ^^^ v[12], v[5] ^^^ v[13],
    v[6] ^^^ v[14], v[7] ^^^ v[15]]

def atRoot (c : Compression) : Compression := { c with marks := c.marks ||| root }

def ofParent (left right : Chain) : Compression where
  chain := initialChain
  block := left ++ right
  place := 0
  length := 64
  marks := parent

end Compression
end Gatehouse.Digest
