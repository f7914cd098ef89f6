/-!
Numbers as bytes, the least significant first, and signed distances in four bytes.
-/
namespace Gatehouse.Bytes

def littleEndian : Nat → Nat → List UInt8
  | 0, _ => []
  | k + 1, n => UInt8.ofNat n :: littleEndian k (n / 256)

def ofLittleEndian : List UInt8 → Nat
  | [] => 0
  | b :: bs => b.toNat + 256 * ofLittleEndian bs

@[simp] theorem length_littleEndian (k n : Nat) : (littleEndian k n).length = k := by
  induction k generalizing n with
  | zero => rfl
  | succ k ih => simp [littleEndian, ih]

theorem ofLittleEndian_littleEndian (k n : Nat) :
    ofLittleEndian (littleEndian k n) = n % Nat.pow 256 k := by
  induction k generalizing n with
  | zero => simp [littleEndian, ofLittleEndian, Nat.mod_one]
  | succ k ih =>
    simp only [littleEndian, ofLittleEndian, ih, UInt8.toNat_ofNat']
    rw [show Nat.pow 256 (k + 1) = 256 * Nat.pow 256 k from Nat.mul_comm _ _, Nat.mod_mul]

def stretch (bytes : List UInt8) (start n : Nat) : List UInt8 := (bytes.drop start).take n

/-- How far a place lies from another, in four bytes. A distance backwards is written as its
complement. -/
def distance (here there : Nat) : List UInt8 := littleEndian 4 (there + 0x100000000 - here)

/-- The place that lies at a distance from another, if it is not before the first byte. -/
def placeAt? (here : Nat) (bytes : List UInt8) : Option Nat :=
  let n := ofLittleEndian bytes
  if n < 0x80000000 then some (here + n)
  else if 0x100000000 ≤ here + n then some (here + n - 0x100000000)
  else none

theorem placeAt?_distance {here there : Nat} (h : there ≤ here) (hn : here < 0x80000000) :
    placeAt? here (distance here there) = some there := by
  unfold placeAt? distance
  rw [ofLittleEndian_littleEndian]
  have hpow : Nat.pow 256 4 = 0x100000000 := rfl
  generalize hm : (there + 0x100000000 - here) % Nat.pow 256 4 = m
  have hm' : here + m = there ∨ (0x80000000 ≤ m ∧ here + m = there + 0x100000000) := by
    rw [hpow] at hm
    omega
  dsimp only
  split
  · exact congrArg some (by omega)
  · split
    · exact congrArg some (by omega)
    · omega

end Gatehouse.Bytes
