import Gatehouse.Text.Duration

/-!
Limits on one execution: how deep it may call, how long it may take and how much memory it may
hold, with the counts that are kept against them. A count that would pass its limit is refused and
stays as it is.
-/
namespace Gatehouse

/-! Counts are kept in words. Where a number is asked for a word is read as one, and the word of a
number is what of it fits. -/

instance coeWordNat : Coe UInt64 Nat := ⟨UInt64.toNat⟩

instance coeNatWord : Coe Nat UInt64 := ⟨UInt64.ofNat⟩

namespace Word

def largest : UInt64 := UInt64.ofNat (UInt64.size - 1)

def cappedAdd (a b : UInt64) : UInt64 := if a.toNat + b.toNat < UInt64.size then a + b else largest

def flooredSub (a b : UInt64) : UInt64 := if b ≤ a then a - b else 0

theorem toNat_largest : largest.toNat = UInt64.size - 1 := by decide

theorem toNat_cappedAdd (a b : UInt64) :
    (cappedAdd a b).toNat = min (a.toNat + b.toNat) (UInt64.size - 1) := by
  unfold cappedAdd
  split
  · rw [UInt64.toNat_add, Nat.mod_eq_of_lt (by assumption)]
    omega
  · rw [toNat_largest]
    omega

theorem toNat_flooredSub (a b : UInt64) :
    (flooredSub a b).toNat = a.toNat - b.toNat := by
  unfold flooredSub
  split
  · exact UInt64.toNat_sub_of_le _ _ (by assumption)
  · rename_i h
    have : a.toNat < b.toNat := by simpa [UInt64.le_iff_toNat_le] using h
    simp
    omega

end Word

/-- The limits. Time is in nanoseconds, memory in bytes. -/
structure Limits where
  depth : UInt64
  nanos : Nat
  memory : UInt64
  deriving DecidableEq, Repr, Inhabited

/-- What makes limits useless: nothing could run under them, or the time is too long to keep. -/
inductive BadLimit where
  | noDepth
  | noTime
  | timeOutOfRange
  | noMemory
  deriving DecidableEq, Repr

def BadLimit.message : BadLimit → String
  | .noDepth => "Invalid limit: recursion depth must be positive"
  | .noTime => "Invalid limit: CPU time must be positive"
  | .timeOutOfRange => "Invalid limit: CPU time is out of range"
  | .noMemory => "Invalid limit: memory ceiling must be positive"

/-- A limit that is passed, with what would pass it. -/
inductive Excess where
  | tooDeep (depth limit : UInt64)
  | tooLong (elapsed limit : Nat)
  | tooLarge (requested limit : UInt64)
  deriving DecidableEq, Repr

def Excess.message : Excess → String
  | .tooDeep depth limit =>
    "Recursion limit exceeded: depth " ++ toString depth ++ " > " ++ toString limit
  | .tooLong elapsed limit =>
    "CPU time limit exceeded: " ++ Text.duration elapsed ++ " > " ++ Text.duration limit
  | .tooLarge requested limit =>
    "Memory limit exceeded: " ++ toString requested ++ " bytes requested, " ++ toString limit
      ++ " byte ceiling"

namespace Limits

/-- The limits that hold if none are set: 1024 calls, five seconds and 32 MiB. -/
def standard : Limits := ⟨1024, 5_000_000_000, 32 * 1024 * 1024⟩

def validate (l : Limits) : Except BadLimit Unit :=
  if l.depth = 0 then .error .noDepth
  else if l.nanos = 0 then .error .noTime
  else if UInt64.size ≤ l.nanos then .error .timeOutOfRange
  else if l.memory = 0 then .error .noMemory
  else .ok ()

def Valid (l : Limits) : Prop := l.depth ≠ 0 ∧ 0 < l.nanos ∧ l.nanos < UInt64.size ∧ l.memory ≠ 0

theorem validate_eq_ok_iff (l : Limits) : l.validate = .ok () ↔ l.Valid := by
  unfold validate Valid
  repeat' split
  all_goals simp_all
  all_goals omega

end Limits

/-- The limits in force, as the words in which they are kept. -/
structure Bounds where
  depth : UInt64
  nanos : UInt64
  memory : UInt64
  deriving DecidableEq, Repr, Inhabited

namespace Bounds

/-- The words of limits. A time that is too long for its word loses what does not fit. -/
def ofLimits (l : Limits) : Bounds := ⟨l.depth, UInt64.ofNat l.nanos, l.memory⟩

def current (b : Bounds) : Limits := ⟨b.depth, b.nanos.toNat, b.memory⟩

def apply (b : Bounds) (asked : Limits) : Except BadLimit Unit × Bounds :=
  match asked.validate with
  | .ok () => (.ok (), .ofLimits asked)
  | .error e => (.error e, b)

theorem current_ofLimits {l : Limits} (h : l.Valid) : (ofLimits l).current = l := by
  obtain ⟨-, -, hfits, -⟩ := h
  have hnanos : (UInt64.ofNat l.nanos).toNat = l.nanos := Nat.mod_eq_of_lt hfits
  rw [current, ofLimits, hnanos]

theorem apply_of_valid (b : Bounds) {asked : Limits} (h : asked.Valid) :
    b.apply asked = (.ok (), ofLimits asked) := by
  rw [apply, asked.validate_eq_ok_iff.mpr h]

theorem apply_of_error (b : Bounds) {asked : Limits} {e : BadLimit} (h : asked.validate = .error e) :
    b.apply asked = (.error e, b) := by
  rw [apply, h]

end Bounds

/-- The limits in force once others have been asked for: those, or the same as before if they are
no good. -/
def Limits.install (current asked : Limits) : Limits :=
  ((Bounds.ofLimits current).apply asked).2.current

def enterFrame (l : Limits) (depth : UInt64) : Except Excess UInt64 :=
  if l.depth < depth + 1 then .error (.tooDeep (depth + 1) l.depth) else .ok (depth + 1)

def leaveFrame (depth : UInt64) : UInt64 := Word.flooredSub depth 1

structure Ledger where
  used : UInt64
  deriving DecidableEq, Repr, Inhabited

namespace Ledger

def empty : Ledger := ⟨0⟩

def charge (l : Limits) (account : Ledger) (bytes : UInt64) : Except Excess Ledger :=
  let requested := Word.cappedAdd account.used bytes
  if l.memory < requested then .error (.tooLarge requested l.memory) else .ok ⟨requested⟩

def release (account : Ledger) (bytes : UInt64) : Ledger := ⟨Word.flooredSub account.used bytes⟩

end Ledger

/-- A span of time that started at a moment of a clock. -/
structure Budget where
  started : Nat
  limit : Nat
  deriving DecidableEq, Repr, Inhabited

def Budget.check (b : Budget) (now : Nat) : Except Excess Unit :=
  if b.limit < now - b.started then .error (.tooLong (now - b.started) b.limit) else .ok ()

end Gatehouse
