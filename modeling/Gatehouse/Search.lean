/-!
Search by halves in a sequence that is compared with what is looked for. The number of comparisons
hangs on the length alone.
-/
namespace Gatehouse

/-- Where a search ends: at an item that is equal, or where one could be put. -/
inductive Place where
  | found (index : Nat)
  | missing (index : Nat)
  deriving DecidableEq, Repr, Inhabited

def Place.found? : Place → Option Nat
  | .found i => some i
  | .missing _ => none

namespace Search

/-- Narrows `size` items from `base` on down to one: the last of them that is not greater, if the
items are in order and the first is not greater. -/
def narrow (compare : Nat → Ordering) (base size : Nat) : Nat :=
  if h : size ≤ 1 then base
  else
    let half := size / 2
    have hless : size - half < size := by omega
    narrow compare (if compare (base + half) = .gt then base else base + half) (size - half)
termination_by size
decreasing_by exact hless

/-- Looks among `size` items; `compare` compares the item at a place with what is looked for. -/
def run (compare : Nat → Ordering) (size : Nat) : Place :=
  if size = 0 then .missing 0
  else
    let i := narrow compare 0 size
    match compare i with
    | .eq => .found i
    | .lt => .missing (i + 1)
    | .gt => .missing i

theorem narrow_lt (compare : Nat → Ordering) {base size bound : Nat} (h : 0 < size)
    (hb : base + size ≤ bound) : narrow compare base size < bound := by
  fun_induction narrow compare base size with
  | case1 => omega
  | case2 base size hs half hlt ih =>
    apply ih <;> (try split) <;> omega

theorem run_eq_found {compare : Nat → Ordering} {size i : Nat} (h : run compare size = .found i) :
    i < size ∧ compare i = .eq := by
  unfold run at h
  split at h
  · cases h
  · rename_i hs
    simp only at h
    split at h
    · cases h
      exact ⟨narrow_lt compare (by omega) (by omega), by assumption⟩
    all_goals cases h

end Search
end Gatehouse
