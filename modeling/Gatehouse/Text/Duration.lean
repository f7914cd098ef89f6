/-!
A span of time as text: in the largest unit of which it holds one, with as many decimals as there
are.
-/
namespace Gatehouse.Text

def digits : Nat → Nat → List Char
  | 0, _ => []
  | k + 1, n => digits k (n / 10) ++ [Nat.digitChar (n % 10)]

/-- A whole number of units and a rest of `k` digits, without the zeros at its end. -/
def decimal (whole k rest : Nat) : String :=
  let ds := ((digits k rest).reverse.dropWhile (· == '0')).reverse
  toString whole ++ (if ds.isEmpty then "" else "." ++ String.ofList ds)

def duration (nanos : Nat) : String :=
  if 1_000_000_000 ≤ nanos then decimal (nanos / 1_000_000_000) 9 (nanos % 1_000_000_000) ++ "s"
  else if 1_000_000 ≤ nanos then decimal (nanos / 1_000_000) 6 (nanos % 1_000_000) ++ "ms"
  else if 1_000 ≤ nanos then decimal (nanos / 1_000) 3 (nanos % 1_000) ++ "µs"
  else toString nanos ++ "ns"

end Gatehouse.Text
