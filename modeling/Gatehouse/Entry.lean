import Gatehouse.Digest

/-!
A registered contract, and the names under which contracts can be registered.
-/
namespace Gatehouse

/-- A registered contract: its bare name, the root it stands under, the digest of its source and
the second at which it was registered. -/
structure Entry where
  name : String
  root : String
  digest : Digest
  registeredAt : UInt64
  deriving DecidableEq, Repr, Inhabited

namespace Entry

def isLetter (c : Char) : Bool :=
  (decide ('a' ≤ c) && decide (c ≤ 'z')) || (decide ('A' ≤ c) && decide (c ≤ 'Z'))

def isNameChar (c : Char) : Bool := isLetter c || (decide ('0' ≤ c) && decide (c ≤ '9')) || c == '_'

/-- Can a contract be registered under the name? It is a letter, then letters, digits and low
lines, all of them ASCII. -/
def isName (name : String) : Bool :=
  match name.toList with
  | [] => false
  | c :: cs => isLetter c && cs.all isNameChar

end Entry
end Gatehouse
