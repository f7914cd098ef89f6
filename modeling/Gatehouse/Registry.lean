import Gatehouse.FileError
import Gatehouse.Policy
import Gatehouse.Text.Quoted

/-!
A registry answers one question: is a contract of this name registered? It may fail to answer.
-/
namespace Gatehouse

/-- Why a registry does not do what it is asked. -/
inductive RegistryError where
  | file (cause : FileError)
  | malformed
  | unknownRoot (cause : UnknownRoot)
  | invalidName (name : String)
  deriving DecidableEq, Repr, Inhabited

/-- The wording of an error. What is wrong with a malformed archive is left open. -/
def RegistryError.message : RegistryError → String
  | .file cause => "I/O error: " ++ cause.message
  | .malformed => "Deserialization error:"
  | .unknownRoot cause => "Policy error: " ++ cause.message
  | .invalidName name => "Invalid contract name: " ++ Text.quoted name

structure Registry where
  lookUp : String → Except RegistryError Bool

namespace Registry

/-- Does the registry say that the name is registered? One that fails does not. -/
def confirms (r : Registry) (name : String) : Bool :=
  match r.lookUp name with
  | .ok found => found
  | .error _ => false

def ofNames (names : List String) : Registry := ⟨fun name => .ok (names.contains name)⟩

def orElse (r s : Registry) : Registry :=
  ⟨fun name => do if ← r.lookUp name then return true else s.lookUp name⟩

end Registry
end Gatehouse
