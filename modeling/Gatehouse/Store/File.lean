import Gatehouse.Machine
import Gatehouse.Store

/-!
Stores and archives in files.
-/
namespace Gatehouse

variable {m : Type → Type} [Monad m] [Machine m]

/-- Reads a store. Where there is no file there is an empty store. -/
def Store.load (path : String) : m (Except RegistryError Store) := do
  match ← Machine.read path with
  | .ok bytes => return Store.ofBytes bytes
  | .error .notFound => return .ok .empty
  | .error e => return .error (.file e)

/-- Writes a store, after making the directories it lies in. The entries are put in order for it,
and stay so. -/
def Store.save (s : Store) (path : String) : m (Store × Except RegistryError Unit) := do
  match ← Machine.makeParents path with
  | .error e => return (s, .error (.file e))
  | .ok () =>
    match s.toArchive with
    | .error e => return (s.sorted, .error e)
    | .ok bytes =>
      match ← Machine.write path bytes with
      | .ok () => return (s.sorted, .ok ())
      | .error e => return (s.sorted, .error (.file e))

def Archive.load (path : String) : m (Except RegistryError Archive) := do
  match ← Machine.view path with
  | .error e => return .error (.file e)
  | .ok bytes =>
    match Archive.ofBytes? bytes.data.toList with
    | some a => return .ok a
    | none => return .error .malformed

end Gatehouse
