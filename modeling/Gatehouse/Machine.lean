import Gatehouse.FileError
import Gatehouse.Path

/-!
What a command needs of the machine it runs on: files and clocks. Commands are written against
these operations alone, so that they can run on a disk that is a value.
-/
namespace Gatehouse

inductive Status where
  | file (size : Nat)
  | directory (size : Nat)
  deriving DecidableEq, Repr

def Status.size : Status → Nat
  | .file size => size
  | .directory size => size

/-- A machine. `opens` looks at what it has opened for reading, which may be refused where `status`
is not. `write` replaces the whole file, and `filesUnder` answers the files under a directory in no
order. The seconds count from 1970; the nanoseconds are those of a clock that is never set back. -/
class Machine (m : Type → Type) where
  status : String → m (Except FileError Status)
  opens : String → m (Except FileError Status)
  read : String → m (Except FileError ByteArray)
  write : String → ByteArray → m (Except FileError Unit)
  makeDirectory : String → m (Except FileError Unit)
  filesUnder : String → m (List String)
  seconds : m UInt64
  nanoseconds : m Nat

namespace Machine

variable {m : Type → Type} [Monad m] [Machine m]

/-- What has been opened, as it is mapped into memory. A directory cannot be mapped. -/
def mapped (path : String) : Status → m (Except FileError ByteArray)
  | .file _ => read path
  | .directory _ => return .error .noDevice

def view (path : String) : m (Except FileError ByteArray) := do
  match ← opens path with
  | .error e => return .error e
  | .ok status => mapped path status

def exists? (path : String) : m Bool := do
  match ← status path with
  | .ok _ => return true
  | .error _ => return false

def isDirectory (path : String) : m Bool := do
  match ← status path with
  | .ok (.directory _) => return true
  | _ => return false

def makeDirectoryOnce (path : String) : m (Except FileError Unit) := do
  match ← makeDirectory path with
  | .ok () => return .ok ()
  | .error e => if ← isDirectory path then return .ok () else return .error e

def makeDirectoriesFrom : Nat → String → m (Except FileError Unit)
  | 0, _ => return .ok ()
  | n + 1, path => do
    match ← makeDirectoryOnce path with
    | .error .notFound =>
      match Path.parent? path with
      | none => return .error .notFound
      | some parent =>
        match ← makeDirectoriesFrom n parent with
        | .error e => return .error e
        | .ok () => makeDirectoryOnce path
    | result => return result

/-- Makes a directory and those it lies in. The empty path is there. -/
def makeDirectories (path : String) : m (Except FileError Unit) :=
  makeDirectoriesFrom (Path.parts path).length path

def makeParents (path : String) : m (Except FileError Unit) :=
  match Path.parent? path with
  | some parent => makeDirectories parent
  | none => pure (.ok ())

end Machine
end Gatehouse
