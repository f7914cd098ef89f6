import Gatehouse.Archive
import Gatehouse.Registry

/-!
The store of registered contracts. Contracts are put in the order of their names, one for each
name, and are found by halves.
-/
namespace Gatehouse

structure Store where
  entries : List Entry
  deriving DecidableEq, Repr, Inhabited

namespace Store

def empty : Store := ⟨[]⟩

def size (s : Store) : Nat := s.entries.length

def compareAt (s : Store) (name : String) (i : Nat) : Ordering :=
  match s.entries[i]? with
  | some e => compare e.name name
  | none => .lt

def search (s : Store) (name : String) : Place := Search.run (s.compareAt name) s.size

def get? (s : Store) (name : String) : Option Entry :=
  (s.search name).found?.bind fun i => s.entries[i]?

def contains (s : Store) (name : String) : Bool := (s.get? name).isSome

/-- Puts an entry in its place, over one of the same name; answers the place too. -/
def insert (s : Store) (e : Entry) : Store × Nat :=
  match s.search e.name with
  | .found i => (⟨s.entries.set i e⟩, i)
  | .missing i => (⟨s.entries.insertIdx i e⟩, i)

def push (s : Store) (e : Entry) : Store := ⟨s.entries ++ [e]⟩

/-- Registers a contract under a permitted root and a name that imports can bind. -/
def register (p : Policy) (s : Store) (name root : String) (source : ByteArray) (now : UInt64) :
    Except RegistryError (Store × Entry) :=
  match p.importRoot root with
  | .error e => .error (.unknownRoot e)
  | .ok root =>
    if Entry.isName name then
      let e : Entry := ⟨name, root.path, Digest.ofBytes source, now⟩
      .ok ((s.insert e).1, e)
    else .error (.invalidName name)

def sorted (s : Store) : Store :=
  ⟨s.entries.mergeSort fun a b => decide (a.name ≤ b.name)⟩

/-- The archive of a store; entries are written in the order of their names. -/
def toBytes (s : Store) : ByteArray := ⟨(Archive.encode s.sorted.entries).toArray⟩

def isTellable (s : Store) : Bool :=
  s.entries.all fun e =>
    Archive.isTellable (Archive.textBytes e.name) && Archive.isTellable (Archive.textBytes e.root)

def toArchive (s : Store) : Except RegistryError ByteArray :=
  if s.isTellable then .ok s.toBytes else .error .malformed

def ofBytes (bytes : ByteArray) : Except RegistryError Store :=
  match Archive.ofBytes? bytes.data.toList with
  | some a => .ok ⟨a.toList⟩
  | none => .error .malformed

def toRegistry (s : Store) : Registry := ⟨fun name => .ok (s.contains name)⟩

end Store

def Archive.toRegistry (a : Archive) : Registry := ⟨fun name => .ok (a.find? name).isSome⟩

end Gatehouse
