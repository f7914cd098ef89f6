import Gatehouse.Machine

/-!
A disk as a value: files and directories under the directory in which commands run.
-/
namespace Gatehouse

/-- What a disk holds at a place. A locked file can be found but not opened, and nothing can be
looked up in a closed directory; each says why. -/
inductive Content where
  | file (bytes : ByteArray)
  | directory
  | locked (size : Nat) (why : String)
  | closed (why : String)

/-- A disk: what it holds, and the time at which commands run on it. The directory in which they
run has the empty place. -/
structure Disk where
  items : List (List String × Content)
  seconds : UInt64

namespace Disk

def empty (seconds : UInt64) : Disk := ⟨[], seconds⟩

def at? (d : Disk) (place : List String) : Option Content :=
  if place = [] then some .directory
  else (d.items.find? (fun i => i.1 == place)).map (·.2)

def put (d : Disk) (place : List String) (c : Content) : Disk :=
  { d with items := (place, c) :: d.items.filter (fun i => i.1 != place) }

theorem at?_put_self {d : Disk} {place : List String} {c : Content} (h : place ≠ []) :
    (d.put place c).at? place = some c := by
  simp [at?, put, h]

theorem at?_put_of_ne {d : Disk} {place other : List String} {c : Content} (h : other ≠ place) :
    (d.put place c).at? other = d.at? other := by
  unfold at? put
  split
  · rfl
  · have hne : (place == other) = false := by simpa using Ne.symm h
    simp only [List.find?_cons, hne, List.find?_filter]
    congr 2
    funext i
    by_cases hi : i.1 = other
    · subst hi; simp [h]
    · simp [hi]

/-- The place to which parts lead from a place. Every part but the last leads out of a directory. -/
def follow (d : Disk) (place : List String) : List String → Except FileError (List String)
  | [] => .ok place
  | part :: parts =>
    match d.at? place with
    | none => .error .notFound
    | some (.file _) | some (.locked _ _) => .error .notDirectory
    | some (.closed why) => .error (.other why)
    | some .directory => follow d (if part = ".." then place.dropLast else place ++ [part]) parts

/-- The place of a path. Nothing outside the directory is on the disk. -/
def place (d : Disk) (path : String) : Except FileError (List String) :=
  if path = "" ∨ Path.isAbsolute path then .error .notFound
  else d.follow [] (Path.parts path)

/-- What stands at a path. A path that ends as one of a directory leads to no file. -/
def content (d : Disk) (path : String) : Except FileError Content := do
  let p ← d.place path
  match d.at? p with
  | none => throw .notFound
  | some .directory => return .directory
  | some (.closed why) => return .closed why
  | some file => if Path.namesDirectory path then throw .notDirectory else return file

def directorySize : Nat := 4096

def status (d : Disk) (path : String) : Except FileError Status := do
  match ← d.content path with
  | .file bytes => return .file bytes.size
  | .locked size _ => return .file size
  | .directory | .closed _ => return .directory directorySize

def opens (d : Disk) (path : String) : Except FileError Status := do
  match ← d.content path with
  | .file bytes => return .file bytes.size
  | .directory => return .directory directorySize
  | .locked _ why | .closed why => throw (.other why)

def read (d : Disk) (path : String) : Except FileError ByteArray := do
  match ← d.content path with
  | .file bytes => return bytes
  | .directory => throw .isDirectory
  | .locked _ why | .closed why => throw (.other why)

def write (d : Disk) (path : String) (bytes : ByteArray) : Except FileError Disk := do
  let p ← d.place path
  if Path.namesDirectory path then throw .isDirectory
  match d.at? p with
  | some .directory | some (.closed _) => throw .isDirectory
  | some (.locked _ why) => throw (.other why)
  | _ => return d.put p (.file bytes)

def makeDirectory (d : Disk) (path : String) : Except FileError Disk := do
  let p ← d.place path
  match d.at? p with
  | some _ => throw .alreadyExists
  | none => return d.put p .directory

def below? : List String → List String → Option (List String)
  | [], rest => some rest
  | a :: as, b :: bs => if a = b then below? as bs else none
  | _ :: _, [] => none

def isReached (d : Disk) (place : List String) : Bool := (d.follow [] place).toOption.isSome

/-- The files under a directory that can be reached, each by the path that leads to it. -/
def filesUnder (d : Disk) (path : String) : List String :=
  match d.place path with
  | .error _ => []
  | .ok p =>
    d.items.filterMap fun (q, c) =>
      match below? p q, c with
      | some (part :: parts), .file _ | some (part :: parts), .locked _ _ =>
        if d.isReached q then some ((part :: parts).foldl Path.join path) else none
      | _, _ => none

abbrev Action := StateM Disk

def change (f : Disk → Except FileError Disk) : Action (Except FileError Unit) := fun d =>
  match f d with
  | .ok d' => (.ok (), d')
  | .error e => (.error e, d)

instance : Machine Action where
  status path := fun d => (d.status path, d)
  opens path := fun d => (d.opens path, d)
  read path := fun d => (d.read path, d)
  write path bytes := change (·.write path bytes)
  makeDirectory path := change (·.makeDirectory path)
  filesUnder path := fun d => (d.filesUnder path, d)
  seconds := fun d => (d.seconds, d)
  nanoseconds := fun d => (0, d)

end Disk
end Gatehouse
