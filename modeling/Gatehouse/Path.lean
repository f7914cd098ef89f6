/-!
Paths as texts: their parts, and what is told by them alone.
-/
namespace Gatehouse.Path

def split : List Char → List (List Char)
  | [] => [[]]
  | '/' :: cs => [] :: split cs
  | c :: cs =>
    match split cs with
    | [] => [[c]]
    | part :: parts => (c :: part) :: parts

/-- The names in a path, without those that stand for the directory they are in. -/
def parts (path : String) : List String :=
  ((split path.toList).map String.ofList).filter (fun p => p != "" && p != ".")

def isAbsolute (path : String) : Bool := path.toList.head? == some '/'

def namesDirectory (path : String) : Bool :=
  match (split path.toList).getLast? with
  | some last => last == [] || last == ['.'] || last == ['.', '.']
  | none => false

def join (directory name : String) : String :=
  if directory == "" || directory.toList.getLast? == some '/' then directory ++ name
  else directory ++ "/" ++ name

/-- The directory that a path lies in; the empty path stands for the current one. -/
def parent? (path : String) : Option String :=
  match parts path with
  | [] => none
  | ps => some ((if isAbsolute path then "/" else "") ++ String.intercalate "/" ps.dropLast)

/-- What follows the last dot of a name, if something stands before that dot. -/
def extension? (name : String) : Option String :=
  let cs := name.toList.reverse
  let after := cs.takeWhile (· != '.')
  match cs.drop after.length with
  | _dot :: _ :: _ => some (String.ofList after.reverse)
  | _ => none

def isAfter (a b : String) : Bool := decide (parts b < parts a)

def sort (paths : List String) : List String := paths.mergeSort fun a b => !isAfter a b

end Gatehouse.Path
