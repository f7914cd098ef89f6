/-!
What a command leaves behind: two texts and a code. A command that fails tells the statement that
failed and the causes of that.
-/
namespace Gatehouse.Command

/-- The result of a command: what it prints, what it prints as errors, and its code. -/
structure Report where
  out : String
  err : String
  code : Nat
  deriving DecidableEq, Repr, Inhabited

def unlines (lines : List String) : String := String.join (lines.map (· ++ "\n"))

def indented (blanks : Nat) (s : String) : String :=
  String.ofList (s.toList.flatMap fun c => if c == '\n' then '\n' :: List.replicate blanks ' ' else [c])

def padLeft (width : Nat) (s : String) : String :=
  String.ofList (List.replicate (width - s.length) ' ') ++ s

def padRight (width : Nat) (s : String) : String :=
  s ++ String.ofList (List.replicate (width - s.length) ' ')

/-- The lines of causes. They are numbered if there are several. -/
def causeLines : List String → List String
  | [] => []
  | [cause] => ["", "Caused by:", "    " ++ indented 4 cause]
  | causes =>
    ["", "Caused by:"] ++
      causes.mapIdx fun i cause => padLeft 5 (toString i) ++ ": " ++ indented 7 cause

/-- The lines of a failure, told from the statement that failed to its last cause. -/
def failureLines : List String → List String
  | [] => []
  | top :: causes => ("Error: " ++ top) :: causeLines causes

namespace Report

def done (lines : List String) : Report := ⟨unlines lines, "", 0⟩

def failed (chain : List String) (out err : List String) : Report :=
  ⟨unlines out, unlines (err ++ failureLines chain), 1⟩

def misused : Report := ⟨"", "", 2⟩

def after (lines : List String) (r : Report) : Report := { r with err := unlines lines ++ r.err }

end Report

def frame : String := "+------------------------------------------+"

/-- A row of a summary: what is counted, and how many there are. -/
def countRow (label : String) (n : Nat) : String :=
  "| " ++ padRight 14 label ++ " : " ++ padLeft 22 (toString n) ++ " |"

def titleRow (title : String) : String := "| " ++ padRight 40 title ++ " |"

end Gatehouse.Command
