import Gatehouse.Command.Report
import Gatehouse.Limits
import Gatehouse.Policy
import Gatehouse.Text.Quoted

/-!
The command that shows the policy and the limits.
-/
namespace Gatehouse.Command

def wordLines (words : List String) : List String :=
  if _h : words = [] then []
  else ("  " ++ String.intercalate " " (words.take 8)) :: wordLines (words.drop 8)
termination_by words.length
decreasing_by
  have := List.length_pos_iff.mpr _h
  simp only [List.length_drop]
  omega

/-- Tells of kinds, one after the other, whether they are admitted. A label that no kind bears ends
the list. -/
def describeKinds (p : Policy) (told : List String) : List String → Report
  | [] => .done told
  | label :: labels =>
    match Kind.ofLabel? label with
    | none => .failed ["Unknown AST kind " ++ Text.quoted label] told []
    | some kind =>
      let verdict := if p.allows kind then "admitted" else "denied"
      describeKinds p (told ++ [kind.label ++ ": " ++ verdict]) labels

def policyLines (p : Policy) (l : Limits) : List String :=
  ["WHITELIST (" ++ toString p.whitelist.length ++ "):"]
    ++ wordLines (p.whitelist.map Kind.label)
    ++ ["", "DECORATORS: export=" ++ p.exportMark ++ " construct=" ++ p.constructMark,
      "IMPORT ROOTS: " ++ String.intercalate ", " (p.importRoots.map ImportRoot.path),
      "", "SAFE NAMES (" ++ toString p.safeNames.size ++ "):"]
    ++ wordLines (p.safeNames.entries.map (·.1))
    ++ ["", "LIMITS:", "  recursion depth : " ++ toString l.depth,
      "  cpu time        : " ++ Text.duration l.nanos,
      "  memory bytes    : " ++ toString l.memory]

def showPolicy (l : Limits) (kinds : List String) : Report :=
  if kinds.isEmpty then .done (policyLines .standard l) else describeKinds .standard [] kinds

end Gatehouse.Command
