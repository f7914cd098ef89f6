import Gatehouse.Command.Arguments
import Gatehouse.Command.Policy
import Gatehouse.Command.Registry
import Gatehouse.Dotenv
import Gatehouse.Settings

/-!
A run of the program: variables from a file, settings from variables, then the command.
-/
namespace Gatehouse.Command

variable {m : Type → Type} [Monad m] [Machine m]

def variablesFile : String := ".env"

/-- Sets the variables of the file, if there is one, and warns of what is wrong with it. -/
def loadVariables (vars : Dotenv.Variables) : m (Dotenv.Variables × List String) := do
  match ← Machine.status variablesFile with
  | .ok (.file _) =>
    match ← Machine.read variablesFile with
    | .error e => return (vars, ["warning: .env: " ++ e.message])
    | .ok bytes =>
      let (vars, fault) := Dotenv.load vars bytes
      return (vars, fault.toList.map fun e => "warning: .env: " ++ e.message)
  | _ => return (vars, [])

def usage : List String :=
  ["Usage: gate check PATH... [--registry PATH] [--allow NAME]... [--json]",
   "       gate exports PATH",
   "       gate registry add NAME PATH [--root ROOT] [--registry PATH]",
   "       gate registry list [--registry PATH]",
   "       gate policy [KIND]..."]

def perform (s : Settings) : Command → m Report
  | .check paths registry allowed json =>
    checkContracts s.limits (registry.getD s.registryPath) paths allowed json
  | .exports path => showExports path
  | .register name path root registry => registerContract name path root (registry.getD s.registryPath)
  | .list registry => listContracts (registry.getD s.registryPath)
  | .policy kinds => return showPolicy s.limits kinds
  | .help => return .done usage

/-- Runs the program. Settings that are no good fail before arguments are looked at. -/
def run (vars : Dotenv.Variables) (arguments : List String) : m Report := do
  let (vars, warnings) ← loadVariables vars
  match Settings.ofVariables (Dotenv.value? vars) with
  | .error e => return .after warnings (.failed e.chain [] [])
  | .ok s =>
    match ofArguments arguments with
    | none => return .after (warnings ++ usage) .misused
    | some command => return .after warnings (← perform s command)

end Gatehouse.Command
