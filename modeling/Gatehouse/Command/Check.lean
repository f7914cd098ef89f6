import Gatehouse.Command.Report
import Gatehouse.Contract
import Gatehouse.Limits
import Gatehouse.Linter
import Gatehouse.Machine
import Gatehouse.Store.File
import Gatehouse.Text.Json

/-!
The command that checks contracts: files, and the contract files under directories. A file stands
against the memory limit while it is read, and each check has a budget of time.
-/
namespace Gatehouse

def RegistryError.chain : RegistryError → List String
  | .file cause => [(RegistryError.file cause).message, cause.message]
  | .unknownRoot cause => [(RegistryError.unknownRoot cause).message, cause.message]
  | e => [e.message]

inductive Verdict where
  | admitted (points : EntryPoints)
  | rejected (violations : List Violation)
  | unread (message : String)
  deriving DecidableEq, Repr

/-- What a check says of a file, with its path. -/
structure FileReport where
  path : String
  verdict : Verdict
  deriving DecidableEq, Repr

namespace FileReport

def isAdmitted (r : FileReport) : Bool :=
  match r.verdict with
  | .admitted _ => true
  | _ => false

def lines (r : FileReport) : List String :=
  match r.verdict with
  | .admitted points => ["  PASS " ++ r.path ++ " [" ++ String.intercalate ", " points.exports ++ "]"]
  | .rejected vs => ("  FAIL " ++ r.path) :: vs.map (fun v => "    " ++ v.message)
  | .unread message => ["  FAIL " ++ r.path, "    " ++ message]

open Text (Json)

def jsonOfViolation (v : Violation) : Json :=
  .object
    [("code", .text v.rule.code), ("line", .ofOption .number v.line?),
     ("detail", .ofOption .text v.detail?), ("template", .text v.template.label)]

/-- A report as JSON. Entry points and errors are there only if there are some. -/
def json (r : FileReport) : Json :=
  let vs := match r.verdict with
    | .rejected vs => vs
    | _ => []
  let rest := match r.verdict with
    | .admitted points =>
      [("entry_points", Json.object
        [("exports", .ofTexts points.exports), ("constructor", .ofOption .text points.constructor)])]
    | .rejected _ => []
    | .unread message => [("error", .text message)]
  .object
    ([("path", .text r.path), ("passed", .bool r.isAdmitted),
      ("messages", .ofTexts (vs.map Violation.message)),
      ("violations", .list (vs.map jsonOfViolation))] ++ rest)

end FileReport

section

variable {m : Type → Type} [Monad m] [Machine m]

namespace Command

/-- The names known to a check: those allowed by the command and those in the registry, which need
not be there. -/
def knownNames (registry : String) (allowed : List String) : m (Except (List String) Registry) := do
  if ← Machine.exists? registry then
    match ← Archive.load registry with
    | .ok a => return .ok ((Registry.ofNames allowed).orElse a.toRegistry)
    | .error e => return .error (("Failed to open contract store " ++ registry) :: e.chain)
  else return .ok (.ofNames allowed)

def isContractFile (path : String) : Bool :=
  ((Path.parts path).getLast?.bind Path.extension?) == some "py"

/-- The files that a path stands for: itself, or the contract files under it, in order. -/
def filesOf (path : String) : m (Except (List String) (List String)) := do
  match ← Machine.status path with
  | .ok (.file _) => return .ok [path]
  | .ok (.directory _) => return .ok (Path.sort ((← Machine.filesUnder path).filter isContractFile))
  | .error _ => return .error ["No such file or directory: " ++ path]

def filesOfAll : List String → m (Except (List String) (List String))
  | [] => return .ok []
  | path :: paths => do
    match ← filesOf path with
    | .error e => return .error e
    | .ok files =>
      match ← filesOfAll paths with
      | .error e => return .error e
      | .ok rest => return .ok (files ++ rest)

def verdictOf (p : Policy) (r : Registry) (module : Tree) : Verdict :=
  let vs := Linter.inspect p r module
  if vs.isEmpty then .admitted (Linter.entryPoints p module) else .rejected vs

/-- Checks one file, on an account that is as before when it is done. -/
def checkFile (limits : Limits) (r : Registry) (account : Ledger) (path : String) :
    m (Ledger × FileReport) := do
  let budget : Budget := ⟨← Machine.nanoseconds, limits.nanos⟩
  match ← Machine.status path with
  | .error e => return (account, ⟨path, .unread e.message⟩)
  | .ok status =>
    let size : UInt64 := status.size
    match account.charge limits size with
    | .error e => return (account, ⟨path, .unread e.message⟩)
    | .ok charged =>
      let module ← Contract.load path
      let account := charged.release size
      match module with
      | .error e => return (account, ⟨path, .unread e.message⟩)
      | .ok module =>
        let verdict := verdictOf .standard r module
        match budget.check (← Machine.nanoseconds) with
        | .error e => return (account, ⟨path, .unread e.message⟩)
        | .ok () => return (account, ⟨path, verdict⟩)

def checkFiles (limits : Limits) (r : Registry) (account : Ledger) :
    List String → m (List FileReport)
  | [] => return []
  | path :: paths => do
    let (account, report) ← checkFile limits r account path
    return report :: (← checkFiles limits r account paths)

def summary (reports : List FileReport) : List String :=
  let admitted := (reports.filter FileReport.isAdmitted).length
  [frame, titleRow "GATE CHECK", frame, countRow "Contracts" reports.length,
   countRow "Admitted" admitted, countRow "Rejected" (reports.length - admitted), frame]
    ++ reports.flatMap FileReport.lines

/-- Checks contracts. It succeeds if every one is admitted. -/
def checkContracts (limits : Limits) (registry : String) (paths allowed : List String) (json : Bool) :
    m Report := do
  match ← knownNames registry allowed with
  | .error chain => return .failed chain [] []
  | .ok known =>
    match ← filesOfAll paths with
    | .error chain => return .failed chain [] []
    | .ok [] => return .done ["No contract files found."]
    | .ok files =>
      let reports ← checkFiles limits known .empty files
      let lines :=
        if json then [Text.Json.pretty 0 (.list (reports.map FileReport.json))]
        else summary reports
      return { Report.done lines with code := if reports.all FileReport.isAdmitted then 0 else 1 }

end Command

end

end Gatehouse
