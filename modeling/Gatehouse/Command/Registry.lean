import Gatehouse.Command.Check

/-!
The commands that read and change a registry, and the one that shows the entry points of a contract.
-/
namespace Gatehouse.Command

variable {m : Type → Type} [Monad m] [Machine m]

def showExports (path : String) : m Report := do
  match ← Contract.load path with
  | .error e => return .failed (("Failed to parse " ++ path) :: e.chain) [] []
  | .ok module =>
    let points := Linter.entryPoints .standard module
    return .done
      (["EXPORTS (" ++ toString points.exports.length ++ "):"]
        ++ points.exports.map ("  " ++ ·)
        ++ ["CONSTRUCTOR: " ++ points.constructor.getD "none"])

def registeredLines (e : Entry) (points : EntryPoints) : List String :=
  ["Registered " ++ (ImportRoot.mk e.root).qualify e.name,
   "  hash    : " ++ e.digest.hex,
   "  exports : " ++ String.intercalate ", " points.exports]
    ++ (points.constructor.toList.map ("  seed    : " ++ ·))

/-- Admits a contract and puts it in the registry. If anything fails the registry stays as it
is. -/
def registerContract (name path root registry : String) : m Report := do
  match ← Machine.read path with
  | .error e => return .failed ["Failed to read " ++ path, e.message] [] []
  | .ok source =>
    match Contract.parse source with
    | .error e => return .failed (("Failed to parse " ++ path) :: e.chain) [] []
    | .ok module =>
      match ← Store.load registry with
      | .error e =>
        return .failed (("Failed to load contract store " ++ registry) :: e.chain) [] []
      | .ok store =>
        match Linter.check .standard store.toRegistry module with
        | .fail messages =>
          let top := path ++ " rejected with " ++ toString messages.length ++ " violation(s)"
          return .failed [top] [] (messages.map ("  " ++ ·))
        | .pass =>
          match store.register .standard name root source (← Machine.seconds) with
          | .error e => return .failed e.chain [] []
          | .ok (store, entry) =>
            match (← store.save registry).2 with
            | .error e =>
              return .failed (("Failed to save contract store " ++ registry) :: e.chain) [] []
            | .ok () =>
              return .done (registeredLines entry (Linter.entryPoints .standard module))

def entryLine (e : Entry) : String :=
  "  " ++ padRight 24 e.name ++ " " ++ padRight 20 e.root ++ " "
    ++ String.ofList (e.digest.hex.toList.take 16) ++ " @" ++ toString e.registeredAt

def listContracts (registry : String) : m Report := do
  match ← Store.load registry with
  | .error e => return .failed (("Failed to load contract store " ++ registry) :: e.chain) [] []
  | .ok store =>
    return .done
      ([frame, titleRow "CONTRACT REGISTRY", frame, countRow "Contracts" store.size, frame]
        ++ store.entries.map entryLine)

end Gatehouse.Command
