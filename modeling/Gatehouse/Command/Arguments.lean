import Gatehouse.Policy

/-!
Commands and how they are asked for: a word, then paths and options in any order.
-/
namespace Gatehouse

inductive Command where
  | check (paths : List String) (registry : Option String) (allowed : List String) (json : Bool)
  | exports (path : String)
  | register (name path root : String) (registry : Option String)
  | list (registry : Option String)
  | policy (kinds : List String)
  | help
  deriving DecidableEq, Repr

namespace Command

/-- The options of a command: those with a value that may be given once, those with a value that may
be given often, and those without. -/
structure Options where
  once : List String := []
  often : List String := []
  bare : List String := []

structure Arguments where
  positional : List String := []
  values : List (String × String) := []
  help : Bool := false
  deriving Repr

namespace Arguments

def valuesOf (a : Arguments) (option : String) : List String :=
  (a.values.filter (fun v => v.1 == option)).map (·.2)

def value? (a : Arguments) (option : String) : Option String := (a.valuesOf option).head?

def has (a : Arguments) (option : String) : Bool := a.values.any (fun v => v.1 == option)

/-- Does the argument look like an option? A lone sign does not. -/
def looksLikeOption (argument : String) : Bool :=
  match argument.toList with
  | '-' :: _ :: _ => true
  | _ => false

def splitOption (argument : String) : String × Option String :=
  let cs := argument.toList
  let option := cs.takeWhile (· != '=')
  match cs.drop option.length with
  | [] => (argument, none)
  | _ :: value => (String.ofList option, some (String.ofList value))

/-- Sorts out arguments. After two signs alone everything is positional. -/
def read (options : Options) (a : Arguments) : List String → Option Arguments
  | [] => some a
  | "--" :: rest => some { a with positional := a.positional ++ rest }
  | argument :: rest =>
    if argument == "--help" || argument == "-h" then some { a with help := true }
    else if !looksLikeOption argument then
      read options { a with positional := a.positional ++ [argument] } rest
    else
      let (option, written) := splitOption argument
      if options.bare.contains option then
        if written.isSome || a.has option then none
        else read options { a with values := a.values ++ [(option, "")] } rest
      else if (options.once.contains option && !a.has option) || options.often.contains option then
        match written, rest with
        | some value, rest => read options { a with values := a.values ++ [(option, value)] } rest
        | none, value :: rest =>
          if looksLikeOption value then none
          else read options { a with values := a.values ++ [(option, value)] } rest
        | none, [] => none
      else none

end Arguments

def registryOption : String := "--registry"

def isPath (path : String) : Bool := path != ""

def registryOf (a : Arguments) : Option (Option String) :=
  match a.value? registryOption with
  | none => some none
  | some path => if isPath path then some (some path) else none

/-- The command in arguments that have been sorted out, or the one that helps. -/
def orHelp (arguments : Option Arguments) (command : Arguments → Option Command) : Option Command :=
  match arguments with
  | none => none
  | some a => if a.help then some .help else command a

def checkOf (a : Arguments) : Option Command := do
  let registry ← registryOf a
  if a.positional.isEmpty || !a.positional.all isPath then none
  return .check a.positional registry (a.valuesOf "--allow") (a.has "--json")

def exportsOf (a : Arguments) : Option Command :=
  match a.positional with
  | [path] => if isPath path then some (.exports path) else none
  | _ => none

def registerOf (a : Arguments) : Option Command := do
  let registry ← registryOf a
  match a.positional with
  | [name, path] =>
    if isPath path then
      return .register name path ((a.value? "--root").getD Policy.standardRoot.path) registry
    else none
  | _ => none

def listOf (a : Arguments) : Option Command := do
  let registry ← registryOf a
  if a.positional.isEmpty then return .list registry else none

def ofArguments : List String → Option Command
  | "check" :: rest =>
    orHelp (Arguments.read ⟨[registryOption], ["--allow"], ["--json"]⟩ {} rest) checkOf
  | "exports" :: rest => orHelp (Arguments.read {} {} rest) exportsOf
  | "policy" :: rest => orHelp (Arguments.read {} {} rest) fun a => some (.policy a.positional)
  | "registry" :: "add" :: rest =>
    orHelp (Arguments.read ⟨[registryOption, "--root"], [], []⟩ {} rest) registerOf
  | "registry" :: "list" :: rest =>
    orHelp (Arguments.read ⟨[registryOption], [], []⟩ {} rest) listOf
  | "registry" :: word :: _ => helpAlone word
  | word :: _ => helpAlone word
  | [] => none
where
  /-- A word that asks for help. -/
  helpAlone (word : String) : Option Command :=
    if word == "help" || word == "--help" || word == "-h" then some .help else none

end Command
end Gatehouse
