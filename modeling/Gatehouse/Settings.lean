import Gatehouse.Limits
import Gatehouse.Text.Blank
import Gatehouse.Text.Quoted

/-!
Settings taken from variables: where the registry is kept, and the limits. A variable that is not
set, or blank, leaves the standard value.
-/
namespace Gatehouse

inductive NumberError where
  | invalidDigit
  | tooLarge
  deriving DecidableEq, Repr

def NumberError.message : NumberError → String
  | .invalidDigit => "invalid digit found in string"
  | .tooLarge => "number too large to fit in target type"

inductive SettingsError where
  | notNumber (variableName value : String) (cause : NumberError)
  | badLimit (cause : BadLimit)
  deriving DecidableEq, Repr

def SettingsError.chain : SettingsError → List String
  | .notNumber variableName value cause =>
    [variableName ++ " must be a number, got " ++ Text.quoted value, cause.message]
  | .badLimit cause => ["invalid resource limits", cause.message]

structure Settings where
  registryPath : String
  limits : Limits
  deriving DecidableEq, Repr, Inhabited

namespace Settings

def registryVariable : String := "GATE_REGISTRY"
def depthVariable : String := "GATE_RECURSION_LIMIT"
def secondsVariable : String := "GATE_CPU_TIME_LIMIT_SECS"
def memoryVariable : String := "GATE_MEMORY_LIMIT_BYTES"

def standardRegistryPath : String := ".gate/contracts.rkyv"

def isDigit (c : Char) : Bool := decide ('0' ≤ c) && decide (c ≤ '9')

/-- Reads digits after a number. The first of them that is no digit, or makes the number too large,
decides. -/
def readDigits : Nat → List Char → Except NumberError Nat
  | n, [] => .ok n
  | n, c :: cs =>
    if !isDigit c then .error .invalidDigit
    else
      let m := n * 10 + (c.toNat - '0'.toNat)
      if UInt64.size ≤ m then .error .tooLarge else readDigits m cs

/-- Reads a number below 2^64: digits, with or without a plus sign before them. -/
def readNumber (cs : List Char) : Except NumberError Nat :=
  match cs with
  | [] => .error .invalidDigit
  | ['+'] => .error .invalidDigit
  | '+' :: ds => readDigits 0 ds
  | ds => readDigits 0 ds

def number? (lookUp : String → Option String) (variableName : String) :
    Except SettingsError (Option Nat) :=
  match lookUp variableName with
  | none => .ok none
  | some value =>
    let cs := Text.trim value.toList
    if cs.isEmpty then .ok none
    else
      match readNumber cs with
      | .ok n => .ok (some n)
      | .error e => .error (.notNumber variableName value e)

def ofVariables (lookUp : String → Option String) : Except SettingsError Settings := do
  let registryPath :=
    match lookUp registryVariable with
    | some value => if (Text.trim value.toList).isEmpty then standardRegistryPath else value
    | none => standardRegistryPath
  let depth ← number? lookUp depthVariable
  let seconds ← number? lookUp secondsVariable
  let memory ← number? lookUp memoryVariable
  let limits : Limits :=
    { depth := (depth.map UInt64.ofNat).getD Limits.standard.depth
      nanos := (seconds.map (· * 1_000_000_000)).getD Limits.standard.nanos
      memory := (memory.map UInt64.ofNat).getD Limits.standard.memory }
  match limits.validate with
  | .ok () => return ⟨registryPath, limits⟩
  | .error e => throw (.badLimit e)

end Settings
end Gatehouse
