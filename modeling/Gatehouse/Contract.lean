import Gatehouse.Cst.Walker
import Gatehouse.FileError
import Gatehouse.Grammar.Block
import Gatehouse.Lowering
import Gatehouse.Machine

/-!
Reading a contract: its bytes become a tree or are refused. A text with a fault anywhere is
refused as a whole, so rules only ever meet complete trees. A text whose bytes cannot be numbered in
half a word is refused before anything of it is read.
-/
namespace Gatehouse

inductive ContractError where
  | file (cause : FileError)
  | text (cause : ReadError)
  | tooLarge
  deriving DecidableEq, Repr

namespace ContractError

def message : ContractError → String
  | .file cause => "I/O error: " ++ cause.message
  | .text cause => cause.message
  | .tooLarge => "Byte range overflow: file size exceeds 4GB limit"

def chain : ContractError → List String
  | .file cause => [(ContractError.file cause).message, cause.message]
  | e => [e.message]

end ContractError

namespace Contract

/-- Lowers a concrete tree that has no fault; a faulty one is refused on the line of its first. -/
def ofCst (s : Source) (c : Cst) : Except ReadError Tree :=
  if c.hasFault then .error (.syntaxError (c.firstFault?.getD 1) .invalid)
  else Lowering.module s c

def read (bytes : ByteArray) : Except ReadError Tree :=
  let s := Source.ofBytes bytes
  ofCst s (Grammar.tree s)

def maxSize : Nat := 0xFFFFFFFF

def parse (bytes : ByteArray) : Except ContractError Tree :=
  if maxSize < bytes.size then .error .tooLarge else (read bytes).mapError .text

theorem ofCst_eq_ok {s : Source} {c : Cst} {t : Tree} (h : ofCst s c = .ok t) :
    c.hasFault = false ∧ Lowering.module s c = .ok t := by
  unfold ofCst at h
  split at h
  · cases h
  · rename_i hf
    exact ⟨by simpa using hf, h⟩

theorem parse_of_lt {bytes : ByteArray} (h : maxSize < bytes.size) : parse bytes = .error .tooLarge :=
  if_pos h

theorem parse_eq_ok_iff {bytes : ByteArray} {t : Tree} :
    parse bytes = .ok t ↔ bytes.size ≤ maxSize ∧ read bytes = .ok t := by
  unfold parse
  split
  next h => exact iff_of_false (by simp) fun ⟨hle, _⟩ => Nat.not_lt.mpr hle h
  next h =>
    cases read bytes with
    | error e => exact iff_of_false (fun hok => by cases hok) fun ⟨_, hok⟩ => by cases hok
    | ok a =>
      refine ⟨fun hok => ⟨Nat.not_lt.mp h, ?_⟩, fun ⟨_, hok⟩ => ?_⟩
      · rw [Except.ok.inj hok]
      · rw [Except.ok.inj hok]
        rfl

/-- Reads the contract in a file. A file without any bytes is not mapped into memory. -/
def load {m : Type → Type} [Monad m] [Machine m] (path : String) : m (Except ContractError Tree) := do
  match ← Machine.opens path with
  | .error e => return .error (.file e)
  | .ok status =>
    if maxSize < status.size then return .error .tooLarge
    else if status.size = 0 then return .ok (.leaf .module 1)
    else
      match ← Machine.mapped path status with
      | .error e => return .error (.file e)
      | .ok bytes => return parse bytes

end Contract
end Gatehouse
