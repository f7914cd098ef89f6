import Gatehouse.Proofs.Disk
import Gatehouse.Proofs.Lowering.Levels

/-!
Contracts in files. What comes of a file that can be read is what comes of its bytes, and of nothing
else does a contract come.
-/
namespace Gatehouse.Contract

theorem parse_empty : parse .empty = .ok (.leaf .module 1) := by
  have hread : read .empty = .ok (.leaf .module 1) := by
    rw [read_eq]
    decide +kernel
  exact parse_eq_ok_iff.mpr ⟨Nat.zero_le _, hread⟩

variable {path : String} {d : Disk} {bytes : ByteArray} {module : Tree}

theorem load_of_read (h : d.read path = .ok bytes) :
    load (m := Disk.Action) path d = (parse bytes, d) := by
  rw [load, Disk.bind_apply, Disk.machine_opens, Disk.opens_of_read h]
  simp only
  by_cases hlarge : maxSize < (Status.file bytes.size).size
  · rw [if_pos hlarge, parse_of_lt hlarge, Disk.pure_apply]
  · rw [if_neg hlarge]
    by_cases hzero : (Status.file bytes.size).size = 0
    · obtain rfl : bytes = .empty := ByteArray.size_eq_zero_iff.mp hzero
      rw [if_pos hzero, parse_empty, Disk.pure_apply]
    · rw [if_neg hzero, Machine.mapped, Disk.bind_apply, Disk.machine_read, h]
      rfl

theorem load_eq_ok_iff : (load (m := Disk.Action) path d).1 = .ok module
    ↔ ∃ bytes, d.read path = .ok bytes ∧ parse bytes = .ok module := by
  refine ⟨fun h => ?_, fun ⟨bytes, hread, hparsed⟩ => by rw [load_of_read hread, hparsed]⟩
  rw [load, Disk.bind_apply, Disk.machine_opens] at h
  cases hopens : d.opens path with
  | error e =>
    rw [hopens] at h
    cases h
  | ok status =>
    cases status with
    | file size =>
      obtain ⟨bytes, hread, -⟩ := Disk.exists_read_of_opens hopens
      have hloaded := load_of_read hread
      rw [load, Disk.bind_apply, Disk.machine_opens] at hloaded
      exact ⟨bytes, hread, by rw [← h, hloaded]⟩
    | directory size =>
      have hsize := Disk.size_of_opens_directory hopens
      rw [hopens] at h
      subst hsize
      cases h

end Gatehouse.Contract
