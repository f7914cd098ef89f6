import Gatehouse.Proofs.Archive.RoundTrip
import Gatehouse.Proofs.Disk
import Gatehouse.Proofs.Store.Order
import Gatehouse.Store.File

/-!
Stores on a disk. A store that is saved is loaded again, in the order of its names.
-/
namespace Gatehouse

namespace Store

def onDisk (path : String) (d : Disk) : Except RegistryError Store :=
  match d.read path with
  | .ok bytes => ofBytes bytes
  | .error .notFound => .ok .empty
  | .error e => .error (.file e)

section

variable {path : String} {d d' : Disk} {s s' : Store}

theorem load_eq : load (m := Disk.Action) path d = (onDisk path d, d) := by
  rw [load, Disk.bind_apply, Disk.machine_read, onDisk]
  cases d.read path with
  | ok bytes => rfl
  | error e => cases e <;> rfl

/-- A store that is saved is there as its archive, and it is left in order. -/
theorem save_eq_ok (h : s.save (m := Disk.Action) path d = ((s', .ok ()), d')) :
    s.isTellable = true ∧ s' = s.sorted ∧ d'.read path = .ok s.toBytes := by
  rw [save, Disk.bind_apply] at h
  cases hmade : (Machine.makeParents path : Disk.Action _) d with
  | mk made d₁ =>
    rw [hmade] at h
    cases made with
    | error e => cases congrArg (fun x => x.1.2) h
    | ok _ =>
      rw [toArchive] at h
      cases htell : s.isTellable with
      | false =>
        rw [htell] at h
        cases congrArg (fun x => x.1.2) h
      | true =>
        simp only [htell, if_true, Disk.bind_apply] at h
        cases hwrite : (Machine.write path s.toBytes : Disk.Action _) d₁ with
        | mk written d₂ =>
          rw [hwrite] at h
          cases written with
          | error e => cases congrArg (fun x => x.1.2) h
          | ok _ =>
            obtain rfl : d₂ = d' := congrArg Prod.snd h
            exact ⟨rfl, (congrArg (fun x => x.1.1) h).symm,
              Disk.read_of_write (Disk.machine_write_eq_ok hwrite)⟩

theorem ofBytes_toBytes (htell : s.isTellable = true) (hsize : s.toBytes.size < 0x80000000) :
    ofBytes s.toBytes = .ok s.sorted := by
  have htold : ∀ e ∈ s.sorted.entries, Archive.Tellable e := by
    intro e he
    have hmem : e ∈ s.entries := List.mem_mergeSort.mp he
    have h := List.all_eq_true.mp htell e hmem
    simpa [Archive.Tellable] using h
  have hlength : (Archive.encode s.sorted.entries).length < 0x80000000 := by
    simpa [toBytes, ByteArray.size] using hsize
  have hread : Archive.ofBytes? s.toBytes.data.toList
      = some ⟨Archive.encode s.sorted.entries, _, s.sorted.entries.length⟩ :=
    Archive.ofBytes?_encode htold hlength
  rw [ofBytes, hread]
  simp only [Archive.toList_encode htold hlength]

end

end Store
end Gatehouse
