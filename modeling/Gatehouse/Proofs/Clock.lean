import Gatehouse.Clock
import Gatehouse.Proofs.Disk

/-!
Steps that only look at the disk. They leave everything as it is, and on a disk with a clock they
answer what they answer on the disk alone.
-/
namespace Gatehouse.Clocked

variable {α β : Type}

@[simp] theorem bind_apply (x : Action α) (f : α → Action β) (s : Clocked) :
    (x >>= f) s = f (x s).1 (x s).2 := rfl

@[simp] theorem pure_apply (a : α) (s : Clocked) : (pure a : Action α) s = (a, s) := rfl

@[simp] theorem machine_nanoseconds (s : Clocked) : (Machine.nanoseconds : Action _) s
    = (s.readings 0, { s with readings := fun i => s.readings (i + 1) }) := rfl

/-- A step on a disk with a clock and one on the disk alone answer the same and change nothing. -/
structure Looks (x : Action α) (y : Disk.Action α) : Prop where
  clocked : ∀ s : Clocked, x s = ((y s.disk).1, s)
  disk : ∀ d : Disk, (y d).2 = d

namespace Looks

theorem pure (a : α) : Looks (Pure.pure a) (Pure.pure a) := ⟨fun _ => rfl, fun _ => rfl⟩

theorem bind {x : Action α} {y : Disk.Action α} {f : α → Action β} {g : α → Disk.Action β}
    (h : Looks x y) (hnext : ∀ a, Looks (f a) (g a)) : Looks (x >>= f) (y >>= g) where
  clocked s := by
    rw [bind_apply, h.clocked, (hnext _).clocked, Disk.bind_apply, h.disk]
  disk d := by
    rw [Disk.bind_apply, (hnext _).disk, h.disk]

theorem ite {p : Prop} [Decidable p] {x x' : Action α} {y y' : Disk.Action α} (h : Looks x y)
    (h' : Looks x' y') : Looks (if p then x else x') (if p then y else y') := by
  split
  · exact h
  · exact h'

theorem status (path : String) : Looks (Machine.status path) (Machine.status path) :=
  ⟨fun _ => rfl, fun _ => rfl⟩

theorem opens (path : String) : Looks (Machine.opens path) (Machine.opens path) :=
  ⟨fun _ => rfl, fun _ => rfl⟩

theorem read (path : String) : Looks (Machine.read path) (Machine.read path) :=
  ⟨fun _ => rfl, fun _ => rfl⟩

theorem filesUnder (path : String) : Looks (Machine.filesUnder path) (Machine.filesUnder path) :=
  ⟨fun _ => rfl, fun _ => rfl⟩

theorem mapped (path : String) (status : Status) :
    Looks (Machine.mapped path status) (Machine.mapped path status) := by
  cases status with
  | file size => exact .read path
  | directory size => exact .pure _

theorem view (path : String) : Looks (Machine.view path) (Machine.view path) :=
  (opens path).bind fun result => by
    cases result with
    | error e => exact .pure _
    | ok status => exact .mapped path status

theorem exists? (path : String) : Looks (Machine.exists? path) (Machine.exists? path) :=
  (status path).bind fun result => by cases result <;> exact .pure _

end Looks
end Gatehouse.Clocked
