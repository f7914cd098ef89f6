import Gatehouse.Disk

/-!
A disk with a clock, as a machine. The clock may show anything whenever it is looked at.
-/
namespace Gatehouse

/-- A disk, and what the clock will show each time that it is looked at. -/
structure Clocked where
  disk : Disk
  readings : Nat → Nat

namespace Clocked

abbrev Action := StateM Clocked

def now : Action Nat := fun s =>
  (s.readings 0, { s with readings := fun i => s.readings (i + 1) })

def onDisk {α : Type} (x : Disk.Action α) : Action α := fun s =>
  ((x s.disk).1, { s with disk := (x s.disk).2 })

instance : Machine Action where
  status path := onDisk (Machine.status path)
  opens path := onDisk (Machine.opens path)
  read path := onDisk (Machine.read path)
  write path bytes := onDisk (Machine.write path bytes)
  makeDirectory path := onDisk (Machine.makeDirectory path)
  filesUnder path := onDisk (Machine.filesUnder path)
  seconds := onDisk Machine.seconds
  nanoseconds := now

end Clocked
end Gatehouse
