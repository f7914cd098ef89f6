import Gatehouse.Limits

/-!
A process under limits: what it keeps, and the calls that change it. The limits in force are one for
the whole process, the depth of calls is counted for each thread, and bytes are held by accounts.
Calls are made one at a time, on whatever thread: a frame is entered at the moment at which its
limit is looked up, as all else that this takes belongs to the thread.

The depth that a frame leads to is a sum whose overflow is an error. Where a thread is in as many
frames as a word can tell, the call that would enter one more ends in that error instead of in an
answer of its own, and nothing is kept of it.
-/
namespace Gatehouse

/-- A frame that a thread has entered, and how many calls had been made before. -/
structure Frame (θ : Type) where
  thread : θ
  number : Nat
  deriving DecidableEq, Repr

/-- What a process with threads `θ` and accounts `ι` keeps. -/
structure Process (θ ι : Type) where
  bounds : Bounds
  depth : θ → UInt64
  account : ι → Ledger

namespace Process

/-- The calls. A frame is left on the thread that entered it. -/
inductive Call (θ ι : Type) where
  | install (asked : Limits)
  | enter (t : θ)
  | leave (f : Frame θ)
  | charge (i : ι) (bytes : UInt64)
  | release (i : ι) (bytes : UInt64)

/-- What calls answer. A charge answers the bytes that the account holds after it. -/
inductive Answer where
  | installed (result : Except BadLimit Unit)
  | entered (result : Except Excess Unit)
  | overflowed
  | left
  | charged (result : Except Excess UInt64)
  | released

variable {θ ι : Type}

def fresh (b : Bounds) : Process θ ι := ⟨b, fun _ => 0, fun _ => .empty⟩

section

variable [DecidableEq θ]

def setDepth (s : Process θ ι) (t : θ) (n : UInt64) : Process θ ι :=
  { s with depth := fun u => if u = t then n else s.depth u }

end

section

variable [DecidableEq ι]

def setAccount (s : Process θ ι) (i : ι) (l : Ledger) : Process θ ι :=
  { s with account := fun j => if j = i then l else s.account j }

@[simp] theorem account_setAccount_self (s : Process θ ι) (i : ι) (l : Ledger) :
    (s.setAccount i l).account i = l := if_pos rfl

theorem account_setAccount_of_ne (s : Process θ ι) {i j : ι} (l : Ledger) (h : j ≠ i) :
    (s.setAccount i l).account j = s.account j := if_neg h

end

variable [DecidableEq θ] [DecidableEq ι]

def step (s : Process θ ι) : Call θ ι → Answer × Process θ ι
  | .install asked =>
    let (result, bounds) := s.bounds.apply asked
    (.installed result, { s with bounds })
  | .enter t =>
    if s.depth t = Word.largest then (.overflowed, s)
    else
      match enterFrame s.bounds.current (s.depth t) with
      | .ok depth => (.entered (.ok ()), s.setDepth t depth)
      | .error e => (.entered (.error e), s)
  | .leave f => (.left, s.setDepth f.thread (leaveFrame (s.depth f.thread)))
  | .charge i bytes =>
    match (s.account i).charge s.bounds.current bytes with
    | .ok l => (.charged (.ok l.used), s.setAccount i l)
    | .error e => (.charged (.error e), s)
  | .release i bytes => (.released, s.setAccount i ((s.account i).release bytes))

end Process
end Gatehouse
