import Gatehouse.Cst
import Gatehouse.Lexeme

/-!
Readers: functions that take a stretch of a text and answer a value and the place after it, or
refuse. A refusal says which line is to blame: the line of the innermost bracket or string that is
never closed, else the line read last in the statement, else the line of the token refused.
-/
namespace Gatehouse

inductive Opened where
  | bracket (row : Nat)
  | string (row : Nat)
  deriving Repr, Inhabited

/-- Where a reader stands. `lately` is the row of the last token read in the current statement. -/
structure Cursor where
  place : Nat
  layout : Layout
  opened : List Opened
  lately : Option Nat
  deriving Repr, Inhabited

/-- A refusal: the row to blame, and where the token that was refused starts and stops. -/
structure Refusal where
  row : Nat
  reach : Nat
  stop : Nat
  deriving Repr, Inhabited

def Reader (α : Type) : Type := Source → Cursor → Except Refusal (α × Cursor)

namespace Reader

@[inline] protected def pure {α : Type} (a : α) : Reader α := fun _ c => .ok (a, c)

@[inline] protected def bind {α β : Type} (r : Reader α) (f : α → Reader β) : Reader β :=
  fun s c => match r s c with
    | .ok (a, c') => f a s c'
    | .error e => .error e

instance : Monad Reader where
  pure := Reader.pure
  bind := Reader.bind

def cursor : Reader Cursor := fun _ c => .ok (c, c)

def goTo (c : Cursor) : Reader Unit := fun _ _ => .ok ((), c)

def peek (e : Expect) : Reader Lexeme := fun s c => .ok (Lexeme.read s e c.layout c.place, c)

def peekPast (e : Expect) (x : Lexeme) : Reader Lexeme := fun s c =>
  .ok (Lexeme.read s e x.layout x.stop, c)

/-- Is a bracket that is open at `i` closed further on? Brackets opened on the way count. -/
def closesLater (s : Source) (i depth : Nat) : Bool :=
  if i < s.size then
    let c := s.peek i
    if c == '(' || c == '[' || c == '\x7b' then closesLater s (i + 1) (depth + 1)
    else if c == ')' || c == ']' || c == '\x7d' then
      if depth = 0 then true else closesLater s (i + 1) (depth - 1)
    else closesLater s (i + 1) depth
  else false
termination_by s.size - i

def blame (s : Source) (c : Cursor) (x : Lexeme) : Nat :=
  match c.opened with
  | .string row :: _ => row
  | .bracket row :: _ => if closesLater s x.start 0 then s.row x.start else row
  | [] => c.lately.getD (s.row x.start)

def refuse {α : Type} (x : Lexeme) : Reader α := fun s c => .error ⟨blame s c x, x.start, x.stop⟩

def refuseHere {α : Type} : Reader α := fun s c =>
  .error ⟨blame s c ⟨.stray, c.place, c.place, c.layout⟩, c.place, c.place⟩

def openedAfter (row : Nat) (t : Token) (opened : List Opened) : List Opened :=
  match t with
  | .quote => .string row :: opened
  | .sign t =>
    if t == "(" || t == "[" || t == "\x7b" then .bracket row :: opened
    else if t == ")" || t == "]" || t == "\x7d" then opened.tail
    else opened
  | _ => opened

def accept (x : Lexeme) (tag : Tag) : Reader Cst := fun s c =>
  let row := s.row x.start
  .ok (.node tag none ⟨s.offset x.start, s.offset x.stop, row⟩ [],
    ⟨x.stop, x.layout, openedAfter row x.token c.opened, some row⟩)

/-- Takes a token of layout. A statement is over after it. -/
def pass (x : Lexeme) : Reader Unit := fun _ c =>
  .ok ((), { c with place := x.stop, layout := x.layout, lately := none })

def passWithin (x : Lexeme) : Reader Unit := fun _ c =>
  .ok ((), { c with place := x.stop, layout := x.layout })

def empty (tag : Tag) : Reader Cst := fun s c =>
  let i := s.offset c.place
  .ok (.node tag none ⟨i, i, s.row c.place⟩ [], c)

/-- The first reader, or the second where the first refuses; of two refusals the one that came
further. -/
def orElse {α : Type} (r : Reader α) (t : Reader α) : Reader α := fun s c =>
  match r s c with
  | .ok a => .ok a
  | .error e =>
    match t s c with
    | .ok a => .ok a
    | .error f => if e.reach < f.reach then .error f else .error e

def loop {σ α : Type} (step : σ → Reader (σ ⊕ α)) : Nat → σ → Reader α
  | 0, _ => refuseHere
  | n + 1, a => do
    match ← step a with
    | .inl b => loop step n b
    | .inr r => pure r

/-- Repeats a step until it has a result. Each round takes some text, so there are no more rounds
than characters. -/
def iterate {σ α : Type} (step : σ → Reader (σ ⊕ α)) (a : σ) : Reader α := fun s c =>
  loop step (s.size + 2) a s c

end Reader
end Gatehouse
