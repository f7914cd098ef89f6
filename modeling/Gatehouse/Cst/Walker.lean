import Gatehouse.Cst

/-!
The search for the first fault of a concrete tree. A walker goes through the tree in the order of
the text: down where there is a fault below, and else on to the next sibling of the node or of one
above it.
-/
namespace Gatehouse

/-- A place in a tree: a node and the siblings after it, and the nodes above it, the nearest first,
each with the siblings after it. -/
structure Walker where
  node : Cst
  later : List Cst
  above : List (Cst × List Cst)

namespace Walker

def start (root : Cst) : Walker := ⟨root, [], []⟩

def firstChild? (c : Walker) : Option Walker :=
  match c.node.children with
  | [] => none
  | d :: later => some ⟨d, later, (c.node, c.later) :: c.above⟩

def nextSibling? (c : Walker) : Option Walker :=
  match c.later with
  | [] => none
  | d :: later => some ⟨d, later, c.above⟩

def parent? (c : Walker) : Option Walker :=
  match c.above with
  | [] => none
  | (p, later) :: above => some ⟨p, later, above⟩

theorem length_above_of_parent? {c p : Walker} (h : c.parent? = some p) :
    p.above.length < c.above.length := by
  unfold parent? at h
  split at h
  · cases h
  · next p later above heq =>
    obtain rfl := Option.some.inj h
    rw [heq]
    exact Nat.lt_succ_self above.length

/-- On to the next sibling, or to that of the nearest node above that has one. -/
def climb? (c : Walker) : Option Walker :=
  match c.nextSibling? with
  | some d => some d
  | none =>
    match _h : c.parent? with
    | some p => p.climb?
    | none => none
termination_by c.above.length
decreasing_by exact length_above_of_parent? _h

/-- The trees that come after the node and all that is under it, in the order of the text. -/
def rest (c : Walker) : List Cst := c.later ++ c.above.flatMap Prod.snd

def ahead (c : Walker) : List Cst := c.node :: c.rest

theorem ahead_of_firstChild? {c d : Walker} (h : c.firstChild? = some d) :
    d.ahead = c.node.children ++ c.rest := by
  unfold firstChild? at h
  split at h
  · cases h
  · next e later heq =>
    obtain rfl := Option.some.inj h
    rw [heq]
    rfl

theorem nextSibling?_eq_none {c : Walker} : c.nextSibling? = none ↔ c.later = [] := by
  unfold nextSibling?
  split <;> simp_all

theorem parent?_eq_none {c : Walker} : c.parent? = none ↔ c.above = [] := by
  unfold parent?
  split <;> simp_all

theorem ahead_of_nextSibling? {c d : Walker} (h : c.nextSibling? = some d) : d.ahead = c.rest := by
  unfold nextSibling? at h
  split at h
  · cases h
  · next e later heq =>
    obtain rfl := Option.some.inj h
    simp [ahead, rest, heq]

theorem rest_of_parent? {c p : Walker} (hlater : c.later = []) (h : c.parent? = some p) :
    p.rest = c.rest := by
  unfold parent? at h
  split at h
  · cases h
  · next e later above heq =>
    obtain rfl := Option.some.inj h
    simp [rest, hlater, heq]

theorem ahead_climb? (c : Walker) : (c.climb?.map ahead).getD [] = c.rest := by
  fun_induction climb? c with
  | case1 c d hsibling => exact ahead_of_nextSibling? hsibling
  | case2 c hsibling p hparent ih =>
    rw [ih, rest_of_parent? (nextSibling?_eq_none.mp hsibling) hparent]
  | case3 c hsibling hparent =>
    simp [rest, nextSibling?_eq_none.mp hsibling, parent?_eq_none.mp hparent]

/-- One pass of the search: on to another place, or the end with the line of a fault or with
nothing. `faulty` tells of a node whether it is a fault or there is one under it. -/
def pass (faulty : Cst → Bool) (c : Walker) : Walker ⊕ Option Nat :=
  if c.node.tag.isFault then .inr (some c.node.line)
  else
    match if faulty c.node then c.firstChild? else none with
    | some child => .inl child
    | none =>
      match c.climb? with
      | some next => .inl next
      | none => .inr none

/-- A pass that goes on leaves the node behind, so there is less ahead. -/
theorem sizes_of_pass {faulty : Cst → Bool} {c d : Walker} (h : c.pass faulty = .inl d) :
    Cst.sizes d.ahead < Cst.sizes c.ahead := by
  have hnode : Cst.sizes c.ahead = 1 + Cst.sizes c.node.children + Cst.sizes c.rest := by
    rw [ahead, Cst.sizes, Cst.size_eq]
  unfold pass at h
  split at h
  · cases h
  · split at h
    · next child hchild =>
      obtain rfl := Sum.inl.inj h
      split at hchild
      · rw [ahead_of_firstChild? hchild, Cst.sizes_append]
        omega
      · cases hchild
    · split at h
      · next next hnext =>
        obtain rfl := Sum.inl.inj h
        have hahead := ahead_climb? c
        rw [hnext, Option.map_some, Option.getD_some] at hahead
        rw [hahead]
        omega
      · cases h

def search (faulty : Cst → Bool) (c : Walker) : Option Nat :=
  match _h : c.pass faulty with
  | .inl next => next.search faulty
  | .inr answer => answer
termination_by Cst.sizes c.ahead
decreasing_by exact sizes_of_pass _h

end Walker

/-- The line of the first fault of a tree in the order of the text. -/
def Cst.firstFault? (c : Cst) : Option Nat := (Walker.start c).search Cst.hasFault

end Gatehouse
