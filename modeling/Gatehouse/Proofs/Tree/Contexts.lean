import Gatehouse.Linter
import Gatehouse.Proofs.Lowering.Result

/-!
The contexts of names. Each name of an expression is read, bound or deleted, and has the context in
which that is done under it. Which context a place calls for is told by what stands above it: a
display and a splat hand their own context on, a clause of a comprehension and an assignment inside
of an expression bind what comes first in them, and all else is read.
-/
namespace Gatehouse

namespace Kind

def handsOn : Kind → Bool
  | .tuple | .listDisplay | .starred => true
  | _ => false

def isBinder : Kind → Bool
  | .comprehension | .namedExpr => true
  | _ => false

def isReader (kind : Kind) : Bool := kind != .name && !kind.handsOn && !kind.isBinder

theorem isReader_of_isContext {kind : Kind} (h : kind.isContext = true) : kind.isReader = true := by
  cases kind <;> first
    | rfl
    | cases h

end Kind

namespace Tree

mutual
/-- The names of a tree that stands in a context, each with the context that its place calls for. -/
def namesIn (context : Kind) : Tree → List (Kind × Tree)
  | .node kind line ident ds cs =>
    if kind = .name then [(context, .node kind line ident ds cs)]
    else if kind.isBinder then namesInBinder cs
    else namesInAll (if kind.handsOn then context else .load) cs

def namesInAll (context : Kind) : List Tree → List (Kind × Tree)
  | [] => []
  | t :: ts => t.namesIn context ++ namesInAll context ts

/-- The names of a tree that is bound and of others that are read. -/
def namesInBinder : List Tree → List (Kind × Tree)
  | [] => []
  | t :: ts => t.namesIn .store ++ namesInAll .load ts
end

/-- Each name of a tree in a context has the context that its place calls for under it. -/
def Shows (context : Kind) (t : Tree) : Prop :=
  ∀ x n, (x, n) ∈ t.namesIn context → n.children = [.leaf x n.line]

section

variable {kind context : Kind} {line : Nat} {ident : Option String} {t : Tree} {ds ts : List Tree}

theorem namesInAll_eq_flatMap (context : Kind) (ts : List Tree) :
    namesInAll context ts = ts.flatMap (namesIn context) := by
  induction ts with
  | nil => rfl
  | cons t ts ih => rw [namesInAll, ih, List.flatMap_cons]

theorem forall_namesInAll_iff {p : Kind → Tree → Prop} :
    (∀ x n, (x, n) ∈ namesInAll context ts → p x n)
      ↔ ∀ t ∈ ts, ∀ x n, (x, n) ∈ t.namesIn context → p x n := by
  simp only [namesInAll_eq_flatMap, List.mem_flatMap]
  exact ⟨fun h t ht x n hn => h x n ⟨t, ht, hn⟩, fun h x n ⟨t, ht, hn⟩ => h t ht x n hn⟩

theorem shows_named (name : String) :
    (named .name line name [.leaf context line]).Shows context := by
  intro x n hn
  obtain ⟨rfl, rfl⟩ := Prod.mk.inj (List.mem_singleton.mp hn)
  rfl

theorem shows_reader_iff (hkind : kind.isReader = true) :
    (node kind line ident ds ts).Shows context ↔ ∀ t ∈ ts, t.Shows .load := by
  simp only [Kind.isReader, Bool.and_eq_true, bne_iff_ne, Bool.not_eq_true'] at hkind
  obtain ⟨⟨hname, hdisplay⟩, hbinder⟩ := hkind
  rw [Shows, namesIn, if_neg hname, if_neg (by simp [hbinder]), if_neg (by simp [hdisplay])]
  exact forall_namesInAll_iff

theorem shows_leaf (hkind : kind.isReader = true) : (leaf kind line).Shows context :=
  (shows_reader_iff hkind).mpr fun t ht => by cases ht

theorem shows_handsOn (hkind : kind.handsOn = true) (h : ∀ t ∈ ts, t.Shows context) :
    (node kind line ident ds ts).Shows context := by
  have hname : kind ≠ .name := by
    rintro rfl
    cases hkind
  have hbinder : kind.isBinder = false := by
    cases kind <;> first
      | rfl
      | cases hkind
  rw [Shows, namesIn, if_neg hname, if_neg (by simp [hbinder]), if_pos hkind]
  exact forall_namesInAll_iff.mpr h

theorem shows_inContext (hkind : kind.handsOn = true) (hcontext : context.isContext = true)
    (hts : ∀ t ∈ ts, t.Shows context) : (Lowering.inContext kind line ts context).Shows context :=
  shows_handsOn hkind (List.forall_mem_append.mpr ⟨hts,
    List.forall_mem_singleton.mpr (shows_leaf (Kind.isReader_of_isContext hcontext))⟩)

theorem shows_binder (hkind : kind.isBinder = true) (ht : t.Shows .store)
    (hts : ∀ u ∈ ts, u.Shows .load) : (node kind line ident ds (t :: ts)).Shows context := by
  have hname : kind ≠ .name := by
    rintro rfl
    cases hkind
  intro x n hn
  rw [namesIn, if_neg hname, if_pos hkind, namesInBinder, List.mem_append] at hn
  rcases hn with hn | hn
  · exact ht x n hn
  · exact forall_namesInAll_iff.mpr hts x n hn

end

/-! ### Targets -/

mutual
/-- What a target assigns to, in the order of the text: names, attributes and subscripts, and what
stands in displays and splats in their place. -/
def places : Tree → List Tree
  | .node kind line ident ds cs =>
    if kind.handsOn then placesOf cs
    else if kind.isContext then []
    else [.node kind line ident ds cs]

def placesOf : List Tree → List Tree
  | [] => []
  | t :: ts => t.places ++ placesOf ts
end

section

variable {kind : Kind} {line : Nat} {ident : Option String} {ds ts : List Tree}

theorem placesOf_eq_flatMap (ts : List Tree) : placesOf ts = ts.flatMap places := by
  induction ts with
  | nil => rfl
  | cons t ts ih => rw [placesOf, ih, List.flatMap_cons]

theorem places_of_handsOn (h : kind.handsOn = true) :
    (node kind line ident ds ts).places = ts.flatMap places := by
  rw [places, if_pos h, placesOf_eq_flatMap]

mutual
theorem boundNames_eq : (t : Tree) → Linter.boundNames t
    = (t.places.filter fun u => u.kind = .name).filterMap Tree.ident
  | .node kind line ident ds cs => by
    rw [places]
    cases hkind : kind
    case name => cases ident <;> rfl
    case tuple | listDisplay | starred =>
      simp only [Linter.boundNames, Kind.handsOn, if_true]
      exact boundNamesOf_eq cs
    all_goals simp [Linter.boundNames, Kind.handsOn, Kind.isContext, Tree.kind]

theorem boundNamesOf_eq : (ts : List Tree) → Linter.boundNames.boundNamesOf ts
    = ((placesOf ts).filter fun u => u.kind = .name).filterMap Tree.ident
  | [] => rfl
  | t :: ts => by
    rw [Linter.boundNames.boundNamesOf, placesOf, boundNames_eq t, boundNamesOf_eq ts,
      List.filter_append, List.filterMap_append]
end

theorem flatMap_boundNames_eq (ts : List Tree) : ts.flatMap Linter.boundNames
    = ((ts.flatMap places).filter fun u => u.kind = .name).filterMap Tree.ident := by
  rw [List.filter_flatMap, List.filterMap_flatMap]
  exact List.flatMap_congr fun t _ => boundNames_eq t

end

end Tree
end Gatehouse
