import Gatehouse.Proofs.Occurrence

/-!
The height of a tree, and recursions over trees that are given up where their calls would nest too
deep. Walking, measuring and naming a tree make calls for the parts of a node only, so none of them
nests deeper than the tree is high.
-/
namespace Gatehouse

namespace Tree

mutual
/-- Number of nodes on the longest way down from the root, through children and decorators. -/
def height : Tree → Nat
  | .node _ _ _ ds cs => 1 + max (heights ds) (heights cs)

def heights : List Tree → Nat
  | [] => 0
  | t :: ts => max t.height (heights ts)
end

def parts (t : Tree) : List Tree := t.decorators ++ t.children

section

variable {t : Tree} {ts : List Tree} {n : Nat}

theorem heights_le_iff : heights ts ≤ n ↔ ∀ t ∈ ts, t.height ≤ n := by
  induction ts with
  | nil => simp [heights]
  | cons t ts ih => simp only [heights, Nat.max_le, List.forall_mem_cons, ih]

theorem height_le_succ_iff : t.height ≤ n + 1 ↔ ∀ c ∈ t.parts, c.height ≤ n := by
  obtain ⟨kind, line, ident, ds, cs⟩ := t
  have hmax : 1 + max (heights ds) (heights cs) ≤ n + 1 ↔ heights ds ≤ n ∧ heights cs ≤ n := by
    omega
  rw [height, hmax, heights_le_iff, heights_le_iff]
  simp [parts, decorators, children, or_imp, forall_and]

theorem height_pos (t : Tree) : 0 < t.height := by
  cases t
  rw [height]
  omega

/-- A place in a tree, with what is above it and what is under it, is no deeper than the tree is
high. -/
theorem length_above_add_height_le {o : Occurrence} {above : List Tree} {decorates : Bool}
    (ht : t.height ≤ n) (ho : o ∈ t.occurrencesFrom above decorates) :
    o.above.length + o.tree.height ≤ above.length + n := by
  induction n generalizing t above decorates with
  | zero => exact absurd ht (Nat.not_le.mpr t.height_pos)
  | succ n ih =>
    rw [height_le_succ_iff] at ht
    -- Under the root there is one level less, with one node more above it.
    have hunder : ∀ c ∈ t.parts, ∀ {side : Bool}, o ∈ c.occurrencesFrom (t :: above) side →
        o.above.length + o.tree.height ≤ above.length + (n + 1) := fun c hc side ho => by
      have := ih (ht c hc) ho
      rw [List.length_cons] at this
      omega
    rw [occurrencesFrom_eq, List.mem_cons, List.mem_append] at ho
    rcases ho with rfl | ho | ho
    · exact Nat.add_le_add_left (height_le_succ_iff.mpr ht) _
    · obtain ⟨c, hc, ho⟩ := List.mem_flatMap.mp ho
      exact hunder c (List.mem_append_right _ hc) ho
    · obtain ⟨c, hc, ho⟩ := List.mem_flatMap.mp ho
      exact hunder c (List.mem_append_left _ hc) ho

end

end Tree

/-! ### Recursions of limited depth -/

section

variable {α β : Type}

/-- A recursive function whose calls may nest `n` deep; where they would nest deeper it has no
answer. The body of a call makes further calls by its first argument. -/
def limited (body : (α → Option β) → α → Option β) : Nat → α → Option β
  | 0, _ => none
  | n + 1, a => body (limited body n) a

theorem limited_eq (tree : α → Tree) {body : (α → Option β) → α → Option β} {f : α → β}
    (hbody : ∀ rec a, (∀ b, tree b ∈ (tree a).parts → rec b = some (f b)) →
      body rec a = some (f a)) {n : Nat} {a : α} (h : (tree a).height ≤ n) :
    limited body n a = some (f a) := by
  induction n generalizing a with
  | zero => exact absurd h (Nat.not_le.mpr (tree a).height_pos)
  | succ n ih => exact hbody _ a fun b hb => ih (Tree.height_le_succ_iff.mp h _ hb)

theorem mapM_eq_some {rec : α → Option β} {f : α → β} {as : List α}
    (h : ∀ a ∈ as, rec a = some (f a)) : as.mapM rec = some (as.map f) := by
  induction as with
  | nil => rfl
  | cons a as ih =>
    obtain ⟨ha, has⟩ := List.forall_mem_cons.mp h
    simp [List.mapM_cons, ha, ih has]

theorem foldlM_eq_some {rec : β → α → Option β} {f : β → α → β} {as : List α} {b : β}
    (h : ∀ b, ∀ a ∈ as, rec b a = some (f b a)) : as.foldlM rec b = some (as.foldl f b) := by
  induction as generalizing b with
  | nil => rfl
  | cons a as ih =>
    rw [List.foldlM_cons, h b a List.mem_cons_self, List.foldl_cons]
    exact ih fun b a ha => h b a (List.mem_cons_of_mem _ ha)

end

/-! ### The recursions over a contract's tree -/

namespace Tree

def sizeBody (rec : Tree → Option Nat) (t : Tree) : Option Nat := do
  let ds ← t.decorators.mapM rec
  let cs ← t.children.mapM rec
  return 1 + ds.foldr (· + ·) 0 + cs.foldr (· + ·) 0

def dottedNameBody (rec : Tree → Option (Option String)) : Tree → Option (Option String)
  | .node .name _ i _ _ => some i
  | .node .attributeOf _ i _ (c :: _) => do
    let base ← rec c
    return do return (← base) ++ "." ++ (← i)
  | .node .call _ _ _ (c :: _) => do
    let base ← rec c
    return do return (← base) ++ "()"
  | _ => some none

end Tree

namespace Linter

def boundNamesBody (rec : Tree → Option (List String)) (t : Tree) : Option (List String) :=
  match t.kind with
  | .name => some t.ident.toList
  | .tuple | .listDisplay | .starred => do return (← t.children.mapM rec).flatten
  | _ => some []

/-- What a call of `visit` is made with: whether the node is at the top level, what has been met, and
the node. -/
structure Visit where
  topLevel : Bool
  findings : Findings
  tree : Tree

def visitBody (p : Policy) (r : Registry) (rec : Visit → Option Findings) (v : Visit) :
    Option Findings :=
  match refusal? p v.tree with
  | some breach => some (v.findings.add breach)
  | none => do
    let f := examine p r v.topLevel v.tree v.findings
    let f ← v.tree.children.foldlM (fun f c => rec ⟨v.tree.kind == .module, f, c⟩) f
    v.tree.decorators.foldlM (fun f d => rec ⟨false, f, d⟩) f

end Linter

namespace Tree

open Linter

/-- No recursion over the tree nests its calls more than `n` deep. -/
structure RecursesWithin (n : Nat) (t : Tree) : Prop where
  visit : ∀ p r topLevel f,
    limited (visitBody p r) n ⟨topLevel, f, t⟩ = some (Linter.visit p r topLevel f t)
  boundNames : limited boundNamesBody n t = some (Linter.boundNames t)
  size : limited sizeBody n t = some t.size
  dottedName : limited dottedNameBody n t = some t.dottedName

section

variable {t : Tree}

theorem sizeBody_eq {rec : Tree → Option Nat} (h : ∀ c ∈ t.parts, rec c = some c.size) :
    sizeBody rec t = some t.size := by
  have hsizes : ∀ ts, sizes ts = (ts.map Tree.size).foldr (· + ·) 0 := fun ts => by
    induction ts with
    | nil => rfl
    | cons t ts ih => rw [sizes, ih, List.map_cons, List.foldr_cons]
  obtain ⟨hds, hcs⟩ := List.forall_mem_append.mp h
  rw [sizeBody, mapM_eq_some hds, mapM_eq_some hcs]
  obtain ⟨kind, line, ident, ds, cs⟩ := t
  simp [Tree.size, hsizes, decorators, children]

theorem dottedNameBody_eq {rec : Tree → Option (Option String)}
    (h : ∀ c ∈ t.parts, rec c = some c.dottedName) : dottedNameBody rec t = some t.dottedName := by
  fun_cases dottedNameBody rec t
  case case1 => rw [Tree.dottedName]
  case case2 line i ds c cs =>
    have hc := h c (by simp [parts, children])
    rw [hc, Tree.dottedName]
    rfl
  case case3 line i ds c cs =>
    have hc := h c (by simp [parts, children])
    rw [hc, Tree.dottedName]
    rfl
  case case4 hname hattribute hcall => rw [Tree.dottedName] <;> assumption

theorem boundNamesBody_eq {rec : Tree → Option (List String)}
    (h : ∀ c ∈ t.parts, rec c = some (Linter.boundNames c)) :
    boundNamesBody rec t = some (Linter.boundNames t) := by
  have hflat : ∀ ts, boundNames.boundNamesOf ts = (ts.map Linter.boundNames).flatten := fun ts => by
    induction ts with
    | nil => rfl
    | cons t ts ih => simp [boundNames.boundNamesOf, ih]
  obtain ⟨kind, line, ident, ds, cs⟩ := t
  have hchildren : (do return (← cs.mapM rec).flatten) = some (boundNames.boundNamesOf cs) := by
    have hcs : ∀ c ∈ cs, rec c = some (Linter.boundNames c) := fun c hc =>
      h c (List.mem_append_right _ hc)
    rw [hflat, mapM_eq_some hcs]
    rfl
  unfold boundNamesBody
  split
  case h_1 hk =>
    obtain rfl : kind = .name := hk
    rfl
  case h_2 hk =>
    obtain rfl : kind = .tuple := hk
    exact hchildren
  case h_3 hk =>
    obtain rfl : kind = .listDisplay := hk
    exact hchildren
  case h_4 hk =>
    obtain rfl : kind = .starred := hk
    exact hchildren
  case h_5 hname htuple hlist hstarred =>
    rw [Linter.boundNames] <;> rintro _ _ _ _ heq <;> cases heq
    · exact hname rfl
    · exact htuple rfl
    · exact hlist rfl
    · exact hstarred rfl

theorem visitBody_eq {p : Policy} {r : Registry} {rec : Visit → Option Findings} {v : Visit}
    (h : ∀ w : Visit, w.tree ∈ v.tree.parts →
      rec w = some (Linter.visit p r w.topLevel w.findings w.tree)) :
    visitBody p r rec v = some (Linter.visit p r v.topLevel v.findings v.tree) := by
  obtain ⟨topLevel, f, kind, line, ident, ds, cs⟩ := v
  obtain ⟨hds, hcs⟩ : (∀ f, ∀ d ∈ ds, rec ⟨false, f, d⟩ = some (Linter.visit p r false f d))
      ∧ ∀ f, ∀ c ∈ cs, rec ⟨kind == .module, f, c⟩ = some (Linter.visit p r (kind == .module) f c) :=
    ⟨fun f d hd => h ⟨false, f, d⟩ (List.mem_append_left _ hd),
      fun f c hc => h ⟨_, f, c⟩ (List.mem_append_right _ hc)⟩
  rw [visitBody, Linter.visit]
  split
  · next breach hbreach => rw [hbreach]
  · next hnone =>
    have hchildren := foldlM_eq_some (b := examine p r topLevel (.node kind line ident ds cs) f) hcs
    simp only [hnone, visitAll_eq_foldl]
    change (cs.foldlM (fun f c => rec ⟨kind == .module, f, c⟩) _
      >>= fun f => ds.foldlM (fun f d => rec ⟨false, f, d⟩) f) = _
    rw [hchildren]
    exact foldlM_eq_some hds

theorem recursesWithin_of_height {n : Nat} (h : t.height ≤ n) : t.RecursesWithin n where
  visit p r topLevel f :=
    have hbody : ∀ rec (v : Visit), (∀ w : Visit, w.tree ∈ v.tree.parts →
        rec w = some (Linter.visit p r w.topLevel w.findings w.tree)) →
        visitBody p r rec v = some (Linter.visit p r v.topLevel v.findings v.tree) :=
      fun _ _ => visitBody_eq
    limited_eq Visit.tree hbody (a := ⟨topLevel, f, t⟩) h
  boundNames := limited_eq id (fun _ _ => boundNamesBody_eq) h
  size := limited_eq id (fun _ _ => sizeBody_eq) h
  dottedName := limited_eq id (fun _ _ => dottedNameBody_eq) h

end

end Tree
end Gatehouse
