import Mathlib.Data.List.Forall2
import Gatehouse.Proofs.Linter.Notes

/-!
Refused nodes are opaque: what stands inside of them has no part in a check. Some rules look below
the node they are about (the text of a decorator, the callee of a storage cell, the names a target
binds), so it is not enough that the walk stops at a refused node; all that looks ahead of it has
to stop there, too.
-/
namespace Gatehouse

namespace Policy

/-- Two trees that differ in nothing but the decorators and children of refused nodes. -/
inductive SameOutside (p : Policy) : Tree → Tree → Prop
  | refused {kind : Kind} {line : Nat} {ident : Option String} (ds cs ds' cs' : List Tree)
      (h : p.blocks (.node kind line ident ds cs) = true) :
      SameOutside p (.node kind line ident ds cs) (.node kind line ident ds' cs')
  | node {kind : Kind} {line : Nat} {ident : Option String} {ds cs ds' cs' : List Tree}
      (hds : List.Forall₂ (SameOutside p) ds ds') (hcs : List.Forall₂ (SameOutside p) cs cs') :
      SameOutside p (.node kind line ident ds cs) (.node kind line ident ds' cs')

def openKinds : List Kind := [.name, .attributeOf, .call, .tuple, .listDisplay, .starred]

mutual
def prune (p : Policy) : Tree → Tree
  | .node kind line ident ds cs =>
    if p.blocks (.node kind line ident ds cs) then .node kind line ident [] []
    else .node kind line ident (pruneAll p ds) (pruneAll p cs)

def pruneAll (p : Policy) : List Tree → List Tree
  | [] => []
  | t :: ts => prune p t :: pruneAll p ts
end

section

variable {p : Policy} {t u : Tree}

theorem pruneAll_eq_map (ts : List Tree) : p.pruneAll ts = ts.map p.prune := by
  induction ts with
  | nil => rfl
  | cons t ts ih => rw [pruneAll, ih, List.map_cons]

theorem prune_of_blocks (h : p.blocks t = true) :
    p.prune t = .node t.kind t.line t.ident [] [] := by
  cases t
  rw [prune, if_pos h]
  rfl

theorem prune_of_not_blocks (h : p.blocks t = false) : p.prune t
    = .node t.kind t.line t.ident (t.decorators.map p.prune) (t.children.map p.prune) := by
  cases t
  rw [prune, if_neg (by simp [h]), pruneAll_eq_map, pruneAll_eq_map]
  rfl

@[simp] theorem kind_prune (t : Tree) : (p.prune t).kind = t.kind := by
  cases h : p.blocks t
  · rw [prune_of_not_blocks h]; rfl
  · rw [prune_of_blocks h]; rfl

@[simp] theorem line_prune (t : Tree) : (p.prune t).line = t.line := by
  cases h : p.blocks t
  · rw [prune_of_not_blocks h]; rfl
  · rw [prune_of_blocks h]; rfl

@[simp] theorem ident_prune (t : Tree) : (p.prune t).ident = t.ident := by
  cases h : p.blocks t
  · rw [prune_of_not_blocks h]; rfl
  · rw [prune_of_blocks h]; rfl

theorem children_prune (h : p.blocks t = false) :
    (p.prune t).children = t.children.map p.prune := by
  rw [prune_of_not_blocks h]
  rfl

theorem decorators_prune (h : p.blocks t = false) :
    (p.prune t).decorators = t.decorators.map p.prune := by
  rw [prune_of_not_blocks h]
  rfl

mutual
theorem SameOutside.prune_eq : {t u : Tree} → p.SameOutside t u → p.prune t = p.prune u
  | .node kind line ident ds cs, _, h => by
    cases h with
    | refused _ _ ds' cs' hb =>
      have hb' : p.blocks (.node kind line ident ds' cs') = true := hb
      rw [prune_of_blocks hb, prune_of_blocks hb']
      rfl
    | @node _ _ _ _ _ ds' cs' hds hcs =>
      have hb : p.blocks (.node kind line ident ds' cs')
          = p.blocks (.node kind line ident ds cs) := rfl
      rw [prune, prune, hb, pruneAll_eq_of_forall₂ hds, pruneAll_eq_of_forall₂ hcs]

theorem pruneAll_eq_of_forall₂ : {ts us : List Tree} → List.Forall₂ p.SameOutside ts us →
    p.pruneAll ts = p.pruneAll us
  | [], _, h => by
    cases h
    rfl
  | t :: ts, _, h => by
    cases h with
    | cons htu hrest => rw [pruneAll, pruneAll, htu.prune_eq, pruneAll_eq_of_forall₂ hrest]
end

/-- The kinds of nodes that rules look into from above are all admitted. -/
def AdmitsOpen (p : Policy) : Prop := ∀ kind ∈ openKinds, p.allows kind = true

instance (p : Policy) : Decidable p.AdmitsOpen :=
  inferInstanceAs (Decidable (∀ kind ∈ openKinds, p.allows kind = true))

theorem blocks_eq_false_of_open (hp : p.AdmitsOpen) (h : t.kind ∈ openKinds) :
    p.blocks t = false := by
  have hallows := hp t.kind h
  have hplain : t.kind ≠ .classDef ∧ t.kind ≠ .asyncFunctionDef ∧ t.kind ≠ .importFrom := by
    refine ⟨?_, ?_, ?_⟩ <;> (intro hk; rw [hk] at h; revert h; decide)
  simp [blocks, hallows, hplain]

theorem prune_of_open (hp : p.AdmitsOpen) {kind : Kind} {line : Nat} {ident : Option String}
    {ds cs : List Tree} (h : kind ∈ openKinds) : p.prune (.node kind line ident ds cs)
      = .node kind line ident (ds.map p.prune) (cs.map p.prune) :=
  prune_of_not_blocks (blocks_eq_false_of_open hp h)

theorem eq_of_prune_eq (hp : p.AdmitsOpen) {kind : Kind} {line : Nat} {ident : Option String}
    {ds cs : List Tree} (h : kind ∈ openKinds) (heq : p.prune t = .node kind line ident ds cs) :
    ∃ ds' cs', t = .node kind line ident ds' cs' ∧ cs = cs'.map p.prune := by
  obtain ⟨k, l, i, ds', cs'⟩ := t
  obtain rfl : k = kind := by
    have hkind := congrArg Tree.kind heq
    rwa [kind_prune] at hkind
  rw [prune_of_open hp h] at heq
  obtain ⟨-, rfl, rfl, -, rfl⟩ := Tree.node.inj heq
  exact ⟨ds', cs', rfl, rfl⟩

end

end Policy

namespace Linter

open Policy

section

variable {p : Policy} {r : Registry}

/-! ### What looks ahead -/

theorem dottedName_prune (hp : p.AdmitsOpen) (t : Tree) :
    (p.prune t).dottedName = t.dottedName := by
  fun_induction Tree.dottedName t with
  | case1 line ident ds cs =>
    rw [prune_of_open hp (by decide), Tree.dottedName]
  | case2 line ident ds c cs ih =>
    rw [prune_of_open hp (by decide), List.map_cons, Tree.dottedName, ih]
  | case3 line ident ds c cs ih =>
    rw [prune_of_open hp (by decide), List.map_cons, Tree.dottedName, ih]
  | case4 t hname hattribute hcall =>
    refine Tree.dottedName.eq_4 _ ?_ ?_ ?_
    · intro line ident ds cs heq
      obtain ⟨ds', cs', rfl, -⟩ := eq_of_prune_eq hp (by decide) heq
      exact hname _ _ _ _ rfl
    · intro line ident ds c rest heq
      obtain ⟨ds', cs', rfl, hcs⟩ := eq_of_prune_eq hp (by decide) heq
      obtain ⟨c', rest', rfl, -⟩ := List.map_eq_cons_iff.mp hcs.symm
      exact hattribute _ _ _ _ _ rfl
    · intro line ident ds c rest heq
      obtain ⟨ds', cs', rfl, hcs⟩ := eq_of_prune_eq hp (by decide) heq
      obtain ⟨c', rest', rfl, -⟩ := List.map_eq_cons_iff.mp hcs.symm
      exact hcall _ _ _ _ _ rfl

def bindingKinds : List Kind := [.name, .tuple, .listDisplay, .starred]

theorem boundNames_of_other {t : Tree} (h : t.kind ∉ bindingKinds) : boundNames t = [] := by
  unfold boundNames
  split
  · exact absurd (by simp [bindingKinds, Tree.kind]) h
  · exact absurd (by simp [bindingKinds, Tree.kind]) h
  · exact absurd (by simp [bindingKinds, Tree.kind]) h
  · exact absurd (by simp [bindingKinds, Tree.kind]) h
  · rfl

mutual
theorem boundNames_prune (hp : p.AdmitsOpen) : (t : Tree) → boundNames (p.prune t) = boundNames t
  | .node kind line ident ds cs => by
    by_cases h : kind ∈ bindingKinds
    · have hopen : kind ∈ openKinds := (by decide : ∀ k ∈ bindingKinds, k ∈ openKinds) kind h
      rw [prune_of_open hp hopen]
      simp only [bindingKinds, List.mem_cons, List.not_mem_nil, or_false] at h
      rcases h with rfl | rfl | rfl | rfl
      · rw [boundNames, boundNames]
      all_goals rw [boundNames, boundNames, boundNamesOf_prune hp cs]
    · rw [boundNames_of_other (t := .node kind line ident ds cs) h,
        boundNames_of_other (by rwa [kind_prune])]

theorem boundNamesOf_prune (hp : p.AdmitsOpen) : (ts : List Tree) →
    boundNames.boundNamesOf (ts.map p.prune) = boundNames.boundNamesOf ts
  | [] => rfl
  | t :: ts => by
    rw [List.map_cons, boundNames.boundNamesOf, boundNames.boundNamesOf, boundNames_prune hp t,
      boundNamesOf_prune hp ts]
end

theorem storageCell?_prune (hp : p.AdmitsOpen) (value : Tree) :
    storageCell? p (p.prune value) = storageCell? p value := by
  unfold storageCell?
  rw [kind_prune]
  split
  · next hcall =>
    have hb := blocks_eq_false_of_open hp (t := value) (by rw [hcall]; decide)
    rw [children_prune hb]
    cases value.children with
    | nil => rfl
    | cons callee rest => simp only [List.map_cons, kind_prune, ident_prune]
  · rfl

theorem assignParts_prune {t : Tree} (hb : p.blocks t = false) : (p.prune t).assignParts
    = t.assignParts.map (fun parts => (parts.1.map p.prune, p.prune parts.2)) := by
  unfold Tree.assignParts
  rw [kind_prune, children_prune hb, List.getLast?_map, ← List.map_dropLast]
  split
  · cases t.children.getLast? <;> rfl
  · rfl

theorem hasSeveralTargets_prune (targets : List Tree) :
    hasSeveralTargets (targets.map p.prune) = hasSeveralTargets targets := by
  simp [hasSeveralTargets, List.any_map, Function.comp_def]

theorem cellKeywordViolations_prune (t : Tree) :
    cellKeywordViolations p (p.prune t) = cellKeywordViolations p t := by
  unfold cellKeywordViolations
  rw [kind_prune, ident_prune, line_prune]

theorem storageViolations_prune (hp : p.AdmitsOpen) {t : Tree} (hb : p.blocks t = false) :
    storageViolations p (p.prune t) = storageViolations p t := by
  unfold storageViolations
  rw [assignParts_prune hb]
  cases t.assignParts with
  | none => rfl
  | some parts =>
    obtain ⟨targets, value⟩ := parts
    have hbound : (targets.map p.prune).flatMap boundNames = targets.flatMap boundNames := by
      simp only [List.flatMap_map, boundNames_prune hp]
    simp only [Option.map_some, storageCell?_prune hp, hasSeveralTargets_prune, hbound, line_prune]
    cases hcell : storageCell? p value with
    | none => rfl
    | some cell =>
      -- Only a call makes a storage cell, and a call keeps its keywords.
      have hcall : value.kind = .call := by
        unfold storageCell? at hcell
        split at hcell
        · assumption
        · cases hcell
      have hvalue := blocks_eq_false_of_open hp (t := value) (by rw [hcall]; decide)
      simp only [children_prune hvalue, List.flatMap_map, cellKeywordViolations_prune]

/-! ### The walk -/

theorem refusal?_prune (t : Tree) : refusal? p (p.prune t) = refusal? p t := by
  unfold refusal?
  rw [kind_prune, line_prune]

theorem ownViolations_prune (hp : p.AdmitsOpen) {t : Tree} (hb : p.blocks t = false)
    (topLevel : Bool) : ownViolations p r topLevel (p.prune t) = ownViolations p r topLevel t := by
  have himported : ∀ c : Tree, importedViolations r topLevel t.line (p.prune c)
      = importedViolations r topLevel t.line c := by
    intro c
    unfold importedViolations
    rw [ident_prune]
  have halias : aliasViolations (p.prune t) = aliasViolations t := by
    unfold aliasViolations
    rw [children_prune hb, ident_prune, line_prune]
    cases t.children <;> rfl
  unfold ownViolations nameViolations attributeViolations
  rw [kind_prune, ident_prune, line_prune, children_prune hb, List.flatMap_map, halias,
    storageViolations_prune hp hb]
  simp only [himported]

theorem decorate_prune (hp : p.AdmitsOpen) (topLevel : Bool) (t d : Tree) (f : Findings) :
    decorate p topLevel (p.prune t) f (p.prune d) = decorate p topLevel t f d := by
  unfold decorate markOf?
  simp only [kind_prune, ident_prune, line_prune, dottedName_prune hp]

theorem examine_prune (hp : p.AdmitsOpen) {t : Tree} (hb : p.blocks t = false) (topLevel : Bool)
    (f : Findings) : examine p r topLevel (p.prune t) f = examine p r topLevel t f := by
  unfold examine decorateAll
  simp only [ownViolations_prune hp hb, kind_prune, ident_prune, line_prune, decorators_prune hb,
    List.length_map, List.foldl_map, decorate_prune hp]

mutual
/-- A walk meets the same in a tree without what stands inside of refused nodes. -/
theorem visit_prune (hp : p.AdmitsOpen) (topLevel : Bool) (f : Findings) : (t : Tree) →
    visit p r topLevel f (p.prune t) = visit p r topLevel f t
  | .node kind line ident ds cs => by
    let t := Tree.node kind line ident ds cs
    have hsame : refusal? p (p.prune t) = refusal? p t := refusal?_prune t
    rw [visit]
    cases hrefused : refusal? p t with
    | some v =>
      have hb : p.blocks t = true := by
        have hne : refusal? p t ≠ none := by simp [hrefused]
        simpa [refusal?_eq_none_iff] using hne
      rw [hrefused, prune_of_blocks hb] at hsame
      rw [prune_of_blocks hb, visit]
      simp only [hsame]
    | none =>
      have hb : p.blocks t = false := refusal?_eq_none_iff.mp hrefused
      have hexamined := examine_prune (r := r) hp hb topLevel f
      rw [hrefused, prune_of_not_blocks hb] at hsame
      rw [prune_of_not_blocks hb] at hexamined
      rw [prune_of_not_blocks hb, visit]
      simp only [hsame, hexamined]
      have hcs := visitAll_prune hp (kind == .module) (examine p r topLevel t f) cs
      have hds := visitAll_prune hp false
        (visitAll p r (kind == .module) (examine p r topLevel t f) cs) ds
      exact (congrArg (fun g => visitAll p r false g (ds.map p.prune)) hcs).trans hds

theorem visitAll_prune (hp : p.AdmitsOpen) (topLevel : Bool) (f : Findings) : (ts : List Tree) →
    visitAll p r topLevel f (ts.map p.prune) = visitAll p r topLevel f ts
  | [] => rfl
  | t :: ts => by
    rw [List.map_cons, visitAll, visitAll, visit_prune hp topLevel f t,
      visitAll_prune hp topLevel _ ts]
end

theorem run_prune (hp : p.AdmitsOpen) (t : Tree) : run p r (p.prune t) = run p r t := by
  unfold run
  rw [visit_prune hp]

/-- A check does not tell trees apart that differ only inside of refused nodes: it meets the same
breaches, exports and constructor, it reports the same, and it answers the same, whatever is
registered. -/
theorem check_eq_of_sameOutside {t u : Tree} (r : Registry) (hp : p.AdmitsOpen)
    (h : p.SameOutside t u) : run p r t = run p r u ∧ inspect p r t = inspect p r u
      ∧ check p r t = check p r u := by
  have hrun : run p r t = run p r u := by
    rw [← run_prune hp t, h.prune_eq, run_prune hp u]
  have hinspect : inspect p r t = inspect p r u := by
    rw [inspect, hrun, inspect]
  exact ⟨hrun, hinspect, by rw [check, hinspect, check]⟩

/-- A contract that is nothing but a class with the given decorators and body. -/
def onlyClass (ds body : List Tree) : Tree :=
  .branch .module 1 [.node .classDef 2 (some "C") ds body]

/-- A class that imports and decorates passes for one that does nothing, also where what it imports
is registered. -/
theorem check_onlyClass_eq : standard.AdmitsOpen
    ∧ check standard (.ofNames ["token"]) (onlyClass [.named .name 1 "export" [.leaf .load 1]]
        [.branch .importModule 3 [.named .alias 3 "token" []], .node .functionDef 5 (some "_f")
          [.named .name 4 "construct" [.leaf .load 4]] [.leaf .arguments 5, .leaf .lambda 6]])
      = check standard (.ofNames ["token"]) (onlyClass [] [.leaf .pass 3]) := by
  have hp : standard.AdmitsOpen := by decide
  have hsame : ∀ ds body, standard.SameOutside (onlyClass ds body) (onlyClass [] [.leaf .pass 3]) :=
    fun ds body => .node .nil (.cons (.refused _ _ _ _ rfl) .nil)
  exact ⟨hp, (check_eq_of_sameOutside (.ofNames ["token"]) hp (hsame _ _)).2.2⟩

end

end Linter
end Gatehouse
