import Gatehouse.Proofs.Cst.Chain
import Gatehouse.Proofs.Lists
import Gatehouse.Proofs.Lowering.Levels
import Gatehouse.Proofs.Lowering.Result

/-!
Assignments in a chain. A chain may be of any length, and all of its targets are kept, in the order
of the text, and the value at its end. Of the annotations only that of the first link is kept; one
further on in the chain is passed by.
-/
namespace Gatehouse

open Gatehouse.Tree

namespace Lowering

section

variable {s : Source} {lower : Cst → Kind → Result Tree} {c d : Cst} {t : Tree} {ts : List Tree}
  {line levels : Nat}

theorem chain_of_not_assignment (h : c.tag ≠ .assignment) :
    chain lower c = do return [← lower c .load] := by
  obtain ⟨tag, role, sp, cs⟩ := c
  rw [chain]
  intro role' sp' cs' heq
  exact h (Cst.node.inj heq).1

theorem chain_of_assignment (h : c.tag = .assignment) :
    chain lower c = do
      let target ← lower (← required c .left) .store
      let rest ← chain lower (← required c .right)
      return target :: rest := by
  have hright : ∀ whole cs, chain.chainRight lower whole cs
      = (cs.find? fun d => d.role == some .right).elim
          (.error (.syntaxError whole.line (.lacking whole.tag.name Role.right.label)))
          (chain lower) := by
    intro whole cs
    induction cs with
    | nil => rfl
    | cons d ds ih =>
      rw [chain.chainRight, List.find?_cons]
      by_cases hd : d.role == some .right <;> simp [hd, ih]
  obtain ⟨tag, role, sp, cs⟩ := c
  obtain rfl : tag = .assignment := h
  rw [chain, hright, required.eq_def _ .right]
  congr! 4
  rw [Cst.child?, Cst.children]
  cases cs.find? (fun d => d.role == some .right) <;> rfl

/-- The child of a node in a role is lowered to a tree. -/
def LowersIn (lower : Cst → Kind → Result Tree) (r : Role) (context : Kind) (c : Cst) (t : Tree) :
    Prop :=
  ∃ d, c.child? r = some d ∧ lower d context = .ok t

def LowersUnder (lower : Cst → Kind → Result Tree) (context : Kind) (c : Cst) (t : Tree) : Prop :=
  ∃ d ∈ c.allNodes, lower d context = .ok t

section

variable {context : Kind}

theorem LowersUnder.mono (h : LowersUnder lower context d t) (hd : d ∈ c.allNodes) :
    LowersUnder lower context c t := by
  obtain ⟨e, he, h⟩ := h
  exact ⟨e, Cst.mem_allNodes_trans he hd, h⟩

theorem LowersIn.under {r : Role} (h : LowersIn lower r context c t) :
    LowersUnder lower context c t := by
  obtain ⟨d, hd, h⟩ := h
  exact ⟨d, Cst.mem_allNodes_of_child? hd, h⟩

theorem under_of_forall₂ {cs : List Cst}
    (h : List.Forall₂ (fun d u => lower d context = .ok u) cs ts) (hcs : ∀ d ∈ cs, d ∈ c.allNodes) :
    ∀ t ∈ ts, LowersUnder lower context c t :=
  forall_of_forall₂ h fun d hd _ ht => ⟨d, hcs d hd, ht⟩

theorem under_of_lowerAll {cs : List Cst} (h : lowerAll lower context cs = .ok ts)
    (hcs : ∀ d ∈ cs, d ∈ c.allNodes) : ∀ t ∈ ts, LowersUnder lower context c t :=
  under_of_forall₂ (forall₂_of_mapM h) hcs

theorem under_of_proper (h : lowerAll lower context c.proper = .ok ts) :
    ∀ t ∈ ts, LowersUnder lower context c t :=
  under_of_lowerAll h fun _ => Cst.mem_allNodes_of_mem_proper

end

/-- A chain is lowered to the targets of its links and the value at its end. -/
structure Chained (lower : Cst → Kind → Result Tree) (c : Cst) (targets : List Tree)
    (value : Tree) : Prop where
  targets : List.Forall₂ (LowersIn lower .left .store) c.links targets
  value : ∃ d, c.chainEnd? = some d ∧ lower d .load = .ok value

theorem Chained.cons {right : Cst} {target value : Tree} (hc : c.tag = .assignment)
    (hright : c.child? .right = some right) (htarget : LowersIn lower .left .store c target)
    (h : Chained lower right ts value) : Chained lower c (target :: ts) value where
  targets := by
    rw [Cst.links_of_assignment hc, hright, Option.toList_some, List.flatMap_singleton]
    exact .cons htarget h.targets
  value := by
    rw [Cst.chainEnd?_of_assignment hc, hright]
    exact h.value

theorem Chained.uncons {value : Tree} (hc : c.tag = .assignment) (h : Chained lower c ts value) :
    ∃ right target rest, c.child? .right = some right ∧ ts = target :: rest
      ∧ LowersIn lower .left .store c target ∧ Chained lower right rest value := by
  obtain ⟨htargets, last, hlast, hvalue⟩ := h
  rw [Cst.links_of_assignment hc] at htargets
  rw [Cst.chainEnd?_of_assignment hc] at hlast
  obtain ⟨right, hright, hlast⟩ := Option.bind_eq_some_iff.mp hlast
  rw [hright, Option.toList_some, List.flatMap_singleton] at htargets
  cases htargets with
  | cons htarget hrest => exact ⟨right, _, _, hright, rfl, htarget, hrest, last, hlast, hvalue⟩

theorem Chained.lower_eq {value : Tree} (hc : c.tag ≠ .assignment) (h : Chained lower c ts value) :
    lower c .load = .ok value := by
  obtain ⟨-, last, hlast, hvalue⟩ := h
  rw [Cst.chainEnd?_eq_some hc] at hlast
  exact Option.some.inj hlast ▸ hvalue

theorem chained_of_chain (h : chain lower c = .ok ts) :
    ∃ targets value, ts = targets ++ [value] ∧ Chained lower c targets value := by
  induction c using Cst.inductionOn generalizing ts with
  | step c ih =>
    by_cases htag : c.tag = .assignment
    · rw [chain_of_assignment htag] at h
      simp only [bind_eq_ok, pure_eq_ok, required_eq_ok] at h
      obtain ⟨left, hleft, target, htarget, right, hright, rest, hrest, rfl⟩ := h
      obtain ⟨targets, value, rfl, hchained⟩ :=
        ih right (Cst.mem_children_of_child? hright) hrest
      exact ⟨target :: targets, value, rfl, .cons htag hright ⟨left, hleft, htarget⟩ hchained⟩
    · rw [chain_of_not_assignment htag] at h
      simp only [bind_eq_ok, pure_eq_ok] at h
      obtain ⟨value, hvalue, rfl⟩ := h
      refine ⟨[], value, rfl, ?_, c, Cst.chainEnd?_eq_some htag, hvalue⟩
      rw [Cst.links_eq_nil htag]
      exact .nil

theorem chained_of_assignment (htag : c.tag = .assignment) (hc : c.isAnnotated = false)
    (h : assignment lower c line = .ok t) :
    ∃ targets value, t = .branch .assign line (targets ++ [value])
      ∧ Chained lower c targets value := by
  have hnone : c.child? .typeHint = none := by simpa [Cst.isAnnotated] using hc
  simp only [assignment, hnone, bind_eq_ok, pure_eq_ok, required_eq_ok] at h
  obtain ⟨left, hleft, target, htarget, right, hright, rest, hrest, rfl⟩ := h
  obtain ⟨targets, value, rfl, hchained⟩ := chained_of_chain hrest
  exact ⟨target :: targets, value, rfl, .cons htag hright ⟨left, hleft, htarget⟩ hchained⟩

/-- An assignment with an annotation is lowered to a declaration: its target, its annotation and the
value, if it has one. -/
theorem declared_of_assignment (hc : c.isAnnotated = true) (h : assignment lower c line = .ok t) :
    ∃ target note value, t = .branch .annAssign line (target :: note :: value)
      ∧ LowersIn lower .left .store c target ∧ LowersIn lower .typeHint .load c note
      ∧ List.Forall₂ (fun d u => lower d .load = .ok u) (c.child? .right).toList value := by
  obtain ⟨hint, hhint⟩ := Option.isSome_iff_exists.mp hc
  simp only [assignment, hhint, bind_eq_ok, required_eq_ok] at h
  obtain ⟨left, hleft, target, htarget, note, hnote, h⟩ := h
  refine ⟨target, note, ?_⟩
  cases hright : c.child? .right with
  | none =>
    simp only [hright, pure_eq_ok] at h
    exact ⟨[], h.symm, ⟨left, hleft, htarget⟩, ⟨hint, hhint, hnote⟩, .nil⟩
  | some right =>
    simp only [hright, bind_eq_ok, pure_eq_ok] at h
    obtain ⟨value, hvalue, rfl⟩ := h
    exact ⟨[value], rfl, ⟨left, hleft, htarget⟩, ⟨hint, hhint, hnote⟩, .cons hvalue .nil⟩

theorem expression_of_assignment {context : Kind} (htag : c.tag = .assignment) :
    expression s levels c context ≠ .ok t := by
  cases levels with
  | zero => simp [expression]
  | succ levels => simp [expression, expressionNode, htag, unsupported]

theorem assignment_of_statement (htag : c.tag = .expressionStatement) (hproper : c.proper = [d])
    (hd : d.tag = .assignment) :
    statement s (levels + 1) c = assignment (expression s levels) d c.line := by
  simp only [statement, statementNode, htag, expressionStatement, hproper, hd, if_true]

end

/-- A chain of assignments is lowered to a declaration exactly if its first link is annotated, and
then it has no other link. If not, it is lowered to one assignment of the targets of all its links,
in the order of the text, and of the value at its end. So whatever is annotated in it becomes a
declaration exactly if no link but the first is annotated. -/
theorem statement_chain {s : Source} {levels : Nat} {c d : Cst} {t : Tree}
    (htag : c.tag = .expressionStatement) (hproper : c.proper = [d]) (hd : d.tag = .assignment)
    (h : statement s (levels + 1) c = .ok t) :
    (d.isAnnotated = true → d.links = [d] ∧ ∃ target note value,
      t = .branch .annAssign c.line (target :: note :: value)
      ∧ LowersIn (expression s levels) .left .store d target
      ∧ LowersIn (expression s levels) .typeHint .load d note
      ∧ List.Forall₂ (fun e u => expression s levels e .load = .ok u)
        (d.child? .right).toList value)
    ∧ (d.isAnnotated = false → ∃ targets value,
      t = .branch .assign c.line (targets ++ [value])
      ∧ List.Forall₂ (LowersIn (expression s levels) .left .store) d.links targets
      ∧ ∃ e, d.chainEnd? = some e ∧ expression s levels e .load = .ok value)
    ∧ (((∃ link ∈ d.links, link.isAnnotated = true) → t.kind = .annAssign)
      ↔ ∀ link ∈ d.links.tail, link.isAnnotated = false) := by
  rw [assignment_of_statement htag hproper hd] at h
  have hlinks := Cst.links_of_assignment hd
  cases hannotated : d.isAnnotated with
  | true =>
    obtain ⟨target, note, value, rfl, htarget, hnote, hvalue⟩ :=
      declared_of_assignment hannotated h
    have hone : d.links = [d] := by
      rw [hlinks]
      cases hright : d.child? .right with
      | none => rfl
      | some right =>
        rw [hright] at hvalue
        have hlast : right.tag ≠ .assignment := fun hassignment => by
          cases hvalue with
          | cons hv _ => exact expression_of_assignment hassignment hv
        rw [Option.toList_some, List.flatMap_singleton, Cst.links_eq_nil hlast]
    refine ⟨fun _ => ⟨hone, target, note, value, rfl, htarget, hnote, hvalue⟩, nofun, ?_⟩
    simp [hone, branch, kind]
  | false =>
    obtain ⟨targets, value, rfl, htargets, hvalue⟩ := chained_of_assignment hd hannotated h
    refine ⟨nofun, fun _ => ⟨targets, value, rfl, htargets, hvalue⟩, ?_⟩
    rw [hlinks]
    simp [hannotated, branch, kind]

/-- A chain in which only the second link is annotated. -/
def annotatedChain : Source := Source.ofBytes "a=b:c=1".toUTF8

theorem lower_annotatedChain : ∃ c d, (Grammar.tree annotatedChain).proper = [c]
    ∧ c.tag = .expressionStatement ∧ c.proper = [d] ∧ d.tag = .assignment
    ∧ d.links.map Cst.isAnnotated = [false, true]
    ∧ statement annotatedChain maxNesting c
      = .ok (.branch .assign 1 [.named .name 1 "a" [.leaf .store 1],
        .named .name 1 "b" [.leaf .store 1], .named .num 1 "1" []]) := by
  have hread : (Grammar.tree annotatedChain).proper.map (fun c : Cst => (c.tag,
        c.proper.map fun d : Cst => (d.tag, d.links.map Cst.isAnnotated),
        (level annotatedChain maxNesting).statement c))
      = [(.expressionStatement, [(.assignment, [false, true])],
        .ok (.branch .assign 1 [.named .name 1 "a" [.leaf .store 1],
          .named .name 1 "b" [.leaf .store 1], .named .num 1 "1" []]))] := by
    decide +kernel
  rw [level_eq] at hread
  obtain ⟨c, hc, hread⟩ := List.map_eq_singleton_iff.mp hread
  simp only [Prod.mk.injEq] at hread
  obtain ⟨htag, hproper, hlowered⟩ := hread
  obtain ⟨d, hd, hproper⟩ := List.map_eq_singleton_iff.mp hproper
  obtain ⟨hassignment, hlinks⟩ := Prod.mk.inj hproper
  exact ⟨c, d, hc, htag, hd, hassignment, hlinks, hlowered⟩

/-- Its annotation is lost: it is lowered to an assignment and not to a declaration. -/
theorem annotatedChain_undeclared : ∃ c d t, (Grammar.tree annotatedChain).proper = [c]
    ∧ c.proper = [d] ∧ d.tag = .assignment ∧ statement annotatedChain maxNesting c = .ok t
    ∧ (∃ link ∈ d.links, link.isAnnotated = true) ∧ t.kind ≠ .annAssign := by
  obtain ⟨c, d, hc, -, hproper, hd, hlinks, hlowered⟩ := lower_annotatedChain
  have hmem : true ∈ d.links.map Cst.isAnnotated := by simp [hlinks]
  obtain ⟨link, hlink, hannotated⟩ := List.mem_map.mp hmem
  exact ⟨c, d, _, hc, hproper, hd, hlowered, ⟨link, hlink, hannotated⟩, by decide⟩

/-- But both of its targets are kept, and its value. -/
theorem annotatedChain_kept : ∃ (c d : Cst) (targets : List Tree) (value : Tree),
    (Grammar.tree annotatedChain).proper = [c]
    ∧ statement annotatedChain maxNesting c = .ok (.branch .assign 1 (targets ++ [value]))
    ∧ List.Forall₂ (LowersIn (expression annotatedChain 199) .left .store) d.links targets
    ∧ targets.length = 2 := by
  obtain ⟨c, d, hc, htag, hproper, hd, hlinks, hlowered⟩ := lower_annotatedChain
  have hlength : d.links.length = 2 := by
    have := congrArg List.length hlinks
    rwa [List.length_map] at this
  have hfirst : d.isAnnotated = false := by
    rw [Cst.links_of_assignment hd, List.map_cons] at hlinks
    exact (List.cons.inj hlinks).1
  have hlevel : statement annotatedChain (199 + 1) c = _ := hlowered
  obtain ⟨-, hchain, -⟩ := statement_chain htag hproper hd hlevel
  obtain ⟨targets, value, ht, htargets, -⟩ := hchain hfirst
  have hline : c.line = 1 := by
    have := congrArg Tree.line ht
    exact this.symm
  refine ⟨c, d, targets, value, hc, ?_, htargets, htargets.length_eq ▸ hlength⟩
  rw [hlowered, ht, hline]

end Lowering
end Gatehouse
