import Gatehouse.Proofs.Grammar.Block
import Gatehouse.Proofs.Linter.Report
import Gatehouse.Proofs.Linter.Rules
import Gatehouse.Proofs.Lowering.Sides

/-!
Storage cells with several targets. A check goes by the kinds of targets and does not count names,
so it reports a cell with one name, too, if brackets or a comma stand around the name.
-/
namespace Gatehouse

namespace Linter

/-- Is there more than one target, or do the targets bind more than one name? A name that is bound
twice counts twice. -/
def bindsSeveral (targets : List Tree) : Bool :=
  decide (1 < targets.length) || decide (1 < (targets.flatMap boundNames).length)

/-- Is the one target a tuple or a list that binds one name at most? -/
def wrapsOne : List Tree → Bool
  | [u] => (u.kind == .tuple || u.kind == .listDisplay) && decide ((boundNames u).length ≤ 1)
  | _ => false

/-- The breach of an assignment whose value makes a storage cell, if it binds several names or wraps
one: it is on the line of the assignment and names the cell. -/
def cellBreach? (p : Policy) (t : Tree) : Option Violation := do
  let (targets, value) ← t.assignParts
  let cell ← madeCell? p value
  if bindsSeveral targets || wrapsOne targets then
    some (.statement .severalTargets t.line cell) else none

section

variable {p : Policy} {r : Registry} {t : Tree} {o : Occurrence}

/-- A check asks for several targets, a tuple or a list. That is the same where every target that is
neither binds one name at most. -/
theorem several_iff {targets : List Tree} (h : ∀ u ∈ targets, Lowering.IsSide u) :
    (1 < targets.length ∨ ∃ u ∈ targets, u.kind = .tuple ∨ u.kind = .listDisplay)
      ↔ (bindsSeveral targets || wrapsOne targets) = true := by
  match targets with
  | [] => simp [bindsSeveral, wrapsOne]
  | [u] =>
    have hu := h u List.mem_cons_self
    simp only [bindsSeveral, wrapsOne, List.length_singleton, Nat.lt_irrefl, List.flatMap_singleton,
      List.mem_singleton, exists_eq_left, decide_false, Bool.false_or, Bool.or_eq_true,
      Bool.and_eq_true, decide_eq_true_eq, beq_iff_eq, false_or]
    constructor
    · intro hdisplay
      rcases Nat.lt_or_ge 1 (boundNames u).length with hnames | hnames
      · exact Or.inl hnames
      · exact Or.inr ⟨hdisplay, hnames⟩
    · rintro (hnames | ⟨hdisplay, -⟩)
      · rcases hu with htuple | hlist | hone
        · exact Or.inl htuple
        · exact Or.inr hlist
        · exact absurd hnames (Nat.not_lt.mpr hone)
      · exact hdisplay
  | u :: v :: rest => simp [bindsSeveral]

/-- The breaches of the rule about several targets that an assignment is. -/
theorem assignmentBreaches_filter (hk : t.kind = .assign) (hsided : Lowering.IsSided t) :
    (assignmentBreaches p t).filter (fun v => v.rule = .severalTargets)
      = (cellBreach? p t).toList := by
  have hkeyword : ∀ (line : Nat) (names : List String),
      (names.map (Violation.statement .keywordOverloading line)).filter
        (fun v => v.rule = .severalTargets) = [] := fun line names =>
    List.filter_eq_nil_iff.mpr fun v hv => by
      obtain ⟨name, -, rfl⟩ := List.mem_map.mp hv
      simp [Violation.rule]
  unfold assignmentBreaches cellBreach? Tree.assignParts
  rw [if_pos hk]
  cases t.children.getLast? with
  | none => rfl
  | some value =>
    cases hcell : madeCell? p value with
    | none => simp [hcell, hkeyword]
    | some cell =>
      have hiff := several_iff (hsided hk)
      have hkeywords : ∀ ks : List Tree, (ks.flatMap fun k =>
          (k.ident.toList.filter fun name => p.reservedKeywords.contains name).map
            (Violation.statement .keywordOverloading k.line)).filter
              (fun v => v.rule = .severalTargets) = [] := fun ks => by
        rw [List.filter_flatMap]
        exact List.flatMap_eq_nil_iff.mpr fun k _ => hkeyword _ _
      simp only [Option.toList_some, List.flatMap_singleton, List.filter_append, hkeyword,
        hkeywords, List.append_nil, Option.map_some, Option.bind_eq_bind, Option.bind_some, hcell,
        ← hiff]
      split
      · rfl
      · rfl

/-- What a place is noted for by the rule about several targets. -/
theorem notes_filter_severalTargets (hsided : Lowering.IsSided o.tree) :
    ((notes p r o).filterMap Note.violation?).filter (fun v => v.rule = .severalTargets)
      = if p.blocks o.tree then [] else (cellBreach? p o.tree).toList := by
  cases hrefused : refusal? p o.tree with
  | some v =>
    have hblocks : p.blocks o.tree = true := by
      have hne : refusal? p o.tree ≠ none := by simp [hrefused]
      simpa [refusal?_eq_none_iff] using hne
    have hrule : v.rule ≠ .severalTargets := fun hrule => by
      have hmem := rule_of_refusal hrefused
      rw [hrule] at hmem
      exact absurd hmem (by decide)
    simp [notes_of_refusal hrefused, Note.violation?, hrule, hblocks]
  | none =>
    rw [notes_of_admitted hrefused, refusal?_eq_none_iff.mp hrefused, if_neg Bool.false_ne_true]
    by_cases hk : o.tree.kind = .assign
    · have hnotes : admittedNotes p r o = (assignmentBreaches p o.tree).map .breach := by
        simp only [admittedNotes, hk]
      rw [hnotes, Note.filterMap_violation?_breach, assignmentBreaches_filter hk hsided]
    · have hnone : cellBreach? p o.tree = none := by
        simp [cellBreach?, Tree.assignParts, hk]
      rw [hnone, Option.toList_none, List.filter_eq_nil_iff]
      intro v hv
      obtain ⟨n, hn, hviolation⟩ := List.mem_filterMap.mp hv
      have hmem := rule_of_mem_admittedNotes hn hviolation
      intro hrule
      rw [of_decide_eq_true hrule] at hmem
      exact hk (Kind.eq_assign_of_severalTargets hmem)

end

end Linter

namespace Tree

mutual
theorem mem_statements_of_mem {above : List Tree} {decorates : Bool} {o : Occurrence}
    (h : o.tree.kind.isStatement = true) : (t : Tree) → o ∈ t.occurrencesFrom above decorates →
    o.tree ∈ t.statements
  | .node kind line ident ds cs, ho => by
    rw [occurrencesFrom, List.mem_cons, List.mem_append] at ho
    rw [statements, List.mem_append, List.mem_append]
    rcases ho with rfl | ho | ho
    · exact Or.inl (by rw [if_pos (show kind.isStatement = true from h)]; exact List.mem_cons_self)
    · exact Or.inr (Or.inl (mem_statementsOf_of_mem h cs ho))
    · exact Or.inr (Or.inr (mem_statementsOf_of_mem h ds ho))

theorem mem_statementsOf_of_mem {above : List Tree} {decorates : Bool} {o : Occurrence}
    (h : o.tree.kind.isStatement = true) : (ts : List Tree) → o ∈ occurrencesOf above decorates ts →
    o.tree ∈ statementsOf ts
  | [], ho => by simp [occurrencesOf] at ho
  | t :: ts, ho => by
    rw [occurrencesOf, List.mem_append] at ho
    rw [statementsOf, List.mem_append]
    rcases ho with ho | ho
    · exact Or.inl (mem_statements_of_mem h t ho)
    · exact Or.inr (mem_statementsOf_of_mem h ts ho)
end

end Tree

namespace Contract

theorem isSided_of_mem {bytes : ByteArray} {t : Tree} (hread : read bytes = .ok t) {o : Occurrence}
    (ho : o ∈ t.occurrences) : Lowering.IsSided o.tree := by
  intro hk
  have hmem : o.tree ∈ t.statements := Tree.mem_statements_of_mem (by rw [hk]; rfl) t ho
  exact Lowering.module_sided (ofCst_eq_ok hread).2 (Grammar.tag_tree _) (Grammar.tree_aims _)
    o.tree hmem hk

/-- Of a text that is read, a check reports each assignment that it can see and does not refuse, and
whose value makes a storage cell, once if it binds several names or has several targets, or if its
one target is a tuple or a list that binds one name at most. It reports no other storage cell for
its targets. -/
theorem inspect_severalTargets {bytes : ByteArray} {t : Tree} (hread : read bytes = .ok t)
    (p : Policy) (r : Registry) :
    (Linter.inspect p r t).filter (fun v => v.rule = .severalTargets)
      = ((p.visible t).filter fun o => !p.blocks o.tree).filterMap fun o =>
          Linter.cellBreach? p o.tree := by
  rw [Linter.inspect_filter_rule _ _ _ (by decide) (by decide)]
  have hnotes : ∀ o ∈ p.visible t, ((Linter.notes p r o).filterMap Note.violation?).filter
      (fun v => v.rule = .severalTargets)
      = if p.blocks o.tree then [] else (Linter.cellBreach? p o.tree).toList := fun o ho =>
    Linter.notes_filter_severalTargets (isSided_of_mem hread (List.mem_filter.mp ho).1)
  rw [List.flatMap_congr hnotes, List.filterMap_eq_flatMap_toList,
    flatMap_filter (p := fun o => !p.blocks o.tree)
      fun o _ hblocks => if_pos (by simpa using hblocks)]
  refine List.flatMap_congr fun o ho => if_neg ?_
  simpa using (List.mem_filter.mp ho).2

/-- Cells with one name, with one in brackets, with two targets and with two names. -/
def cells : ByteArray := "x=Hash()\n(y)=Hash()\na=b=Hash()\nc,d=Hash()".toUTF8

def boundOn (line : Nat) (name : String) : Tree := .named .name line name [.leaf .store line]

/-- A tuple of names that are bound on a line. -/
def tupleOn (line : Nat) (names : List String) : Tree :=
  .branch .tuple line (names.map (boundOn line) ++ [.leaf .store line])

/-- A storage cell that is made on a line. -/
def cellOn (line : Nat) : Tree := .branch .call line [.named .name line "Hash" [.leaf .load line]]

theorem read_cells : read cells = .ok (.branch .module 1 [
    .branch .assign 1 [boundOn 1 "x", cellOn 1],
    .branch .assign 2 [tupleOn 2 ["y"], cellOn 2],
    .branch .assign 3 [boundOn 3 "a", boundOn 3 "b", cellOn 3],
    .branch .assign 4 [tupleOn 4 ["c", "d"], cellOn 4]]) := by
  rw [read_eq]
  decide +kernel

/-- All but the first are reported. -/
theorem cells_reported : ∃ t, read cells = .ok t
    ∧ (Linter.inspect .standard (.ofNames []) t).filter (fun v => v.rule = .severalTargets)
      = [.statement .severalTargets 2 "Hash", .statement .severalTargets 3 "Hash",
        .statement .severalTargets 4 "Hash"] :=
  ⟨_, read_cells, (inspect_severalTargets read_cells _ _).trans (by decide)⟩

/-- So a cell is reported that has one target with one name in it. -/
theorem wrapped_cell_reported : ∃ t, read cells = .ok t ∧ ∃ o ∈ Policy.standard.visible t,
    o.tree.assignParts = some ([tupleOn 2 ["y"]], cellOn 2)
    ∧ Linter.madeCell? .standard (cellOn 2) = some "Hash"
    ∧ Linter.boundNames (tupleOn 2 ["y"]) = ["y"]
    ∧ .statement .severalTargets o.tree.line "Hash"
      ∈ Linter.inspect .standard (.ofNames []) t := by
  refine ⟨_, read_cells, ⟨.branch .assign 2 [tupleOn 2 ["y"], cellOn 2], [_], false⟩,
    List.mem_filter.mpr
      ⟨Tree.mem_occurrences_of_mem_children (by simp [Tree.branch, Tree.children]), by decide⟩,
    rfl, by decide, by decide, by decide⟩

end Contract
end Gatehouse
