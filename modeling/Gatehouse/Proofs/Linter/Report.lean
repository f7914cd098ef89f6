import Gatehouse.Proofs.Linter.Notes
import Gatehouse.Proofs.Lists

/-!
The report of a check without its walk. A walk threads what it has met through the tree; here the
same breaches are read off the places that can be seen, in two phases and without any state.
-/
namespace Gatehouse

theorem Policy.sees_eq_false_of_mem {p : Policy} {o : Occurrence} {a : Tree} (ha : a ∈ o.above)
    (h : p.blocks a = true) : p.sees o = false := by
  rw [Policy.sees, List.all_eq_false]
  exact ⟨a, ha, by simp [h]⟩

theorem Policy.filter_sees_of_blocks {p : Policy} {t : Tree} {above : List Tree} {decorates : Bool}
    (habove : above.all (fun a => !p.blocks a)) (h : p.blocks t = true) :
    (t.occurrencesFrom above decorates).filter p.sees = [⟨t, above, decorates⟩] := by
  have hinside : ∀ d (ts : List Tree),
      (ts.flatMap (Tree.occurrencesFrom (t :: above) d)).filter p.sees = [] := by
    intro d ts
    refine List.filter_eq_nil_iff.mpr fun o ho => ?_
    obtain ⟨u, -, hu⟩ := List.mem_flatMap.mp ho
    have ht : t ∈ o.above := (Tree.suffix_above_of_mem u hu).subset List.mem_cons_self
    simp [Policy.sees_eq_false_of_mem ht h]
  have hself : p.sees ⟨t, above, decorates⟩ = true := habove
  rw [Tree.occurrencesFrom_eq, List.filter_cons_of_pos hself, List.filter_append, hinside, hinside]
  rfl

namespace Linter

section

variable {p : Policy} {r : Registry}

mutual
/-- A walk takes the notes of the places that can be seen, one after the other. -/
theorem visit_eq_foldl (above : List Tree) (decorates : Bool) (f : Findings)
    (habove : above.all (fun a => !p.blocks a)) : (t : Tree) →
    visit p r (!decorates && above.head?.any (fun parent => parent.kind == .module)) f t
      = (((t.occurrencesFrom above decorates).filter p.sees).flatMap (notes p r)).foldl
          Findings.take f
  | .node kind line ident ds cs => by
    let t := Tree.node kind line ident ds cs
    let o : Occurrence := ⟨t, above, decorates⟩
    rw [visit]
    cases hrefused : refusal? p t with
    | some v =>
      have hb : p.blocks t = true := by
        have hne : refusal? p t ≠ none := by simp [hrefused]
        simpa [refusal?_eq_none_iff] using hne
      rw [Policy.filter_sees_of_blocks habove hb, List.flatMap_singleton,
        notes_of_refusal (o := o) hrefused]
      rfl
    | none =>
      have hb : p.blocks t = false := refusal?_eq_none_iff.mp hrefused
      have hbelow : (t :: above).all (fun a => !p.blocks a) := by simp [hb, habove]
      have hself : p.sees o = true := habove
      have hexamined := examine_eq (p := p) (r := r) (o := o) f
      have hcs := visitAll_eq_foldl_notes (t :: above) false
        (examine p r o.topLevel o.tree f) hbelow cs
      simp only [Bool.not_false, Bool.true_and, List.head?_cons, Option.any_some] at hcs
      have hds := visitAll_eq_foldl_notes (t :: above) true
        (visitAll p r (kind == .module) (examine p r o.topLevel o.tree f) cs) hbelow ds
      simp only [Bool.not_true, Bool.false_and] at hds
      rw [Tree.occurrencesFrom, List.filter_cons_of_pos hself, List.filter_append,
        List.flatMap_cons, List.flatMap_append, List.foldl_append, List.foldl_append,
        notes_of_admitted (o := o) hrefused, ← hexamined, ← hcs]
      exact hds

theorem visitAll_eq_foldl_notes (above : List Tree) (decorates : Bool) (f : Findings)
    (habove : above.all (fun a => !p.blocks a)) : (ts : List Tree) →
    visitAll p r (!decorates && above.head?.any (fun parent => parent.kind == .module)) f ts
      = (((Tree.occurrencesOf above decorates ts).filter p.sees).flatMap (notes p r)).foldl
          Findings.take f
  | [] => by rw [visitAll, Tree.occurrencesOf]; rfl
  | t :: ts => by
    rw [visitAll, Tree.occurrencesOf, List.filter_append, List.flatMap_append, List.foldl_append,
      visit_eq_foldl above decorates f habove t,
      visitAll_eq_foldl_notes above decorates _ habove ts]
end

end

section

variable (p : Policy) (r : Registry) (root : Tree)

/-- The notes of a whole tree: those of the places that can be seen, in their order. -/
def allNotes : List Note := (p.visible root).flatMap (notes p r)

/-- The report of a tree. The first mark of a constructor is no breach, each further one is; a tree
without a mark of an export has one breach more, at the end. -/
def report : List Violation :=
  let ns := allNotes p r root
  (ns.eraseP Note.isSeed).filterMap Note.violation?
    ++ if ns.any Note.isExport then [] else [.noExport]

theorem visit_root_eq : visit p r false .empty root = (allNotes p r root).foldl .take .empty :=
  visit_eq_foldl [] false .empty rfl root

theorem violations_run : (run p r root).violations.toList = report p r root := by
  have hseen := Findings.exportSeen_foldl .empty (allNotes p r root)
  have hviolations := Findings.violations_foldl_of_none (f := .empty) (allNotes p r root) rfl
  simp only [Findings.empty, Bool.false_or, List.nil_append] at hseen hviolations
  unfold run report
  rw [visit_root_eq]
  cases hexport : (allNotes p r root).any Note.isExport with
  | false => simp [Findings.empty, hseen, hviolations, hexport]
  | true => simp [Findings.empty, hseen, hviolations, hexport]

/-- A check reports the breaches of every place that can be seen exactly once, in the order of the
places. -/
theorem inspect_eq_report : inspect p r root = report p r root := violations_run p r root

/-- A rule that is not about marks of constructors and exports is breached by nodes alone, in the
order of the places. -/
theorem inspect_filter_rule {rule : Rule} (hseveral : rule ≠ .severalConstructors)
    (hexport : rule ≠ .noExport) : (inspect p r root).filter (fun v => v.rule = rule)
      = (p.visible root).flatMap fun o =>
          ((notes p r o).filterMap Note.violation?).filter fun v => v.rule = rule := by
  have hseed : ∀ ns : List Note,
      ((ns.eraseP Note.isSeed).filterMap Note.violation?).filter (fun v => v.rule = rule)
        = (ns.filterMap Note.violation?).filter fun v => v.rule = rule := by
    intro ns
    rw [List.filter_filterMap, List.filter_filterMap]
    refine filterMap_eraseP fun n hn => ?_
    cases n with
    | seeded line name => simp [Note.violation?, Violation.rule, hseveral.symm, Option.filter]
    | _ => cases hn
  have hend : (if (allNotes p r root).any Note.isExport then [] else [Violation.noExport]).filter
      (fun v => v.rule = rule) = [] := by
    split
    · rfl
    · simp [Violation.rule, hexport.symm]
  rw [inspect, violations_run, report, List.filter_append, hseed, hend, List.append_nil, allNotes,
    List.filterMap_flatMap, List.filter_flatMap]

end

end Linter
end Gatehouse
