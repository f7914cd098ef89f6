import Mathlib.Data.List.Basic
import Gatehouse.Proofs.Linter.Report
import Gatehouse.Proofs.Linter.Rules

/-!
What a registry can change in a report. A check asks it about the names of imports that stand
directly under a module, and hears nothing but a confirmation: a failure counts as a no. So the
notes under two registries are the same up to the unknown contracts that the second one knows.
-/
namespace Gatehouse

/-- Does the registry confirm the contract that the breach calls unknown? -/
def Registry.clears (r : Registry) (v : Violation) : Bool :=
  v.rule == .unknownContract && v.detail?.any r.confirms

def Note.isClearedBy (r : Registry) (note : Note) : Bool := note.violation?.any r.clears

/-- The names that a check asks a registry about: those in imports that can be seen, are not
refused and stand directly under a module. -/
def Policy.askedNames (p : Policy) (root : Tree) : List String :=
  ((p.visible root).filter fun o =>
      o.topLevel && o.tree.kind == .importModule && !p.blocks o.tree).flatMap
    fun o => o.tree.children.filterMap Tree.ident

section

variable {r r' : Registry}

theorem Registry.confirms_iff {name : String} :
    r.confirms name = true ↔ r.lookUp name = .ok true := by
  unfold confirms
  cases r.lookUp name <;> simp

theorem Registry.confirms_eq_of_iff {name : String}
    (h : r.lookUp name = .ok true ↔ r'.lookUp name = .ok true) :
    r.confirms name = r'.confirms name := by
  rw [← confirms_iff, ← confirms_iff] at h
  exact Bool.eq_iff_iff.mpr h

theorem Registry.clears_eq_false {v : Violation} (h : v.rule ≠ .unknownContract) :
    r.clears v = false := by
  simp [clears, h]

theorem Registry.clears_unknownContract (line : Nat) (name : String) :
    r.clears (.statement .unknownContract line name) = r.confirms name := by
  simp [clears, Violation.rule, Violation.detail?]

theorem Note.isClearedBy_eq_false {n : Note}
    (h : ∀ v, n.violation? = some v → v.rule ≠ .unknownContract) : n.isClearedBy r = false := by
  rw [isClearedBy]
  cases hv : n.violation? with
  | none => rfl
  | some v => exact Registry.clears_eq_false (h v hv)

theorem Note.filterMap_filter_isClearedBy (ns : List Note) :
    (ns.filter (fun n => !n.isClearedBy r)).filterMap Note.violation?
      = (ns.filterMap Note.violation?).filter (fun v => !r.clears v) := by
  rw [List.filterMap_filter, List.filter_filterMap]
  refine List.filterMap_congr fun n _ => ?_
  cases hv : n.violation? with
  | none => simp [isClearedBy, hv]
  | some v => cases hc : r.clears v <;> simp [isClearedBy, hv, hc, Option.filter]

theorem Note.isClearedBy_of_isSeed {n : Note} (h : n.isSeed = true) : n.isClearedBy r = false := by
  cases n with
  | breach v => cases h
  | exported name => cases h
  | seeded line name => rfl

theorem Note.isClearedBy_of_isExport {n : Note} (h : n.isExport = true) :
    n.isClearedBy r = false := by
  cases n with
  | breach v => cases h
  | exported name => rfl
  | seeded line name => cases h

end

namespace Linter

section

variable {p : Policy} {r r' : Registry} {o : Occurrence}

theorem isClearedBy_of_mem_admittedNotes {n : Note} (hk : o.tree.kind ≠ .importModule)
    (h : n ∈ admittedNotes p r o) : n.isClearedBy r' = false := by
  refine Note.isClearedBy_eq_false fun v hv hrule => ?_
  have hmem := rule_of_mem_admittedNotes h hv
  rw [hrule] at hmem
  exact Kind.unknownContract_not_mem_rules hk hmem

theorem importBreaches_congr (h : o.topLevel = true →
      ∀ name ∈ o.tree.children.filterMap Tree.ident, r.confirms name = r'.confirms name) :
    importBreaches r o = importBreaches r' o := by
  unfold importBreaches
  by_cases htop : o.topLevel = true
  · have hnames := List.filter_congr fun name hname =>
      congrArg (fun b => !b) (h htop name hname)
    simp only [htop, if_true, hnames]
  · simp only [htop, if_false, Bool.false_eq_true]

theorem notes_congr (h : o.topLevel = true → o.tree.kind = .importModule →
      p.blocks o.tree = false →
      ∀ name ∈ o.tree.children.filterMap Tree.ident, r.confirms name = r'.confirms name) :
    notes p r o = notes p r' o := by
  cases hrefused : refusal? p o.tree with
  | some v => rw [notes_of_refusal hrefused, notes_of_refusal hrefused]
  | none =>
    rw [notes_of_admitted hrefused, notes_of_admitted hrefused]
    unfold admittedNotes
    split
    · next himport =>
      rw [importBreaches_congr fun htop => h htop himport (refusal?_eq_none_iff.mp hrefused)]
    all_goals rfl

theorem importBreaches_filter (h : ∀ name, r.confirms name = true → r'.confirms name = true) :
    importBreaches r' o = (importBreaches r o).filter (fun v => !r'.clears v) := by
  unfold importBreaches
  by_cases htop : o.topLevel = true
  · simp only [htop, if_true, List.filter_map, List.filter_filter]
    refine congrArg _ (List.filter_congr fun name _ => ?_)
    have hconfirms := h name
    cases hr : r.confirms name <;>
      simp_all [Registry.clears_unknownContract]
  · simp only [htop, if_false, Bool.false_eq_true]
    refine (List.filter_eq_self.mpr fun v hv => ?_).symm
    obtain ⟨name, -, rfl⟩ := List.mem_map.mp hv
    rfl

/-- A registry that knows more takes away the notes that it clears, and no other. -/
theorem notes_filter (h : ∀ name, r.confirms name = true → r'.confirms name = true) :
    notes p r' o = (notes p r o).filter (fun n => !n.isClearedBy r') := by
  cases hrefused : refusal? p o.tree with
  | some v =>
    have hrule : v.rule ≠ .unknownContract := by
      intro hrule
      have hmem := rule_of_refusal hrefused
      rw [hrule] at hmem
      exact absurd hmem (by decide)
    rw [notes_of_refusal hrefused, notes_of_refusal hrefused]
    simp [Note.isClearedBy, Note.violation?, Registry.clears_eq_false hrule]
  | none =>
    rw [notes_of_admitted hrefused, notes_of_admitted hrefused]
    by_cases himport : o.tree.kind = .importModule
    · simp only [admittedNotes, himport, importBreaches_filter h, List.filter_map]
      rfl
    · have hsame : admittedNotes p r' o = admittedNotes p r o := by
        unfold admittedNotes
        split <;> first | rfl | contradiction
      rw [hsame]
      refine (List.filter_eq_self.mpr fun n hn => ?_).symm
      rw [isClearedBy_of_mem_admittedNotes himport hn]
      rfl

end

section

variable {p : Policy} {r r' : Registry} {root : Tree}

theorem allNotes_congr (h : ∀ name ∈ p.askedNames root, r.confirms name = r'.confirms name) :
    allNotes p r root = allNotes p r' root := by
  refine List.flatMap_congr fun o ho => notes_congr fun htop himport hblocks name hname => ?_
  refine h name (List.mem_flatMap.mpr ⟨o, List.mem_filter.mpr ⟨ho, ?_⟩, hname⟩)
  simp [htop, himport, hblocks]

theorem run_eq_of_askedNames (h : ∀ name ∈ p.askedNames root, r.confirms name = r'.confirms name) :
    run p r root = run p r' root := by
  unfold run
  rw [visit_root_eq, visit_root_eq, allNotes_congr h]

theorem allNotes_filter (h : ∀ name, r.confirms name = true → r'.confirms name = true) :
    allNotes p r' root = (allNotes p r root).filter (fun n => !n.isClearedBy r') := by
  unfold allNotes
  rw [List.filter_flatMap]
  exact List.flatMap_congr fun o _ => notes_filter h

theorem report_filter (h : ∀ name, r.confirms name = true → r'.confirms name = true) :
    report p r' root = (report p r root).filter (fun v => !r'.clears v) := by
  -- A mark is never cleared, so the first mark of a constructor is the same in both runs.
  have hseed : (fun n : Note => n.isSeed && !n.isClearedBy r') = Note.isSeed := by
    funext n
    cases hn : n.isSeed with
    | false => rfl
    | true => simp [Note.isClearedBy_of_isSeed hn]
  have hexport : (fun n : Note => !n.isClearedBy r' && n.isExport) = Note.isExport := by
    funext n
    cases hn : n.isExport with
    | false => exact Bool.and_false _
    | true => simp [Note.isClearedBy_of_isExport hn]
  have hlast : ∀ b : Bool, (if b then [] else [Violation.noExport]).filter (fun v => !r'.clears v)
      = if b then [] else [.noExport] := by
    intro b
    cases b <;> rfl
  simp only [report, allNotes_filter h, List.eraseP_filter, List.any_filter, hseed, hexport,
    Note.filterMap_filter_isClearedBy, List.filter_append, hlast]

/-- The registry has a part in a check only through the names that it confirms. Registries that
confirm the same names give the same report, however they refuse or fail for others; one that
confirms more takes away the unknown contracts that it confirms and nothing else; and what a
registry answers about names that no import directly under a module asks for has no part at all. -/
theorem inspect_of_confirmed (p : Policy) (root : Tree) (r r' : Registry) :
    ((∀ name, r.lookUp name = .ok true ↔ r'.lookUp name = .ok true) →
      inspect p r root = inspect p r' root)
    ∧ ((∀ name, r.lookUp name = .ok true → r'.lookUp name = .ok true) →
      inspect p r' root = (inspect p r root).filter (fun v => !r'.clears v))
    ∧ ((∀ name ∈ p.askedNames root, r.lookUp name = r'.lookUp name) →
      run p r root = run p r' root) := by
  refine ⟨fun h => ?_, fun h => ?_, fun h => ?_⟩
  · rw [inspect, run_eq_of_askedNames fun name _ => Registry.confirms_eq_of_iff (h name), inspect]
  · have hmore : ∀ name, r.confirms name = true → r'.confirms name = true := fun name hname =>
      Registry.confirms_iff.mpr (h name (Registry.confirms_iff.mp hname))
    rw [inspect, inspect, violations_run, violations_run, report_filter hmore]
  · refine run_eq_of_askedNames fun name hname => ?_
    rw [Registry.confirms, h name hname, Registry.confirms]

/-- A contract with two imports of its own and one inside of a function. -/
def importing : Tree :=
  .branch .module 1 [.branch .importModule 1 [.named .alias 1 "token" []],
    .branch .importModule 2 [.named .alias 2 "bank" []],
    .node .functionDef 4 (some "f") [.named .name 3 "export" [.leaf .load 3]]
      [.leaf .arguments 4, .branch .importModule 5 [.named .alias 5 "inner" []]]]

/-- One that always fails counts for no more than an empty registry, one that confirms a contract
clears its import, and nothing is asked about the import inside of the function. -/
theorem inspect_importing :
    inspect .standard ⟨fun _ => .error .malformed⟩ importing
        = inspect .standard (.ofNames []) importing
      ∧ inspect .standard (.ofNames ["token"]) importing
        = [.statement .unknownContract 2 "bank", .statement .nestedImport 5 "inner"]
      ∧ run .standard (.ofNames ["token"]) importing
        = run .standard (.ofNames ["token", "inner"]) importing := by
  refine ⟨?_, ?_, ?_⟩
  · exact (inspect_of_confirmed .standard importing _ _).1 fun name => by simp [Registry.ofNames]
  · rw [(inspect_of_confirmed .standard importing (.ofNames []) _).2.1 fun name h => by
      simp [Registry.ofNames] at h]
    decide
  · exact (inspect_of_confirmed .standard importing _ _).2.2 (by decide)

end

end Linter
end Gatehouse
