import Gatehouse.Proofs.Linter.Report
import Gatehouse.Proofs.Linter.Rules
import Gatehouse.Proofs.Lists
import Gatehouse.Proofs.Tree.WellFormed

/-!
Exports are collected twice: by the walk of a check, beside its breaches, and for the entry points,
from the functions of a module alone. Both come to the same names in the same order.
-/
namespace Gatehouse

/-! ### Notes of exports -/

def Note.export? : Note → Option String
  | .exported name => some name
  | _ => none

theorem Findings.exports_foldl (f : Findings) (notes : List Note) :
    (notes.foldl take f).exports = (notes.filterMap Note.export?).foldl addOnce f.exports := by
  induction notes generalizing f with
  | nil => rfl
  | cons note notes ih =>
    rw [List.foldl_cons, ih, List.filterMap_cons]
    cases note with
    | breach v => rfl
    | exported name => rfl
    | seeded line name => cases hc : f.constructor <;> simp [take, add, hc, Note.export?]

theorem Note.filterMap_export?_eq_nil_iff {ns : List Note} :
    ns.filterMap Note.export? = [] ↔ ns.any Note.isExport = false := by
  rw [List.filterMap_eq_nil_iff, List.any_eq_false]
  refine forall₂_congr fun n _ => ?_
  cases n <;> simp [Note.export?, Note.isExport]

/-! ### Exported functions -/

/-- Is the decorator the bare name that marks exports? -/
def Policy.marksExport (p : Policy) (decorator : Tree) : Bool :=
  decorator.kind == .name && decorator.ident == some p.exportMark

/-- The names of the functions of a module that bear the mark of an export, each once, in the order
in which they occur first. -/
def Policy.exportedNames (p : Policy) (root : Tree) : List String :=
  ((root.functions.filter (fun t => t.decorators.any p.marksExport)).filterMap Tree.ident).eraseDups

/-- What the front end makes of a text: a module, with no module inside of it, whose functions all
have names. -/
structure Tree.IsContract (root : Tree) : Prop where
  module : root.kind = .module
  inside : ∀ o ∈ root.occurrences, o.above ≠ [] → o.tree.kind ≠ .module
  named : ∀ o ∈ root.occurrences, o.tree.kind = .functionDef → o.tree.ident.isSome

def Policy.addExported (p : Policy) (names : List String) (t : Tree) : List String :=
  if t.decorators.any p.marksExport then
    match t.ident with
    | some name => addOnce names name
    | none => names
  else names

section

variable {p : Policy}

theorem Policy.exportedNames_eq_foldl (root : Tree) :
    p.exportedNames root = root.functions.foldl p.addExported [] := by
  have h := foldl_addOnce []
    ((root.functions.filter (fun t => t.decorators.any p.marksExport)).filterMap Tree.ident)
  rw [List.nil_append, List.foldl_filterMap, List.foldl_filter, List.eraseDups_nil] at h
  rw [exportedNames, ← h]
  refine List.foldl_ext _ _ _ fun names t _ => ?_
  unfold addExported
  cases t.ident <;> rfl

theorem Policy.foldl_marks (ds : List Tree) (names : List String) (name : String) :
    ds.foldl (fun names d => if p.marksExport d then addOnce names name else names) names
      = if ds.any p.marksExport then addOnce names name else names := by
  induction ds generalizing names with
  | nil => rfl
  | cons d ds ih =>
    rw [List.foldl_cons, ih]
    cases hd : p.marksExport d <;> cases hds : ds.any p.marksExport <;>
      simp [hd, hds, addOnce_addOnce]

end

/-! ### The top level -/

namespace Tree

mutual
/-- In a tree without modules nothing stands at the top level, if the tree itself does not. -/
theorem topLevel_eq_false_of_mem {above : List Tree} {decorates : Bool}
    (habove : (!decorates && above.head?.any (fun parent => parent.kind == .module)) = false) :
    (t : Tree) → (∀ o ∈ t.occurrencesFrom above decorates, o.tree.kind ≠ .module) →
      ∀ o ∈ t.occurrencesFrom above decorates, o.topLevel = false
  | .node kind line ident ds cs, hkinds, o, ho => by
    rw [occurrencesFrom] at hkinds ho
    have hself : kind ≠ .module := hkinds _ List.mem_cons_self
    have hhead : ∀ d, (!d && (node kind line ident ds cs :: above).head?.any
        (fun parent => parent.kind == .module)) = false := by
      intro d
      simp [Tree.kind, hself]
    rcases List.mem_cons.mp ho with rfl | ho
    · exact habove
    · rcases List.mem_append.mp ho with ho | ho
      · exact topLevel_eq_false_of_mem_all (hhead false) cs
          (fun b hb => hkinds b (List.mem_cons_of_mem _ (List.mem_append_left _ hb))) o ho
      · exact topLevel_eq_false_of_mem_all (hhead true) ds
          (fun b hb => hkinds b (List.mem_cons_of_mem _ (List.mem_append_right _ hb))) o ho

theorem topLevel_eq_false_of_mem_all {above : List Tree} {decorates : Bool}
    (habove : (!decorates && above.head?.any (fun parent => parent.kind == .module)) = false) :
    (ts : List Tree) → (∀ o ∈ occurrencesOf above decorates ts, o.tree.kind ≠ .module) →
      ∀ o ∈ occurrencesOf above decorates ts, o.topLevel = false
  | [], _, o, ho => by cases ho
  | t :: ts, hkinds, o, ho => by
    rw [occurrencesOf] at hkinds ho
    rcases List.mem_append.mp ho with ho | ho
    · exact topLevel_eq_false_of_mem habove t
        (fun b hb => hkinds b (List.mem_append_left _ hb)) o ho
    · exact topLevel_eq_false_of_mem_all habove ts
        (fun b hb => hkinds b (List.mem_append_right _ hb)) o ho
end

section

variable {root c : Tree} {o : Occurrence} (h : root.IsContract)

include h

theorem IsContract.kind_ne_module_of_children (hc : c ∈ root.children)
    (ho : o ∈ c.occurrencesFrom [root] false) : o.tree.kind ≠ .module := by
  refine h.inside o ?_ ?_
  · rw [occurrences, occurrencesFrom_eq]
    exact List.mem_cons_of_mem _ (List.mem_append_left _ (List.mem_flatMap.mpr ⟨c, hc, ho⟩))
  · exact List.IsSuffix.ne_nil (suffix_above_of_mem c ho) (List.cons_ne_nil _ _)

theorem IsContract.kind_ne_module_of_decorators (hc : c ∈ root.decorators)
    (ho : o ∈ c.occurrencesFrom [root] true) : o.tree.kind ≠ .module := by
  refine h.inside o ?_ ?_
  · rw [occurrences, occurrencesFrom_eq]
    exact List.mem_cons_of_mem _ (List.mem_append_right _ (List.mem_flatMap.mpr ⟨c, hc, ho⟩))
  · exact List.IsSuffix.ne_nil (suffix_above_of_mem c ho) (List.cons_ne_nil _ _)

theorem IsContract.topLevel_function (t : Tree) : Occurrence.topLevel ⟨t, [root], false⟩ = true := by
  simp [Occurrence.topLevel, h.module]

theorem IsContract.isSome_ident {t : Tree} (ht : t ∈ root.functions) : t.ident.isSome := by
  obtain ⟨hchild, hk⟩ := List.mem_filter.mp ht
  exact h.named _ (mem_occurrences_of_mem_children hchild) (of_decide_eq_true hk)

/-- Nothing inside of a child of the module is at the top level. -/
theorem IsContract.topLevel_of_inner (hc : c ∈ root.children)
    (ho : o ∈ c.children.flatMap (occurrencesFrom [c, root] false)
      ++ c.decorators.flatMap (occurrencesFrom [c, root] true)) : o.topLevel = false := by
  have hkinds : ∀ b ∈ c.occurrencesFrom [root] false, b.tree.kind ≠ .module := fun b hb =>
    h.kind_ne_module_of_children hc hb
  rw [occurrencesFrom_eq] at hkinds
  have hself : c.kind ≠ .module := hkinds _ List.mem_cons_self
  have hhead : ∀ d, (!d && [c, root].head?.any (fun parent => parent.kind == .module)) = false := by
    intro d
    simp [hself]
  rw [← occurrencesOf_eq_flatMap, ← occurrencesOf_eq_flatMap] at ho hkinds
  rcases List.mem_append.mp ho with ho | ho
  · exact topLevel_eq_false_of_mem_all (hhead false) c.children
      (fun b hb => hkinds b (List.mem_cons_of_mem _ (List.mem_append_left _ hb))) o ho
  · exact topLevel_eq_false_of_mem_all (hhead true) c.decorators
      (fun b hb => hkinds b (List.mem_cons_of_mem _ (List.mem_append_right _ hb))) o ho

end

end Tree

namespace Linter

section

variable {p : Policy}

/-! ### Entry points -/

theorem any_isExport_markOf? (d : Tree) : (markOf? p d).any p.isExport = p.marksExport d := by
  by_cases hk : d.kind = .name
  · cases hm : d.ident with
    | none => simp [markOf?, Policy.marksExport, hk, hm]
    | some m =>
      rw [markOf?_of_name hk hm]
      cases he : p.isExport m <;>
        simp_all [Policy.marksExport, Policy.isMark, Policy.isExport, apply_ite]
  · simp [markOf?, Policy.marksExport, hk]

theorem exports_mark (name : String) (points : EntryPoints) (d : Tree) :
    (mark p name points d).exports
      = if p.marksExport d then addOnce points.exports name else points.exports := by
  rw [← any_isExport_markOf?, mark]
  cases markOf? p d with
  | none => rfl
  | some m =>
    -- A mark that is no export, or one of a name that is listed, leaves the exports as they are.
    have hother : (if p.isConstructor m && points.constructor.isNone then
        { points with constructor := some name } else points).exports = points.exports := by
      split <;> rfl
    cases he : p.isExport m with
    | false => simpa [he] using hother
    | true =>
      by_cases hname : name ∈ points.exports
      · simpa [he, hname, addOnce] using hother
      · simp [he, hname, addOnce]

theorem exports_foldl_mark (name : String) (ds : List Tree) (points : EntryPoints) :
    (ds.foldl (mark p name) points).exports
      = if ds.any p.marksExport then addOnce points.exports name else points.exports := by
  rw [← p.foldl_marks]
  exact (List.foldl_hom EntryPoints.exports fun points d => (exports_mark name points d).symm).symm

theorem exports_entryPoints (root : Tree) :
    (entryPoints p root).exports = p.exportedNames root := by
  rw [p.exportedNames_eq_foldl, entryPoints]
  refine (List.foldl_hom EntryPoints.exports fun points t => ?_).symm
  cases hname : t.ident with
  | none => simp [Policy.addExported, hname]
  | some name => rw [exports_foldl_mark, Policy.addExported, hname]

/-! ### The walk -/

variable {r : Registry} {o : Occurrence}

/-! What is read off notes here is read off the marks alone: a breach gives nothing. -/

section

variable {g : Note → Option String} (hg : ∀ v, g (.breach v) = none)

include hg

theorem filterMap_breaches (vs : List Violation) : (vs.map Note.breach).filterMap g = [] := by
  rw [List.filterMap_map]
  exact List.filterMap_eq_nil_iff.mpr fun v _ => hg v

theorem filterMap_functionNotes : (functionNotes p o).filterMap g
    = o.tree.decorators.flatMap (fun d => (decoratorNotes p o d).filterMap g) := by
  have hlength : (if 1 < o.tree.decorators.length then [Note.breach (.statement .severalDecorators
      o.tree.line (o.tree.ident.getD ""))] else []).filterMap g = [] := by
    split
    · simp [hg]
    · rfl
  rw [functionNotes, List.filterMap_append, hlength, List.nil_append, List.filterMap_flatMap]

theorem filterMap_decoratorNotes_eq_nil (d : Tree) (h : o.topLevel = false) :
    (decoratorNotes p o d).filterMap g = [] := by
  by_cases hk : d.kind = .name
  · cases hm : d.ident with
    | none => simp [decoratorNotes_of_not_name (Or.inr hm), hg]
    | some m =>
      rw [decoratorNotes_of_name hk hm, h]
      by_cases he : m = p.exportMark
      · simp [he]
      · by_cases hc : m = p.constructMark <;> simp_all
  · simp [decoratorNotes_of_not_name (Or.inl hk), hg]

/-- Only functions at the top level have marks. -/
theorem filterMap_notes_eq_nil (h : o.tree.kind ≠ .functionDef ∨ o.topLevel = false) :
    (notes p r o).filterMap g = [] := by
  cases hrefused : refusal? p o.tree with
  | some v =>
    rw [notes_of_refusal hrefused]
    exact filterMap_breaches hg [v]
  | none =>
    rw [notes_of_admitted hrefused]
    unfold admittedNotes
    split
    · exact filterMap_breaches hg _
    · exact filterMap_breaches hg _
    · next hk =>
      have htop : o.topLevel = false := h.resolve_left (not_not_intro hk)
      rw [List.filterMap_append, filterMap_breaches hg, filterMap_functionNotes hg]
      exact List.flatMap_eq_nil_iff.mpr fun d _ => filterMap_decoratorNotes_eq_nil hg d htop
    · exact filterMap_breaches hg _

theorem filterMap_notes_of_functionDef (hp : p.allows .functionDef = true)
    (hk : o.tree.kind = .functionDef) : (notes p r o).filterMap g
      = o.tree.decorators.flatMap (fun d => (decoratorNotes p o d).filterMap g) := by
  have hrefused : refusal? p o.tree = none :=
    refusal?_eq_none_iff.mpr (by simp [Policy.blocks, hk, hp])
  rw [notes_of_admitted hrefused, admittedNotes_of_functionDef hk, List.filterMap_append,
    filterMap_breaches hg, List.nil_append, filterMap_functionNotes hg]

theorem filterMap_eq_nil_of_inner {os : List Occurrence} (h : ∀ o ∈ os, o.topLevel = false) :
    (os.flatMap (notes p r)).filterMap g = [] := by
  rw [List.filterMap_flatMap]
  exact List.flatMap_eq_nil_iff.mpr fun o ho => filterMap_notes_eq_nil hg (Or.inr (h o ho))

/-- The marks that a walk takes down in a module are those of its children. -/
theorem filterMap_allNotes_eq_children {root : Tree} (hp : p.allows .module = true)
    (h : root.IsContract) : (allNotes p r root).filterMap g
      = root.children.flatMap (fun c => (notes p r ⟨c, [root], false⟩).filterMap g) := by
  have hroot : p.sees ⟨root, [], false⟩ = true := rfl
  have hchild : ∀ c, p.sees ⟨c, [root], false⟩ = true := by
    intro c
    simp [Policy.sees, Policy.blocks, h.module, hp]
  have hself : (notes p r ⟨root, [], false⟩).filterMap g = [] :=
    filterMap_notes_eq_nil hg (Or.inr rfl)
  have hdecorators : (((root.decorators.flatMap (Tree.occurrencesFrom [root] true)).filter
      p.sees).flatMap (notes p r)).filterMap g = [] := by
    refine filterMap_eq_nil_of_inner hg fun o ho => ?_
    obtain ⟨d, hd, ho⟩ := List.mem_flatMap.mp (List.mem_filter.mp ho).1
    exact Tree.topLevel_eq_false_of_mem rfl d
      (fun b hb => h.kind_ne_module_of_decorators hd hb) o ho
  rw [allNotes, Policy.visible, Tree.occurrences, Tree.occurrencesFrom_eq,
    List.filter_cons_of_pos hroot, List.filter_append, List.flatMap_cons, List.flatMap_append,
    List.filterMap_append, List.filterMap_append, hself, hdecorators, List.nil_append,
    List.append_nil, List.filter_flatMap, List.flatMap_assoc, List.filterMap_flatMap]
  refine List.flatMap_congr fun c hc => ?_
  rw [Tree.occurrencesFrom_eq, List.filter_cons_of_pos (hchild c), List.flatMap_cons,
    List.filterMap_append, filterMap_eq_nil_of_inner hg fun o ho =>
      h.topLevel_of_inner hc (List.mem_filter.mp ho).1, List.append_nil]

theorem filterMap_allNotes {root : Tree} (hmodule : p.allows .module = true)
    (hfunction : p.allows .functionDef = true) (h : root.IsContract) :
    (allNotes p r root).filterMap g = root.functions.flatMap fun t =>
      t.decorators.flatMap fun d => (decoratorNotes p ⟨t, [root], false⟩ d).filterMap g := by
  have hother : ∀ c ∈ root.children, decide (c.kind = .functionDef) = false →
      (notes p r ⟨c, [root], false⟩).filterMap g = [] := fun c _ hk =>
    filterMap_notes_eq_nil hg (Or.inl (of_decide_eq_false hk))
  rw [filterMap_allNotes_eq_children hg hmodule h, flatMap_filter hother]
  refine List.flatMap_congr fun t ht => ?_
  exact filterMap_notes_of_functionDef hg hfunction (of_decide_eq_true (List.mem_filter.mp ht).2)

end

theorem filterMap_export?_decoratorNotes (d : Tree) (htop : o.topLevel = true) :
    (decoratorNotes p o d).filterMap Note.export?
      = if p.marksExport d then [o.tree.ident.getD ""] else [] := by
  by_cases hk : d.kind = .name
  · cases hm : d.ident with
    | none => simp [decoratorNotes_of_not_name (Or.inr hm), Policy.marksExport, hm, Note.export?]
    | some m =>
      rw [decoratorNotes_of_name hk hm, htop]
      by_cases he : m = p.exportMark
      · simp [Policy.marksExport, hk, hm, he, Note.export?]
      · by_cases hc : m = p.constructMark <;> simp_all [Policy.marksExport, Note.export?]
  · simp [decoratorNotes_of_not_name (Or.inl hk), Policy.marksExport, hk, Note.export?]

theorem foldl_export?_decoratorNotes (names : List String) (htop : o.topLevel = true)
    (hname : o.tree.ident.isSome) :
    (o.tree.decorators.flatMap fun d => (decoratorNotes p o d).filterMap Note.export?).foldl
      addOnce names = p.addExported names o.tree := by
  obtain ⟨name, hname⟩ := Option.isSome_iff_exists.mp hname
  rw [List.foldl_flatMap, Policy.addExported, hname, ← p.foldl_marks]
  refine List.foldl_ext _ _ _ fun names d _ => ?_
  rw [filterMap_export?_decoratorNotes d htop, hname]
  cases p.marksExport d <;> rfl

theorem exports_run_eq_foldl (root : Tree) : (run p r root).exports
    = ((allNotes p r root).filterMap Note.export?).foldl addOnce [] := by
  have hrun : (run p r root).exports = (visit p r false .empty root).exports := by
    unfold run
    simp only
    split <;> rfl
  rw [hrun, visit_root_eq, Findings.exports_foldl]
  rfl

theorem exports_run {root : Tree} (hmodule : p.allows .module = true)
    (hfunction : p.allows .functionDef = true) (h : root.IsContract) :
    (run p r root).exports = p.exportedNames root := by
  rw [exports_run_eq_foldl, filterMap_allNotes (fun _ => rfl) hmodule hfunction h,
    List.foldl_flatMap, p.exportedNames_eq_foldl]
  refine List.foldl_ext _ _ _ fun names t ht => ?_
  exact foldl_export?_decoratorNotes names (h.topLevel_function t) (h.isSome_ident ht)

theorem noExport_not_mem_breaches {ns : List Note}
    (hns : ∀ n ∈ ns, ∀ v, n.violation? = some v → v.rule ≠ .noExport) :
    .noExport ∉ ns.filterMap Note.violation? := by
  intro hmem
  obtain ⟨n, hn, hv⟩ := List.mem_filterMap.mp hmem
  exact hns n hn _ hv rfl

/-- A missing export is reported at the end and nowhere else. -/
theorem noExport_mem_report_iff (p : Policy) (r : Registry) (root : Tree) :
    (.noExport ∈ report p r root ↔ (allNotes p r root).any Note.isExport = false)
      ∧ (.noExport ∈ report p r root →
        ∃ vs, report p r root = vs ++ [.noExport] ∧ .noExport ∉ vs) := by
  have hbreaches : .noExport ∉ ((allNotes p r root).eraseP Note.isSeed).filterMap
      Note.violation? := by
    refine noExport_not_mem_breaches fun n hn v hv => ?_
    obtain ⟨o, -, hn⟩ := List.mem_flatMap.mp (List.mem_of_mem_eraseP hn)
    exact rule_ne_noExport_of_mem_notes hn hv
  cases hexport : (allNotes p r root).any Note.isExport with
  | false =>
    simp only [report, hexport, Bool.false_eq_true, if_false]
    exact ⟨by simp, fun _ => ⟨_, rfl, hbreaches⟩⟩
  | true =>
    simp only [report, hexport, if_true, List.append_nil]
    exact ⟨iff_of_false hbreaches (by simp), fun h => absurd h hbreaches⟩

/-- The walk of a check and the entry points come to the same exports: the functions of the module
that bear the mark, each once and in order. The report ends with the breach of a missing export if
there is none, and has that breach nowhere else. -/
theorem exports_run_eq_entryPoints (p : Policy) (r : Registry) {root : Tree}
    (hmodule : p.allows .module = true) (hfunction : p.allows .functionDef = true)
    (h : root.IsContract) :
    (run p r root).exports = (entryPoints p root).exports
      ∧ (run p r root).exports = p.exportedNames root ∧ (run p r root).exports.Nodup
      ∧ (.noExport ∈ inspect p r root ↔ (run p r root).exports = [])
      ∧ (.noExport ∈ inspect p r root →
        ∃ vs, inspect p r root = vs ++ [.noExport] ∧ .noExport ∉ vs) := by
  have hexports := exports_run (r := r) hmodule hfunction h
  have hempty : (run p r root).exports = [] ↔ (allNotes p r root).any Note.isExport = false := by
    rw [exports_run_eq_foldl, foldl_addOnce_eq_nil_iff, Note.filterMap_export?_eq_nil_iff]
  have hreport := noExport_mem_report_iff p r root
  rw [← violations_run, ← hempty] at hreport
  exact ⟨hexports.trans (exports_entryPoints root).symm, hexports,
    hexports ▸ nodup_eraseDups _, hreport.1, hreport.2⟩

def functionUnder (line : Nat) (name : String) (marks : List String) (body : List Tree) : Tree :=
  .node .functionDef line (some name) (marks.map fun m => .named .name line m [.leaf .load line])
    (.leaf .arguments line :: body)

/-- A contract that exports a name twice over, and marks functions that are no exports. -/
def exporting : Tree :=
  .branch .module 1 [functionUnder 1 "g" ["other", "export"] [],
    functionUnder 3 "f" ["export", "export"] [functionUnder 4 "inner" ["export"] []],
    functionUnder 6 "g" ["export"] [], functionUnder 8 "h" ["construct"] [],
    .node .asyncFunctionDef 10 (some "a") [.named .name 9 "export" [.leaf .load 9]]
      [.leaf .arguments 10]]

/-- Its exports are two, where only the functions at the top level count. -/
theorem exports_exporting : exporting.IsContract
    ∧ (run .standard (.ofNames []) exporting).exports = ["g", "f"]
    ∧ (entryPoints .standard exporting).exports = ["g", "f"]
    ∧ .noExport ∉ inspect .standard (.ofNames []) exporting := by
  have hcontract : exporting.IsContract := ⟨rfl, by decide, by decide⟩
  obtain ⟨hsame, hnames, -, hmissing, -⟩ :=
    exports_run_eq_entryPoints .standard (.ofNames []) rfl rfl hcontract
  have hlist : Policy.standard.exportedNames exporting = ["g", "f"] := by decide
  rw [hlist] at hnames
  refine ⟨hcontract, hnames, hsame ▸ hnames, ?_⟩
  rw [hmissing, hnames]
  exact List.cons_ne_nil _ _

end
end Linter
end Gatehouse
