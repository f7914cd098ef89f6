import Gatehouse.Proofs.Linter.Exports
import Gatehouse.Proofs.Lowering.Levels

/-!
The constructor, too, is looked for twice. The walk of a check takes a mark of exports for nothing
else. The entry points take the mark of a further export of the same name for that of a constructor
if a policy has one mark for both, and only so can they come to another constructor than the walk.
-/
namespace Gatehouse

/-! ### Notes of constructors -/

def Note.seed? : Note → Option String
  | .seeded _ name => some name
  | _ => none

theorem Note.filterMap_seed?_eraseP (ns : List Note) :
    (ns.eraseP isSeed).filterMap seed? = (ns.filterMap seed?).tail := by
  induction ns with
  | nil => rfl
  | cons n ns ih =>
    rw [List.eraseP_cons]
    cases n with
    | breach v => exact ih
    | exported name => exact ih
    | seeded line name => rfl

theorem Findings.constructor_foldl (f : Findings) (ns : List Note) :
    (ns.foldl take f).constructor = f.constructor.or (ns.filterMap Note.seed?).head? := by
  induction ns generalizing f with
  | nil => simp
  | cons n ns ih =>
    rw [List.foldl_cons, ih, List.filterMap_cons]
    cases n with
    | breach v => rfl
    | exported name => rfl
    | seeded line name => cases hc : f.constructor <;> simp [take, add, hc, Note.seed?]

/-! ### Names under a mark -/

/-- The names of the functions of a module, each as often as one of its decorators is a mark. -/
def Tree.namesUnder (marks : Tree → Bool) (root : Tree) : List String :=
  root.functions.flatMap fun t => t.decorators.flatMap fun d => if marks d then t.ident.toList else []

/-- Is the decorator the bare name that marks the constructor, and not exports as well? -/
def Policy.marksConstructor (p : Policy) (decorator : Tree) : Bool :=
  decorator.kind == .name && decorator.ident == some p.constructMark && !p.marksExport decorator

/-- The functions of a module that are marked as its constructor. There should be one at most. -/
def Policy.constructors (p : Policy) (root : Tree) : List String :=
  root.namesUnder p.marksConstructor

section

variable {p : Policy}

theorem Policy.constructors_eq_nil (h : p.exportMark = p.constructMark) (root : Tree) :
    p.constructors root = [] := by
  have hnone : ∀ d, p.marksConstructor d = false := by
    intro d
    simp [marksConstructor, marksExport, h]
  simp [constructors, Tree.namesUnder, hnone]

theorem Policy.marksConstructor_of_ne (h : p.exportMark ≠ p.constructMark) (d : Tree) :
    p.marksConstructor d = (d.kind == .name && d.ident == some p.constructMark) := by
  by_cases hm : d.ident = some p.constructMark
  · simp [marksConstructor, marksExport, hm, h.symm]
  · simp [marksConstructor, hm]

end

namespace EntryPoints

/-- The entry points after one more mark that stands for exports and for the constructor: it is an
export for a new name, and a constructor for a name that is exported already. -/
def revisit (points : EntryPoints) (name : String) : EntryPoints :=
  if name ∈ points.exports then { points with constructor := points.constructor.or (some name) }
  else { points with exports := points.exports ++ [name] }

theorem constructor_foldl_revisit (names : List String) (points : EntryPoints)
    (h : points.exports.Nodup) : (names.foldl revisit points).constructor = none
      ↔ points.constructor = none ∧ (points.exports ++ names).Nodup := by
  induction names generalizing points with
  | nil => simp [h]
  | cons name names ih =>
    rw [List.foldl_cons, revisit]
    by_cases hname : name ∈ points.exports
    · have hagain : ¬ (points.exports ++ name :: names).Nodup := fun hnodup =>
        (List.nodup_append.mp hnodup).2.2 name hname name List.mem_cons_self rfl
      rw [if_pos hname, ih { points with constructor := points.constructor.or (some name) } h]
      simp [hagain]
    · have hnodup : (points.exports ++ [name]).Nodup := by
        simpa [addOnce, hname] using nodup_addOnce h name
      rw [if_neg hname, ih { points with exports := points.exports ++ [name] } hnodup,
        List.append_assoc, List.singleton_append]

end EntryPoints

namespace Linter

section

variable {p : Policy} {r : Registry} {o : Occurrence} {root : Tree}

/-! ### The walk -/

theorem filterMap_seed?_decoratorNotes (d : Tree) (htop : o.topLevel = true) :
    (decoratorNotes p o d).filterMap Note.seed?
      = if p.marksConstructor d then [o.tree.ident.getD ""] else [] := by
  by_cases hk : d.kind = .name
  · cases hm : d.ident with
    | none => simp [decoratorNotes_of_not_name (Or.inr hm), Policy.marksConstructor, hm, Note.seed?]
    | some m =>
      rw [decoratorNotes_of_name hk hm, htop]
      by_cases he : m = p.exportMark
      · simp [Policy.marksConstructor, Policy.marksExport, hk, hm, he, Note.seed?]
      · by_cases hc : m = p.constructMark <;>
          simp_all [Policy.marksConstructor, Policy.marksExport, Note.seed?]
  · simp [decoratorNotes_of_not_name (Or.inl hk), Policy.marksConstructor, hk, Note.seed?]

theorem filterMap_seed?_allNotes (hmodule : p.allows .module = true)
    (hfunction : p.allows .functionDef = true) (h : root.IsContract) :
    (allNotes p r root).filterMap Note.seed? = p.constructors root := by
  rw [filterMap_allNotes (fun _ => rfl) hmodule hfunction h]
  refine List.flatMap_congr fun t ht => List.flatMap_congr fun d _ => ?_
  obtain ⟨name, hname⟩ := Option.isSome_iff_exists.mp (h.isSome_ident ht)
  rw [filterMap_seed?_decoratorNotes d (h.topLevel_function t), hname]
  rfl

theorem constructor_run (hmodule : p.allows .module = true)
    (hfunction : p.allows .functionDef = true) (h : root.IsContract) :
    (run p r root).constructor = (p.constructors root).head? := by
  have hrun : (run p r root).constructor = (visit p r false .empty root).constructor := by
    unfold run
    simp only
    split <;> rfl
  rw [hrun, visit_root_eq, Findings.constructor_foldl, filterMap_seed?_allNotes hmodule hfunction h]
  rfl

/-! ### Further constructors -/

theorem severalConstructors_mem_iff {ns : List Note}
    (hns : ∀ v, .breach v ∈ ns → v.rule ≠ .severalConstructors) :
    (∃ v ∈ ns.filterMap Note.violation?, v.rule = .severalConstructors)
      ↔ ns.filterMap Note.seed? ≠ [] := by
  rw [ne_eq, List.filterMap_eq_nil_iff]
  push Not
  constructor
  · rintro ⟨v, hv, hrule⟩
    obtain ⟨n, hn, hv⟩ := List.mem_filterMap.mp hv
    refine ⟨n, hn, ?_⟩
    cases n with
    | breach w =>
      rw [Option.some.inj hv] at hn
      exact absurd hrule (hns v hn)
    | exported name => cases hv
    | seeded line name => simp [Note.seed?]
  · rintro ⟨n, hn, hseed⟩
    cases n with
    | breach w => exact absurd rfl hseed
    | exported name => exact absurd rfl hseed
    | seeded line name => exact ⟨_, List.mem_filterMap.mpr ⟨_, hn, rfl⟩, rfl⟩

/-- Further constructors are reported, and a single one is not. -/
theorem severalConstructors_mem_inspect_iff (hmodule : p.allows .module = true)
    (hfunction : p.allows .functionDef = true) (h : root.IsContract) :
    (∃ v ∈ inspect p r root, v.rule = .severalConstructors) ↔ (p.constructors root).tail ≠ [] := by
  have hbreach : ∀ v, .breach v ∈ (allNotes p r root).eraseP Note.isSeed →
      v.rule ≠ .severalConstructors := by
    intro v hv
    obtain ⟨o, -, hv⟩ := List.mem_flatMap.mp (List.mem_of_mem_eraseP hv)
    exact rule_ne_severalConstructors_of_breach hv
  rw [← filterMap_seed?_allNotes (r := r) hmodule hfunction h, ← Note.filterMap_seed?_eraseP,
    ← severalConstructors_mem_iff hbreach, inspect_eq_report, report]
  constructor
  · rintro ⟨v, hv, hrule⟩
    rcases List.mem_append.mp hv with hv | hv
    · exact ⟨v, hv, hrule⟩
    · split at hv
      · cases hv
      · rw [List.mem_singleton.mp hv] at hrule
        cases hrule
  · rintro ⟨v, hv, hrule⟩
    exact ⟨v, List.mem_append_left _ hv, hrule⟩

/-! ### Entry points with two marks -/

/-- Where the marks differ, a mark of the constructor is taken as such. -/
theorem constructor_mark (hne : p.exportMark ≠ p.constructMark) (name : String)
    (points : EntryPoints) (d : Tree) : (mark p name points d).constructor
      = points.constructor.or (if p.marksConstructor d then [name] else []).head? := by
  rw [p.marksConstructor_of_ne hne]
  by_cases hk : d.kind = .name
  · cases hm : d.ident with
    | none => simp [mark, markOf?, hm]
    | some m =>
      rw [mark, markOf?_of_name hk hm, hk]
      by_cases hc : m = p.constructMark
      · subst hc
        have hexport : p.isExport p.constructMark = false := by
          simpa [Policy.isExport] using hne.symm
        cases hp : points.constructor <;>
          simp [Policy.isMark, Policy.isConstructor, hexport, hp]
      · have hconstruct : p.isConstructor m = false := by simpa [Policy.isConstructor] using hc
        cases hexport : p.isExport m
        · simp [Policy.isMark, hexport, hconstruct, hc]
        · simp only [Policy.isMark, hexport, hconstruct, Bool.or_false, if_true]
          split <;> simp [hc]
  · simp [mark, markOf?, hk]

theorem constructor_foldl_mark (hne : p.exportMark ≠ p.constructMark) (name : String)
    (points : EntryPoints) (ds : List Tree) : (ds.foldl (mark p name) points).constructor
      = points.constructor.or
          (ds.flatMap fun d => if p.marksConstructor d then [name] else []).head? := by
  rw [← foldl_or_head?]
  exact (List.foldl_hom EntryPoints.constructor fun points d =>
    (constructor_mark hne name points d).symm).symm

theorem constructor_entryPoints (hne : p.exportMark ≠ p.constructMark) (root : Tree) :
    (entryPoints p root).constructor = (p.constructors root).head? := by
  rw [entryPoints, Policy.constructors, Tree.namesUnder, ← Option.none_or (o := List.head? _),
    ← foldl_or_head?]
  refine (List.foldl_hom EntryPoints.constructor fun points t => ?_).symm
  cases hname : t.ident with
  | none =>
    have hnone : (t.decorators.flatMap fun d =>
        if p.marksConstructor d then (none : Option String).toList else []) = [] :=
      List.flatMap_eq_nil_iff.mpr fun d _ => ite_self []
    rw [hnone, List.head?_nil, Option.or_none]
  | some name =>
    rw [constructor_foldl_mark hne]
    rfl

/-! ### Entry points with one mark -/

theorem mark_of_same (hsame : p.exportMark = p.constructMark) (name : String)
    (points : EntryPoints) (d : Tree) :
    mark p name points d = if p.marksExport d then points.revisit name else points := by
  by_cases hk : d.kind = .name
  · cases hm : d.ident with
    | none => simp [mark, markOf?, hm, Policy.marksExport]
    | some m =>
      rw [mark, markOf?_of_name hk hm, Policy.marksExport, hk, hm]
      by_cases he : m = p.exportMark
      · subst he
        by_cases hname : name ∈ points.exports
        · obtain ⟨exports, constructor⟩ := points
          cases constructor <;>
            simp_all [Policy.isMark, Policy.isExport, Policy.isConstructor, EntryPoints.revisit]
        · simp [Policy.isMark, Policy.isExport, EntryPoints.revisit, hname]
      · have hc : m ≠ p.constructMark := hsame ▸ he
        simp [Policy.isMark, Policy.isExport, Policy.isConstructor, he, hc]
  · simp [mark, markOf?, hk, Policy.marksExport]

theorem entryPoints_of_same (hsame : p.exportMark = p.constructMark) (root : Tree) :
    entryPoints p root = (root.namesUnder p.marksExport).foldl EntryPoints.revisit ⟨[], none⟩ := by
  rw [Tree.namesUnder, List.foldl_flatMap, entryPoints]
  refine List.foldl_ext _ _ _ fun points t _ => ?_
  rw [List.foldl_flatMap]
  cases hname : t.ident with
  | none => simp
  | some name =>
    refine List.foldl_ext _ _ _ fun points d _ => ?_
    rw [mark_of_same hsame]
    cases p.marksExport d <;> rfl

/-- A check comes to the first function that bears the mark of the constructor, and tells by a breach
whether there are others. The entry points come to the same one, unless a single mark stands for
exports and for the constructor and some name is exported twice: the check then finds no constructor
and the entry points do. -/
theorem constructor_run_eq_entryPoints_iff (p : Policy) (r : Registry) {root : Tree}
    (hmodule : p.allows .module = true) (hfunction : p.allows .functionDef = true)
    (h : root.IsContract) :
    (run p r root).constructor = (p.constructors root).head?
      ∧ ((∀ v ∈ inspect p r root, v.rule ≠ .severalConstructors)
        ↔ p.constructors root = (run p r root).constructor.toList)
      ∧ ((entryPoints p root).constructor = (run p r root).constructor
        ↔ p.exportMark ≠ p.constructMark ∨ (root.namesUnder p.marksExport).Nodup) := by
  have hrun := constructor_run (r := r) hmodule hfunction h
  refine ⟨hrun, ?_, ?_⟩
  · have htail : ∀ names : List String, names.tail = [] ↔ names = names.head?.toList := by
      intro names
      cases names <;> simp
    have hseveral := severalConstructors_mem_inspect_iff (r := r) hmodule hfunction h
    rw [hrun, ← htail, ← not_iff_not, ← ne_eq, ← hseveral]
    simp
  · by_cases hsame : p.exportMark = p.constructMark
    · have hnone : (run p r root).constructor = none := by
        rw [hrun, p.constructors_eq_nil hsame]
        rfl
      have hiff := EntryPoints.constructor_foldl_revisit (root.namesUnder p.marksExport) ⟨[], none⟩
        List.nodup_nil
      rw [hnone, entryPoints_of_same hsame, hiff]
      simp [hsame]
    · exact iff_of_true ((constructor_entryPoints hsame root).trans hrun.symm) (Or.inl hsame)

/-- A contract with two constructors, and a function inside of another that bears their mark. -/
def constructing : Tree :=
  .branch .module 1 [functionUnder 1 "f" ["export"] [functionUnder 2 "inner" ["construct"] []],
    functionUnder 4 "seed" ["construct"] [], functionUnder 6 "again" ["construct"] []]

/-- The first of the two counts, and the second is reported. -/
theorem constructor_constructing : constructing.IsContract
    ∧ (run .standard (.ofNames []) constructing).constructor = some "seed"
    ∧ (entryPoints .standard constructing).constructor = some "seed"
    ∧ ∃ v ∈ inspect .standard (.ofNames []) constructing, v.rule = .severalConstructors := by
  have hcontract : constructing.IsContract := ⟨rfl, by decide, by decide⟩
  obtain ⟨hfirst, honly, hsame⟩ :=
    constructor_run_eq_entryPoints_iff .standard (.ofNames []) rfl rfl hcontract
  have hlist : Policy.standard.constructors constructing = ["seed", "again"] := by decide
  rw [hlist] at hfirst honly
  refine ⟨hcontract, hfirst, (hsame.mpr (Or.inl (by decide))).trans hfirst, ?_⟩
  by_contra hnone
  rw [hfirst] at honly
  exact absurd (honly.mp fun v hv hrule => hnone ⟨v, hv, hrule⟩) (by decide)

/-- One mark for exports and for the constructor. -/
def oneMark : Policy := Policy.standard.withDecorators "m" "m"

/-- A contract that has two functions of one name under it. -/
def exportedTwice : ByteArray := "@m\ndef f():\n return 1\n@m\ndef f():\n return 2\n".toUTF8

/-- What is read of it. -/
def exportedTwiceTree : Tree :=
  .branch .module 1
    [.node .functionDef 2 (some "f") [.named .name 1 "m" [.leaf .load 1]]
      [.leaf .arguments 2, .branch .returnValue 3 [.named .num 3 "1" []]],
    .node .functionDef 5 (some "f") [.named .name 4 "m" [.leaf .load 4]]
      [.leaf .arguments 5, .branch .returnValue 6 [.named .num 6 "2" []]]]

theorem read_exportedTwice : Contract.read exportedTwice = .ok exportedTwiceTree := by
  rw [Contract.read_eq]
  decide +kernel

/-- It passes, and the walk finds no constructor in it. The entry points have one. -/
theorem constructor_oneMark : Contract.read exportedTwice = .ok exportedTwiceTree
    ∧ exportedTwiceTree.IsContract ∧ oneMark.allows .module = true
    ∧ oneMark.allows .functionDef = true
    ∧ inspect oneMark (.ofNames []) exportedTwiceTree = []
    ∧ (run oneMark (.ofNames []) exportedTwiceTree).constructor = none
    ∧ (entryPoints oneMark exportedTwiceTree).constructor = some "f" :=
  ⟨read_exportedTwice, ⟨rfl, by decide, by decide⟩, rfl, rfl, by decide, by decide, by decide⟩

end
end Linter
end Gatehouse
