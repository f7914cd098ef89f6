import Gatehouse.Proofs.Occurrence

/-!
What a check takes down at each place of a tree. The notes of a place hang on the place alone; the
walk is the same as taking the notes of every place that can be seen, one after the other.
-/
namespace Gatehouse

/-- What is taken down: a breach, or the mark of an export or of a constructor on a function of the
given name. -/
inductive Note where
  | breach (v : Violation)
  | exported (name : String)
  | seeded (line : Nat) (name : String)

namespace Note

def isExport : Note → Bool
  | .exported _ => true
  | _ => false

def isSeed : Note → Bool
  | .seeded _ _ => true
  | _ => false

/-- The breach that a note is, when every constructor mark is one too many. -/
def violation? : Note → Option Violation
  | .breach v => some v
  | .exported _ => none
  | .seeded line name => some (.statement .severalConstructors line name)

theorem filterMap_violation?_breach (vs : List Violation) :
    (vs.map breach).filterMap violation? = vs := by
  induction vs with
  | nil => rfl
  | cons v vs ih => simp [violation?, ih]

end Note

namespace Findings

/-- Takes a note: the first constructor mark is kept, each further one is a breach. -/
def take (f : Findings) : Note → Findings
  | .breach v => f.add v
  | .exported name => f.addExport name
  | .seeded line name =>
    match f.constructor with
    | some _ => f.add (.statement .severalConstructors line name)
    | none => { f with constructor := some name }

theorem addAll_eq_foldl (f : Findings) (vs : List Violation) :
    f.addAll vs = (vs.map Note.breach).foldl take f := by
  rw [addAll, List.foldl_map]
  rfl

theorem exportSeen_foldl (f : Findings) (notes : List Note) :
    (notes.foldl take f).exportSeen = (f.exportSeen || notes.any Note.isExport) := by
  induction notes generalizing f with
  | nil => simp
  | cons note notes ih =>
    rw [List.foldl_cons, ih, List.any_cons, ← Bool.or_assoc]
    cases note with
    | breach v => simp [take, add, Note.isExport]
    | exported name => simp [take, addExport, Note.isExport]
    | seeded line name => cases hc : f.constructor <;> simp [take, add, hc, Note.isExport]

theorem violations_foldl_of_some {f : Findings} (notes : List Note) (h : f.constructor.isSome) :
    (notes.foldl take f).violations.toList
      = f.violations.toList ++ notes.filterMap Note.violation? := by
  induction notes generalizing f with
  | nil => simp
  | cons note notes ih =>
    obtain ⟨c, hc⟩ := Option.isSome_iff_exists.mp h
    rw [List.foldl_cons, List.filterMap_cons]
    cases note with
    | breach v => simp [ih (f := f.add v) h, take, Note.violation?]
    | exported name => simp [ih (f := f.addExport name) h, take, Note.violation?]
    | seeded line name =>
      simp only [take, hc]
      simp [ih (f := f.add (.statement .severalConstructors line name)) h, Note.violation?]

/-- Without a constructor the first constructor mark is none. -/
theorem violations_foldl_of_none {f : Findings} (notes : List Note) (h : f.constructor = none) :
    (notes.foldl take f).violations.toList
      = f.violations.toList ++ (notes.eraseP Note.isSeed).filterMap Note.violation? := by
  induction notes generalizing f with
  | nil => simp
  | cons note notes ih =>
    rw [List.foldl_cons, List.eraseP_cons]
    cases note with
    | breach v => simp [ih (f := f.add v) h, take, Note.violation?, Note.isSeed]
    | exported name =>
      simp only [Note.isSeed, cond_false, List.filterMap_cons, Note.violation?, take]
      rw [ih (f := f.addExport name) h, violations_addExport]
    | seeded line name =>
      simp only [take, h]
      rw [violations_foldl_of_some notes rfl]
      simp [Note.isSeed]

end Findings

namespace Linter

/-- The breaches of a node that bears or binds a name with a low line before it. -/
def hiddenBreaches (t : Tree) : List Violation :=
  match t.kind with
  | .name | .arg | .keyword | .functionDef =>
    (t.ident.toList.filter isHidden).map (Violation.underscore · t.line)
  | .attributeOf => (t.ident.toList.filter isHidden).map (Violation.attributeAccess · t.line)
  | .alias =>
    if t.children.isEmpty then
      ((t.ident.toList.map firstPart).filter isHidden).map (Violation.underscore · t.line)
    else []
  | _ => []

/-- The storage cell that a value makes: a call whose callee is the bare name of one. -/
def madeCell? (p : Policy) (value : Tree) : Option String :=
  match value.kind, value.children with
  | .call, callee :: _ =>
    if callee.kind = .name then callee.ident.filter (fun name => p.storageCells.contains name)
    else none
  | _, _ => none

/-- The breaches of an assignment: several targets of a storage cell, reserved keywords of one, and
targets that bind the name of one. -/
def assignmentBreaches (p : Policy) (t : Tree) : List Violation :=
  match t.children.getLast? with
  | none => []
  | some value =>
    let targets := t.children.dropLast
    let ofCell := (madeCell? p value).toList.flatMap fun cell =>
      (if 1 < targets.length ∨ ∃ u ∈ targets, u.kind = .tuple ∨ u.kind = .listDisplay
        then [Violation.statement .severalTargets t.line cell] else [])
      ++ (value.children.filter (fun k => k.kind = .keyword)).flatMap fun k =>
        (k.ident.toList.filter (fun name => p.reservedKeywords.contains name)).map
          (Violation.statement .keywordOverloading k.line)
    ofCell ++ ((targets.flatMap boundNames).filter (fun name => p.storageCells.contains name)).map
      (Violation.statement .keywordOverloading t.line)

section

variable (p : Policy) (r : Registry) (o : Occurrence)

/-- The breaches of an import: each name where it may not stand, or each that is not known. -/
def importBreaches : List Violation :=
  let names := o.tree.children.filterMap Tree.ident
  if o.topLevel then
    (names.filter (fun name => !r.confirms name)).map
      (Violation.statement .unknownContract o.tree.line)
  else names.map (Violation.statement .nestedImport o.tree.line)

/-- The notes of one decorator of a function. A decorator that is one of the marks counts at the
top level only. -/
def decoratorNotes (d : Tree) : List Note :=
  let name := o.tree.ident.getD ""
  let invalid := Note.breach
    (.statement .invalidDecorator d.line (d.dottedName.getD d.kind.label))
  match d.kind, d.ident with
  | .name, some mark =>
    if mark = p.exportMark then (if o.topLevel then [.exported name] else [])
    else if mark = p.constructMark then
      (if o.topLevel then [.seeded o.tree.line name] else [])
    else [invalid]
  | _, _ => [invalid]

def functionNotes : List Note :=
  (if 1 < o.tree.decorators.length
    then [.breach (.statement .severalDecorators o.tree.line (o.tree.ident.getD ""))] else [])
  ++ o.tree.decorators.flatMap (decoratorNotes p o)

def admittedNotes : List Note :=
  match o.tree.kind with
  | .importModule => (importBreaches r o).map .breach
  | .assign => (assignmentBreaches p o.tree).map .breach
  | .functionDef => (hiddenBreaches o.tree).map .breach ++ functionNotes p o
  | _ => (hiddenBreaches o.tree).map .breach

/-- The notes of a place. A node that is refused is one breach and nothing else. -/
def notes : List Note :=
  let t := o.tree
  if t.kind = .classDef ∨ t.kind = .asyncFunctionDef then [.breach (.illegalDefinition t.kind)]
  else if p.allows t.kind = false then [.breach (.illegalSyntax t.kind t.line)]
  else if t.kind = .importFrom then [.breach (.importFrom t.line)]
  else admittedNotes p r o

end

section

variable {p : Policy} {r : Registry}

theorem refusal?_eq_none_iff {t : Tree} : refusal? p t = none ↔ p.blocks t = false := by
  unfold refusal? Policy.blocks
  split
  · simp_all
  · simp_all
  · split <;> simp_all
  · split <;> simp_all

theorem notes_of_refusal {o : Occurrence} {v : Violation} (h : refusal? p o.tree = some v) :
    notes p r o = [.breach v] := by
  unfold refusal? at h
  unfold notes
  split at h
  · simp_all
  · simp_all
  · split at h <;> simp_all
  · split at h <;> simp_all

theorem notes_of_admitted {o : Occurrence} (h : refusal? p o.tree = none) :
    notes p r o = admittedNotes p r o := by
  have hb := refusal?_eq_none_iff.mp h
  simp only [Policy.blocks, Bool.or_eq_false_iff, beq_eq_false_iff_ne, Bool.not_eq_false'] at hb
  obtain ⟨⟨⟨hclass, hasync⟩, hfrom⟩, hallowed⟩ := hb
  simp [notes, hclass, hasync, hfrom, hallowed]

theorem admittedNotes_of_functionDef {o : Occurrence} (hk : o.tree.kind = .functionDef) :
    admittedNotes p r o = (hiddenBreaches o.tree).map .breach ++ functionNotes p o := by
  simp only [admittedNotes, hk]

theorem toList_filter_map_isHidden (ident : Option String) (f : String → Violation) :
    (ident.toList.filter isHidden).map f
      = match ident with
        | some name => if isHidden name then [f name] else []
        | none => [] := by
  cases ident with
  | none => rfl
  | some name => cases h : isHidden name <;> simp [h]

theorem importedViolations_eq (topLevel : Bool) (line : Nat) (cs : List Tree) :
    cs.flatMap (importedViolations r topLevel line)
      = if topLevel then
          ((cs.filterMap Tree.ident).filter (fun name => !r.confirms name)).map
            (Violation.statement .unknownContract line)
        else (cs.filterMap Tree.ident).map (Violation.statement .nestedImport line) := by
  induction cs with
  | nil => simp
  | cons c cs ih =>
    rw [List.flatMap_cons, ih, List.filterMap_cons]
    cases hc : c.ident with
    | none => simp [importedViolations, hc]
    | some name =>
      cases topLevel with
      | false => simp [importedViolations, hc]
      | true => cases hr : r.confirms name <;> simp [importedViolations, hc, hr]

theorem storageCell?_eq_madeCell? (value : Tree) : storageCell? p value = madeCell? p value := by
  unfold storageCell? madeCell?
  by_cases hk : value.kind = .call
  · cases hc : value.children with
    | nil => simp [hk]
    | cons callee rest => simp only [hk, if_true]; rfl
  · simp [hk]

theorem cellKeywordViolations_eq (cs : List Tree) :
    cs.flatMap (cellKeywordViolations p)
      = (cs.filter (fun k => k.kind = .keyword)).flatMap fun k =>
          (k.ident.toList.filter (fun name => p.reservedKeywords.contains name)).map
            (Violation.statement .keywordOverloading k.line) := by
  induction cs with
  | nil => rfl
  | cons c cs ih =>
    rw [List.flatMap_cons, ih]
    by_cases hk : c.kind = .keyword
    · cases hc : c.ident with
      | none => simp [cellKeywordViolations, hk, hc]
      | some name =>
        by_cases hr : name ∈ p.reservedKeywords <;>
          simp [cellKeywordViolations, Policy.isReservedKeyword, hk, hc, hr]
    · simp [cellKeywordViolations, hk]

theorem hasSeveralTargets_iff (targets : List Tree) :
    hasSeveralTargets targets = true
      ↔ 1 < targets.length ∨ ∃ u ∈ targets, u.kind = .tuple ∨ u.kind = .listDisplay := by
  simp [hasSeveralTargets]

theorem storageViolations_eq {t : Tree} (hk : t.kind = .assign) :
    storageViolations p t = assignmentBreaches p t := by
  unfold storageViolations assignmentBreaches Tree.assignParts
  cases hv : t.children.getLast? with
  | none => simp [hk]
  | some value =>
    simp only [hk, if_true, Option.map_some, storageCell?_eq_madeCell?]
    cases madeCell? p value with
    | none => rfl
    | some cell =>
      simp only [cellKeywordViolations_eq, Option.toList_some, List.flatMap_singleton,
        ← hasSeveralTargets_iff]
      rfl

theorem aliasViolations_eq (t : Tree) :
    aliasViolations t = if t.children.isEmpty then
        ((t.ident.toList.map firstPart).filter isHidden).map (Violation.underscore · t.line)
      else [] := by
  unfold aliasViolations
  cases t.children with
  | nil =>
    cases t.ident with
    | none => rfl
    | some name => cases h : isHidden (firstPart name) <;> simp [h]
  | cons c cs => rfl

theorem ownViolations_of_other {t : Tree} (topLevel : Bool) (himport : t.kind ≠ .importModule)
    (hassign : t.kind ≠ .assign) : ownViolations p r topLevel t = hiddenBreaches t := by
  cases hk : t.kind
  case importModule => exact absurd hk himport
  case assign => exact absurd hk hassign
  case name | arg | keyword | functionDef =>
    simp only [ownViolations, hiddenBreaches, hk, toList_filter_map_isHidden]
    rfl
  case attributeOf =>
    simp only [ownViolations, hiddenBreaches, hk, toList_filter_map_isHidden]
    rfl
  case «alias» => simp only [ownViolations, hiddenBreaches, hk, aliasViolations_eq]
  all_goals simp only [ownViolations, hiddenBreaches, hk]

theorem decoratorNotes_of_name {o : Occurrence} {d : Tree} {m : String} (hk : d.kind = .name)
    (hm : d.ident = some m) : decoratorNotes p o d =
      if m = p.exportMark then (if o.topLevel then [.exported (o.tree.ident.getD "")] else [])
      else if m = p.constructMark then
        (if o.topLevel then [.seeded o.tree.line (o.tree.ident.getD "")] else [])
      else [.breach (.statement .invalidDecorator d.line (d.dottedName.getD d.kind.label))] := by
  simp only [decoratorNotes, hk, hm]

theorem decoratorNotes_of_not_name {o : Occurrence} {d : Tree}
    (h : d.kind ≠ .name ∨ d.ident = none) : decoratorNotes p o d =
      [.breach (.statement .invalidDecorator d.line (d.dottedName.getD d.kind.label))] := by
  unfold decoratorNotes
  split
  · simp_all
  · rfl

theorem markOf?_of_name {d : Tree} {m : String} (hk : d.kind = .name) (hm : d.ident = some m) :
    markOf? p d = if p.isMark m then some m else none := by
  simp [markOf?, hk, hm, Option.filter_some]

theorem decorate_eq {o : Occurrence} (f : Findings) (d : Tree) :
    decorate p o.topLevel o.tree f d = (decoratorNotes p o d).foldl Findings.take f := by
  by_cases hk : d.kind = .name
  · cases hm : d.ident with
    | none =>
      rw [decoratorNotes_of_not_name (Or.inr hm)]
      simp [decorate, markOf?, hm, Findings.take]
    | some m =>
      rw [decoratorNotes_of_name hk hm, decorate, markOf?_of_name hk hm]
      by_cases he : m = p.exportMark
      · have hexport : p.isExport m = true := by simp [Policy.isExport, he]
        simp only [Policy.isMark, hexport, Bool.true_or, if_true, if_pos he]
        cases o.topLevel <;> rfl
      · have hexport : p.isExport m = false := by simpa [Policy.isExport] using he
        by_cases hc : m = p.constructMark
        · have hconstruct : p.isConstructor m = true := by simp [Policy.isConstructor, hc]
          simp only [Policy.isMark, hexport, hconstruct, Bool.false_or, if_true, he, if_false,
            if_pos hc]
          cases o.topLevel
          · rfl
          · cases hf : f.constructor <;> simp [Findings.take, hf]
        · have hconstruct : p.isConstructor m = false := by simpa [Policy.isConstructor] using hc
          simp [Policy.isMark, hexport, hconstruct, he, hc, Findings.take]
  · rw [decoratorNotes_of_not_name (Or.inl hk)]
    simp [decorate, markOf?, hk, Findings.take]

theorem decorateAll_eq {o : Occurrence} (f : Findings) :
    decorateAll p o.topLevel o.tree f = (functionNotes p o).foldl Findings.take f := by
  have hall : ∀ (ds : List Tree) (f : Findings), ds.foldl (decorate p o.topLevel o.tree) f
      = (ds.flatMap (decoratorNotes p o)).foldl Findings.take f := by
    intro ds
    induction ds with
    | nil => exact fun f => rfl
    | cons d ds ih =>
      intro f
      rw [List.foldl_cons, ih, decorate_eq, List.flatMap_cons, List.foldl_append]
  rw [decorateAll, hall, functionNotes, List.foldl_append]
  split <;> rfl

theorem examine_eq {o : Occurrence} (f : Findings) :
    examine p r o.topLevel o.tree f = (admittedNotes p r o).foldl Findings.take f := by
  have hown : ∀ vs : List Violation, f.addAll vs = (vs.map Note.breach).foldl Findings.take f :=
    f.addAll_eq_foldl
  unfold examine
  by_cases himport : o.tree.kind = .importModule
  · simp [admittedNotes, himport, hown, ownViolations, importedViolations_eq, importBreaches]
  · by_cases hassign : o.tree.kind = .assign
    · simp [admittedNotes, hassign, hown, ownViolations, storageViolations_eq hassign]
    · rw [ownViolations_of_other o.topLevel himport hassign, hown]
      by_cases hfun : o.tree.kind = .functionDef
      · simp [admittedNotes, hfun, decorateAll_eq]
      · simp [admittedNotes, hfun]

end

end Linter
end Gatehouse
