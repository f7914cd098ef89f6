import Gatehouse.Proofs.Linter.Report

/-!
What it takes to be admitted, said of each node of a tree by itself. Nothing here mentions a walk:
a tree passes a check exactly when every place in it is clean, one of them shows an export, and at
most one shows a constructor.
-/
namespace Gatehouse

/-- A target binds a plain name, which may stand inside of tuples, lists and starred targets. -/
inductive Tree.Binds : Tree → String → Prop
  | name (line : Nat) (n : String) (ds cs : List Tree) : Binds (.node .name line (some n) ds cs) n
  | part {kind : Kind} {line : Nat} {ident : Option String} {ds cs : List Tree} {c : Tree}
      {n : String} (hk : kind = .tuple ∨ kind = .listDisplay ∨ kind = .starred) (hc : c ∈ cs)
      (h : Binds c n) : Binds (.node kind line ident ds cs) n

/-- A value is a call of a storage cell by its bare name. -/
structure Policy.MakesCell (p : Policy) (value : Tree) (cell : String) : Prop where
  call : value.kind = .call
  callee : ∃ callee rest, value.children = callee :: rest ∧ callee.kind = .name
    ∧ callee.ident = some cell
  known : cell ∈ p.storageCells

namespace Linter

mutual
theorem mem_boundNames_iff {n : String} : (t : Tree) → (n ∈ boundNames t ↔ t.Binds n)
  | .node kind line ident ds cs => by
    constructor
    · intro h
      unfold boundNames at h
      split at h
      next heq =>
        obtain ⟨rfl, rfl, rfl, rfl, rfl⟩ := Tree.node.inj heq
        obtain rfl := Option.mem_toList.mp h
        exact .name _ _ _ _
      next heq =>
        obtain ⟨rfl, rfl, rfl, rfl, rfl⟩ := Tree.node.inj heq
        obtain ⟨c, hc, hb⟩ := (mem_boundNamesOf_iff _).mp h
        exact .part (Or.inl rfl) hc hb
      next heq =>
        obtain ⟨rfl, rfl, rfl, rfl, rfl⟩ := Tree.node.inj heq
        obtain ⟨c, hc, hb⟩ := (mem_boundNamesOf_iff _).mp h
        exact .part (Or.inr (Or.inl rfl)) hc hb
      next heq =>
        obtain ⟨rfl, rfl, rfl, rfl, rfl⟩ := Tree.node.inj heq
        obtain ⟨c, hc, hb⟩ := (mem_boundNamesOf_iff _).mp h
        exact .part (Or.inr (Or.inr rfl)) hc hb
      next => cases h
    · rintro (⟨⟩ | ⟨rfl | rfl | rfl, hc, hb⟩)
      · simp [boundNames]
      all_goals
        rw [boundNames]
        exact (mem_boundNamesOf_iff cs).mpr ⟨_, hc, hb⟩

theorem mem_boundNamesOf_iff {n : String} :
    (ts : List Tree) → (n ∈ boundNames.boundNamesOf ts ↔ ∃ t ∈ ts, t.Binds n)
  | [] => by simp [boundNames.boundNamesOf]
  | t :: ts => by
    simp [boundNames.boundNamesOf, mem_boundNames_iff t, mem_boundNamesOf_iff ts]
end

section

variable (p : Policy) (r : Registry)

/-- An assignment that breaks no rule: it binds no name of a storage cell, and a storage cell is
made for one plain target and without reserved keywords. -/
structure CleanAssignment (targets : List Tree) (value : Tree) : Prop where
  bindings : ∀ u ∈ targets, ∀ n, u.Binds n → n ∉ p.storageCells
  single : ∀ cell, p.MakesCell value cell →
    targets.length ≤ 1 ∧ ∀ u ∈ targets, u.kind ≠ .tuple ∧ u.kind ≠ .listDisplay
  keywords : ∀ cell, p.MakesCell value cell →
    ∀ k ∈ value.children, k.kind = .keyword → ∀ n ∈ k.ident, n ∉ p.reservedKeywords

structure Clean (o : Occurrence) : Prop where
  allowed : p.allows o.tree.kind = true
  definition : o.tree.kind ≠ .classDef ∧ o.tree.kind ≠ .asyncFunctionDef
  fromImport : o.tree.kind ≠ .importFrom
  names : o.tree.kind ∈ [.name, .arg, .keyword, .functionDef, .attributeOf] →
    ∀ n ∈ o.tree.ident, isHidden n = false
  aliases : o.tree.kind = .alias → o.tree.children = [] →
    ∀ n ∈ o.tree.ident, isHidden (firstPart n) = false
  imports : o.tree.kind = .importModule → ∀ c ∈ o.tree.children, ∀ n ∈ c.ident,
    o.topLevel = true ∧ r.lookUp n = .ok true
  decorators : o.tree.kind = .functionDef → o.tree.decorators.length ≤ 1
    ∧ ∀ d ∈ o.tree.decorators, d.kind = .name
      ∧ ∃ m ∈ d.ident, m = p.exportMark ∨ m = p.constructMark
  assignment : o.tree.kind = .assign → ∀ targets value, o.tree.children = targets ++ [value] →
    CleanAssignment p targets value

/-- The place is a function at the top level that bears the given mark. -/
def bears (mark : String) (o : Occurrence) : Bool :=
  o.tree.kind == .functionDef && o.topLevel
    && o.tree.decorators.any (fun d => d.kind == .name && d.ident == some mark)

def isExport (o : Occurrence) : Bool := bears p.exportMark o

/-- The place is a constructor. A policy may have one mark for both, which is then that of an
export. -/
def isConstructor (o : Occurrence) : Bool :=
  p.constructMark != p.exportMark && bears p.constructMark o

structure Admissible (root : Tree) : Prop where
  clean : ∀ o ∈ root.occurrences, Clean p r o
  constructors : root.occurrences.countP (isConstructor p) ≤ 1
  exported : ∃ o ∈ root.occurrences, isExport p o = true

end

section

variable {p : Policy} {r : Registry} {o : Occurrence}

theorem hiddenBreaches_eq_nil_iff {t : Tree} : hiddenBreaches t = [] ↔
    (t.kind ∈ [.name, .arg, .keyword, .functionDef, .attributeOf] →
      ∀ n ∈ t.ident, isHidden n = false)
    ∧ (t.kind = .alias → t.children = [] → ∀ n ∈ t.ident, isHidden (firstPart n) = false) := by
  unfold hiddenBreaches
  split
  case h_6 hk =>
    by_cases hcs : t.children = []
    · simp [hk, hcs, List.filter_eq_nil_iff]
    · simp [hk, hcs]
  all_goals simp_all [List.filter_eq_nil_iff]

theorem importBreaches_eq_nil_iff : importBreaches r o = [] ↔
    ∀ c ∈ o.tree.children, ∀ n ∈ c.ident, o.topLevel = true ∧ r.lookUp n = .ok true := by
  have hconfirms : ∀ n, r.confirms n = true ↔ r.lookUp n = .ok true := by
    intro n
    unfold Registry.confirms
    cases r.lookUp n <;> simp
  unfold importBreaches
  cases o.topLevel with
  | true =>
    simp only [if_true, List.map_eq_nil_iff, List.filter_eq_nil_iff, Bool.not_eq_true',
      Bool.not_eq_false, List.mem_filterMap, hconfirms, true_and, forall_exists_index, and_imp,
      Option.mem_def]
    exact ⟨fun h c hc n hn => h n c hc hn, fun h n c hc hn => h c hc n hn⟩
  | false =>
    simp [List.filterMap_eq_nil_iff, Option.eq_none_iff_forall_not_mem]

theorem madeCell?_eq_some_iff {value : Tree} {cell : String} :
    madeCell? p value = some cell ↔ p.MakesCell value cell := by
  unfold madeCell?
  split
  next callee rest hk hc =>
    constructor
    · intro h
      split at h
      next hcallee =>
        obtain ⟨hident, hknown⟩ := Option.filter_eq_some_iff.mp h
        exact ⟨hk, ⟨callee, rest, hc, hcallee, hident⟩, by simpa using hknown⟩
      next => cases h
    · rintro ⟨-, ⟨callee', rest', hc', hcallee, hident⟩, hknown⟩
      obtain ⟨rfl, rfl⟩ := List.cons.inj (hc.symm.trans hc')
      rw [if_pos hcallee, Option.filter_eq_some_iff]
      exact ⟨hident, by simpa using hknown⟩
  next hne =>
    constructor
    · intro h
      cases h
    · rintro ⟨hk, ⟨callee, rest, hc, -⟩, -⟩
      exact absurd hc (hne callee rest hk)

theorem assignmentBreaches_append_eq_nil_iff {t : Tree} {targets : List Tree} {value : Tree}
    (hcs : t.children = targets ++ [value]) :
    assignmentBreaches p t = [] ↔ CleanAssignment p targets value := by
  have hbound : (targets.flatMap boundNames).filter (fun name => p.storageCells.contains name) = []
      ↔ ∀ u ∈ targets, ∀ n, u.Binds n → n ∉ p.storageCells := by
    simp only [List.filter_eq_nil_iff, List.mem_flatMap, mem_boundNames_iff, List.contains_eq_mem,
      decide_eq_true_eq]
    exact ⟨fun h u hu n hn => h n ⟨u, hu, hn⟩, fun h n ⟨u, hu, hn⟩ => h u hu n hn⟩
  have hseveral : ¬(1 < targets.length ∨ ∃ u ∈ targets, u.kind = .tuple ∨ u.kind = .listDisplay)
      ↔ targets.length ≤ 1 ∧ ∀ u ∈ targets, u.kind ≠ .tuple ∧ u.kind ≠ .listDisplay := by
    simp only [not_or, Nat.not_lt, not_exists, not_and, ne_eq]
  have hkeywords : ((value.children.filter (fun k => k.kind = .keyword)).flatMap fun k =>
        (k.ident.toList.filter (fun name => p.reservedKeywords.contains name)).map
          (Violation.statement .keywordOverloading k.line)) = []
      ↔ ∀ k ∈ value.children, k.kind = .keyword → ∀ n ∈ k.ident, n ∉ p.reservedKeywords := by
    simp [List.flatMap_eq_nil_iff, List.filter_eq_nil_iff]
  have hparts : assignmentBreaches p t = [] ↔ (∀ cell, madeCell? p value = some cell →
      ¬(1 < targets.length ∨ ∃ u ∈ targets, u.kind = .tuple ∨ u.kind = .listDisplay)
      ∧ ((value.children.filter (fun k => k.kind = .keyword)).flatMap fun k =>
        (k.ident.toList.filter (fun name => p.reservedKeywords.contains name)).map
          (Violation.statement .keywordOverloading k.line)) = [])
      ∧ (targets.flatMap boundNames).filter (fun name => p.storageCells.contains name) = [] := by
    cases hmade : madeCell? p value with
    | none => simp [assignmentBreaches, hcs, hmade]
    | some cell => simp [assignmentBreaches, hcs, hmade, List.flatMap_eq_nil_iff, and_assoc]
  rw [hparts, hbound, hseveral, hkeywords]
  simp only [madeCell?_eq_some_iff]
  constructor
  · rintro ⟨hcell, hbindings⟩
    exact ⟨hbindings, fun c hc => (hcell c hc).1, fun c hc => (hcell c hc).2⟩
  · intro h
    exact ⟨fun c hc => ⟨h.single c hc, h.keywords c hc⟩, h.bindings⟩

theorem assignmentBreaches_eq_nil_iff {t : Tree} : assignmentBreaches p t = [] ↔
    ∀ targets value, t.children = targets ++ [value] → CleanAssignment p targets value := by
  rcases List.eq_nil_or_concat t.children with hnil | ⟨targets, value, hcs⟩
  · simp [assignmentBreaches, hnil]
  · rw [List.concat_eq_append] at hcs
    rw [assignmentBreaches_append_eq_nil_iff hcs]
    constructor
    · intro h targets' value' hcs'
      obtain ⟨rfl, rfl⟩ := List.append_singleton_inj.mp (hcs.symm.trans hcs')
      exact h
    · exact fun h => h targets value hcs

def NoBreach (ns : List Note) : Prop := ∀ v, Note.breach v ∉ ns

theorem noBreach_map {vs : List Violation} : NoBreach (vs.map .breach) ↔ vs = [] := by
  simp [NoBreach, List.eq_nil_iff_forall_not_mem]

theorem noBreach_cons {note : Note} {ns : List Note} :
    NoBreach (note :: ns) ↔ (∀ v, note ≠ .breach v) ∧ NoBreach ns := by
  simp [NoBreach, eq_comm, forall_and]

theorem noBreach_append {ns ms : List Note} :
    NoBreach (ns ++ ms) ↔ NoBreach ns ∧ NoBreach ms := by
  simp [NoBreach, forall_and]

theorem noBreach_flatMap {α : Type} {xs : List α} {f : α → List Note} :
    NoBreach (xs.flatMap f) ↔ ∀ x ∈ xs, NoBreach (f x) := by
  simp only [NoBreach, List.mem_flatMap, not_exists, not_and]
  exact ⟨fun h x hx v => h v x hx, fun h v x hx => h x hx v⟩

theorem noBreach_decoratorNotes_iff {d : Tree} : NoBreach (decoratorNotes p o d) ↔
    d.kind = .name ∧ ∃ m ∈ d.ident, m = p.exportMark ∨ m = p.constructMark := by
  by_cases hk : d.kind = .name
  · cases hm : d.ident with
    | none =>
      rw [decoratorNotes_of_not_name (Or.inr hm)]
      simp [NoBreach]
    | some m =>
      rw [decoratorNotes_of_name hk hm]
      by_cases he : m = p.exportMark
      · cases o.topLevel <;> simp [NoBreach, he, hk]
      · by_cases hc : m = p.constructMark
        · rw [if_neg he, if_pos hc]
          cases o.topLevel <;> simp [NoBreach, hc, hk]
        · simp [NoBreach, he, hc]
  · rw [decoratorNotes_of_not_name (Or.inl hk)]
    simp [NoBreach, hk]

theorem noBreach_functionNotes_iff : NoBreach (functionNotes p o) ↔
    o.tree.decorators.length ≤ 1 ∧ ∀ d ∈ o.tree.decorators, d.kind = .name
      ∧ ∃ m ∈ d.ident, m = p.exportMark ∨ m = p.constructMark := by
  rw [functionNotes, noBreach_append, noBreach_flatMap]
  simp only [noBreach_decoratorNotes_iff]
  split
  next h => simp [NoBreach, Nat.not_le.mpr h]
  next h => simp [NoBreach, Nat.not_lt.mp h]

theorem noBreach_admittedNotes_iff : NoBreach (admittedNotes p r o) ↔
    hiddenBreaches o.tree = []
    ∧ (o.tree.kind = .importModule → importBreaches r o = [])
    ∧ (o.tree.kind = .functionDef → NoBreach (functionNotes p o))
    ∧ (o.tree.kind = .assign → assignmentBreaches p o.tree = []) := by
  unfold admittedNotes
  split
  next hk => simp [noBreach_map, hiddenBreaches, hk]
  next hk => simp [noBreach_map, hiddenBreaches, hk]
  next hk => simp [noBreach_map, noBreach_append, hk]
  next => simp_all [noBreach_map]

/-- A place is without breach exactly when it is clean. -/
theorem noBreach_notes_iff : NoBreach (notes p r o) ↔ Clean p r o := by
  cases hrefused : refusal? p o.tree with
  | some v =>
    have hdirty : ¬Clean p r o := by
      intro h
      have hb : p.blocks o.tree = false := by
        simp [Policy.blocks, h.allowed, h.definition, h.fromImport]
      rw [refusal?_eq_none_iff.mpr hb] at hrefused
      cases hrefused
    rw [notes_of_refusal hrefused]
    simp [NoBreach, hdirty]
  | none =>
    have hb := refusal?_eq_none_iff.mp hrefused
    simp only [Policy.blocks, Bool.or_eq_false_iff, beq_eq_false_iff_ne, Bool.not_eq_false'] at hb
    obtain ⟨⟨⟨hclass, hasync⟩, hfrom⟩, hallowed⟩ := hb
    rw [notes_of_admitted hrefused, noBreach_admittedNotes_iff, hiddenBreaches_eq_nil_iff,
      importBreaches_eq_nil_iff, noBreach_functionNotes_iff, assignmentBreaches_eq_nil_iff]
    constructor
    · rintro ⟨⟨hnames, haliases⟩, himports, hdecorators, hassignment⟩
      exact ⟨hallowed, ⟨hclass, hasync⟩, hfrom, hnames, haliases, himports, hdecorators,
        hassignment⟩
    · intro h
      exact ⟨⟨h.names, h.aliases⟩, h.imports, h.decorators, h.assignment⟩

theorem Clean.blocks_eq_false (h : Clean p r o) : p.blocks o.tree = false := by
  simp [Policy.blocks, h.allowed, h.definition, h.fromImport]

theorem bears_of_not_functionDef {mark : String} (hk : o.tree.kind ≠ .functionDef) :
    bears mark o = false := by
  simp [bears, hk]

theorem notes_of_clean_functionDef (h : Clean p r o) (hk : o.tree.kind = .functionDef) :
    notes p r o = o.tree.decorators.flatMap (decoratorNotes p o) := by
  have hb := h.blocks_eq_false
  have hadmitted := notes_of_admitted (p := p) (r := r) (refusal?_eq_none_iff.mpr hb)
  have hfree := noBreach_notes_iff.mpr h
  rw [hadmitted, noBreach_admittedNotes_iff] at hfree
  have hsingle : ¬1 < o.tree.decorators.length := Nat.not_lt.mpr (h.decorators hk).1
  simp [hadmitted, admittedNotes, hk, hfree.1, functionNotes, hsingle]

theorem bears_of_decorators {d : Tree} {m : String} (hk : o.tree.kind = .functionDef)
    (hds : o.tree.decorators = [d]) (hd : d.kind = .name) (hm : d.ident = some m) (mark : String) :
    bears mark o = (o.topLevel && m == mark) := by
  simp [bears, hk, hds, hd, hm]

/-- What a clean place shows: an export, a constructor or nothing. -/
theorem notes_of_clean (h : Clean p r o) : notes p r o =
    if isExport p o then [.exported (o.tree.ident.getD "")]
    else if isConstructor p o then [.seeded o.tree.line (o.tree.ident.getD "")]
    else [] := by
  by_cases hk : o.tree.kind = .functionDef
  · rw [notes_of_clean_functionDef h hk]
    obtain ⟨hlen, hmarks⟩ := h.decorators hk
    match hds : o.tree.decorators with
    | [] => simp [isExport, isConstructor, bears, hds]
    | [d] =>
      obtain ⟨hd, m, hm, hmark⟩ := hmarks d (by simp [hds])
      rw [List.flatMap_singleton, decoratorNotes_of_name hd hm]
      have hbears := bears_of_decorators hk hds hd hm
      rcases hmark with rfl | rfl
      · cases htop : o.topLevel <;> simp [isExport, isConstructor, hbears, htop]
      · by_cases he : p.constructMark = p.exportMark
        · cases htop : o.topLevel <;> simp [isExport, isConstructor, hbears, htop, he]
        · cases htop : o.topLevel <;> simp [isExport, isConstructor, hbears, htop, he]
    | d :: e :: ds => simp [hds] at hlen
  · have hb := h.blocks_eq_false
    have hfree := noBreach_notes_iff.mpr h
    rw [notes_of_admitted (refusal?_eq_none_iff.mpr hb), noBreach_admittedNotes_iff] at hfree
    obtain ⟨hhidden, himport, -, hassign⟩ := hfree
    rw [notes_of_admitted (refusal?_eq_none_iff.mpr hb), isExport, isConstructor,
      bears_of_not_functionDef hk, bears_of_not_functionDef hk]
    unfold admittedNotes
    split <;> simp_all

theorem isConstructor_eq_false_of_isExport (h : Clean p r o) (he : isExport p o = true) :
    isConstructor p o = false := by
  have hk : o.tree.kind = .functionDef := by
    simp only [isExport, bears, Bool.and_eq_true, beq_iff_eq] at he
    exact he.1.1
  obtain ⟨hlen, hmarks⟩ := h.decorators hk
  match hds : o.tree.decorators with
  | [] => simp [isConstructor, bears, hds]
  | [d] =>
    obtain ⟨hd, m, hm, -⟩ := hmarks d (by simp [hds])
    have hbears := bears_of_decorators hk hds hd hm
    simp only [isExport, hbears, Bool.and_eq_true, beq_iff_eq] at he
    simp only [isConstructor, hbears, he.2, he.1]
    cases hmarks : p.constructMark == p.exportMark with
    | true => simp [beq_iff_eq.mp hmarks]
    | false => simp [BEq.comm (a := p.exportMark), hmarks]
  | d :: e :: ds => simp [hds] at hlen

theorem any_isExport_notes (h : Clean p r o) : (notes p r o).any Note.isExport = isExport p o := by
  rw [notes_of_clean h]
  cases isExport p o <;> cases isConstructor p o <;> rfl

theorem countP_isSeed_notes (h : Clean p r o) :
    (notes p r o).countP Note.isSeed = if isConstructor p o then 1 else 0 := by
  rw [notes_of_clean h]
  cases he : isExport p o with
  | true => simp [isConstructor_eq_false_of_isExport h he, Note.isSeed]
  | false => cases isConstructor p o <;> rfl

theorem filterMap_violation?_eq_nil_iff {ns : List Note} :
    ns.filterMap Note.violation? = [] ↔ NoBreach ns ∧ ns.countP Note.isSeed = 0 := by
  induction ns with
  | nil => simp [NoBreach]
  | cons note ns ih =>
    rw [noBreach_cons, List.filterMap_cons, List.countP_cons]
    cases note with
    | breach v => simp [Note.violation?]
    | exported name => simpa [Note.violation?, Note.isSeed] using ih
    | seeded line name => simp [Note.violation?, Note.isSeed]

theorem filterMap_eraseP_eq_nil_iff {ns : List Note} :
    (ns.eraseP Note.isSeed).filterMap Note.violation? = []
      ↔ NoBreach ns ∧ ns.countP Note.isSeed ≤ 1 := by
  induction ns with
  | nil => simp [NoBreach]
  | cons note ns ih =>
    rw [noBreach_cons, List.eraseP_cons, List.countP_cons]
    cases note with
    | breach v => simp [Note.violation?, Note.isSeed]
    | exported name => simpa [Note.violation?, Note.isSeed, List.filterMap_cons] using ih
    | seeded line name =>
      have hcount : ns.countP Note.isSeed + 1 ≤ 1 ↔ ns.countP Note.isSeed = 0 := by omega
      simpa only [Note.isSeed, cond_true, if_true, hcount, ne_eq, reduceCtorEq, not_false_eq_true,
        implies_true, true_and] using filterMap_violation?_eq_nil_iff

theorem report_eq_nil_iff {root : Tree} : report p r root = [] ↔
    NoBreach (allNotes p r root) ∧ (allNotes p r root).countP Note.isSeed ≤ 1
      ∧ (allNotes p r root).any Note.isExport = true := by
  rw [report, List.append_eq_nil_iff, filterMap_eraseP_eq_nil_iff, and_assoc]
  cases (allNotes p r root).any Note.isExport <;> simp

theorem countP_isSeed_flatMap {os : List Occurrence} (h : ∀ o ∈ os, Clean p r o) :
    (os.flatMap (notes p r)).countP Note.isSeed = os.countP (isConstructor p) := by
  induction os with
  | nil => rfl
  | cons o os ih =>
    rw [List.flatMap_cons, List.countP_append, countP_isSeed_notes (h o List.mem_cons_self),
      ih (fun o ho => h o (List.mem_cons_of_mem _ ho)), List.countP_cons, Nat.add_comm]

theorem any_isExport_flatMap {os : List Occurrence} (h : ∀ o ∈ os, Clean p r o) :
    (os.flatMap (notes p r)).any Note.isExport = os.any (isExport p) := by
  induction os with
  | nil => rfl
  | cons o os ih =>
    rw [List.flatMap_cons, List.any_append, any_isExport_notes (h o List.mem_cons_self),
      ih (fun o ho => h o (List.mem_cons_of_mem _ ho)), List.any_cons]

end

/-- Nothing is reported of exactly the trees that are admissible. -/
theorem report_eq_nil_iff_admissible (p : Policy) (r : Registry) (root : Tree) :
    report p r root = [] ↔ Admissible p r root := by
  rw [report_eq_nil_iff, allNotes, noBreach_flatMap]
  constructor
  · rintro ⟨hfree, hseeds, hexport⟩
    -- No place that can be seen is refused, so every place can be seen.
    have hvisible : p.visible root = root.occurrences :=
      Policy.visible_eq_occurrences fun o ho => Policy.blocks_eq_false_of_visible
        (fun o ho => (noBreach_notes_iff.mp (hfree o ho)).blocks_eq_false) ho
    rw [hvisible] at hfree hseeds hexport
    have hclean : ∀ o ∈ root.occurrences, Clean p r o :=
      fun o ho => noBreach_notes_iff.mp (hfree o ho)
    rw [countP_isSeed_flatMap hclean] at hseeds
    rw [any_isExport_flatMap hclean, List.any_eq_true] at hexport
    exact ⟨hclean, hseeds, hexport⟩
  · intro h
    rw [Policy.visible_eq_occurrences fun o ho => (h.clean o ho).blocks_eq_false,
      countP_isSeed_flatMap h.clean, any_isExport_flatMap h.clean, List.any_eq_true]
    exact ⟨fun o ho => noBreach_notes_iff.mpr (h.clean o ho), h.constructors, h.exported⟩

theorem check_eq_pass_iff_report (p : Policy) (r : Registry) (root : Tree) :
    check p r root = .pass ↔ report p r root = [] := by
  rw [check, inspect, violations_run, Outcome.ofViolations]
  cases report p r root <;> simp

theorem admissible_of_check_eq_pass {p : Policy} {r : Registry} {root : Tree}
    (h : check p r root = .pass) : Admissible p r root :=
  (report_eq_nil_iff_admissible p r root).mp ((check_eq_pass_iff_report p r root).mp h)

/-- A tree passes a check exactly when it is admissible. -/
theorem check_eq_pass_iff (p : Policy) (r : Registry) (root : Tree) :
    check p r root = .pass ↔ Admissible p r root :=
  (check_eq_pass_iff_report p r root).trans (report_eq_nil_iff_admissible p r root)

end Linter
end Gatehouse
