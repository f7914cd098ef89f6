import Gatehouse.Proofs.Grammar.Block
import Gatehouse.Proofs.Lowering.Lines
import Gatehouse.Proofs.Lowering.Order

/-!
The lines of statements and of whole texts. A module is on the first line whatever is in it. All
other nodes are on lines of the text, and the rules that hold of expressions hold of statements too;
decorators are no further down than what they decorate.
-/
namespace Gatehouse

open Gatehouse.Tree

theorem Kind.isPinned_of_isStatement {kind : Kind} (h : kind.isStatement = true) :
    kind.isPinned = false := by
  cases kind <;> first
    | rfl
    | cases h

namespace Lowering

def BlockLines (block : Cst → Result (List Tree)) : Prop :=
  ∀ b ts, block b = .ok ts → ∀ t ∈ ts, ∀ line, t.PartAt b line

/-- What is read of some branches of a choice stands on lines of the choice, and starts in one of those
branches. -/
def BranchLines (branches : List Cst → Result (List Tree)) : Prop :=
  ∀ c cs ts, cs.Sublist c.children → branches cs = .ok ts →
    ∀ t ∈ ts, (∀ line, t.PartAt c line) ∧ ∃ d ∈ cs, d.HasLine t.line

section

variable {s : Source} {lower : Cst → Kind → Result Tree} {block : Cst → Result (List Tree)}
  {branches : List Cst → Result (List Tree)} {c d : Cst} {context : Kind} {t : Tree}
  {ts ds : List Tree} {line : Nat} {r : Role}

section

variable (hlower : Lines lower)

include hlower

theorem partAt_of_within (h : LowersWithin lower c t) : t.PartAt c line := by
  obtain ⟨context, -, h⟩ := h
  exact partAt_of_under hlower h

/-! ### Statements of a line -/

theorem Aliased.partAt (h : Aliased s lower c t) : t.PartAt c line := by
  obtain ⟨name, ts, rfl, hts⟩ := h.parts
  exact (linedBy_here fun u hu => partAt_of_within hlower (hts u hu)).partAt rfl

theorem partAt_imports (h : List.Forall₂ (Aliased s lower) (c.childrenIn r) ts) :
    ∀ t ∈ ts, t.PartAt c line :=
  forall_of_forall₂ h fun _ hd _ ht =>
    (ht.partAt hlower).mono (Cst.mem_allNodes_of_mem_childrenIn hd)

theorem Assigned.linedBy (hd : d ∈ c.allNodes) (h : Assigned lower d c.line t) : t.LinedBy c := by
  obtain ⟨kind, ts, rfl, -, hts⟩ := h.parts
  exact linedBy_here fun u hu => (partAt_of_within hlower (hts u hu)).mono hd

theorem IsContextOf.partAt (h : IsContextOf lower c t) : t.PartAt c line := by
  obtain ⟨ts, rfl, hts⟩ := h.parts
  exact (linedBy_here fun u hu => partAt_of_within hlower (hts u hu)).partAt rfl

theorem decoratorAt_of_decorators (htag : c.tag = .decoratedDefinition)
    (hd : c.child? .definition = some d)
    (h : List.Forall₂ (LowersFirst lower .load) (c.proper.filter (·.tag == .decorator)) ds) :
    ∀ u ∈ ds, u.DecoratorAt c d.line := by
  refine forall_of_forall₂ h fun e he u hu => ?_
  obtain ⟨hproper, hdecorator⟩ := List.mem_filter.mp he
  obtain ⟨inner, hinner, hu⟩ := hu.under
  have hlined : u.LinedBy e := (hlower.lined hu).mono hinner
  refine ⟨hlined.mono (Cst.mem_allNodes_of_mem_proper hproper), hlower.free hu, fun hc => ?_⟩
  exact (hc.decorator_before htag hproper (beq_iff_eq.mp hdecorator) hd).line_le hlined.hasLine
    d.hasLine_line

end

/-! ### Statements that hold others -/

section

variable (hblock : BlockLines block)

include hblock

theorem partAt_body (h : body block c r = .ok ts) : ∀ t ∈ ts, t.PartAt c line := by
  obtain ⟨b, hb, h⟩ := bind_eq_ok.mp h
  exact fun t ht =>
    (hblock b ts h t ht line).mono (Cst.mem_allNodes_of_child? (required_eq_ok.mp hb))

theorem partAt_otherwise (h : otherwise block c = .ok ts) : ∀ t ∈ ts, t.PartAt c line := by
  unfold otherwise at h
  split at h
  · next clause hclause =>
    exact fun t ht => (partAt_body hblock h t ht).mono (Cst.mem_allNodes_of_child? hclause)
  · obtain rfl := Except.ok.inj h
    simp

variable (hlower : Lines lower)

include hlower

theorem IsHandlerPart.partAt (h : IsHandlerPart lower block c ts) : ∀ t ∈ ts, t.PartAt c line := by
  cases h with
  | block _ hts => exact fun t ht => hblock c ts hts t ht line
  | value _ ht =>
    exact List.forall_mem_singleton.mpr (partAt_of_under hlower ⟨c, Cst.self_mem_nodes, ht⟩)

theorem IsTryClause.partAt (h : IsTryClause lower block c ts) : ∀ t ∈ ts, t.PartAt c line := by
  cases h with
  | @handler rows _ hrows =>
    have hall : ∀ us ∈ rows, ∀ u ∈ us, u.PartAt c c.line := forall_of_forall₂ hrows
      fun _ hd _ hus u hu =>
        (hus.partAt hblock hlower u hu).mono (Cst.mem_allNodes_of_mem_proper hd)
    exact List.forall_mem_singleton.mpr
      ((linedBy_here (List.forall_mem_flatten.mpr hall)).partAt rfl)
  | blocks _ hrows =>
    exact List.forall_mem_flatten.mpr (forall_of_forall₂ hrows fun d hd us hus u hu =>
      (hblock d us hus u hu line).mono (Cst.mem_allNodes_of_mem_proper (List.mem_filter.mp hd).1))
  | other => simp

theorem Defined.linedBy (hd : d ∈ c.allNodes) (h : Defined s lower block d ds t)
    (hds : ∀ u ∈ ds, u.DecoratorAt c d.line) : t.LinedBy c := by
  cases h with
  | @function _ _ given _ returned _ _ _ hgiven hstatements hreturned =>
    have hg : given.PartAt d d.line :=
      (areParameters_of_parameters hgiven).partAt hlower fun _ => Cst.mem_allNodes_of_child?
    have hr : ∀ u ∈ returned, u.PartAt d d.line := partAt_of_lowerAll hlower hreturned
      fun e he => Cst.mem_allNodes_of_child? (Option.mem_toList.mp he)
    exact linedBy_node hd (List.forall_mem_append.mpr ⟨List.forall_mem_cons.mpr
      ⟨hg, partAt_body hblock hstatements⟩, hr⟩) hds
  | classNode _ _ _ hbases hstatements =>
    exact linedBy_node hd (List.forall_mem_append.mpr
      ⟨hbases.all fun _ he hgiven u hu =>
        (hgiven.partAt hlower u hu).mono (Cst.mem_allNodes_of_child? he),
      partAt_body hblock hstatements⟩) hds

theorem Stated.linedBy (hbranches : BranchLines branches) (h : Stated s lower block branches c t) :
    t.LinedBy c := by
  have hpart : ∀ {x : Kind} {u : Tree}, LowersUnder lower x c u → u.PartAt c c.line :=
    fun hu => partAt_of_under hlower hu
  have honly : ∀ {d : Cst}, c.proper = [d] → d ∈ c.allNodes := fun hproper =>
    Cst.mem_allNodes_of_mem_proper (hproper ▸ List.mem_singleton_self _)
  cases h with
  | assigned _ hproper _ h => exact h.linedBy hlower (honly hproper)
  | combined _ hproper _ _ _ htarget hvalue =>
    have hd := honly hproper
    exact linedBy_here (by simp [hpart (htarget.under.mono hd), hpart (hvalue.under.mono hd),
      partAt_operator])
  | value _ hproper _ ht =>
    exact linedBy_here (List.forall_mem_singleton.mpr (hpart ⟨_, honly hproper, ht⟩))
  | values _ _ hts =>
    exact linedBy_here (List.forall_mem_singleton.mpr
      ((linedBy_inContext (partAt_of_proper hlower hts)).partAt rfl))
  | printed _ hproper _ hts =>
    have hcallee : (named .name c.line "print" [.leaf .load c.line]).PartAt c c.line :=
      (linedBy_here (by simp [partAt_operator])).partAt rfl
    exact linedBy_here (List.forall_mem_singleton.mpr ((linedBy_here (List.forall_mem_cons.mpr
      ⟨hcallee, fun u hu => (partAt_of_proper hlower hts u hu).mono (honly hproper)⟩)).partAt rfl))
  | returned _ hts | asserted _ hts | raised _ hts | globals _ hts | nonlocals _ hts =>
    exact linedBy_here (partAt_of_proper hlower hts)
  | deletion _ hrows => exact linedBy_here fun u hu => hpart (under_of_deletion hrows u hu)
  | selection _ hts =>
    exact linedBy_here (partAt_of_lowerAll hlower hts fun _ => Cst.mem_allNodes_of_mem_childrenIn)
  | pass | breakLoop | continueLoop | typeAlias => exact linedBy_here (by simp)
  | imports _ hnames | futureImports _ hnames => exact linedBy_here (partAt_imports hlower hnames)
  | importsFrom _ _ _ hnames =>
    refine linedBy_here (List.forall_mem_append.mpr ⟨partAt_imports hlower hnames, ?_⟩)
    split
    · exact List.forall_mem_singleton.mpr ((linedBy_here (by simp)).partAt rfl)
    · simp
  | @choice _ _ others _ hcondition hstatements hothers =>
    have ho : ∀ u ∈ others, u.PartAt c c.line := fun u hu =>
      (hbranches c _ others List.filter_sublist hothers u hu).1 c.line
    exact linedBy_here (List.forall_mem_append.mpr ⟨List.forall_mem_cons.mpr
      ⟨hpart hcondition.under, partAt_body hblock hstatements⟩, ho⟩)
  | forLoop _ htarget hvalues hstatements hothers =>
    exact linedBy_here (List.forall_mem_append.mpr ⟨List.forall_mem_append.mpr
      ⟨by simp [hpart htarget.under, hpart hvalues.under], partAt_body hblock hstatements⟩,
      partAt_otherwise hblock hothers⟩)
  | whileLoop _ hcondition hstatements hothers =>
    exact linedBy_here (List.forall_mem_append.mpr ⟨List.forall_mem_cons.mpr
      ⟨hpart hcondition.under, partAt_body hblock hstatements⟩, partAt_otherwise hblock hothers⟩)
  | defined h => exact h.linedBy hblock hlower Cst.self_mem_nodes (by simp)
  | decorated htag hds hd h =>
    exact h.linedBy hblock hlower (Cst.mem_allNodes_of_child? hd)
      (decoratorAt_of_decorators hlower htag hd hds)
  | attempt _ hstatements hrows =>
    exact linedBy_here (List.forall_mem_append.mpr ⟨partAt_body hblock hstatements,
      List.forall_mem_flatten.mpr (forall_of_forall₂ hrows fun _ hd _ hus u hu =>
        (hus.partAt hblock hlower u hu).mono (Cst.mem_allNodes_of_mem_proper hd))⟩)
  | withBlock _ hitems hstatements =>
    refine linedBy_here (List.forall_mem_append.mpr ⟨?_, partAt_body hblock hstatements⟩)
    refine forall_of_forall₂ hitems fun d hd u hu => (hu.partAt hlower).mono ?_
    obtain ⟨clause, hclause, hd⟩ := List.mem_flatMap.mp hd
    exact Cst.mem_allNodes_trans (Cst.mem_allNodes_of_mem_proper hd)
      (Cst.mem_allNodes_of_mem_proper (List.mem_filter.mp hclause).1)

end

end

/-! ### Whole texts -/

def StatementLines (s : Source) (levels : Nat) : Prop :=
  ∀ c t, statement s levels c = .ok t → t.LinedBy c

section

variable {s : Source} {levels : Nat} {c : Cst} {t : Tree}

theorem isPinned_of_statement (h : statement s levels c = .ok t) : t.kind.isPinned = false := by
  cases levels with
  | zero =>
    rw [statement] at h
    cases h
  | succ levels =>
    rw [statement] at h
    exact Kind.isPinned_of_isStatement
      (isStatement_of_statementKinds (stated h).standsFor.1.kind)

theorem blockLines (h : StatementLines s levels) :
    BlockLines fun b => b.proper.mapM (statement s levels) := fun _ _ hts =>
  forall_of_mapM hts fun d hd u hu _ => ((h d u hu).partAt (isPinned_of_statement hu)).mono
    (Cst.mem_allNodes_of_mem_proper hd)

theorem branchLines_otherwise (h : StatementLines s levels) {d : Cst} {rest : List Cst}
    {ts : List Tree} (hts : body (fun b => b.proper.mapM (statement s levels)) d .body = .ok ts)
    (hd : d ∈ c.allNodes) :
    ∀ t ∈ ts, (∀ line, t.PartAt c line) ∧ ∃ e ∈ d :: rest, e.HasLine t.line := fun t ht =>
  have hpart : ∀ line, t.PartAt d line := fun _ => partAt_body (blockLines h) hts t ht
  ⟨fun line => (hpart line).mono hd, d, List.mem_cons_self, (hpart 0).lined.hasLine⟩

/-- A further condition is a node of its own, and what it gathers stands no higher than it does. -/
theorem branchLines_further {d test : Cst} {rest : List Cst} {condition : Tree}
    {statements others : List Tree} (hbelow : StatementLines s levels)
    (hrest : BranchLines (branches s levels)) (htest : required d .condition = .ok test)
    (hcondition : expression s levels test .load = .ok condition)
    (hstatements : body (fun b => b.proper.mapM (statement s levels)) d .consequence
      = .ok statements)
    (hothers : branches s levels rest = .ok others) (hcs : (d :: rest).Sublist c.children) :
    (branch .ifElse d.line (condition :: statements ++ others)).LinedBy c := by
  have hd := Cst.mem_allNodes_of_mem_children (hcs.subset List.mem_cons_self)
  have hrests : rest.Sublist c.children := (List.sublist_cons_self d rest).trans hcs
  have hown : ∀ u ∈ condition :: statements,
      u.PartAt c d.line ∧ (c.Written → d.line ≤ u.line) := by
    have hall : ∀ u ∈ condition :: statements, u.PartAt d d.line := List.forall_mem_cons.mpr
      ⟨partAt_of_under (lines_expression s levels)
        ⟨test, Cst.mem_allNodes_of_child? (required_eq_ok.mp htest), hcondition⟩,
        partAt_body (blockLines hbelow) hstatements⟩
    exact fun u hu => ⟨(hall u hu).mono hd, fun hc =>
      (hc.of_mem hd).descends.line_le (hall u hu).lined.hasLine⟩
  have hlater : ∀ u ∈ others, u.PartAt c d.line ∧ (c.Written → d.line ≤ u.line) := by
    intro u hu
    obtain ⟨hpart, e, he, hline⟩ := hrest c rest others hrests hothers u hu
    refine ⟨hpart d.line, fun hc => ?_⟩
    have hbefore : d.Before e := (List.pairwise_cons.mp (hc.pairwise.sublist hcs)).1 e he
    exact hbefore.line_le d.hasLine_line hline
  exact linedBy_gathered rfl (d.hasLine_line.mono hd) (List.forall_mem_append.mpr ⟨hown, hlater⟩)

theorem lines_levels (s : Source) (levels : Nat) :
    StatementLines s levels ∧ BranchLines (branches s levels) := by
  have hall : Throughout s levels (fun c t => t.LinedBy c)
      fun cs ts => ∀ c, cs.Sublist c.children →
        ∀ t ∈ ts, (∀ line, t.PartAt c line) ∧ ∃ d ∈ cs, d.HasLine t.line := by
    apply throughout
    · intro n hbelow c t h
      exact h.linedBy (blockLines fun _ _ => hbelow.statement) (lines_expression s n)
        fun c cs ts hcs hts => hbelow.branches hts c hcs
    · intro n hhere hbelow cs ts h c hcs
      cases h with
      | nil => simp
      | otherwise _ hts =>
        exact branchLines_otherwise (fun _ _ => hhere) hts
          (Cst.mem_allNodes_of_mem_children (hcs.subset List.mem_cons_self))
      | @further n d _ _ _ _ _ _ htest hcondition hstatements hothers =>
        have hlined := branchLines_further (fun _ _ => (hbelow n rfl).statement)
          (fun c cs ts hcs hts => (hbelow n rfl).branches hts c hcs) htest hcondition hstatements
          hothers hcs
        exact List.forall_mem_singleton.mpr
          ⟨fun line => hlined.partAt rfl, d, List.mem_cons_self, d.hasLine_line⟩
  exact ⟨fun _ _ => hall.statement, fun c cs ts hcs hts => hall.branches hts c hcs⟩

theorem lined_module (h : module s c = .ok t) :
    ∃ ts, t = .branch .module 1 ts ∧ ∀ u ∈ ts, u.PartAt c 1 := by
  simp only [module, bind_eq_ok, pure_eq_ok] at h
  obtain ⟨ts, hts, rfl⟩ := h
  refine ⟨ts, rfl, forall_of_mapM hts fun d hd u hu => ?_⟩
  have hlined := ((lines_levels s maxNesting).1 d u hu).mono (Cst.mem_allNodes_of_mem_proper hd)
  exact hlined.partAt (isPinned_of_statement hu)

end

/-- What holds of the lines of a module and of the concrete tree that it is lowered from. The module
is on the first line, whatever is in it. What is under it is on lines of the concrete tree: operators
and contexts on the line of their parent, other children no higher than it if no part of the
concrete tree is above what it is a part of. For nodes that gather their lines from several places,
and for decorators, it takes the order of the text. -/
structure Lined (c : Cst) (t : Tree) : Prop where
  first : t.line = 1
  real : ∀ o ∈ t.occurrences, ∀ u ∈ o.tree.children ++ o.tree.decorators, c.HasLine u.line
  pinned : ∀ o ∈ t.occurrences, ∀ u ∈ o.tree.children, u.kind.isPinned = true →
    u.line = o.tree.line
  free : ∀ o ∈ t.occurrences, ∀ u ∈ o.tree.decorators, u.kind.isPinned = false
  below : c.Descends → ∀ o ∈ t.occurrences, o.tree.kind.isSteady = true ∨ c.Written →
    ∀ u ∈ o.tree.children, o.tree.line ≤ u.line
  above : c.Written → ∀ o ∈ t.occurrences, ∀ u ∈ o.tree.decorators, u.line ≤ o.tree.line

theorem lined_of_parts {c : Cst} {ts : List Tree} (h : ∀ u ∈ ts, u.PartAt c 1) :
    Lined c (.branch .module 1 ts) := by
  have hplaces : ∀ o ∈ (Tree.branch .module 1 ts).occurrences,
      (∀ u ∈ o.tree.children, c.HasLine u.line ∧ (u.kind.isPinned = true → u.line = o.tree.line)
        ∧ (c.Descends → o.tree.kind.isSteady = true ∨ c.Written → o.tree.line ≤ u.line))
      ∧ ∀ u ∈ o.tree.decorators, c.HasLine u.line ∧ u.kind.isPinned = false
        ∧ (c.Written → u.line ≤ o.tree.line) := by
    intro o ho
    rw [occurrences, occurrencesFrom_eq, List.mem_cons, List.mem_append] at ho
    rcases ho with rfl | ho | ho
    · refine ⟨fun u hu => ?_, fun u hu => by cases hu⟩
      have hpart := h u hu
      obtain ⟨n, -, hn⟩ := hpart.lined.hasLine
      have hfirst : 1 ≤ u.line := hn ▸ Nat.succ_le_succ (Nat.zero_le _)
      exact ⟨hpart.lined.hasLine, hpart.pinned, fun _ _ => hfirst⟩
    · obtain ⟨u, hu, ho⟩ := List.mem_flatMap.mp ho
      have hlined := (h u hu).lined.of_mem_occurrences ho
      exact ⟨hlined.children, hlined.decorators⟩
    · obtain ⟨u, hu, -⟩ := List.mem_flatMap.mp ho
      cases hu
  exact {
    first := rfl
    real := fun o ho u hu => (List.mem_append.mp hu).elim (fun hu => ((hplaces o ho).1 u hu).1)
      fun hu => ((hplaces o ho).2 u hu).1
    pinned := fun o ho u hu => ((hplaces o ho).1 u hu).2.1
    free := fun o ho u hu => ((hplaces o ho).2 u hu).2.1
    below := fun hdown o ho hkind u hu => ((hplaces o ho).1 u hu).2.2 hdown hkind
    above := fun hwritten o ho u hu => ((hplaces o ho).2 u hu).2.2 hwritten }

/-- Lines are real and stand in order. The tree of a text is in the order that this takes, and its
lines are lines of the text, so of what is read from a text it is true without conditions. -/
theorem module_lines :
    (∀ s c t, module s c = .ok t → Lined c t)
    ∧ ∀ bytes t, Contract.read bytes = .ok t →
      let c := Grammar.tree (Source.ofBytes bytes)
      Lined c t ∧ c.Written ∧ c.Descends
        ∧ ∀ line, c.HasLine line → 1 ≤ line ∧ line ≤ (Source.ofBytes bytes).lastRow + 1 := by
  have hlined : ∀ s c t, module s c = .ok t → Lined c t := by
    intro s c t h
    obtain ⟨ts, rfl, hts⟩ := lined_module h
    exact lined_of_parts hts
  refine ⟨hlined, fun bytes t h => ?_⟩
  obtain ⟨hfault, hmodule⟩ := Contract.ofCst_eq_ok h
  obtain ⟨hi, hlaid, hlast⟩ := Grammar.tree_laid bytes
  obtain ⟨hwritten, hrows⟩ := hlaid.written
  refine ⟨hlined _ _ t hmodule, hwritten, hwritten.descends, ?_⟩
  rintro _ ⟨n, hn, rfl⟩
  exact ⟨Nat.succ_le_succ (Nat.zero_le _), Nat.succ_le_succ ((hrows n hn).trans (hlast hfault))⟩

/-- A text with all that gathers its lines from several places, below an empty line. -/
def gatheredLines : ByteArray :=
  "\n@a\nclass B:\n  def f(c: d):\n    if e: pass\n    elif g: return [h for i in j\n      if k]".toUTF8

theorem read_gatheredLines : ∃ t, Contract.read gatheredLines = .ok t := by
  have hreads : (Contract.read gatheredLines).toOption.isSome = true := by
    rw [Contract.read_eq]
    decide +kernel
  exact exists_of_isSome hreads

theorem gatheredLines_kept : ∃ t, Contract.read gatheredLines = .ok t
    ∧ (∀ o ∈ t.occurrences, ∀ u ∈ o.tree.children, o.tree.line ≤ u.line ∧ u.line ≤ 7)
    ∧ ∀ o ∈ t.occurrences, ∀ u ∈ o.tree.decorators, u.line ≤ o.tree.line := by
  obtain ⟨t, h⟩ := read_gatheredLines
  have hlast : (Source.ofBytes gatheredLines).lastRow = 6 := by decide +kernel
  obtain ⟨hlined, hwritten, hdescends, hbounds⟩ := module_lines.2 gatheredLines t h
  rw [hlast] at hbounds
  refine ⟨t, h, fun o ho u hu => ⟨?_, ?_⟩, hlined.above hwritten⟩
  · exact hlined.below hdescends o ho (Or.inr hwritten) u hu
  · exact (hbounds _ (hlined.real o ho u (List.mem_append_left _ hu))).2

/-! ### Concrete trees that no text has -/

def letter (r : Role) (row : Nat) : Cst := .node .identifier (some r) ⟨0, 1, row⟩ []

def emptyBlock (r : Role) (row : Nat) : Cst := .node .block (some r) ⟨0, 1, row⟩ []

/-- No part of the tree is above what it is a part of. But the second of two further conditions is
above the first, a type above the name of its parameter, a condition above its loop, and a decorator
below its function. -/
def crossed : Cst :=
  let further (row : Nat) : Cst := .node .elifClause (some .alternative) ⟨0, 1, row⟩
    [letter .condition row, emptyBlock .consequence row]
  let choice : Cst := .node .ifStatement none ⟨0, 1, 0⟩
    [letter .condition 0, emptyBlock .consequence 0, further 5, further 3]
  let parameters : Cst := .node .parameters (some .parameters) ⟨0, 1, 1⟩
    [.node .typedParameter none ⟨0, 1, 1⟩ [letter .name 5, letter .typeHint 3]]
  let function : Cst := .node .functionDefinition (some .definition) ⟨0, 1, 1⟩
    [letter .name 1, parameters, emptyBlock .body 1]
  let decorated : Cst := .node .decoratedDefinition none ⟨0, 1, 1⟩
    [function, .node .decorator none ⟨0, 1, 4⟩ [letter .name 4]]
  let list : Cst := .node .listComprehension none ⟨0, 1, 2⟩
    [letter .body 2, .node .forInClause none ⟨0, 1, 5⟩ [letter .left 5, letter .right 5],
      .node .ifClause none ⟨0, 1, 3⟩ [letter .condition 3]]
  .node .module none ⟨0, 1, 0⟩ [choice, decorated, .node .expressionStatement none ⟨0, 1, 2⟩ [list]]

def letterTree (context : Kind) (line : Nat) : Tree := .named .name line "x" [.leaf context line]

/-- What is lowered from it. -/
def crossedTree : Tree :=
  .branch .module 1
    [.branch .ifElse 1 [letterTree .load 1,
      .branch .ifElse 6 [letterTree .load 6, .branch .ifElse 4 [letterTree .load 4]]],
    .node .functionDef 2 (some "x") [letterTree .load 5]
      [.branch .arguments 2 [.named .arg 6 "x" [letterTree .load 4]]],
    .branch .expr 3 [.branch .listComp 3 [letterTree .load 3,
      .branch .comprehension 6 [letterTree .store 6, letterTree .load 6, letterTree .load 4]]]]

/-- A text below empty lines. -/
def lowText : ByteArray := "\n\nx = 1\n".toUTF8

def lowTree : Tree :=
  .branch .module 1 [.branch .assign 3 [letterTree .store 3, .named .num 3 "1" []]]

/-- Without the order of the text there are children above their parents, under each of the kinds that
gather their lines, and decorators below their definitions. And a module may be on a line on which
nothing starts in the concrete tree of its text. -/
theorem lines_crossed :
    (crossed.Descends ∧ module (Source.ofBytes "x".toUTF8) crossed = .ok crossedTree
      ∧ (∀ kind ∈ [Kind.ifElse, .arg, .comprehension], ∃ o ∈ crossedTree.occurrences,
        o.tree.kind = kind ∧ ∃ u ∈ o.tree.children, u.kind.isPinned = false ∧ u.line < o.tree.line)
      ∧ ∃ o ∈ crossedTree.occurrences, ∃ u ∈ o.tree.decorators, o.tree.line < u.line)
    ∧ ∃ t, Contract.read lowText = .ok t ∧ ¬(Grammar.tree (Source.ofBytes lowText)).HasLine t.line := by
  have hdescends : crossed.Descends := by
    unfold Cst.Descends
    decide
  have hmodule : module (Source.ofBytes "x".toUTF8) crossed = .ok crossedTree := by
    rw [module_eq]
    decide +kernel
  refine ⟨⟨hdescends, hmodule, by decide, by decide⟩, ?_⟩
  have hlow : Contract.read lowText = .ok lowTree
      ∧ ∀ n ∈ (Grammar.tree (Source.ofBytes lowText)).allNodes, n.line ≠ 1 := by
    rw [Contract.read_eq]
    decide +kernel
  exact ⟨lowTree, hlow.1, fun ⟨n, hn, hline⟩ => hlow.2 n hn hline⟩

end Lowering
end Gatehouse
