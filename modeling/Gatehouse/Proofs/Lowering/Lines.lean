import Gatehouse.Proofs.Cst.Lines
import Gatehouse.Proofs.Lowering.Kinds
import Gatehouse.Proofs.Occurrence

/-!
The lines of lowered nodes. Each is the line of a node of the text; operators and contexts are on the
line of their parent, and no child is above its parent. A node that gathers what stands in several
places of the text is no exception, but it takes the order of the text to see that: a choice in the
place of an `else`, a parameter with its type, and a loop of a comprehension with its conditions.
-/
namespace Gatehouse

open Gatehouse.Tree

namespace Kind

/-- Kinds of nodes that have no line of their own. -/
def isPinned (kind : Kind) : Bool := kind.isOperator || kind.isContext

/-- Kinds of nodes whose children all come from under the node that gives the line. -/
def isSteady : Kind → Bool
  | .ifElse | .arg | .comprehension => false
  | _ => true

end Kind

theorem Kind.isPinned_of_isExpression {kind : Kind} (h : kind.isExpression = true) :
    kind.isPinned = false := by
  cases kind <;> first
    | rfl
    | cases h

namespace Cst

variable {c d leaf : Cst}

namespace NamedBy

theorem mem_allNodes (h : c.NamedBy leaf) : leaf ∈ c.allNodes := by
  induction h with
  | identifier => exact self_mem_nodes
  | first _ hproper _ ih =>
    exact mem_allNodes_trans ih (mem_allNodes_of_mem_proper (hproper ▸ List.mem_cons_self))
  | defaulted _ hd _ ih => exact mem_allNodes_trans ih (mem_allNodes_of_child? hd)

/-- A parameter's type starts on the line of its name or on a later one. -/
theorem line_le_of_mem_hints {line : Nat} (h : c.NamedBy leaf) (hc : c.Written) (hd : d ∈ c.hints)
    (hline : d.HasLine line) : leaf.line ≤ line := by
  have hleaf : ∀ {e : Cst}, e.NamedBy leaf → e.HasLine leaf.line := fun h =>
    ⟨leaf, h.mem_allNodes, rfl⟩
  unfold hints at hd
  cases h with
  | identifier htag => simp [htag] at hd
  | first htag hproper h =>
    rcases htag with htag | htag | htag <;> simp only [htag, List.not_mem_nil] at hd
    exact (hc.name_before_hint htag hproper (Option.mem_toList.mp hd)).line_le (hleaf h) hline
  | defaulted htag he h =>
    rw [isDefaulted, Bool.or_eq_true, beq_iff_eq, beq_iff_eq] at htag
    have hd : d ∈ (c.child? .typeHint).toList := by
      rcases htag with htag | htag <;> simpa only [htag] using hd
    exact (hc.named_before_hint htag he (Option.mem_toList.mp hd)).line_le (hleaf h) hline

end NamedBy

end Cst

/-- The lines of a lowered tree are lines of a concrete tree, and stand to each other as they do
there. -/
inductive Tree.LinedBy (c : Cst) : Tree → Prop
  | node {kind : Kind} {line : Nat} {ident : Option String} {ds cs : List Tree}
      (hline : c.HasLine line) (hpinned : ∀ t ∈ cs, t.kind.isPinned = true → t.line = line)
      (hbelow : c.Descends → kind.isSteady = true ∨ c.Written → ∀ t ∈ cs, line ≤ t.line)
      (hfree : ∀ t ∈ ds, t.kind.isPinned = false) (habove : c.Written → ∀ t ∈ ds, t.line ≤ line)
      (hcs : ∀ t ∈ cs, LinedBy c t) (hds : ∀ t ∈ ds, LinedBy c t) :
      LinedBy c (.node kind line ident ds cs)

namespace Tree

section

variable {c d : Cst} {t : Tree} {ts ds : List Tree} {kind : Kind} {line : Nat}
  {ident : Option String}

theorem LinedBy.hasLine (h : t.LinedBy c) : c.HasLine t.line := by
  obtain ⟨hline, -⟩ := h
  exact hline

theorem LinedBy.mono (h : t.LinedBy d) (hd : d ∈ c.allNodes) : t.LinedBy c := by
  induction h with
  | node hline hpinned hbelow hfree habove _ _ ihcs ihds =>
    exact .node (hline.mono hd) hpinned
      (fun hdown hkind => hbelow (hdown.of_mem hd) (hkind.imp_right fun h => h.of_mem hd)) hfree
      (fun h => habove (h.of_mem hd)) ihcs ihds

/-- A tree that may stand under a node on a line. -/
structure PartAt (c : Cst) (line : Nat) (t : Tree) : Prop where
  lined : t.LinedBy c
  pinned : t.kind.isPinned = true → t.line = line

theorem PartAt.mono (h : t.PartAt d line) (hd : d ∈ c.allNodes) : t.PartAt c line :=
  ⟨h.lined.mono hd, h.pinned⟩

theorem LinedBy.partAt (h : t.LinedBy c) (hkind : t.kind.isPinned = false) : t.PartAt c line :=
  ⟨h, fun hpinned => by simp [hkind] at hpinned⟩

/-- A tree that may decorate a node on a line. -/
structure DecoratorAt (c : Cst) (line : Nat) (t : Tree) : Prop where
  lined : t.LinedBy c
  free : t.kind.isPinned = false
  above : c.Written → t.line ≤ line

theorem linedBy_node (hd : d ∈ c.allNodes) (hts : ∀ t ∈ ts, t.PartAt d d.line)
    (hds : ∀ u ∈ ds, u.DecoratorAt c d.line) : (node kind d.line ident ds ts).LinedBy c :=
  .node (d.hasLine_line.mono hd) (fun t ht => (hts t ht).pinned)
    (fun hdown _ t ht => (hdown.of_mem hd).line_le (hts t ht).lined.hasLine)
    (fun u hu => (hds u hu).free) (fun h u hu => (hds u hu).above h)
    (fun t ht => (hts t ht).lined.mono hd) fun u hu => (hds u hu).lined

theorem linedBy_here (hts : ∀ t ∈ ts, t.PartAt c c.line) :
    (node kind c.line ident [] ts).LinedBy c :=
  linedBy_node Cst.self_mem_nodes hts fun u hu => (by cases hu)

theorem partAt_leaf (hline : c.HasLine line) : (leaf kind line).PartAt c line :=
  ⟨.node hline (fun t ht => by cases ht) (fun _ _ t ht => by cases ht) (fun t ht => by cases ht)
    (fun _ t ht => by cases ht) (fun t ht => by cases ht) fun t ht => (by cases ht), fun _ => rfl⟩

theorem partAt_operator : (leaf kind c.line).PartAt c c.line := partAt_leaf c.hasLine_line

/-- A node that gathers what stands in several places. Its line is the first of them if the text is in
order. -/
theorem linedBy_gathered (hkind : kind.isSteady = false) (hline : c.HasLine line)
    (hts : ∀ t ∈ ts, t.PartAt c line ∧ (c.Written → line ≤ t.line)) :
    (node kind line ident [] ts).LinedBy c :=
  .node hline (fun t ht => (hts t ht).1.pinned)
    (fun _ h t ht => (hts t ht).2 (h.resolve_left (by simp [hkind])))
    (fun u hu => by cases hu) (fun _ u hu => by cases hu) (fun t ht => (hts t ht).1.lined)
    fun u hu => (by cases hu)

theorem linedBy_inContext {context : Kind} (hts : ∀ t ∈ ts, t.PartAt c c.line) :
    (Lowering.inContext kind c.line ts context).LinedBy c :=
  linedBy_here (List.forall_mem_append.mpr ⟨hts, List.forall_mem_singleton.mpr partAt_operator⟩)

theorem LinedBy.of_mem_occurrences {above : List Tree} {decorates : Bool} {o : Occurrence}
    (h : t.LinedBy c) (ho : o ∈ t.occurrencesFrom above decorates) : o.tree.LinedBy c := by
  induction h generalizing above decorates with
  | node hline hpinned hbelow hfree habove hcs hds ihcs ihds =>
    rw [occurrencesFrom_eq, List.mem_cons, List.mem_append] at ho
    rcases ho with rfl | ho | ho
    · exact .node hline hpinned hbelow hfree habove hcs hds
    · obtain ⟨u, hu, ho⟩ := List.mem_flatMap.mp ho
      exact ihcs u hu ho
    · obtain ⟨u, hu, ho⟩ := List.mem_flatMap.mp ho
      exact ihds u hu ho

theorem LinedBy.children (h : t.LinedBy c) : ∀ u ∈ t.children, c.HasLine u.line
    ∧ (u.kind.isPinned = true → u.line = t.line)
    ∧ (c.Descends → t.kind.isSteady = true ∨ c.Written → t.line ≤ u.line) := by
  obtain ⟨-, hpinned, hbelow, -, -, hcs, -⟩ := h
  exact fun u hu => ⟨(hcs u hu).hasLine, hpinned u hu, fun hdown h => hbelow hdown h u hu⟩

theorem LinedBy.decorators (h : t.LinedBy c) : ∀ u ∈ t.decorators, c.HasLine u.line
    ∧ u.kind.isPinned = false ∧ (c.Written → u.line ≤ t.line) := by
  obtain ⟨-, -, -, hfree, habove, -, hds⟩ := h
  exact fun u hu => ⟨(hds u hu).hasLine, hfree u hu, fun h => habove h u hu⟩

end

end Tree

namespace Lowering

/-- Expressions are lowered to trees that stand on lines of what they are lowered from, and that are
neither operators nor contexts. -/
structure Lines (lower : Cst → Kind → Result Tree) : Prop where
  lined : ∀ {c context t}, lower c context = .ok t → t.LinedBy c
  free : ∀ {c context t}, lower c context = .ok t → t.kind.isPinned = false

section

variable {s : Source} {lower : Cst → Kind → Result Tree} {c d : Cst} {context kind : Kind}
  {t : Tree} {ts : List Tree} {line : Nat} {r : Role}

variable (hlower : Lines lower)

include hlower

theorem partAt_of_under (h : LowersUnder lower context c t) : t.PartAt c line := by
  obtain ⟨d, hd, h⟩ := h
  exact ((hlower.lined h).mono hd).partAt (hlower.free h)

theorem partAt_of_lowerAll {cs : List Cst} (h : lowerAll lower context cs = .ok ts)
    (hcs : ∀ d ∈ cs, d ∈ c.allNodes) : ∀ t ∈ ts, t.PartAt c line :=
  fun t ht => partAt_of_under hlower (under_of_lowerAll h hcs t ht)

theorem partAt_of_proper (h : lowerAll lower context c.proper = .ok ts) :
    ∀ t ∈ ts, t.PartAt c line :=
  fun t ht => partAt_of_under hlower (under_of_proper h t ht)

theorem partAt_over_value {ident : Option String} (hkind : kind.isPinned = false)
    (h : LowersUnder lower context d t) (hd : d ∈ c.allNodes) :
    (node kind d.line ident [] [t]).PartAt c line :=
  ((linedBy_here (List.forall_mem_singleton.mpr (partAt_of_under hlower h))).partAt hkind).mono hd

/-! ### Subscripts and calls -/

theorem IsSubscript.partAt (h : IsSubscript lower c t) : t.PartAt c line := by
  cases h with
  | slice _ hbounds => exact (linedBy_here (partAt_of_proper hlower hbounds)).partAt rfl
  | value h => exact partAt_of_under hlower ⟨c, Cst.self_mem_nodes, h⟩

theorem AreSubscripts.partAt {cs : List Cst} (h : AreSubscripts lower c.line cs t)
    (hcs : ∀ d ∈ cs, d ∈ c.allNodes) : t.PartAt c line := by
  cases h with
  | slice _ hbounds =>
    exact ((linedBy_here (partAt_of_proper hlower hbounds)).partAt rfl).mono
      (hcs _ List.mem_cons_self)
  | index hvalue =>
    exact partAt_over_value hlower rfl ⟨_, hcs _ List.mem_cons_self, hvalue⟩ Cst.self_mem_nodes
  | @several _ parts hparts =>
    have hall : ∀ u ∈ parts, u.PartAt c c.line := forall_of_forall₂ hparts fun d hd _ hu =>
      (hu.partAt hlower).mono (hcs d hd)
    have htuple : (inContext .tuple c.line parts .load).PartAt c c.line :=
      (linedBy_inContext hall).partAt rfl
    exact (linedBy_here (List.forall_mem_singleton.mpr htuple)).partAt rfl

theorem AreArguments.partAt (h : AreArguments s lower c ts) : ∀ t ∈ ts, t.PartAt c line :=
  h.all (fun _ hu => partAt_of_under hlower hu) fun _ hd _ _ hu =>
    partAt_over_value hlower rfl hu (Cst.mem_allNodes_of_mem_proper hd)

/-! ### Comprehensions -/

theorem IsSource.partAt (h : IsSource lower c t) : t.PartAt c line := by
  rcases h with ⟨d, hd, h⟩ | ⟨-, ts, rfl, hts⟩
  · exact partAt_of_under hlower
      ⟨d, Cst.mem_allNodes_of_mem_childrenIn (hd ▸ List.mem_singleton_self d), h⟩
  · have hunder := under_of_forall₂ (c := c) hts fun _ => Cst.mem_allNodes_of_mem_childrenIn
    exact (linedBy_inContext fun u hu => partAt_of_under hlower (hunder u hu)).partAt rfl

theorem IsRound.linedBy {round : Round} (h : IsRound lower round t)
    (hround : round.clauses.Sublist c.children) : t.LinedBy c := by
  obtain ⟨target, values, tests, rfl, ⟨-, htarget, hvalues⟩, htests⟩ := h
  have hmem : ∀ d ∈ round.clauses, d ∈ c.allNodes := fun d hd =>
    Cst.mem_allNodes_of_mem_children (hround.subset hd)
  obtain ⟨hloop, hconditions⟩ := List.forall_mem_cons.mp hmem
  have hfirst : ∀ u : Tree, u.PartAt round.loop round.loop.line →
      u.PartAt c round.loop.line ∧ (c.Written → round.loop.line ≤ u.line) := fun u hu =>
    ⟨hu.mono hloop, fun hc => (hc.of_mem hloop).descends.line_le hu.lined.hasLine⟩
  refine linedBy_gathered rfl (round.loop.hasLine_line.mono hloop) (List.forall_mem_cons.mpr
    ⟨hfirst target (partAt_of_under hlower htarget.under), List.forall_mem_cons.mpr
      ⟨hfirst values (hvalues.partAt hlower), ?_⟩⟩)
  refine forall_of_forall₂ htests fun d hd u hu => ?_
  have hu : u.PartAt d round.loop.line := partAt_of_under hlower hu.under
  refine ⟨hu.mono (hconditions d hd), fun hc => ?_⟩
  have hbefore : round.loop.Before d :=
    (List.pairwise_cons.mp (hc.pairwise.sublist hround)).1 d hd
  exact hbefore.line_le round.loop.hasLine_line hu.lined.hasLine

theorem partAt_rounds (h : List.Forall₂ (IsRound lower) (rounds (c.proper.drop 1)) ts) :
    ∀ t ∈ ts, t.PartAt c line := by
  have hclauses : (c.proper.drop 1).Sublist c.children :=
    (List.drop_sublist _ _).trans List.filter_sublist
  refine forall_of_forall₂ h fun round hround u hu => ?_
  have hlined := hu.linedBy hlower ((sublist_of_mem_rounds hround).trans hclauses)
  obtain ⟨target, values, tests, rfl, -⟩ := hu
  exact hlined.partAt rfl

/-! ### Parameters -/

theorem ParameterOf.partAt (h : ParameterOf s lower c t) : t.PartAt c line := by
  obtain ⟨leaf, name, types, rfl, hleaf, -, htypes⟩ := h
  have hlined : (named .arg leaf.line name types).LinedBy c := by
    refine linedBy_gathered rfl (leaf.hasLine_line.mono hleaf.mem_allNodes)
      (forall_of_forall₂ htypes fun d hd u hu => ⟨?_, fun hc => ?_⟩)
    · exact partAt_of_under hlower ⟨d, Cst.mem_allNodes_of_mem_hints hd, hu⟩
    · exact hleaf.line_le_of_mem_hints hc hd (hlower.lined hu).hasLine
  exact hlined.partAt rfl

theorem AreParameters.partAt {list : Option Cst} (h : AreParameters s lower list c.line t)
    (hlist : ∀ d ∈ list, d ∈ c.allNodes) : t.PartAt c line := by
  cases list with
  | none =>
    obtain rfl := h
    exact partAt_operator.lined.partAt rfl
  | some d =>
    obtain ⟨names, defaults, rfl, hnames, hdefaults⟩ := h.parts
    refine PartAt.mono ((linedBy_here (List.forall_mem_append.mpr
      ⟨fun u hu => ?_, fun u hu => ?_⟩)).partAt rfl) (hlist d rfl)
    · obtain ⟨e, he, hu⟩ := hnames u hu
      exact (hu.partAt hlower).mono (Cst.mem_allNodes_of_mem_proper he)
    · exact partAt_of_under hlower (hdefaults u hu)

/-! ### All expressions -/

theorem Expressed.linedBy (h : Expressed s lower c context t) : t.LinedBy c := by
  have hpart : ∀ {x : Kind} {u : Tree}, LowersUnder lower x c u → u.PartAt c c.line :=
    fun hu => partAt_of_under hlower hu
  cases h with
  | name => exact linedBy_here (List.forall_mem_singleton.mpr partAt_operator)
  | access _ hvalue => exact linedBy_here (by simp [hpart hvalue.under, partAt_operator])
  | subscript _ hvalue hbrackets =>
    have hp : PartAt c c.line _ :=
      hbrackets.partAt hlower fun _ => Cst.mem_allNodes_of_mem_childrenIn
    exact linedBy_here (by simp [hpart hvalue.under, hp, partAt_operator])
  | call _ h =>
    obtain ⟨callee, given, rfl, hcallee, hgiven⟩ := h.all (p := fun u => u.PartAt c c.line)
      (fun _ hu => hpart hu) fun _ hd _ _ hu => partAt_over_value hlower rfl hu hd
    exact linedBy_here (List.forall_mem_cons.mpr ⟨hpart hcallee, hgiven⟩)
  | binary _ _ _ hleft hright =>
    exact linedBy_here (by simp [hpart hleft.under, hpart hright.under, partAt_operator])
  | unary _ _ _ hvalue | negation _ hvalue =>
    exact linedBy_here (by simp [hpart hvalue.under, partAt_operator])
  | chain _ _ hoperands =>
    exact linedBy_here (List.forall_mem_cons.mpr
      ⟨partAt_operator, fun u hu => hpart (under_of_chainOperands hoperands u hu)⟩)
  | comparison _ h =>
    obtain ⟨ts, rfl, hts⟩ := h.all (p := fun u => u.PartAt c c.line) (fun _ hu => hpart hu)
      fun _ _ => partAt_operator
    exact linedBy_here hts
  | number | string | strings | constant | ellipsis => exact linedBy_here (by simp)
  | listDisplay _ hts | tuple _ hts => exact linedBy_inContext (partAt_of_proper hlower hts)
  | setDisplay _ hts | yield _ hts => exact linedBy_here (partAt_of_proper hlower hts)
  | dictionary _ heach => exact linedBy_here (all_of_entries heach fun u hu => hpart hu)
  | comprehension _ hbody helement hloops =>
    exact linedBy_here (List.forall_mem_append.mpr ⟨fun u hu => hpart
      ((helement.under u hu).mono (Cst.mem_allNodes_of_child? hbody)), partAt_rounds hlower hloops⟩)
  | wrapped _ h =>
    obtain ⟨d, hd, h⟩ := h.under
    exact (hlower.lined h).mono hd
  | starred _ hvalue => exact linedBy_here (by simp [hpart hvalue.under, partAt_operator])
  | choice _ hproper hbody htest hother =>
    have hall : ∀ d ∈ c.proper, ∀ u, lower d .load = .ok u → u.PartAt c c.line := fun d hd u hu =>
      hpart ⟨d, Cst.mem_allNodes_of_mem_proper hd, hu⟩
    simp only [hproper, List.forall_mem_cons] at hall
    exact linedBy_here (by simp [hall.1 _ hbody, hall.2.1 _ htest, hall.2.2.1 _ hother])
  | lambda _ hgiven hvalue =>
    have hg : PartAt c c.line _ := hgiven.partAt hlower fun _ => Cst.mem_allNodes_of_child?
    exact linedBy_here (by simp [hg, hpart hvalue.under])
  | naming _ hkey hvalue => exact linedBy_here (by simp [hpart hkey.under, hpart hvalue.under])
  | await _ hvalue => exact linedBy_here (by simp [hpart hvalue.under])

end

theorem lines_expression (s : Source) (levels : Nat) : Lines (expression s levels) := by
  refine ⟨fun {c context t} h => ?_, fun h => ?_⟩
  · induction levels generalizing c context t with
    | zero => cases h
    | succ levels ih =>
      refine (expressed h).linedBy ⟨fun h => ih h, fun h => ?_⟩
      exact Kind.isPinned_of_isExpression (isExpression_of_expression h)
  · exact Kind.isPinned_of_isExpression (isExpression_of_expression h)

end Lowering
end Gatehouse
