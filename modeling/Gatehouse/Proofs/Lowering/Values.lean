import Gatehouse.Proofs.Cst.Conforms
import Gatehouse.Proofs.Lowering.Kinds

/-!
Expressions are lowered to well-formed trees. Each production is taken by itself, with its parts
lowered by any function that makes well-formed trees of them.
-/
namespace Gatehouse.Lowering

open Gatehouse.Tree

/-- What a function lowers to: a well-formed expression if the concrete tree conforms to the
grammar, and a name if it is an identifier. -/
structure LowersWell (lower : Cst → Kind → Result Tree) : Prop where
  value : ∀ {c : Cst} {context : Kind} {t : Tree}, lower c context = .ok t → c.conforms = true →
    context.isContext = true → t.IsValue
  name : ∀ {c : Cst} {context : Kind} {t : Tree}, lower c context = .ok t → c.tag = .identifier →
    ∃ name, t = .named .name c.line name [.leaf context c.line]

section

variable {s : Source} {lower : Cst → Kind → Result Tree} {c d : Cst} {context : Kind} {t : Tree}
  {ts : List Tree} {r : Role}

/-! ### Nodes over their parts -/

theorem isValue_name (hcontext : context.isContext = true) (line : Nat) (name : String) :
    (named .name line name [.leaf context line]).IsValue :=
  ⟨wellFormed_inContext [] rfl hcontext ⟨rfl, _, rfl, hcontext⟩ (by simp), rfl⟩

theorem isValue_unary {line : Nat} {op : Kind} (hop : op.isUnary = true) (ht : t.IsValue) :
    (branch .unaryOp line [.leaf op line, t]).IsValue := by
  refine ⟨wellFormed_branch rfl ⟨_, t, rfl, hop, ht.expression⟩ ?_, rfl⟩
  simp [ht.isPart, isPart_operator (Kind.isOperator_of_isUnary hop)]

theorem isValue_tuple {line : Nat} (hcontext : context.isContext = true)
    (hts : ∀ t ∈ ts, t.IsPart ∧ (t.kind.isExpression = true ∨ t.kind = .slice)) :
    (inContext .tuple line ts context).IsValue :=
  ⟨wellFormed_inContext ts rfl hcontext ⟨ts, _, rfl, fun t ht => (hts t ht).2, hcontext⟩
    fun t ht => (hts t ht).1, rfl⟩

theorem isValue_tuple_of_values {line : Nat} (hcontext : context.isContext = true)
    (hts : ∀ t ∈ ts, t.IsValue) : (inContext .tuple line ts context).IsValue :=
  isValue_tuple hcontext fun t ht => ⟨(hts t ht).isPart, Or.inl (hts t ht).expression⟩

theorem isPart_index {line : Nat} (ht : t.IsValue) : (branch .index line [t]).IsPart :=
  ⟨wellFormed_branch rfl ⟨t, rfl, ht.expression⟩ (List.forall_mem_singleton.mpr ht.isPart), rfl⟩

theorem isPart_keyword {line : Nat} {ident : Option String} (ht : t.IsValue) :
    (node .keyword line ident [] [t]).IsPart :=
  ⟨wellFormed_node rfl ⟨t, rfl, ht.expression⟩ (fun h => absurd rfl h) (fun d hd => by cases hd)
    (List.forall_mem_singleton.mpr ht.isPart), rfl⟩

theorem isValue_callOf {line : Nat} (ht : t.IsValue) (hts : ∀ u ∈ ts, u.IsPart) :
    (branch .call line (t :: ts)).IsValue :=
  ⟨wellFormed_branch rfl ⟨t, ts, rfl, ht.expression⟩ (List.forall_mem_cons.mpr ⟨ht.isPart, hts⟩),
    rfl⟩

/-! ### Strings -/

theorem isValue_text {kind : Kind} {line : Nat} (h : kind ∈ textKinds) :
    (leaf kind line).IsValue := by
  simp only [textKinds, List.mem_cons, List.not_mem_nil, or_false] at h
  rcases h with rfl | rfl | rfl <;>
    exact ⟨wellFormed_branch rfl trivial (by simp), rfl⟩

theorem isValue_branch {kind : Kind} {line : Nat} (hexpression : kind.isExpression = true)
    (hcontext : kind.takesContext = false) (hparts : kind.Parts none ts)
    (hts : ∀ t ∈ ts, t.IsValue) : (branch kind line ts).IsValue :=
  ⟨wellFormed_branch hcontext hparts fun t ht => (hts t ht).isPart, hexpression⟩

theorem isValue_constant {kind : Kind} {line : Nat} {name : String}
    (hexpression : kind.isExpression = true) (hcontext : kind.takesContext = false)
    (hparts : kind.Parts (some name) []) : (named kind line name []).IsValue :=
  ⟨wellFormed_named hcontext hparts (by simp), hexpression⟩

/-! ### Parts -/

section

variable (hlower : LowersWell lower) (hc : c.conforms = true)

include hlower hc

theorem isValue_of_under (h : LowersUnder lower context c t) (hcontext : context.isContext = true) :
    t.IsValue := by
  obtain ⟨d, hd, h⟩ := h
  exact hlower.value h (Cst.conforms_of_mem_allNodes hc hd) hcontext

theorem isValue_of_lowersIn (h : LowersIn lower r context c t) (hcontext : context.isContext = true) :
    t.IsValue :=
  isValue_of_under hlower hc h.under hcontext

theorem isValue_of_proper (h : lowerAll lower context c.proper = .ok ts)
    (hcontext : context.isContext = true) : ∀ t ∈ ts, t.IsValue :=
  fun t ht => isValue_of_under hlower hc (under_of_proper h t ht) hcontext

theorem isPart_of_under (h : LowersUnder lower .load c t) : t.IsPart :=
  (isValue_of_under hlower hc h rfl).isPart

/-! ### Subscripts and calls -/

theorem isPart_slice {bounds : List Tree} {line : Nat}
    (h : lowerAll lower .load c.proper = .ok bounds) : (branch .slice line bounds).IsPart :=
  ⟨wellFormed_branch rfl trivial fun b hb => (isValue_of_proper hlower hc h rfl b hb).isPart, rfl⟩

theorem IsSubscript.isPart (h : IsSubscript lower c t) :
    t.IsPart ∧ (t.kind.isExpression = true ∨ t.kind = .slice) := by
  cases h with
  | slice _ hbounds => exact ⟨isPart_slice hlower hc hbounds, Or.inr rfl⟩
  | value h =>
    have ht : t.IsValue := hlower.value h hc rfl
    exact ⟨ht.isPart, Or.inl ht.expression⟩

omit hc in
theorem AreSubscripts.isPart {line : Nat} {cs : List Cst} (h : AreSubscripts lower line cs t)
    (hcs : ∀ c ∈ cs, c.conforms = true) : t.IsPart ∧ (t.kind = .index ∨ t.kind = .slice) := by
  cases h with
  | slice _ hbounds => exact ⟨isPart_slice hlower (by simpa using hcs) hbounds, Or.inr rfl⟩
  | index hvalue => exact ⟨isPart_index (hlower.value hvalue (by simpa using hcs) rfl), Or.inl rfl⟩
  | several hparts =>
    have hall := forall_of_forall₂ hparts fun c hc _ hpart =>
      hpart.isPart hlower (hcs c hc)
    exact ⟨isPart_index (isValue_tuple rfl hall), Or.inl rfl⟩

theorem AreArguments.isPart (h : AreArguments s lower c ts) : ∀ t ∈ ts, t.IsPart :=
  h.all (fun _ hu => isPart_of_under hlower hc hu) fun _ hd _ _ hu =>
    isPart_keyword (isValue_of_under hlower hc (hu.mono (Cst.mem_allNodes_of_mem_proper hd)) rfl)

theorem IsCall.isValue (h : IsCall s lower c t) : t.IsValue := by
  obtain ⟨callee, given, rfl, hcallee, hgiven⟩ := h.all (p := IsPart)
    (fun _ hu => isPart_of_under hlower hc hu)
    fun _ hd _ _ hu => isPart_keyword (isValue_of_under hlower hc (hu.mono hd) rfl)
  exact isValue_callOf (isValue_of_under hlower hc hcallee rfl) hgiven

/-! ### Chains of operations -/

omit hlower hc in
/-- A chain has as many operands as there were nodes to begin with, or more. -/
theorem length_le_of_chainOperands {operator : String} {cs : List Cst}
    (h : (chainOperands operator cs).mapM (fun r => do lower (← r) .load) = .ok ts) :
    cs.length ≤ ts.length := by
  induction cs using chainOperands.induct operator generalizing ts with
  | case1 => exact Nat.zero_le _
  | case2 c pending hlink hr =>
    obtain ⟨l, r, -, hright, -⟩ := operands_of_link hlink h
    exact absurd (hr.symm.trans hright) (by simp)
  | case3 c pending hlink r hr hl =>
    obtain ⟨l, r, hleft, -⟩ := operands_of_link hlink h
    exact absurd (hl.symm.trans hleft) (by simp)
  | case4 c pending hlink r hr l hl ih =>
    obtain ⟨left, right, hleft, hright, h⟩ := operands_of_link hlink h
    obtain rfl := Option.some.inj (hl.symm.trans hleft)
    obtain rfl := Option.some.inj (hr.symm.trans hright)
    exact Nat.le_trans (by simp) (ih h)
  | case5 c pending hlink ih =>
    rw [chainOperands, if_neg hlink] at h
    simp only [List.mapM_cons, bind_eq_ok, pure_eq_ok, Except.ok.injEq] at h
    obtain ⟨t, ⟨d, rfl, ht⟩, us, hus, rfl⟩ := h
    exact Nat.succ_le_succ (ih hus)

theorem isValue_chain {op : Cst} {line : Nat} (htag : c.tag = .booleanOperator)
    (hop : c.child? .operator = some op)
    (h : (chainOperands op.tag.name [c]).mapM (fun r => do lower (← r) .load) = .ok ts) :
    (branch .boolOp line (.leaf (truthKind op.tag.name) line :: ts)).IsValue := by
  have hvalues : ∀ t ∈ ts, t.IsValue := fun t ht =>
    isValue_of_under hlower hc (under_of_chainOperands h t ht) rfl
  -- A chain begins with a link, so it has two operands at least.
  have htwo : 2 ≤ ts.length := by
    obtain ⟨left, right, -, -, hpair⟩ := operands_of_link (by simp [isLink, htag, hop]) h
    exact length_le_of_chainOperands hpair
  exact ⟨wellFormed_branch rfl ⟨_, ts, rfl, truthKind_cases op.tag.name, htwo, fun v hv =>
    (hvalues v hv).expression⟩
    (List.forall_mem_cons.mpr ⟨isPart_operator (isOperator_truthKind _),
      fun v hv => (hvalues v hv).isPart⟩), rfl⟩

theorem IsComparison.isValue (htag : c.tag = .comparisonOperator) (h : IsComparison lower c t) :
    t.IsValue := by
  obtain ⟨ts, hts, hparts⟩ := h.all (p := IsPart) (fun _ hu => isPart_of_under hlower hc hu)
    fun _ hop => isPart_operator hop
  obtain ⟨first, rest, left, kinds, right, hproper, rfl, hleft, hkinds, hright⟩ := h
  obtain ⟨-, -, -, -, rfl⟩ := Tree.node.inj hts
  obtain ⟨hsome, hmany⟩ := Cst.operators_of_comparison hc htag
  have hmem : ∀ d ∈ first :: rest, d ∈ c.allNodes := fun d hd =>
    Cst.mem_allNodes_of_mem_proper (hproper ▸ hd)
  obtain ⟨hfirst, hrest⟩ := List.forall_mem_cons.mp hmem
  have hl : left.IsValue := isValue_of_under hlower hc ⟨first, hfirst, hleft⟩ rfl
  have hr : ∀ v ∈ right, v.IsValue := fun v hv =>
    isValue_of_under hlower hc (under_of_forall₂ hright hrest v hv) rfl
  rw [hproper, List.length_cons, Nat.add_right_cancel_iff] at hmany
  refine ⟨wellFormed_branch rfl ⟨left, kinds.map (.leaf · c.line), right, rfl, ?_, ?_,
    hl.expression, ?_, fun v hv => (hr v hv).expression⟩ hparts, rfl⟩
  · rw [List.length_map, ← hkinds.length_eq, ← hright.length_eq, hmany]
  · intro hnil
    rw [List.map_eq_nil_iff] at hnil
    exact hsome (List.eq_nil_of_length_eq_zero (by rw [hkinds.length_eq, hnil, List.length_nil]))
  · intro op hop
    obtain ⟨kind, hkind, rfl⟩ := List.mem_map.mp hop
    exact forall_of_forall₂ hkinds (fun _ _ _ => isComparison_of_comparisonKind?) kind hkind

/-! ### Comprehensions and parameters -/

theorem RunsOver.isValue (h : RunsOver lower c t) : t.IsValue := by
  rcases h with h | ⟨line, ts, rfl, hts⟩
  · exact isValue_of_under hlower hc h rfl
  · exact isValue_tuple_of_values rfl fun u hu => isValue_of_under hlower hc (hts u hu) rfl

theorem isPart_round {line : Nat} {target values : Tree} (htarget : LowersUnder lower .store c target)
    (hvalues : RunsOver lower c values) (hts : ∀ u ∈ ts, LowersUnder lower .load c u) :
    (branch .comprehension line (target :: values :: ts)).IsPart := by
  have hall : ∀ v ∈ target :: values :: ts, v.IsValue :=
    List.forall_mem_cons.mpr ⟨isValue_of_under hlower hc htarget rfl, List.forall_mem_cons.mpr
      ⟨hvalues.isValue hlower hc, fun v hv => isValue_of_under hlower hc (hts v hv) rfl⟩⟩
  exact ⟨wellFormed_branch rfl ⟨target, values, ts, rfl, fun v hv => (hall v hv).expression⟩
    fun v hv => (hall v hv).isPart, rfl⟩

theorem ParameterOf.isPart (h : ParameterOf s lower c t) : t.IsPart := by
  obtain ⟨line, name, types, rfl, hlength, htypes⟩ := h.types
  exact ⟨wellFormed_named rfl ⟨rfl, hlength⟩ fun u hu => isPart_of_under hlower hc (htypes u hu), rfl⟩

omit hc in
theorem AreParameters.isPart {list : Option Cst} {line : Nat}
    (h : AreParameters s lower list line t) (hlist : ∀ c ∈ list, c.conforms = true) :
    t.IsPart ∧ t.kind = .arguments := by
  cases list with
  | none =>
    obtain rfl := h
    exact ⟨⟨wellFormed_branch rfl ⟨[], [], rfl, by simp, by simp⟩ (by simp), rfl⟩, rfl⟩
  | some c =>
    have hc := hlist c rfl
    obtain ⟨names, defaults, rfl, hnames, hdefaults⟩ := h.parts
    have hparameters : ∀ u ∈ names, u.IsPart ∧ u.kind = .arg := fun u hu => by
      obtain ⟨d, hd, hu⟩ := hnames u hu
      refine ⟨hu.isPart hlower (Cst.conforms_proper hc d hd), ?_⟩
      obtain ⟨line, name, types, rfl, -⟩ := hu.types
      rfl
    have hvalues : ∀ u ∈ defaults, u.IsValue := fun u hu =>
      isValue_of_under hlower hc (hdefaults u hu) rfl
    exact ⟨⟨wellFormed_branch rfl ⟨names, defaults, rfl, fun u hu => (hparameters u hu).2,
      fun u hu => (hvalues u hu).expression⟩ (List.forall_mem_append.mpr
        ⟨fun u hu => (hparameters u hu).1, fun u hu => (hvalues u hu).isPart⟩), rfl⟩, rfl⟩

/-! ### All expressions -/

theorem Expressed.isValue (h : Expressed s lower c context t) (hcontext : context.isContext = true) :
    t.IsValue := by
  cases h with
  | name => exact isValue_name hcontext c.line _
  | access _ hvalue =>
    have hv := isValue_of_lowersIn hlower hc hvalue rfl
    exact ⟨wellFormed_inContext [_] rfl hcontext ⟨rfl, _, _, rfl, hv.expression, hcontext⟩
      (List.forall_mem_singleton.mpr hv.isPart), rfl⟩
  | @subscript value part _ hvalue hpart =>
    have hv := isValue_of_lowersIn hlower hc hvalue rfl
    obtain ⟨hp, hkind⟩ := hpart.isPart hlower fun d hd =>
      Cst.conforms_of_mem_allNodes hc (Cst.mem_allNodes_of_mem_childrenIn hd)
    exact ⟨wellFormed_inContext [value, part] rfl hcontext
      ⟨_, _, _, rfl, hv.expression, hkind, hcontext⟩ (by simp [hv.isPart, hp]), rfl⟩
  | call _ h => exact h.isValue hlower hc
  | binary _ _ hkind hleft hright =>
    have hbinary := isBinary_of_binaryKind? hkind
    have hl := isValue_of_lowersIn hlower hc hleft rfl
    have hr := isValue_of_lowersIn hlower hc hright rfl
    exact ⟨wellFormed_branch rfl ⟨_, _, _, rfl, hl.expression, hbinary, hr.expression⟩
      (by simp [hl.isPart, hr.isPart, isPart_operator (Kind.isOperator_of_isBinary hbinary)]), rfl⟩
  | unary _ _ hkind hvalue =>
    exact isValue_unary (isUnary_of_unaryKind? hkind) (isValue_of_lowersIn hlower hc hvalue rfl)
  | negation _ hvalue => exact isValue_unary rfl (isValue_of_lowersIn hlower hc hvalue rfl)
  | chain htag hop hoperands => exact isValue_chain hlower hc htag hop hoperands
  | comparison htag h => exact h.isValue hlower hc htag
  | number | constant => exact isValue_constant rfl rfl trivial
  | string _ hkind => exact isValue_text (mem_textKinds_of_stringKind hkind)
  | strings _ hkind => exact isValue_text (mem_textKinds_of_joinedKind hkind (by decide))
  | ellipsis => exact isValue_branch rfl rfl trivial (by simp)
  | listDisplay _ hts =>
    have hvalues := isValue_of_proper hlower hc hts hcontext
    exact ⟨wellFormed_inContext _ rfl hcontext
      ⟨_, _, rfl, fun t ht => (hvalues t ht).expression, hcontext⟩
      fun t ht => (hvalues t ht).isPart, rfl⟩
  | tuple _ hts => exact isValue_tuple_of_values hcontext (isValue_of_proper hlower hc hts hcontext)
  | setDisplay _ hts => exact isValue_branch rfl rfl trivial (isValue_of_proper hlower hc hts rfl)
  | dictionary _ heach =>
    exact isValue_branch rfl rfl trivial
      (all_of_entries heach fun u hu => isValue_of_under hlower hc hu rfl)
  | comprehension hkind hbody helement hloops =>
    have hcs := all_of_comprehension hbody helement hloops
      (fun u hu => isPart_of_under hlower hc hu) fun _ _ _ _ => isPart_round hlower hc
    unfold Tag.comprehensionKind? at hkind
    split at hkind <;> cases hkind <;> exact ⟨wellFormed_branch rfl trivial hcs, rfl⟩
  | wrapped _ h => exact isValue_of_under hlower hc h.under hcontext
  | @starred value _ hvalue =>
    have hv := isValue_of_under hlower hc hvalue.under hcontext
    exact ⟨wellFormed_inContext [value] rfl hcontext ⟨_, _, rfl, hv.expression, hcontext⟩
      (List.forall_mem_singleton.mpr hv.isPart), rfl⟩
  | choice _ hproper hbody htest hother =>
    have hall : ∀ d ∈ c.proper, ∀ u, lower d .load = .ok u → u.IsValue := fun d hd u hu =>
      isValue_of_under hlower hc ⟨d, Cst.mem_allNodes_of_mem_proper hd, hu⟩ rfl
    simp only [hproper, List.forall_mem_cons] at hall
    exact isValue_branch rfl rfl trivial
      (by simp [hall.1 _ hbody, hall.2.1 _ htest, hall.2.2.1 _ hother])
  | lambda _ hgiven hvalue =>
    obtain ⟨hg, hkind⟩ := hgiven.isPart hlower fun d hd => Cst.conforms_child? hc hd
    have hv := isValue_of_lowersIn hlower hc hvalue rfl
    exact ⟨wellFormed_branch rfl ⟨_, _, rfl, hkind, hv.expression⟩ (by simp [hg, hv.isPart]), rfl⟩
  | naming _ hkey hvalue =>
    have hk := isValue_of_lowersIn hlower hc hkey rfl
    have hv := isValue_of_lowersIn hlower hc hvalue rfl
    exact isValue_branch rfl rfl trivial (by simp [hk, hv])
  | await _ hvalue =>
    have hv := isValue_of_under hlower hc hvalue.under rfl
    exact isValue_branch rfl rfl trivial (by simp [hv])
  | yield _ hts =>
    have hall := isValue_of_proper hlower hc hts rfl
    split <;> exact isValue_branch rfl rfl trivial hall

end

theorem lowersWell_expressionNode (hlower : LowersWell lower) :
    LowersWell (expressionNode s lower) where
  value h hc hcontext := (expressed h).isValue hlower hc hcontext
  name h htag := by
    simp only [expressionNode, htag, bind_eq_ok, pure_eq_ok] at h
    obtain ⟨name, hname, rfl⟩ := h
    exact ⟨name, rfl⟩

end

theorem lowersWell_expression (s : Source) (levels : Nat) : LowersWell (expression s levels) := by
  induction levels with
  | zero => exact ⟨fun h => (by cases h), fun h => (by cases h)⟩
  | succ levels ih => exact lowersWell_expressionNode ih

end Gatehouse.Lowering
