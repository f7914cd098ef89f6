import Gatehouse.Proofs.Cst.Names
import Gatehouse.Proofs.Lowering.Levels
import Gatehouse.Proofs.Lowering.Result

/-!
Chains of one operation of truth. A chain is taken apart with a stack, and what comes off the stack
is what a recursion finds that goes left and then right through links of the same operation. All of
its operands stand one level below the chain, so a chain may be as long as it likes.
-/
namespace Gatehouse

open Gatehouse.Tree

namespace Cst

/-- The operands of a chain: those of the left side of a link, then those of its right side. What is
no link of the chain is an operand itself. -/
def operands (operator : String) : Cst → List Cst
  | .node tag r sp cs =>
    if Lowering.isLink operator (.node tag r sp cs) then operandsIn .left cs ++ operandsIn .right cs
    else [.node tag r sp cs]
where
  /-- The operands of the first child in a role. -/
  operandsIn (side : Role) : List Cst → List Cst
    | [] => []
    | d :: ds => if d.role == some side then d.operands operator else operandsIn side ds

/-- Has every operation of truth in the tree both of its operands? -/
def hasOperands (c : Cst) : Bool :=
  c.allNodes.all fun n =>
    n.tag != .booleanOperator || ((n.child? .left).isSome && (n.child? .right).isSome)

/-- What stands inside of brackets, however many there are around it. -/
def unbracketed : Cst → Cst
  | .node .parenthesizedExpression r sp cs => first (.node .parenthesizedExpression r sp cs) cs
  | c => c
where
  /-- The first child of a kind of its own, inside of its brackets. -/
  first (whole : Cst) : List Cst → Cst
    | [] => whole
    | d :: ds => if d.isProper then d.unbracketed else first whole ds

section

variable {operator : String} {c d : Cst}

theorem operands_of_link (h : Lowering.isLink operator c = true) : c.operands operator
    = (c.child? .left).toList.flatMap (operands operator)
      ++ (c.child? .right).toList.flatMap (operands operator) := by
  have hside : ∀ side cs, operands.operandsIn operator side cs
      = (cs.find? fun d => d.role == some side).toList.flatMap (operands operator) := by
    intro side cs
    induction cs with
    | nil => rfl
    | cons d ds ih =>
      rw [operands.operandsIn, List.find?_cons]
      by_cases hd : d.role == some side <;> simp [hd, ih]
  obtain ⟨tag, r, sp, cs⟩ := c
  rw [operands, if_pos h, hside, hside]
  rfl

theorem operands_of_not_link (h : Lowering.isLink operator c = false) :
    c.operands operator = [c] := by
  obtain ⟨tag, r, sp, cs⟩ := c
  rw [operands, if_neg (by simp [h])]

theorem isLink_of_mem_operands (h : d ∈ c.operands operator) :
    Lowering.isLink operator d = false := by
  induction c using inductionOn with
  | step c ih =>
    cases hlink : Lowering.isLink operator c with
    | false =>
      rw [operands_of_not_link hlink, List.mem_singleton] at h
      rwa [h]
    | true =>
      rw [operands_of_link hlink, List.mem_append, List.mem_flatMap, List.mem_flatMap] at h
      rcases h with ⟨side, hside, h⟩ | ⟨side, hside, h⟩
      all_goals exact ih side (List.mem_of_find?_eq_some (Option.mem_toList.mp hside)) h

theorem hasOperands_iff : c.hasOperands = true ↔ ∀ n ∈ c.allNodes, n.tag = .booleanOperator →
    ∃ l r, n.child? .left = some l ∧ n.child? .right = some r := by
  simp only [hasOperands, List.all_eq_true, Bool.or_eq_true, bne_iff_ne, ne_eq, Bool.and_eq_true,
    Option.isSome_iff_exists, Decidable.imp_iff_not_or, exists_and_left, exists_and_right]

theorem hasOperands_of_mem (h : c.hasOperands = true) (hd : d ∈ c.children) :
    d.hasOperands = true :=
  hasOperands_iff.mpr fun n hn =>
    hasOperands_iff.mp h n (mem_nodes.mpr (Or.inr ⟨d, hd, rfl, hn⟩))

theorem hasOperands_of_mem_operands (h : c.hasOperands = true) (hd : d ∈ c.operands operator) :
    d.hasOperands = true := by
  induction c using inductionOn with
  | step c ih =>
    cases hlink : Lowering.isLink operator c with
    | false =>
      rw [operands_of_not_link hlink, List.mem_singleton] at hd
      rwa [hd]
    | true =>
      rw [operands_of_link hlink, List.mem_append, List.mem_flatMap, List.mem_flatMap] at hd
      rcases hd with ⟨side, hside, hd⟩ | ⟨side, hside, hd⟩
      all_goals
        have hmem := List.mem_of_find?_eq_some (Option.mem_toList.mp hside)
        exact ih side hmem (hasOperands_of_mem h hmem) hd

theorem exists_sides (h : c.hasOperands = true) (hlink : Lowering.isLink operator c = true) :
    ∃ l r, c.child? .left = some l ∧ c.child? .right = some r
      ∧ l.hasOperands = true ∧ r.hasOperands = true := by
  simp only [Lowering.isLink, Bool.and_eq_true, beq_iff_eq] at hlink
  obtain ⟨l, r, hl, hr⟩ := hasOperands_iff.mp h c self_mem_nodes hlink.1
  exact ⟨l, r, hl, hr, hasOperands_of_mem h (List.mem_of_find?_eq_some hl),
    hasOperands_of_mem h (List.mem_of_find?_eq_some hr)⟩

theorem unbracketed_of_other (h : c.tag ≠ .parenthesizedExpression) : c.unbracketed = c := by
  obtain ⟨tag, r, sp, cs⟩ := c
  rw [unbracketed]
  intro r' sp' cs' heq
  exact h (Cst.node.inj heq).1

theorem unbracketed_of_brackets (h : c.tag = .parenthesizedExpression) :
    c.unbracketed = (c.proper.head?.map unbracketed).getD c := by
  have hfirst : ∀ whole cs, unbracketed.first whole cs
      = ((cs.filter isProper).head?.map unbracketed).getD whole := by
    intro whole cs
    induction cs with
    | nil => rfl
    | cons d ds ih =>
      rw [unbracketed.first]
      by_cases hd : d.isProper <;> simp [hd, ih]
  obtain ⟨tag, r, sp, cs⟩ := c
  obtain rfl : tag = .parenthesizedExpression := h
  rw [unbracketed, hfirst]
  rfl

theorem hasOperands_unbracketed (h : c.hasOperands = true) : c.unbracketed.hasOperands = true := by
  induction c using inductionOn with
  | step c ih =>
    by_cases htag : c.tag = .parenthesizedExpression
    · cases hproper : c.proper with
      | nil => simpa [unbracketed_of_brackets htag, hproper] using h
      | cons d rest =>
        have hd : d ∈ c.proper := hproper ▸ List.mem_cons_self
        have hmem : d ∈ c.children := (List.mem_filter.mp hd).1
        simpa [unbracketed_of_brackets htag, hproper] using ih d hmem (hasOperands_of_mem h hmem)
    · rwa [unbracketed_of_other htag]

end

end Cst

namespace Lowering

def truthKind (operator : String) : Kind := if operator = "and" then .andOf else .orOf

/-- The node of a chain: its operation, and its operands, which are lowered on the level given. -/
def IsChainOf (s : Source) (levels : Nat) (c : Cst) (t : Tree) : Prop :=
  ∃ op ts, c.child? .operator = some op
    ∧ t = .branch .boolOp c.line (.leaf (truthKind op.tag.name) c.line :: ts)
    ∧ List.Forall₂ (fun d u => expression s levels d .load = .ok u) (c.operands op.tag.name) ts

section

variable {s : Source} {operator : String} {c op : Cst} {t : Tree} {levels : Nat} {context : Kind}

/-- The pending trees hold the operands that are still to come, the topmost first. -/
theorem chainOperands_eq {pending : List Cst} (h : ∀ c ∈ pending, c.hasOperands = true) :
    chainOperands operator pending = (pending.flatMap (Cst.operands operator)).map .ok := by
  fun_induction chainOperands operator pending with
  | case1 => rfl
  | case2 c pending hlink hr =>
    obtain ⟨l, r, -, hright, -⟩ := Cst.exists_sides (h c List.mem_cons_self) hlink
    rw [hr] at hright
    cases hright
  | case3 c pending hlink r hr hl =>
    obtain ⟨l, r, hleft, -⟩ := Cst.exists_sides (h c List.mem_cons_self) hlink
    rw [hl] at hleft
    cases hleft
  | case4 c pending hlink r hr l hl ih =>
    obtain ⟨hc, hpending⟩ := List.forall_mem_cons.mp h
    obtain ⟨l', r', hl', hr', hlc, hrc⟩ := Cst.exists_sides hc hlink
    obtain rfl := Option.some.inj (hl.symm.trans hl')
    obtain rfl := Option.some.inj (hr.symm.trans hr')
    rw [ih (by simpa using ⟨hlc, hrc, hpending⟩), List.flatMap_cons, List.flatMap_cons,
      List.flatMap_cons, Cst.operands_of_link hlink, hl, hr]
    simp
  | case5 c pending hlink ih =>
    rw [ih (List.forall_mem_cons.mp h).2, List.flatMap_cons,
      Cst.operands_of_not_link (Bool.eq_false_iff.mpr hlink)]
    rfl

theorem expression_of_booleanOperator (htag : c.tag = .booleanOperator)
    (hop : c.child? .operator = some op) (hc : c.hasOperands = true) :
    expression s (levels + 1) c context = (do
      let ts ← (c.operands op.tag.name).mapM fun d => expression s levels d .load
      return .branch .boolOp c.line (.leaf (truthKind op.tag.name) c.line :: ts)) := by
  have hoperands : chainOperands op.tag.name [c] = (c.operands op.tag.name).map .ok := by
    rw [chainOperands_eq (List.forall_mem_singleton.mpr hc), List.flatMap_singleton]
  simp only [expression, expressionNode, htag, required, hop]
  change (do
    let ts ← (chainOperands op.tag.name [c]).mapM fun r => do expression s levels (← r) .load
    return _) = _
  rw [hoperands, List.mapM_map]
  rfl

theorem expression_eq_ok_iff (htag : c.tag = .booleanOperator) (hop : c.child? .operator = some op)
    (hc : c.hasOperands = true) :
    expression s (levels + 1) c context = .ok t ↔ IsChainOf s levels c t := by
  rw [expression_of_booleanOperator htag hop hc]
  simp only [bind_eq_ok, pure_eq_ok]
  constructor
  · rintro ⟨ts, hts, rfl⟩
    exact ⟨op, ts, hop, rfl, forall₂_of_mapM hts⟩
  · rintro ⟨op', ts, hop', rfl, hts⟩
    obtain rfl := Option.some.inj (hop.symm.trans hop')
    exact ⟨ts, mapM_of_forall₂ hts, rfl⟩

theorem expression_unbracketed (h : expression s levels c context = .ok t) :
    ∃ below, below < levels ∧ expression s (below + 1) c.unbracketed context = .ok t := by
  induction levels generalizing c with
  | zero => cases h
  | succ levels ih =>
    by_cases htag : c.tag = .parenthesizedExpression
    · simp only [expression, expressionNode, htag, bind_eq_ok] at h
      obtain ⟨d, hd, h⟩ := h
      obtain ⟨rest, hproper⟩ := firstProper_eq_ok.mp hd
      obtain ⟨below, hbelow, h⟩ := ih h
      refine ⟨below, Nat.lt_succ_of_lt hbelow, ?_⟩
      simpa [Cst.unbracketed_of_brackets htag, hproper] using h
    · rw [Cst.unbracketed_of_other htag]
      exact ⟨levels, Nat.lt_succ_self levels, h⟩

theorem isChainOf_unbracketed (hc : c.hasOperands = true)
    (htag : c.unbracketed.tag = .booleanOperator) (h : expression s levels c context = .ok t) :
    ∃ below, below < levels ∧ IsChainOf s below c.unbracketed t := by
  obtain ⟨below, hbelow, h⟩ := expression_unbracketed h
  obtain ⟨op, hop⟩ : ∃ op, c.unbracketed.child? .operator = some op := by
    simp only [expression, expressionNode, htag, bind_eq_ok, required_eq_ok] at h
    obtain ⟨op, hop, -⟩ := h
    exact ⟨op, hop⟩
  exact ⟨below, hbelow, (expression_eq_ok_iff htag hop (Cst.hasOperands_unbracketed hc)).mp h⟩

end

/-- Taking a chain apart with a stack gives the operands that the recursion finds, in the order of
the text and each once. They are lowered on the level below the chain, wherever they stand in it, and
if the chain is refused one of them is refused there. None of them goes on with the chain: one of
the other operation, or one in brackets, is lowered to a chain of its own. -/
theorem chain_flattened {s : Source} {c op : Cst} (htag : c.tag = .booleanOperator)
    (hop : c.child? .operator = some op) (hc : c.hasOperands = true) :
    chainOperands op.tag.name [c] = (c.operands op.tag.name).map .ok
    ∧ (∀ levels context t, expression s (levels + 1) c context = .ok t ↔ IsChainOf s levels c t)
    ∧ (∀ levels context e, expression s (levels + 1) c context = .error e →
        ∃ d ∈ c.operands op.tag.name, expression s levels d .load = .error e)
    ∧ ∀ d ∈ c.operands op.tag.name, isLink op.tag.name d = false
        ∧ ∀ levels u, expression s levels d .load = .ok u → d.unbracketed.tag = .booleanOperator →
          ∃ below, below < levels ∧ IsChainOf s below d.unbracketed u := by
  refine ⟨?_, fun levels context t => expression_eq_ok_iff htag hop hc, ?_, fun d hd => ⟨?_, ?_⟩⟩
  · rw [chainOperands_eq (List.forall_mem_singleton.mpr hc), List.flatMap_singleton]
  · intro levels context e h
    rw [expression_of_booleanOperator htag hop hc] at h
    rcases bind_eq_error.mp h with h | ⟨ts, -, h⟩
    · exact exists_of_mapM_error h
    · cases h
  · exact Cst.isLink_of_mem_operands hd
  · intro levels u hu hkind
    exact isChainOf_unbracketed (Cst.hasOperands_of_mem_operands hc hd) hkind hu

/-- A chain with an operand of the other operation and one in brackets. -/
def mixedChain : Source := Source.ofBytes "a and b or (c or d) or e".toUTF8

theorem lower_mixedChain : ∃ c op t, c.tag = .booleanOperator ∧ c.child? .operator = some op
    ∧ c.hasOperands = true ∧ expression mixedChain 199 c .load = .ok t
    ∧ (c.operands op.tag.name).map (fun d => (d.tag, d.unbracketed.tag))
      = [(.booleanOperator, .booleanOperator), (.parenthesizedExpression, .booleanOperator),
        (.identifier, .identifier)] := by
  have hread : ((Grammar.tree mixedChain).proper.flatMap Cst.proper).map (fun c : Cst => (c.tag,
        c.hasOperands && (expression mixedChain 199 c .load).toOption.isSome,
        (c.child? .operator).map fun op => (c.operands op.tag.name).map fun d =>
          (d.tag, d.unbracketed.tag)))
      = [(.booleanOperator, true, some [(.booleanOperator, .booleanOperator),
        (.parenthesizedExpression, .booleanOperator), (.identifier, .identifier)])] := by
    decide +kernel
  obtain ⟨c, -, hread⟩ := List.map_eq_singleton_iff.mp hread
  simp only [Prod.mk.injEq, Bool.and_eq_true, Option.map_eq_some_iff] at hread
  obtain ⟨htag, ⟨hc, hlowered⟩, op, hop, hoperands⟩ := hread
  obtain ⟨t, ht⟩ := exists_of_isSome hlowered
  exact ⟨c, op, t, htag, hop, hc, ht, hoperands⟩

theorem mixedChain_flattened : ∃ c op t, c.tag = .booleanOperator ∧ c.child? .operator = some op
    ∧ c.hasOperands = true ∧ expression mixedChain 199 c .load = .ok t
    ∧ IsChainOf mixedChain 198 c t ∧ ∃ d ∈ c.operands op.tag.name,
      d.tag = .parenthesizedExpression ∧ ∃ u below, expression mixedChain 198 d .load = .ok u
        ∧ IsChainOf mixedChain below d.unbracketed u := by
  obtain ⟨c, op, t, htag, hop, hc, h, hoperands⟩ := lower_mixedChain
  obtain ⟨-, hiff, -, hnested⟩ := chain_flattened (s := mixedChain) htag hop hc
  have hchain : IsChainOf mixedChain 198 c t := (hiff 198 .load t).mp h
  refine ⟨c, op, t, htag, hop, hc, h, hchain, ?_⟩
  -- The second operand is the one in brackets.
  obtain ⟨op', ts, hop', -, hts⟩ := hchain
  obtain rfl := Option.some.inj (hop.symm.trans hop')
  obtain ⟨d, hd, hkinds⟩ : ∃ d ∈ c.operands op.tag.name,
      (d.tag, d.unbracketed.tag) = (.parenthesizedExpression, .booleanOperator) := by
    rw [← List.mem_map, hoperands]
    exact List.mem_cons_of_mem _ List.mem_cons_self
  obtain ⟨hbrackets, hinner⟩ := Prod.mk.inj hkinds
  obtain ⟨u, -, hu⟩ := exists_of_mapM (mapM_of_forall₂ hts) d hd
  obtain ⟨below, -, hchain⟩ := (hnested d hd).2 198 u hu hinner
  exact ⟨d, hd, hbrackets, u, below, hu, hchain⟩

end Lowering
end Gatehouse
