import Gatehouse.Proofs.Lowering.Kinds
import Gatehouse.Proofs.Tree.Height
import Gatehouse.Proofs.Tree.Statements

/-!
One level of an expression is lowered to four layers of nodes at most, and none of them is a
statement. What stands below these layers is lowered with a level less.
-/
namespace Gatehouse

/-- At most `n` layers of nodes of minor kinds over parts. -/
inductive Tree.Over (part : Tree → Prop) : Nat → Tree → Prop
  | part {n : Nat} {t : Tree} (h : part t) : Over part n t
  | node {n : Nat} {kind : Kind} {line : Nat} {ident : Option String} {cs : List Tree}
      (hkind : kind.isMinor = true) (hcs : ∀ c ∈ cs, Over part n c) :
      Over part (n + 1) (.node kind line ident [] cs)

namespace Tree

section

variable {part : Tree → Prop} {m n : Nat} {t : Tree} {ts : List Tree} {kind context : Kind}
  {line : Nat}

theorem Over.mono (h : Over part m t) (hmn : m ≤ n) : Over part n t := by
  induction h generalizing n with
  | part h => exact .part h
  | node hkind _ ih =>
    obtain ⟨k, rfl⟩ := Nat.exists_eq_add_of_le' (Nat.le_trans (Nat.succ_le_succ (Nat.zero_le _)) hmn)
    exact .node hkind fun c hc => ih c hc (Nat.le_of_succ_le_succ hmn)

theorem Over.of_parts {other : Tree → Prop} (h : Over part n t) (hpart : ∀ t, part t → other t) :
    Over other n t := by
  induction h with
  | part h => exact .part (hpart _ h)
  | node hkind _ ih => exact .node hkind ih

theorem over_leaf (hkind : kind.isMinor = true) : Over part (n + 1) (leaf kind line) :=
  .node hkind fun c hc => (by cases hc)

theorem over_branch (hkind : kind.isMinor = true) (hts : ∀ t ∈ ts, Over part n t) :
    Over part (n + 1) (branch kind line ts) :=
  .node hkind hts

theorem over_named {name : String} (hkind : kind.isMinor = true) (hts : ∀ t ∈ ts, Over part n t) :
    Over part (n + 1) (named kind line name ts) :=
  .node hkind hts

theorem over_inContext (hkind : kind.isMinor = true) (hcontext : context.isContext = true)
    (hts : ∀ t ∈ ts, Over part (n + 1) t) :
    Over part (n + 2) (Lowering.inContext kind line ts context) :=
  .node hkind (List.forall_mem_append.mpr ⟨hts,
    List.forall_mem_singleton.mpr (over_leaf (Kind.isMinor_of_isContext hcontext))⟩)

theorem Over.height_le {k : Nat} (h : Over part n t) (hpart : ∀ t, part t → t.height ≤ k) :
    t.height ≤ k + n := by
  induction h with
  | part h => exact Nat.le_add_right_of_le (hpart _ h)
  | node _ _ ih => exact height_le_succ_iff.mpr (by simpa [parts, decorators, children] using ih)

theorem Over.statements_eq_nil (h : Over part n t) (hpart : ∀ t, part t → t.statements = []) :
    t.statements = [] := by
  induction h with
  | part h => exact hpart _ h
  | node hkind _ ih =>
    rw [statements_of_isMinor hkind]
    exact List.flatMap_eq_nil_iff.mpr ih

end

end Tree

theorem Kind.isMinor_of_isOperator {kind : Kind} (h : kind.isOperator = true) :
    kind.isMinor = true := by
  cases kind <;> first
    | rfl
    | cases h

namespace Lowering

open Gatehouse.Tree

def Lowers (lower : Cst → Kind → Result Tree) (t : Tree) : Prop :=
  ∃ c context, context.isContext = true ∧ lower c context = .ok t

section

variable {s : Source} {lower : Cst → Kind → Result Tree} {c : Cst} {context : Kind} {t : Tree}
  {ts : List Tree} {n : Nat}

theorem over_lower (h : lower c context = .ok t) (hcontext : context.isContext = true) :
    Over (Lowers lower) n t :=
  .part ⟨c, context, hcontext, h⟩

theorem over_of_under (h : LowersUnder lower context c t) (hcontext : context.isContext = true) :
    Over (Lowers lower) n t := by
  obtain ⟨d, -, h⟩ := h
  exact over_lower h hcontext

theorem over_lowerAll {cs : List Cst} (h : lowerAll lower context cs = .ok ts)
    (hcontext : context.isContext = true) : ∀ t ∈ ts, Over (Lowers lower) n t :=
  forall_of_mapM h fun _ _ _ ht => over_lower ht hcontext

theorem over_operator {op : Kind} {line : Nat} (hop : op.isOperator = true) :
    Over (Lowers lower) (n + 1) (leaf op line) :=
  over_leaf (Kind.isMinor_of_isOperator hop)

theorem isMinor_of_mem_textKinds {kind : Kind} (h : kind ∈ textKinds) : kind.isMinor = true := by
  simp only [textKinds, List.mem_cons, List.not_mem_nil, or_false] at h
  rcases h with rfl | rfl | rfl <;> rfl

/-! ### Subscripts, comprehensions and parameters -/

theorem IsSubscript.over (h : IsSubscript lower c t) : Over (Lowers lower) 1 t := by
  cases h with
  | slice _ hbounds => exact over_branch rfl (over_lowerAll hbounds rfl)
  | value h => exact over_lower h rfl

theorem AreSubscripts.over {line : Nat} {cs : List Cst} (h : AreSubscripts lower line cs t) :
    Over (Lowers lower) 3 t := by
  cases h with
  | slice _ hbounds => exact over_branch rfl (over_lowerAll hbounds rfl)
  | index hvalue => exact over_branch rfl (List.forall_mem_singleton.mpr (over_lower hvalue rfl))
  | several hparts =>
    have hall := forall_of_forall₂ hparts fun _ _ _ hpart => hpart.over
    exact over_branch rfl (List.forall_mem_singleton.mpr (over_inContext rfl rfl hall))

theorem over_keyword {line : Nat} {ident : Option String} (h : LowersUnder lower .load c t) :
    Over (Lowers lower) 1 (node .keyword line ident [] [t]) :=
  .node rfl (List.forall_mem_singleton.mpr (over_of_under h rfl))

theorem AreArguments.over (h : AreArguments s lower c ts) : ∀ t ∈ ts, Over (Lowers lower) 1 t :=
  h.all (fun _ hu => over_of_under hu rfl) fun _ _ _ _ hu => over_keyword hu

theorem IsCall.over (h : IsCall s lower c t) : Over (Lowers lower) 2 t := by
  obtain ⟨callee, given, rfl, hcallee, hgiven⟩ := h.all (p := Over (Lowers lower) 1)
    (fun _ hu => over_of_under hu rfl) fun _ _ _ _ hu => over_keyword hu
  exact over_branch rfl (List.forall_mem_cons.mpr ⟨over_of_under hcallee rfl, hgiven⟩)

theorem RunsOver.over (h : RunsOver lower c t) : Over (Lowers lower) 2 t := by
  rcases h with h | ⟨line, ts, rfl, hts⟩
  · exact over_of_under h rfl
  · exact over_inContext rfl rfl fun u hu => over_of_under (hts u hu) rfl

theorem over_round {line : Nat} {target values : Tree} (htarget : LowersUnder lower .store c target)
    (hvalues : RunsOver lower c values) (hts : ∀ u ∈ ts, LowersUnder lower .load c u) :
    Over (Lowers lower) 3 (branch .comprehension line (target :: values :: ts)) :=
  over_branch rfl (List.forall_mem_cons.mpr ⟨over_of_under htarget rfl,
    List.forall_mem_cons.mpr ⟨hvalues.over, fun v hv => over_of_under (hts v hv) rfl⟩⟩)

theorem ParameterOf.over (h : ParameterOf s lower c t) : Over (Lowers lower) 1 t := by
  obtain ⟨line, name, types, rfl, -, htypes⟩ := h.types
  exact over_named rfl fun u hu => over_of_under (htypes u hu) rfl

theorem AreParameters.over {list : Option Cst} {line : Nat} (h : AreParameters s lower list line t) :
    Over (Lowers lower) 2 t := by
  cases list with
  | none =>
    obtain rfl := h
    exact over_leaf rfl
  | some c =>
    obtain ⟨names, defaults, rfl, hnames, hdefaults⟩ := h.parts
    refine over_branch rfl (List.forall_mem_append.mpr ⟨fun u hu => ?_, fun u hu => ?_⟩)
    · obtain ⟨d, -, hu⟩ := hnames u hu
      exact hu.over
    · exact over_of_under (hdefaults u hu) rfl

/-! ### All expressions -/

/-- An expression is lowered to four layers at most over what is lowered under it. -/
theorem Expressed.over (h : Expressed s lower c context t) (hcontext : context.isContext = true) :
    Over (Lowers lower) 4 t := by
  have hminor := Kind.isMinor_of_isContext hcontext
  have hpart : ∀ {u : Tree}, LowersUnder lower .load c u → Over (Lowers lower) 3 u :=
    fun hu => over_of_under hu rfl
  cases h with
  | name => exact over_named rfl (List.forall_mem_singleton.mpr (over_leaf hminor))
  | access _ hvalue => exact over_named rfl (by simp [hpart hvalue.under, over_leaf hminor])
  | subscript _ hvalue hbrackets =>
    exact over_branch rfl (by simp [hpart hvalue.under, hbrackets.over, over_leaf hminor])
  | call _ h => exact h.over.mono (by decide)
  | binary _ _ hkind hleft hright =>
    have hop := Kind.isOperator_of_isBinary (isBinary_of_binaryKind? hkind)
    exact over_branch rfl (by simp [hpart hleft.under, hpart hright.under, over_operator hop])
  | unary _ _ hkind hvalue =>
    have hop := Kind.isOperator_of_isUnary (isUnary_of_unaryKind? hkind)
    exact over_branch rfl (by simp [hpart hvalue.under, over_operator hop])
  | negation _ hvalue =>
    have hop : Kind.notOf.isOperator = true := rfl
    exact over_branch rfl (by simp [hpart hvalue.under, over_operator hop])
  | chain _ _ hoperands =>
    exact over_branch rfl (List.forall_mem_cons.mpr ⟨over_operator (isOperator_truthKind _),
      fun u hu => hpart (under_of_chainOperands hoperands u hu)⟩)
  | comparison _ h =>
    obtain ⟨ts, rfl, hts⟩ := h.all (p := Over (Lowers lower) 3) (fun _ hu => hpart hu)
      fun _ hop => over_operator hop
    exact over_branch rfl hts
  | number | constant => exact over_named rfl fun u hu => (by cases hu)
  | string _ hkind => exact over_leaf (isMinor_of_mem_textKinds (mem_textKinds_of_stringKind hkind))
  | strings _ hkind =>
    exact over_leaf (isMinor_of_mem_textKinds (mem_textKinds_of_joinedKind hkind (by decide)))
  | ellipsis => exact over_leaf rfl
  | listDisplay _ hts | tuple _ hts =>
    exact over_inContext rfl hcontext (over_lowerAll hts hcontext)
  | setDisplay _ hts => exact over_branch rfl (over_lowerAll hts rfl)
  | dictionary _ heach => exact over_branch rfl (all_of_entries heach fun u hu => hpart hu)
  | comprehension hkind hbody helement hloops =>
    have hcs := all_of_comprehension hbody helement hloops (fun u hu => hpart hu)
      fun _ _ _ _ => over_round
    unfold Tag.comprehensionKind? at hkind
    split at hkind <;> cases hkind <;> exact over_branch rfl hcs
  | wrapped _ h => exact over_of_under h.under hcontext
  | starred _ hvalue =>
    exact over_branch rfl (List.forall_mem_cons.mpr ⟨over_of_under hvalue.under hcontext,
      List.forall_mem_singleton.mpr (over_leaf hminor)⟩)
  | choice _ _ hbody htest hother =>
    have hpart : ∀ {d : Cst} {u : Tree}, lower d .load = .ok u → Over (Lowers lower) 3 u :=
      fun hu => over_lower hu rfl
    exact over_branch rfl (by simp [hpart hbody, hpart htest, hpart hother])
  | lambda _ hgiven hvalue =>
    have hg : Over (Lowers lower) 3 _ := hgiven.over.mono (by decide)
    exact over_branch rfl (by simp [hg, hpart hvalue.under])
  | naming _ hkey hvalue =>
    exact over_branch rfl (List.forall_mem_cons.mpr ⟨over_of_under hkey.under rfl,
      List.forall_mem_singleton.mpr (hpart hvalue.under)⟩)
  | await _ hvalue => exact over_branch rfl (List.forall_mem_singleton.mpr (hpart hvalue.under))
  | yield _ hts =>
    have hkind : (if c.hasToken "from" then Kind.yieldFrom else .yield).isMinor = true := by
      split <;> rfl
    exact over_branch hkind (over_lowerAll hts rfl)

end

end Lowering
end Gatehouse
