import Gatehouse.Proofs.Lowering.Kinds
import Gatehouse.Proofs.Tree.Contexts

/-!
Lowering hands contexts down: every name of an expression that is lowered in a context has the
context under it that its place calls for, however deep it stands.
-/
namespace Gatehouse.Lowering

open Gatehouse.Tree

def LowersShown (lower : Cst → Kind → Result Tree) : Prop :=
  ∀ {c : Cst} {context : Kind} {t : Tree}, lower c context = .ok t → context.isContext = true →
    t.Shows context

theorem isReader_of_isOperator {kind : Kind} (h : kind.isOperator = true) :
    kind.isReader = true := by
  cases kind <;> first
    | rfl
    | cases h

theorem isReader_of_mem_textKinds {kind : Kind} (h : kind ∈ textKinds) : kind.isReader = true := by
  simp only [textKinds, List.mem_cons, List.not_mem_nil, or_false] at h
  rcases h with rfl | rfl | rfl <;> rfl

section

variable {s : Source} {lower : Cst → Kind → Result Tree} {c : Cst} {context : Kind} {t : Tree}
  {ts : List Tree} (hlower : LowersShown lower)

include hlower

theorem shows_of_under (h : LowersUnder lower context c t) (hcontext : context.isContext = true) :
    t.Shows context := by
  obtain ⟨d, -, h⟩ := h
  exact hlower h hcontext

theorem shows_of_proper (h : lowerAll lower context c.proper = .ok ts)
    (hcontext : context.isContext = true) : ∀ t ∈ ts, t.Shows context :=
  fun t ht => shows_of_under hlower (under_of_proper h t ht) hcontext

theorem shows_over_value {kind : Kind} {line : Nat} {ident : Option String}
    (hkind : kind.isReader = true) (h : LowersUnder lower .load c t) :
    (node kind line ident [] [t]).Shows context :=
  (shows_reader_iff hkind).mpr (List.forall_mem_singleton.mpr (shows_of_under hlower h rfl))

/-! ### Subscripts, comprehensions and parameters -/

theorem IsSubscript.shows (h : IsSubscript lower c t) : t.Shows .load := by
  cases h with
  | slice _ hbounds => exact (shows_reader_iff rfl).mpr (shows_of_proper hlower hbounds rfl)
  | value h => exact hlower h rfl

theorem AreSubscripts.shows {line : Nat} {cs : List Cst} (h : AreSubscripts lower line cs t) :
    t.Shows .load := by
  cases h with
  | slice _ hbounds => exact (shows_reader_iff rfl).mpr (shows_of_proper hlower hbounds rfl)
  | index hvalue =>
    exact (shows_reader_iff rfl).mpr (List.forall_mem_singleton.mpr (hlower hvalue rfl))
  | several hparts =>
    have hall := forall_of_forall₂ hparts fun _ _ _ hpart => hpart.shows hlower
    exact (shows_reader_iff rfl).mpr
      (List.forall_mem_singleton.mpr (shows_inContext rfl rfl hall))

theorem RunsOver.shows (h : RunsOver lower c t) : t.Shows .load := by
  rcases h with h | ⟨line, ts, rfl, hts⟩
  · exact shows_of_under hlower h rfl
  · exact shows_inContext rfl rfl fun u hu => shows_of_under hlower (hts u hu) rfl

theorem shows_round {line : Nat} {target values : Tree} (htarget : LowersUnder lower .store c target)
    (hvalues : RunsOver lower c values) (hts : ∀ u ∈ ts, LowersUnder lower .load c u) :
    (branch .comprehension line (target :: values :: ts)).Shows .load :=
  shows_binder rfl (shows_of_under hlower htarget rfl) (List.forall_mem_cons.mpr
    ⟨hvalues.shows hlower, fun v hv => shows_of_under hlower (hts v hv) rfl⟩)

theorem ParameterOf.shows (h : ParameterOf s lower c t) : t.Shows .load := by
  obtain ⟨line, name, types, rfl, -, htypes⟩ := h.types
  exact (shows_reader_iff rfl).mpr fun u hu => shows_of_under hlower (htypes u hu) rfl

theorem AreParameters.shows {list : Option Cst} {line : Nat} (h : AreParameters s lower list line t) :
    t.Shows .load := by
  cases list with
  | none =>
    obtain rfl := h
    exact shows_leaf rfl
  | some c =>
    obtain ⟨names, defaults, rfl, hnames, hdefaults⟩ := h.parts
    refine (shows_reader_iff rfl).mpr (List.forall_mem_append.mpr ⟨fun u hu => ?_, fun u hu => ?_⟩)
    · obtain ⟨d, -, hu⟩ := hnames u hu
      exact hu.shows hlower
    · exact shows_of_under hlower (hdefaults u hu) rfl

/-! ### All expressions -/

theorem Expressed.shows (h : Expressed s lower c context t) (hcontext : context.isContext = true) :
    t.Shows context := by
  have hread : ∀ {u : Tree}, LowersUnder lower .load c u → u.Shows .load :=
    fun hu => shows_of_under hlower hu rfl
  have hleaf : ∀ {x line}, (leaf context line).Shows x :=
    shows_leaf (Kind.isReader_of_isContext hcontext)
  have hoperator : ∀ {op : Kind}, op.isOperator = true → (leaf op c.line).Shows .load :=
    fun hop => shows_leaf (isReader_of_isOperator hop)
  cases h with
  | @name name => exact shows_named name
  | access _ hvalue => exact (shows_reader_iff rfl).mpr (by simp [hread hvalue.under, hleaf])
  | subscript _ hvalue hpart =>
    exact (shows_reader_iff rfl).mpr
      (by simp [hread hvalue.under, hpart.shows hlower, hleaf])
  | call _ h =>
    obtain ⟨callee, given, rfl, hcallee, hgiven⟩ := h.all (p := Tree.Shows .load)
      (fun _ hu => hread hu) fun _ _ _ _ hu => shows_over_value hlower rfl hu
    exact (shows_reader_iff rfl).mpr (List.forall_mem_cons.mpr ⟨hread hcallee, hgiven⟩)
  | binary _ _ hkind hleft hright =>
    have hop := hoperator (Kind.isOperator_of_isBinary (isBinary_of_binaryKind? hkind))
    exact (shows_reader_iff rfl).mpr (by simp [hread hleft.under, hread hright.under, hop])
  | unary _ _ hkind hvalue =>
    have hop := hoperator (Kind.isOperator_of_isUnary (isUnary_of_unaryKind? hkind))
    exact (shows_reader_iff rfl).mpr (by simp [hread hvalue.under, hop])
  | negation _ hvalue =>
    have hop : Kind.notOf.isOperator = true := rfl
    exact (shows_reader_iff rfl).mpr (by simp [hread hvalue.under, hoperator hop])
  | chain _ _ hoperands =>
    exact (shows_reader_iff rfl).mpr (List.forall_mem_cons.mpr
      ⟨hoperator (isOperator_truthKind _), fun u hu => hread (under_of_chainOperands hoperands u hu)⟩)
  | comparison _ h =>
    obtain ⟨ts, rfl, hts⟩ := h.all (p := Tree.Shows .load) (fun _ hu => hread hu)
      fun _ hop => hoperator hop
    exact (shows_reader_iff rfl).mpr hts
  | number | constant => exact (shows_reader_iff rfl).mpr fun u hu => by cases hu
  | string _ hkind => exact shows_leaf (isReader_of_mem_textKinds (mem_textKinds_of_stringKind hkind))
  | strings _ hkind =>
    exact shows_leaf (isReader_of_mem_textKinds (mem_textKinds_of_joinedKind hkind (by decide)))
  | ellipsis => exact shows_leaf rfl
  | listDisplay _ hts | tuple _ hts =>
    exact shows_inContext rfl hcontext (shows_of_proper hlower hts hcontext)
  | setDisplay _ hts => exact (shows_reader_iff rfl).mpr (shows_of_proper hlower hts rfl)
  | dictionary _ heach =>
    exact (shows_reader_iff rfl).mpr (all_of_entries heach fun u hu => hread hu)
  | comprehension hkind hbody helement hloops =>
    have hcs := all_of_comprehension hbody helement hloops (fun u hu => hread hu)
      fun _ _ _ _ => shows_round hlower
    unfold Tag.comprehensionKind? at hkind
    split at hkind <;> cases hkind <;> exact (shows_reader_iff rfl).mpr hcs
  | wrapped _ h => exact shows_of_under hlower h.under hcontext
  | starred _ hvalue =>
    exact shows_handsOn rfl (by simp [shows_of_under hlower hvalue.under hcontext, hleaf])
  | choice _ _ hbody htest hother =>
    exact (shows_reader_iff rfl).mpr
      (by simp [hlower hbody rfl, hlower htest rfl, hlower hother rfl])
  | lambda _ hgiven hvalue =>
    exact (shows_reader_iff rfl).mpr
      (by simp [hgiven.shows hlower, hread hvalue.under])
  | naming _ hkey hvalue =>
    exact shows_binder rfl (shows_of_under hlower hkey.under rfl)
      (List.forall_mem_singleton.mpr (hread hvalue.under))
  | await _ hvalue => exact shows_over_value hlower rfl hvalue.under
  | yield _ hts =>
    have hreader : (if c.hasToken "from" then Kind.yieldFrom else .yield).isReader = true := by
      split <;> rfl
    exact (shows_reader_iff hreader).mpr (shows_of_proper hlower hts rfl)

end

theorem lowersShown_expression (s : Source) (levels : Nat) : LowersShown (expression s levels) := by
  induction levels with
  | zero => exact fun h => by cases h
  | succ levels ih => exact fun h hcontext => (expressed h).shows ih hcontext

end Gatehouse.Lowering
