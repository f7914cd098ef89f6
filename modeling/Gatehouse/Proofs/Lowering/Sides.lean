import Gatehouse.Linter
import Gatehouse.Proofs.Cst.Aims
import Gatehouse.Proofs.Lists
import Gatehouse.Proofs.Lowering.Assignment
import Gatehouse.Proofs.Lowering.Order

/-!
What lowered assignments assign to, wherever they stand. Left of each link in the text is something
that can be assigned to, and what it is lowered to binds one name at most, unless it is a tuple or a
list of targets.
-/
namespace Gatehouse

open Gatehouse.Tree

namespace Lowering

/-- A target that binds one name at most, unless it is a tuple or a list of targets. -/
def IsSide (t : Tree) : Prop :=
  t.kind = .tuple ∨ t.kind = .listDisplay ∨ (Linter.boundNames t).length ≤ 1

def IsSided (t : Tree) : Prop := t.kind = .assign → ∀ u ∈ t.children.dropLast, IsSide u

section

variable {s : Source} {levels line : Nat} {c d : Cst} {t : Tree}

theorem boundNames_of_isPlace (hc : c.tag.isPlace = true)
    (h : expression s levels c .store = .ok t) : (Linter.boundNames t).length ≤ 1 := by
  cases levels with
  | zero => cases h
  | succ levels =>
    rcases (expressed h).place hc with ⟨-, name, -, rfl⟩ | ⟨-, hkind⟩
    · exact Nat.le_refl 1
    · obtain ⟨kind, line, ident, ds, cs⟩ := t
      rcases hkind with rfl | rfl <;> exact Nat.zero_le 1

theorem isSide_of_isLeftSide (hc : c.isLeftSide = true)
    (h : expression s levels c .store = .ok t) : IsSide t := by
  rcases Cst.isLeftSide_iff.mp hc with hplace | ⟨hpattern, hsplat⟩
  · exact Or.inr (Or.inr (boundNames_of_isPlace hplace h))
  cases levels with
  | zero => cases h
  | succ levels =>
    obtain ⟨kind, us, rfl, ⟨hkind, -⟩ | ⟨rfl, htag, u, rfl, hu⟩⟩ := (expressed h).pattern hpattern
    · exact hkind.imp_right Or.inl
    · obtain ⟨inner, hinner, hu⟩ := hu
      obtain ⟨rest, hproper⟩ := firstProper_eq_ok.mp hinner
      have hplace := hsplat htag inner (hproper ▸ List.mem_cons_self)
      refine Or.inr (Or.inr ?_)
      simpa [Linter.boundNames, Linter.boundNames.boundNamesOf, inContext, branch, leaf] using
        boundNames_of_isPlace hplace hu

theorem isSided_of_assigned (haims : d.aims = true) (h : Assigned (expression s levels) d line t) :
    IsSided t := by
  cases h with
  | declared => exact nofun
  | chained _ hchained =>
    intro _
    rw [branch, children, List.dropLast_concat]
    refine forall_of_forall₂ hchained.targets fun link hlink u hu => ?_
    obtain ⟨left, hleft, hlowered⟩ := hu
    exact isSide_of_isLeftSide (Cst.isLeftSide_of_mem_links haims hlink hleft) hlowered

/-- Nothing but a chain without annotation is lowered to an assignment. -/
theorem isSided_of_stated {block : Cst → Result (List Tree)} {branches : List Cst → Result (List Tree)}
    (h : Stated s (expression s levels) block branches c t) (haims : c.aims = true) :
    IsSided t := by
  intro hkind
  cases h
  case assigned d htag hproper hd h =>
    have hdaims : d.aims = true :=
      Cst.aims_of_mem_proper haims (by rw [htag]; rfl) (hproper ▸ List.mem_singleton_self d)
    exact isSided_of_assigned hdaims h hkind
  case defined h | decorated h =>
    have hmem := h.mem_kinds
    simp [hkind] at hmem
  case forLoop | withBlock =>
    rw [branch, kind] at hkind
    split at hkind <;> cases hkind
  all_goals cases hkind

end

/-! ### Whole texts -/

/-- Whatever stands in a row that is gathered as a statement comes from what is held. -/
theorem forall_statements_of_gathers {P : Tree → Prop} {part : Tree → Prop}
    {gives : Held → List Tree → Prop} {n : Nat} {hs : List Held} {ts : List Tree}
    (h : Gathers part gives n hs ts) (hpart : ∀ t, part t → t.statements = [])
    (hgives : ∀ x ∈ hs, ∀ us, gives x us → ∀ u ∈ us.flatMap Tree.statements, P u) :
    ∀ u ∈ ts.flatMap Tree.statements, P u := by
  induction h with
  | nil => simp
  | part h _ ih =>
    rw [List.flatMap_cons, h.statements_eq_nil hpart, List.nil_append]
    exact ih hgives
  | held hus _ ih =>
    obtain ⟨hx, hgives⟩ := List.forall_mem_cons.mp hgives
    rw [List.flatMap_append, List.forall_mem_append]
    exact ⟨hx _ hus, ih hgives⟩
  | handler _ _ ihHandler ih =>
    obtain ⟨hfirst, hgives⟩ := List.forall_mem_append.mp hgives
    rw [List.flatMap_cons, branch, statements_of_isMinor rfl, List.forall_mem_append]
    exact ⟨ihHandler hfirst, ih hgives⟩

def StatementsSided (s : Source) (levels : Nat) : Prop :=
  ∀ {c t}, statement s levels c = .ok t → c.aims = true → ∀ u ∈ t.statements, IsSided u

def BranchesSided (s : Source) (levels : Nat) : Prop :=
  ∀ {cs ts}, branches s levels cs = .ok ts → (∀ c ∈ cs, c.aims = true) →
    ∀ u ∈ ts.flatMap statements, IsSided u

section

variable {s : Source} {levels : Nat} {c : Cst} {t : Tree}

theorem sided_of_mapM {cs : List Cst} {ts : List Tree} (h : StatementsSided s levels)
    (hts : cs.mapM (statement s levels) = .ok ts) (hcs : ∀ c ∈ cs, c.aims = true) :
    ∀ u ∈ ts.flatMap statements, IsSided u :=
  List.forall_mem_flatMap.mpr (forall_of_mapM hts fun c hc _ ht => h ht (hcs c hc))

theorem sided_of_gives (hstatements : StatementsSided s levels)
    (hbranches : BranchesSided s levels) {x : Held} (hx : x.Aims) {us : List Tree}
    (hus : gives (fun b => b.proper.mapM (statement s levels)) (branches s levels) x us) :
    ∀ u ∈ us.flatMap statements, IsSided u := by
  cases x with
  | block b => exact sided_of_mapM hstatements hus hx
  | branches cs => exact hbranches hus hx

theorem sided_of_otherwise {ts : List Tree} (h : StatementsSided s levels)
    (htag : c.tag = .elseClause) (hc : c.aims = true)
    (hts : body (fun b => b.proper.mapM (statement s levels)) c .body = .ok ts) :
    ∀ u ∈ ts.flatMap statements, IsSided u := by
  obtain ⟨b, hb, hts⟩ := bind_eq_ok.mp hts
  exact sided_of_mapM h hts (Cst.aims_heldBlock (r := .body) hc (by rw [htag]; rfl) rfl b
    (Option.mem_toList.mpr (required_eq_ok.mp hb)))

/-- A further condition is a statement with its block and the branches after it under it. -/
theorem sided_of_further {rest : List Cst} {test : Cst} {condition : Tree}
    {statements others : List Tree} (hbelow : StatementsSided s levels)
    (hrest : BranchesSided s levels) (htag : c.tag = .elifClause)
    (hcondition : expression s levels test .load = .ok condition)
    (hstatements : body (fun b => b.proper.mapM (statement s levels)) c .consequence
      = .ok statements)
    (hothers : branches s levels rest = .ok others) (hcs : ∀ d ∈ c :: rest, d.aims = true) :
    ∀ u ∈ [branch .ifElse c.line (condition :: statements ++ others)].flatMap Tree.statements,
      IsSided u := by
  obtain ⟨hc, hcs⟩ := List.forall_mem_cons.mp hcs
  have hblock : ∀ b ∈ c.blockIn .consequence, (Held.block b).Aims :=
    Cst.aims_heldBlock hc (by rw [htag]; rfl) rfl
  have hheld : ∀ x ∈ (c.blockIn .consequence).map .block ++ [Held.branches rest], x.Aims := by
    simp only [List.forall_mem_append, List.forall_mem_map, List.forall_mem_singleton]
    exact ⟨hblock, hcs⟩
  rw [List.flatMap_singleton, statements_of_isStatement rfl fun d hd => by cases hd]
  refine List.forall_mem_cons.mpr ⟨nofun, ?_⟩
  exact forall_statements_of_gathers (n := 0) (gathers_choice hcondition hstatements hothers)
    (fun _ => statements_member) fun x hx us => sided_of_gives hbelow hrest (hheld x hx)

theorem sided_levels (s : Source) (levels : Nat) :
    StatementsSided s levels ∧ BranchesSided s levels := by
  have hall : Throughout s levels (fun c t => c.aims = true → ∀ u ∈ t.statements, IsSided u)
      fun cs ts => (∀ c ∈ cs, c.aims = true) → ∀ u ∈ ts.flatMap Tree.statements, IsSided u := by
    apply throughout
    · intro n hbelow c t h hc
      obtain ⟨hstands, -⟩ := h.standsFor
      rw [statements_of_isStatement (isStatement_of_statementKinds hstands.kind)
        fun d hd => statements_member (hstands.decorators d hd)]
      have hheld := Cst.aims_of_held (Cst.aims_counted hc)
      refine List.forall_mem_cons.mpr ⟨isSided_of_stated h hc, ?_⟩
      exact forall_statements_of_gathers hstands.children (fun _ => statements_member)
        fun x hx us => sided_of_gives hbelow.statement hbelow.branches (hheld x hx)
    · intro n hhere hbelow cs ts h hcs
      cases h with
      | nil => simp
      | otherwise htag hts => exact sided_of_otherwise hhere htag (hcs _ List.mem_cons_self) hts
      | @further n _ _ _ _ _ _ htag _ hcondition hstatements hothers =>
        exact sided_of_further (hbelow n rfl).statement (hbelow n rfl).branches htag hcondition
          hstatements hothers hcs
  exact ⟨hall.statement, hall.branches⟩

theorem module_sided (h : module s c = .ok t) (htag : c.tag = .module) (hc : c.aims = true) :
    ∀ u ∈ t.statements, IsSided u := by
  simp only [module, bind_eq_ok, pure_eq_ok] at h
  obtain ⟨statements, hstatements, rfl⟩ := h
  have hall := sided_of_mapM (sided_levels s maxNesting).1 hstatements fun d hd =>
    Cst.aims_of_mem_proper hc (by rw [htag]; rfl) hd
  rw [statements_eq]
  simpa [branch, kind, children, decorators, Kind.isStatement] using hall

end

end Lowering
end Gatehouse
