import Gatehouse.Proofs.Lowering.Levels
import Gatehouse.Proofs.Lowering.Outline

/-!
Lowering keeps the statements of a text: a walk meets one for each node that counts as a statement,
in the order of the text and on its line. None is lost, none is met twice, and none is made of
anything else.
-/
namespace Gatehouse

open Gatehouse.Tree

/-- Statements of a tree, one for each node that counts, on its line and of one of its kinds. -/
def Matches (cs : List Cst) (ts : List Tree) : Prop :=
  List.Forall₂ (fun c t => t.line = c.line ∧ t.kind ∈ c.tag.statementKinds) cs ts

section

variable {part : Tree → Prop} {gives : Held → List Tree → Prop} {n : Nat}

theorem Matches.append {cs ds : List Cst} {ts us : List Tree} (h : Matches cs ts)
    (h' : Matches ds us) : Matches (cs ++ ds) (ts ++ us) :=
  List.rel_append h h'

theorem isStatement_of_statementKinds {tag : Tag} {kind : Kind} (h : kind ∈ tag.statementKinds) :
    kind.isStatement = true := by
  have hall : tag.statementKinds.all Kind.isStatement = true := by cases tag <;> rfl
  exact List.all_eq_true.mp hall kind h

/-- The statements of a row are those of what is held, in its order. -/
theorem Gathers.matches {hs : List Held} {ts : List Tree} (h : Gathers part gives n hs ts)
    (hpart : ∀ t, part t → t.statements = [])
    (hgives : ∀ x ∈ hs, ∀ us, gives x us → Matches x.statements (us.flatMap Tree.statements)) :
    Matches (hs.flatMap Held.statements) (ts.flatMap Tree.statements) := by
  induction h with
  | nil => exact .nil
  | part h _ ih =>
    rw [List.flatMap_cons, h.statements_eq_nil hpart, List.nil_append]
    exact ih hgives
  | @held n x hs us ts hus _ ih =>
    obtain ⟨hx, hgives⟩ := List.forall_mem_cons.mp hgives
    rw [List.flatMap_cons, List.flatMap_append]
    exact (hx us hus).append (ih hgives)
  | handler _ _ ihHandler ih =>
    obtain ⟨hfirst, hgives⟩ := List.forall_mem_append.mp hgives
    rw [List.flatMap_append, List.flatMap_cons, branch, statements_of_isMinor rfl]
    exact (ihHandler hfirst).append (ih hgives)

theorem StandsFor.matches {c : Cst} {t : Tree} (h : StandsFor part gives c t)
    (hc : c.arranged = true) (helif : c.tag ≠ .elifClause)
    (hpart : ∀ t, part t → t.statements = [])
    (hgives : ∀ x : Held, x.Arranged → ∀ us, gives x us →
      Matches x.statements (us.flatMap Tree.statements)) : Matches c.statements t.statements := by
  obtain ⟨hstatements, harranged⟩ :=
    Cst.statements_of_held hc (List.ne_nil_of_mem h.kind) helif
  rw [hstatements, statements_of_isStatement (isStatement_of_statementKinds h.kind)
    fun d hd => hpart d (h.decorators d hd)]
  exact .cons ⟨h.line, h.kind⟩ (h.children.matches hpart fun x hx => hgives x (harranged x hx))

end

namespace Lowering

variable {s : Source} {levels : Nat} {c : Cst} {t : Tree}

theorem statements_expression {context : Kind} (h : expression s levels c context = .ok t)
    (hcontext : context.isContext = true) : t.statements = [] := by
  induction levels generalizing c context t with
  | zero => cases h
  | succ levels ih =>
    refine ((expressed h).over hcontext).statements_eq_nil fun u hu => ?_
    obtain ⟨d, x, hx, hu⟩ := hu
    exact ih hu hx

theorem statements_member (h : IsMember (expression s levels) t) : t.statements = [] := by
  rcases h with ⟨d, context, hcontext, h⟩ | ⟨line, rfl⟩
  · exact statements_expression h hcontext
  · rfl

def StatementsMatch (s : Source) (levels : Nat) : Prop :=
  ∀ {c t}, statement s levels c = .ok t → c.arranged = true → Matches c.statements t.statements

def BranchesMatch (s : Source) (levels : Nat) : Prop :=
  ∀ {cs ts}, branches s levels cs = .ok ts → areAlternatives (cs.map Cst.place) = true →
    (∀ c ∈ cs, c.arranged = true) → Matches (cs.flatMap Cst.statements) (ts.flatMap statements)

theorem matches_of_mapM {cs : List Cst} {ts : List Tree} (h : StatementsMatch s levels)
    (hts : cs.mapM (statement s levels) = .ok ts) (hcs : ∀ c ∈ cs, c.arranged = true) :
    Matches (cs.flatMap Cst.statements) (ts.flatMap statements) := by
  induction cs generalizing ts with
  | nil =>
    obtain rfl := pure_eq_ok.mp hts
    exact .nil
  | cons c cs ih =>
    simp only [List.mapM_cons, bind_eq_ok, pure_eq_ok] at hts
    obtain ⟨t, ht, ts, hts, rfl⟩ := hts
    obtain ⟨hc, hcs⟩ := List.forall_mem_cons.mp hcs
    rw [List.flatMap_cons, List.flatMap_cons]
    exact (h ht hc).append (ih hts hcs)

theorem matches_of_block {b : Cst} {ts : List Tree} (h : StatementsMatch s levels)
    (hts : b.proper.mapM (statement s levels) = .ok ts) (hb : (Held.block b).Arranged) :
    Matches b.statements (ts.flatMap statements) := by
  obtain ⟨hstatements, hproper⟩ := Cst.statements_of_proper hb.2 (Or.inl hb.1)
  rw [hstatements]
  exact matches_of_mapM h hts hproper

/-- An `else` is the last branch, and its statements are those of its block. -/
theorem matches_of_otherwise {rest : List Cst} {ts : List Tree} (h : StatementsMatch s levels)
    (htag : c.tag = .elseClause)
    (hts : body (fun b => b.proper.mapM (statement s levels)) c .body = .ok ts)
    (hlast : areAlternatives ((c :: rest).map Cst.place) = true)
    (hc : ∀ d ∈ c :: rest, d.arranged = true) :
    Matches ((c :: rest).flatMap Cst.statements) (ts.flatMap statements) := by
  obtain ⟨b, hb, hblock, hstatements⟩ :=
    Cst.statements_of_elseClause (hc c List.mem_cons_self) htag
  obtain rfl : rest = [] := by
    cases rest with
    | nil => rfl
    | cons d rest => simp [areAlternatives, Cst.place, htag] at hlast
  obtain ⟨b', hb', hts⟩ := bind_eq_ok.mp hts
  obtain rfl := Option.some.inj (hb.symm.trans (required_eq_ok.mp hb'))
  rw [List.flatMap_singleton, hstatements]
  exact matches_of_block h hts hblock

theorem gives_matches (hstatements : StatementsMatch s levels) (hbranches : BranchesMatch s levels)
    {x : Held} (hx : x.Arranged) {us : List Tree}
    (hus : gives (fun b => b.proper.mapM (statement s levels)) (branches s levels) x us) :
    Matches x.statements (us.flatMap statements) := by
  cases x with
  | block b => exact matches_of_block hstatements hus hx
  | branches cs => exact hbranches hus hx.1 hx.2

/-- A further condition is a statement with its block and the branches after it under it. -/
theorem matches_of_further {rest : List Cst} {condition : Tree} {statements others : List Tree}
    (hbelow : StatementsMatch s levels) (hrest : BranchesMatch s levels) (htag : c.tag = .elifClause)
    {test : Cst} (hcondition : expression s levels test .load = .ok condition)
    (hstatements : body (fun b => b.proper.mapM (statement s levels)) c .consequence
      = .ok statements)
    (hothers : branches s levels rest = .ok others)
    (hlast : areAlternatives ((c :: rest).map Cst.place) = true)
    (hcs : ∀ d ∈ c :: rest, d.arranged = true) :
    Matches ((c :: rest).flatMap Cst.statements)
      ([branch .ifElse c.line (condition :: statements ++ others)].flatMap Tree.statements) := by
  obtain ⟨hc, hcs⟩ := List.forall_mem_cons.mp hcs
  obtain ⟨b, hb, hblock, helif⟩ := Cst.statements_of_elifClause hc htag
  have hrestLast : areAlternatives (rest.map Cst.place) = true := by
    cases rest with
    | nil => rfl
    | cons d rest => exact (Bool.and_eq_true_iff.mp hlast).2
  have harranged : ∀ x ∈ (c.blockIn .consequence).map .block ++ [Held.branches rest],
      x.Arranged := by
    rw [Cst.blockIn, hb]
    simpa using ⟨hblock, hrestLast, hcs⟩
  have hrow := (gathers_choice hcondition hstatements hothers).matches
    (n := 0) (fun _ => statements_member) fun x hx us =>
      gives_matches hbelow hrest (harranged x hx)
  rw [Cst.blockIn, hb] at hrow
  rw [List.flatMap_cons, helif, List.flatMap_singleton,
    statements_of_isStatement rfl fun d hd => by cases hd]
  refine .cons ⟨rfl, by simp [htag, Tag.statementKinds, branch, kind]⟩ ?_
  simpa [Held.statements, Matches, branch, children] using hrow

/-- Statements come out in order on every level. -/
theorem matches_levels (s : Source) (levels : Nat) :
    StatementsMatch s levels ∧ BranchesMatch s levels := by
  have hall : Throughout s levels
      (fun c t => c.arranged = true → Matches c.statements t.statements)
      fun cs ts => areAlternatives (cs.map Cst.place) = true → (∀ c ∈ cs, c.arranged = true) →
        Matches (cs.flatMap Cst.statements) (ts.flatMap Tree.statements) := by
    apply throughout
    · intro n hbelow c t h hc
      obtain ⟨hstands, helif⟩ := h.standsFor
      obtain ⟨hcounted, heq⟩ := Cst.statements_counted hc
      rw [heq]
      exact hstands.matches hcounted helif (fun _ => statements_member) fun x hx us =>
        gives_matches hbelow.statement hbelow.branches hx
    · intro n hhere hbelow cs ts h hlast hcs
      cases h with
      | nil => exact .nil
      | otherwise htag hts => exact matches_of_otherwise hhere htag hts hlast hcs
      | @further n _ _ _ _ _ _ htag _ hcondition hstatements hothers =>
        exact matches_of_further (hbelow n rfl).statement (hbelow n rfl).branches htag hcondition
          hstatements hothers hlast hcs
  exact ⟨hall.statement, hall.branches⟩

/-- The statements that a walk meets in a lowered text are those of the text, one for one and in its
order. -/
theorem module_matches (h : module s c = .ok t) (htag : c.tag = .module)
    (hc : c.arranged = true) : Matches c.statements t.statements := by
  simp only [module, bind_eq_ok, pure_eq_ok] at h
  obtain ⟨statements, hstatements, rfl⟩ := h
  obtain ⟨hproper, harranged⟩ := Cst.statements_of_proper hc (Or.inr htag)
  rw [hproper, statements_eq]
  simpa [branch, kind, children, decorators, Kind.isStatement] using
    matches_of_mapM (matches_levels s maxNesting).1 hstatements harranged

/-- Statements in blocks of most kinds, under a decorator that stands on a line of its own. -/
def blocks : Source := Source.ofBytes ("@m\ndef f(a):\n for b in a:\n  if b: pass\n  elif a: break\n"
  ++ "  else: c\n else: d\n try: e\n except g: h\n finally: i").toUTF8

theorem lower_blocks :
    (Grammar.tree blocks).tag = .module ∧ (Grammar.tree blocks).arranged = true
      ∧ ((module blocks (Grammar.tree blocks)).toOption.map fun t =>
          t.statements.map fun u => (u.kind, u.line))
        = some [(.functionDef, 2), (.forEach, 3), (.ifElse, 4), (.pass, 4), (.ifElse, 5),
          (.breakLoop, 5), (.expr, 6), (.expr, 7), (.tryExcept, 8), (.expr, 8), (.expr, 9),
          (.expr, 10)] := by
  rw [module_eq]
  decide +kernel

theorem blocks_match : ∃ t, module blocks (Grammar.tree blocks) = .ok t
    ∧ Matches (Grammar.tree blocks).statements t.statements ∧ t.statements.length = 12 := by
  obtain ⟨htag, harranged, hlowered⟩ := lower_blocks
  cases h : module blocks (Grammar.tree blocks) with
  | error e =>
    rw [h] at hlowered
    cases hlowered
  | ok t =>
    rw [h] at hlowered
    have hlength := congrArg List.length (Option.some.inj hlowered)
    rw [List.length_map] at hlength
    exact ⟨t, rfl, module_matches h htag harranged, hlength⟩

end Lowering
end Gatehouse
