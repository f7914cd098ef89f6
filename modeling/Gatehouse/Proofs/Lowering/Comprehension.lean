import Gatehouse.Proofs.Lowering.Kinds
import Gatehouse.Proofs.Lowering.Rounds

/-!
The clauses of comprehensions can be read back from the nodes of their rounds.
-/
namespace Gatehouse

open Gatehouse.Tree

namespace Tree

def roundClauses (t : Tree) : List Clause :=
  match t.children with
  | target :: values :: conditions => .loop target values :: conditions.map .condition
  | _ => []

/-- The clauses of a lowered comprehension. What it collects comes before its rounds and is of another
kind. -/
def clauses (t : Tree) : List Clause :=
  (t.children.filter (·.kind = .comprehension)).flatMap roundClauses

end Tree

namespace Lowering

section

variable {s : Source} {lower : Cst → Kind → Result Tree} {c : Cst} {t : Tree} {ts loops : List Tree}
  {kind : Kind} {levels : Nat} {context : Kind}

theorem IsRound.clauses {r : Round} (h : IsRound lower r t) :
    t.kind = .comprehension ∧ List.Forall₂ (IsClause lower) r.clauses t.roundClauses := by
  obtain ⟨target, values, tests, rfl, hloop, htests⟩ := h
  exact ⟨rfl, .cons hloop (List.forall₂_map_right_iff.mpr htests)⟩

theorem forall₂_clauses {rs : List Round} (h : List.Forall₂ (IsRound lower) rs loops) :
    List.Forall₂ (IsClause lower) (rs.flatMap Round.clauses)
      ((loops.filter (·.kind = .comprehension)).flatMap roundClauses) := by
  induction h with
  | nil => exact .nil
  | cons hround _ ih =>
    obtain ⟨hkind, hclauses⟩ := hround.clauses
    rw [List.flatMap_cons, List.filter_cons_of_pos (by simp [hkind]), List.flatMap_cons]
    exact List.rel_append hclauses ih

theorem IsElement.not_round (helement : IsElement (expression s levels) c ts) :
    ts.filter (·.kind = .comprehension) = [] := by
  have hother : ∀ {d : Cst} {u : Tree}, expression s levels d .load = .ok u →
      u.kind ≠ .comprehension := by
    intro d u hu hkind
    have hexpression := isExpression_of_expression hu
    rw [hkind] at hexpression
    cases hexpression
  rcases helement with ⟨-, key, value, rfl, ⟨d, -, hkey⟩, ⟨e, -, hvalue⟩⟩ | ⟨-, value, rfl, hvalue⟩
  · simp [hother hkey, hother hvalue]
  · simp [hother hvalue]

theorem expression_of_comprehension (hkind : c.tag.comprehensionKind? = some kind) :
    expression s (levels + 1) c context = comprehension (expression s levels) kind c := by
  cases htag : c.tag <;> simp only [htag, Tag.comprehensionKind?, Option.some.injEq, reduceCtorEq]
    at hkind
  all_goals
    subst hkind
    simp only [expression, expressionNode, htag]

end

/-- A comprehension is lowered to what it collects, and after that a node for each round of its
clauses, in the order of the text: what the loop binds, what it runs over, and the conditions that
stand between this loop and the next. No clause is left out, and all can be read back from the
nodes. A comprehension whose clauses begin with a condition is refused. -/
theorem comprehension_rounds {s : Source} {c body : Cst} {clauses : List Cst} {kind : Kind}
    (hkind : c.tag.comprehensionKind? = some kind) (hheaded : Cst.Headed .body c.children)
    (hproper : c.proper = body :: clauses) :
    (∀ levels context t, expression s (levels + 1) c context = .ok t →
      (∃ element loops, t = .branch kind c.line (element ++ loops)
        ∧ IsElement (expression s levels) body element
        ∧ List.Forall₂ (IsRound (expression s levels)) (rounds clauses) loops)
      ∧ (rounds clauses).flatMap Round.clauses = clauses
      ∧ List.Forall₂ (IsClause (expression s levels)) clauses t.clauses)
    ∧ (∀ first rest, clauses = first :: rest → first.tag = .ifClause →
      ∀ levels context, ∃ e, expression s levels c context = .error e) := by
  have hbody := hheaded.child? hproper
  refine ⟨fun levels context t h => ?_, fun first rest hclauses hfirst levels context => ?_⟩
  · rw [expression_of_comprehension hkind] at h
    obtain ⟨element, loops, rfl, helement, hloops⟩ := comprehension_eq_ok hbody h
    rw [hproper, List.drop_one, List.tail_cons] at hloops
    obtain ⟨hrounds, hall⟩ := forall₂_isRound hloops
    refine ⟨⟨element, loops, rfl, helement, hrounds⟩, hall, ?_⟩
    have hclauses := forall₂_clauses hrounds
    rw [hall] at hclauses
    rwa [Tree.clauses, branch, children, List.filter_append, helement.not_round, List.nil_append]
  · cases levels with
    | zero => exact ⟨_, rfl⟩
    | succ levels =>
      cases h : expression s (levels + 1) c context with
      | error e => exact ⟨e, rfl⟩
      | ok t =>
        rw [expression_of_comprehension hkind] at h
        obtain ⟨element, loops, -, -, hloops⟩ := comprehension_eq_ok hbody h
        rw [hproper, List.drop_one, List.tail_cons, hclauses, List.foldlM_cons, bind_eq_ok] at hloops
        obtain ⟨next, hnext, -⟩ := hloops
        exact absurd hnext (clause_nil hfirst)

/-- A comprehension of two rounds, the first with two conditions and the second with one. -/
def twoRounds : Source := Source.ofBytes "[a for b in c if d if e for f in g if h]".toUTF8

theorem lower_twoRounds : ∃ c body clauses t, c.tag.comprehensionKind? = some .listComp
    ∧ Cst.Headed .body c.children ∧ c.proper = body :: clauses
    ∧ clauses.map Cst.tag = [.forInClause, .ifClause, .ifClause, .forInClause, .ifClause]
    ∧ expression twoRounds 199 c .load = .ok t := by
  have hread : ((Grammar.tree twoRounds).proper.flatMap Cst.proper).map (fun c : Cst =>
        (c.tag, c.proper.map Cst.tag, Cst.countIn .body c.children == 1
          && c.proper.head?.any (·.role == some .body)
          && (expression twoRounds 199 c .load).toOption.isSome))
      = [(.listComprehension, [.identifier, .forInClause, .ifClause, .ifClause, .forInClause,
        .ifClause], true)] := by
    decide +kernel
  obtain ⟨c, -, hread⟩ := List.map_eq_singleton_iff.mp hread
  simp only [Prod.mk.injEq, Bool.and_eq_true, beq_iff_eq] at hread
  obtain ⟨htag, htags, ⟨hcount, hfirst⟩, hlowered⟩ := hread
  obtain ⟨body, clauses, hproper, -, hclauses⟩ := List.map_eq_cons_iff.mp htags
  have hheaded : Cst.Headed .body c.children := ⟨Nat.le_of_eq hcount, fun first rest heq => by
    obtain ⟨rfl, -⟩ := List.cons.inj (hproper.symm.trans heq)
    simpa [hproper] using hfirst⟩
  obtain ⟨t, ht⟩ := exists_of_isSome hlowered
  exact ⟨c, body, clauses, t, by rw [htag]; rfl, hheaded, hproper, hclauses, ht⟩

theorem twoRounds_read : ∃ c body clauses t, c.tag.comprehensionKind? = some .listComp
    ∧ Cst.Headed .body c.children ∧ c.proper = body :: clauses
    ∧ expression twoRounds 199 c .load = .ok t
    ∧ List.Forall₂ (IsClause (expression twoRounds 198)) clauses t.clauses
    ∧ (rounds clauses).map (fun r => r.conditions.length) = [2, 1] := by
  obtain ⟨c, body, clauses, t, hkind, hheaded, hproper, htags, h⟩ := lower_twoRounds
  obtain ⟨hrounds, -⟩ := comprehension_rounds (s := twoRounds) hkind hheaded hproper
  obtain ⟨-, -, hclauses⟩ := hrounds 198 .load t h
  refine ⟨c, body, clauses, t, hkind, hheaded, hproper, h, hclauses, ?_⟩
  simp only [List.map_eq_cons_iff, List.map_eq_nil_iff] at htags
  obtain ⟨for₁, _, rfl, hfor₁, if₁, _, rfl, hif₁, if₂, _, rfl, hif₂, for₂, _, rfl, hfor₂, if₃, _,
    rfl, hif₃, rfl⟩ := htags
  simp [rounds, hfor₁, hif₁, hif₂, hfor₂, hif₃]

end Lowering
end Gatehouse
