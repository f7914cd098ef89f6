import Gatehouse.Proofs.Lowering.Assignment

/-!
The rounds of comprehensions. The clauses of one come in rounds: a loop, and the conditions up to the
next one. Each round is lowered to a node of its own, and no clause is left out.
-/
namespace Gatehouse

open Gatehouse.Tree

/-- What a comprehension of a kind is lowered to. -/
def Tag.comprehensionKind? : Tag → Option Kind
  | .listComprehension => some .listComp
  | .setComprehension => some .setComp
  | .generatorExpression => some .generatorExp
  | .dictionaryComprehension => some .dictComp
  | _ => none

/-- A loop of a comprehension with the conditions between it and the next one. -/
structure Round where
  loop : Cst
  conditions : List Cst

/-- The clauses of a round, in the order of the text. -/
def Round.clauses (r : Round) : List Cst := r.loop :: r.conditions

/-- The rounds of some clauses. Conditions before the first loop are in none. -/
def rounds : List Cst → List Round
  | [] => []
  | c :: cs =>
    if c.tag = .forInClause then ⟨c, cs.takeWhile (·.tag == .ifClause)⟩ :: rounds cs else rounds cs

/-- A clause as it is read back from a lowered comprehension. -/
inductive Clause where
  | loop (target values : Tree)
  | condition (test : Tree)

namespace Lowering

section

variable (lower : Cst → Kind → Result Tree)

/-- What a loop runs over: its one source, or a tuple of several. -/
def IsSource (c : Cst) (t : Tree) : Prop :=
  (∃ d, c.childrenIn .right = [d] ∧ lower d .load = .ok t)
  ∨ (c.childrenIn .right).length ≠ 1 ∧ ∃ ts, t = inContext .tuple c.line ts .load
    ∧ List.Forall₂ (fun d u => lower d .load = .ok u) (c.childrenIn .right) ts

def IsCondition (c : Cst) (t : Tree) : Prop :=
  c.tag = .ifClause ∧ ∃ d rest, c.proper = d :: rest ∧ lower d .load = .ok t

/-- A clause in the text, and as it is read back. -/
def IsClause (c : Cst) : Clause → Prop
  | .loop target values =>
    c.tag = .forInClause ∧ LowersIn lower .left .store c target ∧ IsSource lower c values
  | .condition test => IsCondition lower c test

/-- The node of a round: what its loop binds, what it runs over, and the tests of its conditions. -/
def IsRound (r : Round) (t : Tree) : Prop :=
  ∃ target values tests, t = .branch .comprehension r.loop.line (target :: values :: tests)
    ∧ IsClause lower r.loop (.loop target values)
    ∧ List.Forall₂ (IsCondition lower) r.conditions tests

/-- What a comprehension collects: a key and a value, or an element. -/
def IsElement (c : Cst) (ts : List Tree) : Prop :=
  (c.tag = .pair ∧ ∃ key value, ts = [key, value]
    ∧ LowersIn lower .key .load c key ∧ LowersIn lower .value .load c value)
  ∨ c.tag ≠ .pair ∧ ∃ value, ts = [value] ∧ lower c .load = .ok value

end

section

variable {s : Source} {lower : Cst → Kind → Result Tree} {c d : Cst} {cs : List Cst}
  {t : Tree} {ts us loops : List Tree} {kind : Kind} {levels : Nat} {context : Kind}

theorem isSource_of_sources (h : sources lower c.line (c.childrenIn .right) = .ok t) :
    IsSource lower c t := by
  unfold sources at h
  split at h
  · next d hd => exact Or.inl ⟨d, hd, h⟩
  · next hmany =>
    simp only [bind_eq_ok, pure_eq_ok] at h
    obtain ⟨ts, hts, rfl⟩ := h
    refine Or.inr ⟨fun hlength => ?_, ts, rfl, forall₂_of_mapM hts⟩
    obtain ⟨d, hd⟩ := List.length_eq_one_iff.mp hlength
    exact hmany d hd

theorem addToLast_concat {line : Nat} {ident : Option String} {ds : List Tree} :
    addToLast t (ts ++ [.node kind line ident ds us])
      = some (ts ++ [.node kind line ident ds (us ++ [t])]) := by
  induction ts with
  | nil => rfl
  | cons u ts ih =>
    cases ts <;> simp_all [addToLast]

theorem clause_loop (hc : c.tag = .forInClause) (h : clause lower ts c = .ok us) :
    ∃ target values, us = ts ++ [.branch .comprehension c.line [target, values]]
      ∧ IsClause lower c (.loop target values) := by
  simp only [clause, hc, bind_eq_ok, pure_eq_ok, required_eq_ok] at h
  obtain ⟨left, hleft, target, htarget, values, hvalues, rfl⟩ := h
  exact ⟨target, values, rfl, hc, ⟨left, hleft, htarget⟩, isSource_of_sources hvalues⟩

theorem clause_condition {line : Nat} (hc : c.tag = .ifClause)
    (h : clause lower (ts ++ [.branch .comprehension line us]) c = .ok loops) :
    ∃ test, loops = ts ++ [.branch .comprehension line (us ++ [test])] ∧ IsCondition lower c test := by
  simp only [clause, hc, bind_eq_ok, branch, addToLast_concat, pure_eq_ok] at h
  obtain ⟨d, hd, test, htest, rfl⟩ := h
  obtain ⟨rest, hproper⟩ := firstProper_eq_ok.mp hd
  exact ⟨test, rfl, hc, d, rest, hproper, htest⟩

theorem clause_nil (hc : c.tag = .ifClause) : clause lower [] c ≠ .ok loops := by
  intro h
  simp only [clause, hc, bind_eq_ok, addToLast] at h
  obtain ⟨d, -, test, -, h⟩ := h
  cases h

theorem tag_of_clause (h : clause lower ts c = .ok loops) :
    c.tag = .forInClause ∨ c.tag = .ifClause := by
  unfold clause at h
  split at h
  · next htag => exact Or.inl htag
  · next htag => exact Or.inr htag
  · cases h

/-- While a round is open, the conditions that come next join it, and all later rounds come after
it. -/
theorem rounds_of_clauses {line : Nat}
    (h : cs.foldlM (clause lower) (ts ++ [.branch .comprehension line us]) = .ok loops) :
    ∃ tests later, loops = ts ++ .branch .comprehension line (us ++ tests) :: later
      ∧ List.Forall₂ (IsCondition lower) (cs.takeWhile (·.tag == .ifClause)) tests
      ∧ List.Forall₂ (IsRound lower) (rounds cs) later
      ∧ cs = cs.takeWhile (·.tag == .ifClause) ++ (rounds cs).flatMap Round.clauses := by
  induction cs generalizing ts line us with
  | nil =>
    obtain rfl := pure_eq_ok.mp h
    exact ⟨[], [], by simp, .nil, .nil, rfl⟩
  | cons c cs ih =>
    rw [List.foldlM_cons, bind_eq_ok] at h
    obtain ⟨next, hnext, h⟩ := h
    rcases tag_of_clause hnext with hc | hc
    · obtain ⟨target, values, rfl, hloop⟩ := clause_loop hc hnext
      obtain ⟨tests, later, rfl, htests, hlater, hcs⟩ := ih h
      refine ⟨[], .branch .comprehension c.line (target :: values :: tests) :: later, by simp, ?_⟩
      rw [rounds, if_pos hc, List.takeWhile_cons_of_neg (by simp [hc])]
      refine ⟨.nil, .cons ⟨target, values, tests, rfl, hloop, htests⟩ hlater, ?_⟩
      rw [List.flatMap_cons, Round.clauses, List.nil_append, List.cons_append, ← hcs]
    · obtain ⟨test, rfl, htest⟩ := clause_condition hc hnext
      obtain ⟨tests, later, rfl, htests, hlater, hcs⟩ := ih h
      refine ⟨test :: tests, later, by simp, ?_⟩
      rw [rounds, if_neg (by simp [hc]), List.takeWhile_cons_of_pos (by simp [hc])]
      exact ⟨.cons htest htests, hlater, by rw [List.cons_append, ← hcs]⟩

/-- All clauses of a comprehension stand in rounds, and its loops are the nodes of those. -/
theorem forall₂_isRound (h : cs.foldlM (clause lower) [] = .ok loops) :
    List.Forall₂ (IsRound lower) (rounds cs) loops ∧ (rounds cs).flatMap Round.clauses = cs := by
  cases cs with
  | nil =>
    obtain rfl := pure_eq_ok.mp h
    exact ⟨.nil, rfl⟩
  | cons c cs =>
    rw [List.foldlM_cons, bind_eq_ok] at h
    obtain ⟨next, hnext, h⟩ := h
    rcases tag_of_clause hnext with hc | hc
    · obtain ⟨target, values, rfl, hloop⟩ := clause_loop hc hnext
      obtain ⟨tests, later, rfl, htests, hlater, hcs⟩ := rounds_of_clauses h
      rw [rounds, if_pos hc]
      refine ⟨.cons ⟨target, values, tests, rfl, hloop, htests⟩ hlater, ?_⟩
      rw [List.flatMap_cons, Round.clauses, List.cons_append, ← hcs]
    · exact absurd hnext (clause_nil hc)

/-- A comprehension is lowered to what it collects and to the loops its clauses make. -/
theorem comprehension_eq_ok (hbody : c.child? .body = some d)
    (h : comprehension lower kind c = .ok t) : ∃ element loops,
      t = .branch kind c.line (element ++ loops) ∧ IsElement lower d element
      ∧ (c.proper.drop 1).foldlM (clause lower) [] = .ok loops := by
  obtain ⟨d', hd', h⟩ := bind_eq_ok.mp h
  obtain rfl := Option.some.inj (hbody.symm.trans (required_eq_ok.mp hd'))
  dsimp only at h
  split at h
  · next htag =>
    simp only [bind_eq_ok, pure_eq_ok, required_eq_ok] at h
    obtain ⟨left, hleft, key, hkey, right, hright, value, hvalue, _, rfl, loops, hloops, rfl⟩ := h
    exact ⟨_, loops, rfl, Or.inl ⟨htag, key, value, rfl, ⟨left, hleft, hkey⟩,
      ⟨right, hright, hvalue⟩⟩, hloops⟩
  · next htag =>
    simp only [bind_eq_ok, pure_eq_ok] at h
    obtain ⟨value, hvalue, _, rfl, loops, hloops, rfl⟩ := h
    exact ⟨_, loops, rfl, Or.inr ⟨htag, value, rfl, hvalue⟩, hloops⟩

/-! ### What stands under a comprehension -/

theorem IsElement.under (h : IsElement lower c ts) : ∀ t ∈ ts, LowersUnder lower .load c t := by
  rcases h with ⟨-, key, value, rfl, hkey, hvalue⟩ | ⟨-, value, rfl, hvalue⟩
  · exact List.forall_mem_cons.mpr ⟨hkey.under, List.forall_mem_singleton.mpr hvalue.under⟩
  · exact List.forall_mem_singleton.mpr ⟨c, Cst.self_mem_nodes, hvalue⟩

theorem IsCondition.under (h : IsCondition lower c t) : LowersUnder lower .load c t := by
  obtain ⟨-, d, rest, hproper, h⟩ := h
  exact ⟨d, Cst.mem_allNodes_of_mem_proper (hproper ▸ List.mem_cons_self), h⟩

theorem sublist_of_mem_rounds {round : Round} (h : round ∈ rounds cs) : round.clauses.Sublist cs := by
  induction cs with
  | nil => cases h
  | cons c cs ih =>
    rw [rounds] at h
    split at h
    · rcases List.mem_cons.mp h with rfl | h
      · exact (List.takeWhile_sublist _).cons_cons c
      · exact (ih h).cons c
    · exact (ih h).cons c

/-- What is lowered under a comprehension to what one of its loops runs over. -/
def RunsOver (lower : Cst → Kind → Result Tree) (c : Cst) (t : Tree) : Prop :=
  LowersUnder lower .load c t
    ∨ ∃ line ts, t = inContext .tuple line ts .load ∧ ∀ u ∈ ts, LowersUnder lower .load c u

theorem IsSource.runsOver (h : IsSource lower d t) (hd : d ∈ c.allNodes) : RunsOver lower c t := by
  rcases h with ⟨e, he, h⟩ | ⟨-, ts, rfl, hts⟩
  · have hmem := Cst.mem_allNodes_of_mem_childrenIn (he ▸ List.mem_singleton_self e)
    exact Or.inl ⟨e, Cst.mem_allNodes_trans hmem hd, h⟩
  · refine Or.inr ⟨d.line, ts, rfl, fun u hu => ?_⟩
    exact (under_of_forall₂ hts (fun _ => Cst.mem_allNodes_of_mem_childrenIn) u hu).mono hd

/-- What holds of all that is lowered under a comprehension, and of rounds over that, holds of all that
the comprehension has under it. -/
theorem all_of_comprehension {p : Tree → Prop} (hbody : c.child? .body = some d)
    (helement : IsElement lower d ts)
    (hloops : List.Forall₂ (IsRound lower) (rounds (c.proper.drop 1)) loops)
    (hvalue : ∀ u, LowersUnder lower .load c u → p u)
    (hround : ∀ line target values tests, LowersUnder lower .store c target →
      RunsOver lower c values → (∀ u ∈ tests, LowersUnder lower .load c u) →
      p (.branch .comprehension line (target :: values :: tests))) : ∀ u ∈ ts ++ loops, p u := by
  have hbelow := Cst.mem_allNodes_of_child? hbody
  refine List.forall_mem_append.mpr ⟨fun u hu => hvalue u ((helement.under u hu).mono hbelow),
    forall_of_forall₂ hloops fun round hmem u hu => ?_⟩
  obtain ⟨target, values, tests, rfl, ⟨-, htarget, hvalues⟩, htests⟩ := hu
  have hclauses : ∀ e ∈ round.clauses, e ∈ c.allNodes := fun e he =>
    Cst.mem_allNodes_of_mem_proper (List.mem_of_mem_drop ((sublist_of_mem_rounds hmem).subset he))
  obtain ⟨hloop, hconditions⟩ := List.forall_mem_cons.mp hclauses
  exact hround _ target values tests (htarget.under.mono hloop) (hvalues.runsOver hloop)
    (forall_of_forall₂ htests fun e he _ ht => ht.under.mono (hconditions e he))

end

end Lowering
end Gatehouse
