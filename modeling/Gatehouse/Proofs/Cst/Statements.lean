import Mathlib.Data.List.Basic
import Gatehouse.Kind
import Gatehouse.Proofs.Cst.Names
import Gatehouse.Proofs.Lists

/-!
The statements of a concrete tree in the order of the text, and what the grammar says of the places
where they may stand: which nodes hold blocks, in which roles, and that a statement is nowhere else.
-/
namespace Gatehouse

namespace Tag

/-- Kinds of nodes that count as a statement. A further condition of a choice counts as one, and a
definition with decorators counts by what it defines. -/
def isCounted : Tag → Bool
  | .importStatement | .importFromStatement | .futureImportStatement | .printStatement
  | .assertStatement | .expressionStatement | .returnStatement | .deleteStatement | .raiseStatement
  | .passStatement | .breakStatement | .continueStatement | .ifStatement | .elifClause
  | .matchStatement | .forStatement | .whileStatement | .tryStatement | .withStatement
  | .functionDefinition | .classDefinition | .globalStatement | .nonlocalStatement | .execStatement
  | .typeAliasStatement => true
  | _ => false

/-- The kinds of statements that a node which counts as one may be lowered to. -/
def statementKinds : Tag → List Kind
  | .importStatement => [.importModule]
  | .importFromStatement | .futureImportStatement => [.importFrom]
  | .printStatement => [.expr]
  | .assertStatement => [.assert]
  | .expressionStatement => [.expr, .assign, .annAssign, .augAssign]
  | .returnStatement => [.returnValue]
  | .deleteStatement => [.delete]
  | .raiseStatement => [.raise]
  | .passStatement => [.pass]
  | .breakStatement => [.breakLoop]
  | .continueStatement => [.continueLoop]
  | .ifStatement | .elifClause => [.ifElse]
  | .matchStatement => [.matchCases]
  | .forStatement => [.forEach, .asyncForEach]
  | .whileStatement => [.whileLoop]
  | .tryStatement => [.tryExcept]
  | .withStatement => [.withBlock, .asyncWithBlock]
  | .functionDefinition => [.functionDef, .asyncFunctionDef]
  | .classDefinition => [.classDef]
  | .globalStatement => [.globalNames]
  | .nonlocalStatement => [.nonlocalNames]
  | .typeAliasStatement => [.typeAlias]
  | _ => []

def bears (tag : Tag) : Bool :=
  match tag with
  | .module | .decoratedDefinition | .block | .elseClause | .exceptClause | .finallyClause => true
  | tag => tag.isCounted

end Tag

/-- The roles of blocks, of the clauses that hold some, and of a definition with decorators. -/
def Role.isOfBlock : Role → Bool
  | .body | .consequence | .alternative | .definition => true
  | _ => false

def areAlternatives : List (Tag × Option Role) → Bool
  | [] => true
  | [last] => last == (.elifClause, some .alternative) || last == (.elseClause, some .alternative)
  | next :: rest => next == (.elifClause, some .alternative) && areAlternatives rest

/-- What the grammar says of those children of a node that bear statements or play the part of such:
their kinds and roles, in their order. In other nodes than these there are no statements. -/
def Tag.arranges (tag : Tag) (children : List (Tag × Option Role)) : Bool :=
  match tag with
  | .module | .block | .matchStatement => true
  | .ifStatement =>
    match children with
    | first :: rest => first == (.block, some .consequence) && areAlternatives rest
    | [] => false
  | .elifClause => children == [(.block, some .consequence)]
  | .elseClause | .withStatement | .functionDefinition | .classDefinition =>
    children == [(.block, some .body)]
  | .forStatement | .whileStatement =>
    children == [(.block, some .body)]
      || children == [(.block, some .body), (.elseClause, some .alternative)]
  | .tryStatement =>
    match children with
    | first :: rest => first == (.block, some .body)
        && rest.all fun c => c.1 == .exceptClause || c.1 == .elseClause || c.1 == .finallyClause
    | [] => false
  | .exceptClause | .finallyClause => children == [(.block, none)]
  | .decoratedDefinition =>
    children == [(.functionDefinition, some .definition)]
      || children == [(.classDefinition, some .definition)]
  | _ => children.all fun c => !c.1.bears

namespace Cst

def place (c : Cst) : Tag × Option Role := (c.tag, c.role)

def isPortion (c : Cst) : Bool := c.tag.bears || c.role.any Role.isOfBlock

def portions (c : Cst) : List Cst := c.children.filter isPortion

mutual
/-- Do the statements of the tree stand where the grammar has them? The cases of a choice by patterns
are passed by. -/
def arranged : Cst → Bool
  | .node tag _ _ cs =>
    tag.arranges ((cs.filter isPortion).map place) && (tag == .matchStatement || allArranged cs)

def allArranged : List Cst → Bool
  | [] => true
  | c :: cs => c.arranged && allArranged cs
end

mutual
/-- The nodes of a tree that count as statements, each before those in it, without those inside of a
choice by patterns. -/
def statements : Cst → List Cst
  | .node tag r sp cs =>
    (if tag.isCounted then [.node tag r sp cs] else [])
      ++ if tag = .matchStatement then [] else statementsOf cs

def statementsOf : List Cst → List Cst
  | [] => []
  | c :: cs => c.statements ++ statementsOf cs
end

end Cst

/-- What a statement holds that is lowered to statements: a block, or what follows the block of a
choice. -/
inductive Held where
  | block (b : Cst)
  | branches (cs : List Cst)

namespace Held

/-- The nodes that count as statements. -/
def statements : Held → List Cst
  | block b => b.statements
  | branches cs => cs.flatMap Cst.statements

def Arranged : Held → Prop
  | block b => b.tag = .block ∧ b.arranged = true
  | branches cs => areAlternatives (cs.map Cst.place) = true ∧ ∀ c ∈ cs, c.arranged = true

end Held

namespace Cst

def clauseBlocks (c : Cst) : List Cst :=
  match c.tag with
  | .exceptClause | .elseClause | .finallyClause => c.proper.filter (·.tag == .block)
  | _ => []

/-- The node that counts for a statement: what is defined, if it is a definition with decorators. -/
def counted (c : Cst) : Cst :=
  if c.tag = .decoratedDefinition then (c.child? .definition).getD c else c

def blockIn (c : Cst) (r : Role) : List Cst := (c.child? r).toList

def held (c : Cst) : List Held :=
  match c.tag with
  | .ifStatement =>
    (c.blockIn .consequence).map .block ++ [.branches (c.childrenIn .alternative)]
  | .forStatement | .whileStatement =>
    (c.blockIn .body ++ (c.child? .alternative).toList.flatMap (·.blockIn .body)).map .block
  | .withStatement | .functionDefinition | .classDefinition => (c.blockIn .body).map .block
  | .tryStatement => (c.blockIn .body ++ c.proper.flatMap clauseBlocks).map .block
  | _ => []

section

variable {c d : Cst} {r : Role}

theorem allArranged_iff {cs : List Cst} : allArranged cs = true ↔ ∀ c ∈ cs, c.arranged = true := by
  induction cs with
  | nil => simp [allArranged]
  | cons c cs ih => simp [allArranged, ih]

theorem arranges_of_arranged (h : c.arranged = true) :
    c.tag.arranges (c.portions.map place) = true := by
  obtain ⟨tag, r, sp, cs⟩ := c
  rw [arranged, Bool.and_eq_true] at h
  exact h.1

theorem arranged_children (h : c.arranged = true) (htag : c.tag ≠ .matchStatement) :
    ∀ d ∈ c.children, d.arranged = true := by
  obtain ⟨tag, r, sp, cs⟩ := c
  rw [arranged, Bool.and_eq_true, Bool.or_eq_true, beq_iff_eq, allArranged_iff] at h
  exact h.2.resolve_left htag

theorem statementsOf_eq_flatMap (cs : List Cst) : statementsOf cs = cs.flatMap statements := by
  induction cs with
  | nil => rfl
  | cons c cs ih => rw [statementsOf, ih, List.flatMap_cons]

theorem statements_eq (c : Cst) : c.statements = (if c.tag.isCounted then [c] else [])
    ++ if c.tag = .matchStatement then [] else c.children.flatMap statements := by
  obtain ⟨tag, r, sp, cs⟩ := c
  rw [statements, statementsOf_eq_flatMap]
  rfl

theorem bears_of_isCounted {tag : Tag} (h : tag.isCounted = true) : tag.bears = true := by
  cases tag <;> first
    | rfl
    | cases h

theorem bears_of_not_proper (h : c.isProper = false) : c.tag.bears = false := by
  cases htag : c.tag <;> first
    | rfl
    | simp [isProper, Tag.isNamed, Tag.isExtra, htag] at h

theorem arranges_of_not_bears {tag : Tag} {children : List (Tag × Option Role)}
    (h : tag.bears = false) (harranges : tag.arranges children = true) :
    ∀ p ∈ children, p.1.bears = false := by
  intro p hp
  cases tag <;> first
    | simpa using List.all_eq_true.mp harranges p hp
    | cases h

/-- In a node that bears no statements there are none. -/
theorem statements_eq_nil (hc : c.arranged = true) (h : c.tag.bears = false) :
    c.statements = [] := by
  induction c using inductionOn with
  | step c ih =>
    have hcounted : c.tag.isCounted = false := Bool.eq_false_iff.mpr fun hcounted => by
      rw [bears_of_isCounted hcounted] at h
      cases h
    rw [statements_eq, if_neg (by simp [hcounted]), List.nil_append]
    split
    · rfl
    · next hmatch =>
      have hplaces := arranges_of_not_bears h (arranges_of_arranged hc)
      refine List.flatMap_eq_nil_iff.mpr fun d hd => ih d hd (arranged_children hc hmatch d hd) ?_
      -- A child that bore statements would be one of the portions, and those bear none.
      refine Bool.eq_false_iff.mpr fun hbears => ?_
      have hportion : d ∈ c.portions := List.mem_filter.mpr ⟨hd, by simp [isPortion, hbears]⟩
      have hplace := hplaces d.place (List.mem_map_of_mem hportion)
      rw [show d.place.1 = d.tag from rfl, hbears] at hplace
      cases hplace

/-! ### Portions -/

theorem flatMap_statements (hc : c.arranged = true) (htag : c.tag ≠ .matchStatement) :
    c.children.flatMap statements = c.portions.flatMap statements := by
  refine flatMap_filter fun d hd hportion => ?_
  rw [isPortion, Bool.or_eq_false_iff] at hportion
  exact statements_eq_nil (arranged_children hc htag d hd) hportion.1

theorem arranged_portions (hc : c.arranged = true) (htag : c.tag ≠ .matchStatement) :
    ∀ d ∈ c.portions, d.arranged = true := fun d hd =>
  arranged_children hc htag d (List.mem_filter.mp hd).1

theorem child?_eq_find? (hr : r.isOfBlock = true) :
    c.child? r = c.portions.find? (fun d => d.role == some r) := by
  rw [child?, portions, List.find?_filter]
  congr 1
  funext d
  by_cases hrole : d.role = some r <;> simp [isPortion, hrole, hr]

theorem childrenIn_eq_filter (hr : r.isOfBlock = true) :
    c.childrenIn r = c.portions.filter (fun d => d.role == some r && !d.tag.isExtra) := by
  rw [childrenIn, portions, List.filter_filter]
  refine List.filter_congr fun d _ => ?_
  by_cases hrole : d.role = some r <;> simp [isPortion, hrole, hr]

theorem blocks_eq_filter :
    c.proper.filter (·.tag == .block) = c.portions.filter (·.tag == .block) := by
  rw [proper, portions, List.filter_filter, List.filter_filter]
  refine List.filter_congr fun d _ => ?_
  by_cases htag : d.tag = .block
  · simp [htag, isPortion, Tag.bears, isProper, Tag.isNamed, Tag.isExtra]
  · rw [beq_false_of_ne htag, Bool.false_and, Bool.false_and]

theorem child?_of_portions {b : Cst} {rest : List Cst} (hr : r.isOfBlock = true)
    (h : c.portions = b :: rest) (hrole : b.role = some r) : c.child? r = some b := by
  rw [child?_eq_find? hr, h, List.find?_cons, beq_iff_eq.mpr hrole]

theorem portions_eq_singleton {p : Tag × Option Role} (h : c.portions.map place = [p]) :
    ∃ b, c.portions = [b] ∧ b.tag = p.1 ∧ b.role = p.2 := by
  obtain ⟨b, hb, rfl⟩ := List.map_eq_singleton_iff.mp h
  exact ⟨b, hb, rfl, rfl⟩

theorem statements_of_block (hc : c.arranged = true) (htag : c.tag ≠ .matchStatement)
    (hr : r.isOfBlock = true) (h : c.portions.map place = [(.block, some r)]) :
    ∃ b, c.child? r = some b ∧ (Held.block b).Arranged
      ∧ c.statements = (if c.tag.isCounted then [c] else []) ++ b.statements := by
  obtain ⟨b, hb, hkind, hrole⟩ := portions_eq_singleton h
  have harranged := arranged_portions hc htag
  rw [hb, List.forall_mem_singleton] at harranged
  refine ⟨b, child?_of_portions hr hb hrole, ⟨hkind, harranged⟩, ?_⟩
  rw [statements_eq, if_neg htag, flatMap_statements hc htag, hb, List.flatMap_singleton]

theorem statements_of_elifClause (hc : c.arranged = true) (htag : c.tag = .elifClause) :
    ∃ b, c.child? .consequence = some b ∧ (Held.block b).Arranged
      ∧ c.statements = c :: b.statements := by
  have hplaces := arranges_of_arranged hc
  simp only [htag, Tag.arranges, beq_iff_eq] at hplaces
  obtain ⟨b, hb, hblock, hstatements⟩ := statements_of_block hc (by simp [htag]) rfl hplaces
  exact ⟨b, hb, hblock, by simpa [htag, Tag.isCounted] using hstatements⟩

theorem statements_of_elseClause (hc : c.arranged = true) (htag : c.tag = .elseClause) :
    ∃ b, c.child? .body = some b ∧ (Held.block b).Arranged ∧ c.statements = b.statements := by
  have hplaces := arranges_of_arranged hc
  simp only [htag, Tag.arranges, beq_iff_eq] at hplaces
  obtain ⟨b, hb, hblock, hstatements⟩ := statements_of_block hc (by simp [htag]) rfl hplaces
  exact ⟨b, hb, hblock, by simpa [htag, Tag.isCounted] using hstatements⟩

theorem statements_of_proper (hc : c.arranged = true) (htag : c.tag = .block ∨ c.tag = .module) :
    c.statements = c.proper.flatMap statements ∧ ∀ d ∈ c.proper, d.arranged = true := by
  have hmatch : c.tag ≠ .matchStatement := by rcases htag with h | h <;> simp [h]
  have hcounted : c.tag.isCounted = false := by rcases htag with h | h <;> rw [h] <;> rfl
  have hchildren := arranged_children hc hmatch
  refine ⟨?_, fun d hd => hchildren d (List.mem_filter.mp hd).1⟩
  rw [statements_eq, if_neg (by simp [hcounted]), if_neg hmatch, List.nil_append, proper]
  refine flatMap_filter fun d hd hproper => ?_
  exact statements_eq_nil (hchildren d hd) (bears_of_not_proper hproper)

/-- A definition with decorators stands for what it defines. -/
theorem statements_counted (hc : c.arranged = true) :
    c.counted.arranged = true ∧ c.statements = c.counted.statements := by
  unfold counted
  split
  · next htag =>
    have hplaces := arranges_of_arranged hc
    simp only [htag, Tag.arranges, Bool.or_eq_true, beq_iff_eq] at hplaces
    obtain ⟨d, hd, hrole⟩ : ∃ d, c.portions = [d] ∧ d.role = some .definition := by
      rcases hplaces with h | h
      · obtain ⟨d, hd, -, hrole⟩ := portions_eq_singleton h
        exact ⟨d, hd, hrole⟩
      · obtain ⟨d, hd, -, hrole⟩ := portions_eq_singleton h
        exact ⟨d, hd, hrole⟩
    have hmatch : c.tag ≠ .matchStatement := by simp [htag]
    have harranged := arranged_portions hc hmatch
    rw [hd, List.forall_mem_singleton] at harranged
    rw [child?_of_portions rfl hd hrole, Option.getD_some]
    refine ⟨harranged, ?_⟩
    rw [statements_eq, if_neg hmatch, flatMap_statements hc hmatch, hd, List.flatMap_singleton]
    simp [htag, Tag.isCounted]
  · exact ⟨hc, rfl⟩

/-! ### What a statement holds -/

/-- What a node holds stands for all statements that its portions bear. -/
structure HoldsAll (c : Cst) : Prop where
  statements : c.portions.flatMap statements = c.held.flatMap Held.statements
  arranged : ∀ h ∈ c.held, h.Arranged

theorem held_loop (htag : c.tag = .forStatement ∨ c.tag = .whileStatement) :
    c.held = (c.blockIn .body).map .block
      ++ ((c.child? .alternative).toList.flatMap (·.blockIn .body)).map .block := by
  rcases htag with htag | htag <;> simp only [held, htag, List.map_append]

theorem of_areAlternatives {children : List (Tag × Option Role)}
    (h : areAlternatives children = true) : ∀ p ∈ children,
      (p.1 = .elifClause ∨ p.1 = .elseClause) ∧ p.2 = some .alternative := by
  fun_induction areAlternatives children with
  | case1 => intro p hp; cases hp
  | case2 last =>
    simp only [Bool.or_eq_true, beq_iff_eq] at h
    rw [List.forall_mem_singleton]
    rcases h with rfl | rfl <;> simp
  | case3 next rest hne ih =>
    rw [Bool.and_eq_true, beq_iff_eq] at h
    obtain ⟨rfl, h⟩ := h
    exact List.forall_mem_cons.mpr ⟨by simp, ih h⟩

/-- A clause of a `try` stands for the statements in its blocks. -/
theorem statements_of_clause (hc : c.arranged = true)
    (htag : c.tag = .exceptClause ∨ c.tag = .elseClause ∨ c.tag = .finallyClause) :
    c.statements = c.clauseBlocks.flatMap statements
      ∧ ∀ b ∈ c.clauseBlocks, (Held.block b).Arranged := by
  obtain ⟨r, hplaces⟩ : ∃ r, c.portions.map place = [(.block, r)] := by
    have hplaces := arranges_of_arranged hc
    rcases htag with htag | htag | htag <;>
      exact ⟨_, beq_iff_eq.mp (by simpa only [htag, Tag.arranges] using hplaces)⟩
  have hmatch : c.tag ≠ .matchStatement := by rcases htag with h | h | h <;> simp [h]
  have hcounted : c.tag.isCounted = false := by rcases htag with h | h | h <;> rw [h] <;> rfl
  obtain ⟨b, hb, hkind, -⟩ := portions_eq_singleton hplaces
  have hblocks : c.clauseBlocks = [b] := by
    have hfilter : c.proper.filter (·.tag == .block) = [b] := by simp [blocks_eq_filter, hb, hkind]
    rcases htag with htag | htag | htag <;> simpa only [clauseBlocks, htag] using hfilter
  have harranged := arranged_portions hc hmatch
  rw [hb, List.forall_mem_singleton] at harranged
  rw [hblocks]
  refine ⟨?_, List.forall_mem_singleton.mpr ⟨hkind, harranged⟩⟩
  rw [statements_eq, if_neg (by simp [hcounted]), if_neg hmatch, flatMap_statements hc hmatch, hb,
    List.nil_append]

theorem clauseBlocks_eq_nil (h : c.tag.bears = false ∨ c.tag = .block) : c.clauseBlocks = [] := by
  unfold clauseBlocks
  split <;> first
    | rfl
    | next htag => rcases h with h | h <;> rw [htag] at h <;> cases h

theorem holdsAll_ifStatement (hc : c.arranged = true) (htag : c.tag = .ifStatement) :
    c.HoldsAll := by
  have hplaces := arranges_of_arranged hc
  simp only [htag, Tag.arranges] at hplaces
  have harranged := arranged_portions hc (by simp [htag])
  cases hportions : c.portions with
  | nil => simp [hportions] at hplaces
  | cons b rest =>
    rw [hportions] at harranged hplaces
    simp only [List.map_cons, Bool.and_eq_true, beq_iff_eq] at hplaces
    obtain ⟨hplace, hrest⟩ := hplaces
    obtain ⟨hkind, hrole⟩ := Prod.mk.inj hplace
    obtain ⟨hb, harranged⟩ := List.forall_mem_cons.mp harranged
    have hblock : c.child? .consequence = some b := child?_of_portions rfl hportions hrole
    have hbranches : c.childrenIn .alternative = rest := by
      rw [childrenIn_eq_filter rfl, hportions, List.filter_cons_of_neg (by simp [hrole])]
      refine List.filter_eq_self.mpr fun d hd => ?_
      obtain ⟨hdkind, hdrole⟩ := of_areAlternatives hrest d.place (List.mem_map_of_mem hd)
      have hdrole : d.role = some .alternative := hdrole
      have hdkind : d.tag = .elifClause ∨ d.tag = .elseClause := hdkind
      rcases hdkind with hdkind | hdkind <;> simp [hdrole, hdkind, Tag.isExtra]
    have hheld : c.held = [.block b, .branches rest] := by
      simp [held, htag, blockIn, hblock, hbranches]
    refine ⟨by simp [hportions, hheld, Held.statements], ?_⟩
    rw [hheld]
    exact List.forall_mem_cons.mpr ⟨⟨hkind, hb⟩, List.forall_mem_singleton.mpr ⟨hrest, harranged⟩⟩

theorem holdsAll_loop (hc : c.arranged = true)
    (htag : c.tag = .forStatement ∨ c.tag = .whileStatement) :
    c.HoldsAll := by
  have hmatch : c.tag ≠ .matchStatement := by rcases htag with h | h <;> simp [h]
  have harranged := arranged_portions hc hmatch
  have hplaces : c.portions.map place = [(.block, some .body)]
      ∨ c.portions.map place = [(.block, some .body), (.elseClause, some .alternative)] := by
    have hplaces := arranges_of_arranged hc
    rcases htag with htag | htag <;>
      simpa only [htag, Tag.arranges, Bool.or_eq_true, beq_iff_eq] using hplaces
  rcases hplaces with h | h
  · obtain ⟨b, hb, hkind, hrole⟩ := portions_eq_singleton h
    rw [hb, List.forall_mem_singleton] at harranged
    have hnone : c.child? .alternative = none := by
      rw [child?_eq_find? rfl, hb]
      simp [hrole]
    have hheld : c.held = [.block b] := by
      simp [held_loop htag, blockIn, child?_of_portions rfl hb hrole, hnone]
    refine ⟨by simp [hb, hheld, Held.statements], ?_⟩
    rw [hheld]
    exact List.forall_mem_singleton.mpr ⟨hkind, harranged⟩
  · obtain ⟨b, e, hportions, hplaceb, hplacee⟩ : ∃ b e, c.portions = [b, e]
        ∧ b.place = (.block, some .body) ∧ e.place = (.elseClause, some .alternative) := by
      obtain ⟨b, rest, hportions, hplaceb, hrest⟩ := List.map_eq_cons_iff.mp h
      obtain ⟨e, rfl, hplacee⟩ := List.map_eq_singleton_iff.mp hrest
      exact ⟨b, e, hportions, hplaceb, hplacee⟩
    obtain ⟨hkind, hrole⟩ := Prod.mk.inj hplaceb
    obtain ⟨hekind, herole⟩ := Prod.mk.inj hplacee
    rw [hportions] at harranged
    obtain ⟨hb, he⟩ := List.forall_mem_cons.mp harranged
    rw [List.forall_mem_singleton] at he
    obtain ⟨other, hother, hblock, hstatements⟩ := statements_of_elseClause he hekind
    have helse : c.child? .alternative = some e := by
      rw [child?_eq_find? rfl, hportions]
      simp [hrole, herole]
    have hheld : c.held = [.block b, .block other] := by
      simp [held_loop htag, blockIn, child?_of_portions rfl hportions hrole, helse, hother]
    refine ⟨by simp [hportions, hheld, Held.statements, hstatements], ?_⟩
    rw [hheld]
    exact List.forall_mem_cons.mpr ⟨⟨hkind, hb⟩, List.forall_mem_singleton.mpr hblock⟩

theorem holdsAll_tryStatement (hc : c.arranged = true) (htag : c.tag = .tryStatement) :
    c.HoldsAll := by
  have hplaces := arranges_of_arranged hc
  simp only [htag, Tag.arranges] at hplaces
  have harranged := arranged_portions hc (by simp [htag])
  have hclauses : c.proper.flatMap clauseBlocks = c.portions.flatMap clauseBlocks := by
    rw [proper, portions, ← flatMap_filter fun d _ hd => clauseBlocks_eq_nil
      (Or.inl (bears_of_not_proper hd))]
    refine flatMap_filter fun d _ hd => clauseBlocks_eq_nil (Or.inl ?_)
    rw [isPortion, Bool.or_eq_false_iff] at hd
    exact hd.1
  cases hportions : c.portions with
  | nil => simp [hportions] at hplaces
  | cons b rest =>
    rw [hportions] at harranged hplaces hclauses
    simp only [List.map_cons, Bool.and_eq_true, beq_iff_eq] at hplaces
    obtain ⟨hplace, hrest⟩ := hplaces
    obtain ⟨hkind, hrole⟩ := Prod.mk.inj hplace
    obtain ⟨hb, harranged⟩ := List.forall_mem_cons.mp harranged
    have hclause := fun d hd => statements_of_clause (harranged d hd) (by
      simpa [place, or_assoc] using List.all_eq_true.mp hrest d.place (List.mem_map_of_mem hd))
    rw [List.flatMap_cons, clauseBlocks_eq_nil (Or.inr hkind), List.nil_append] at hclauses
    have hheld : c.held = .block b :: (rest.flatMap clauseBlocks).map .block := by
      simp [held, htag, blockIn, child?_of_portions rfl hportions hrole, hclauses]
    refine ⟨?_, hheld ▸ List.forall_mem_cons.mpr ⟨⟨hkind, hb⟩, ?_⟩⟩
    · rw [hportions, hheld, List.flatMap_cons, List.flatMap_cons, List.flatMap_map, List.flatMap_assoc]
      congr 1
      exact List.flatMap_congr fun d hd => (hclause d hd).1
    · intro h hh
      obtain ⟨block, hblock, rfl⟩ := List.mem_map.mp hh
      obtain ⟨d, hd, hblock⟩ := List.mem_flatMap.mp hblock
      exact (hclause d hd).2 block hblock

theorem holdsAll_blockStatement (hc : c.arranged = true)
    (htag : c.tag = .withStatement ∨ c.tag = .functionDefinition ∨ c.tag = .classDefinition) :
    c.HoldsAll := by
  have hplaces : c.portions.map place = [(.block, some .body)] := by
    have hplaces := arranges_of_arranged hc
    rcases htag with htag | htag | htag <;>
      simpa only [htag, Tag.arranges, beq_iff_eq] using hplaces
  have hmatch : c.tag ≠ .matchStatement := by rcases htag with h | h | h <;> simp [h]
  obtain ⟨b, hb, hkind, hrole⟩ := portions_eq_singleton hplaces
  have harranged := arranged_portions hc hmatch
  rw [hb, List.forall_mem_singleton] at harranged
  have hheld : c.held = [.block b] := by
    rcases htag with htag | htag | htag <;>
      simp [held, htag, blockIn, child?_of_portions rfl hb hrole]
  refine ⟨by simp [hb, hheld, Held.statements], ?_⟩
  rw [hheld]
  exact List.forall_mem_singleton.mpr ⟨hkind, harranged⟩

theorem holdsAll_simple (hc : c.arranged = true) (hmatch : c.tag ≠ .matchStatement)
    (hheld : c.held = [])
    (hplaces : (c.portions.map place).all (fun p => !p.1.bears) = true) :
    c.HoldsAll := by
  refine ⟨hheld ▸ List.flatMap_eq_nil_iff.mpr fun d hd => ?_, hheld ▸ fun h hh => by cases hh⟩
  refine statements_eq_nil (arranged_portions hc hmatch d hd) ?_
  simpa [place] using List.all_eq_true.mp hplaces d.place (List.mem_map_of_mem hd)

theorem isCounted_of_statementKinds {tag : Tag} (h : tag.statementKinds ≠ []) :
    tag.isCounted = true := by
  cases tag <;> first
    | rfl
    | exact absurd rfl h

/-- A statement comes before those in what it holds, and there are no others in it. -/
theorem statements_of_held (hc : c.arranged = true) (hkinds : c.tag.statementKinds ≠ [])
    (helif : c.tag ≠ .elifClause) :
    c.statements = c :: c.held.flatMap Held.statements ∧ ∀ h ∈ c.held, h.Arranged := by
  rw [statements_eq, if_pos (isCounted_of_statementKinds hkinds)]
  by_cases hmatch : c.tag = .matchStatement
  · simp [hmatch, held]
  · have hholds : c.HoldsAll := by
      have hplaces := arranges_of_arranged hc
      cases htag : c.tag
      case ifStatement => exact holdsAll_ifStatement hc htag
      case forStatement => exact holdsAll_loop hc (Or.inl htag)
      case whileStatement => exact holdsAll_loop hc (Or.inr htag)
      case tryStatement => exact holdsAll_tryStatement hc htag
      case withStatement => exact holdsAll_blockStatement hc (Or.inl htag)
      case functionDefinition => exact holdsAll_blockStatement hc (Or.inr (Or.inl htag))
      case classDefinition => exact holdsAll_blockStatement hc (Or.inr (Or.inr htag))
      case elifClause => exact absurd htag helif
      case matchStatement => exact absurd htag hmatch
      all_goals
        rw [htag] at hplaces
        first
        | exact holdsAll_simple hc hmatch (by simp only [held, htag]) hplaces
        | exact absurd (by rw [htag]; rfl) hkinds
    rw [if_neg hmatch, flatMap_statements hc hmatch, hholds.statements]
    exact ⟨rfl, hholds.arranged⟩

end

end Cst
end Gatehouse
