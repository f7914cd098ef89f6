import Gatehouse.Proofs.Cst.Target
import Gatehouse.Proofs.Lowering.Operands
import Gatehouse.Proofs.Lowering.Regrouping
import Gatehouse.Proofs.Lowering.Rounds

/-!
What an expression is lowered to, production by production: the node, and what its parts are lowered
to. Whatever holds of all lowered expressions is shown of these productions.
-/
namespace Gatehouse

open Gatehouse.Tree

def Tag.constant? : Tag → Option String
  | .trueLiteral => some "True"
  | .falseLiteral => some "False"
  | .noneLiteral => some "None"
  | _ => none

def Tag.isWrapper : Tag → Bool
  | .parenthesizedExpression | .typeExpression | .asPattern | .asPatternTarget => true
  | _ => false

namespace Lowering

/-- The first child of a kind of its own is lowered to a tree. -/
def LowersFirst (lower : Cst → Kind → Result Tree) (context : Kind) (c : Cst) (t : Tree) : Prop :=
  ∃ d, firstProper c = .ok d ∧ lower d context = .ok t

/-- A subscript among several, a slice or a value. -/
inductive IsSubscript (lower : Cst → Kind → Result Tree) (c : Cst) : Tree → Prop
  | slice {bounds : List Tree} (htag : c.tag = .slice)
      (hbounds : lowerAll lower .load c.proper = .ok bounds) :
      IsSubscript lower c (.branch .slice c.line bounds)
  | value {t : Tree} (h : lower c .load = .ok t) : IsSubscript lower c t

/-- What stands in the brackets of a subscript on the given line. -/
inductive AreSubscripts (lower : Cst → Kind → Result Tree) (line : Nat) : List Cst → Tree → Prop
  | slice {c : Cst} {bounds : List Tree} (htag : c.tag = .slice)
      (hbounds : lowerAll lower .load c.proper = .ok bounds) :
      AreSubscripts lower line [c] (.branch .slice c.line bounds)
  | index {c : Cst} {value : Tree} (hvalue : lower c .load = .ok value) :
      AreSubscripts lower line [c] (.branch .index line [value])
  | several {cs : List Cst} {parts : List Tree}
      (hparts : List.Forall₂ (IsSubscript lower) cs parts) :
      AreSubscripts lower line cs (.branch .index line [inContext .tuple line parts .load])

/-- What an expression is lowered to in a context, where its parts are lowered by `lower`. -/
inductive Expressed (s : Source) (lower : Cst → Kind → Result Tree) (c : Cst) (context : Kind) :
    Tree → Prop
  | name {name : String} (htag : c.tag = .identifier) (hname : text s c = .ok name) :
      Expressed s lower c context (.named .name c.line name [.leaf context c.line])
  | access {last : Cst} {name : String} {value : Tree} (htag : c.tag = .attributeAccess)
      (hvalue : LowersIn lower .object .load c value) (hlast : c.child? .attributeName = some last)
      (hname : text s last = .ok name) :
      Expressed s lower c context
        (.named .attributeOf c.line name [value, .leaf context c.line])
  | subscript {value part : Tree} (htag : c.tag = .subscript)
      (hvalue : LowersIn lower .value .load c value)
      (hpart : AreSubscripts lower c.line (c.childrenIn .subscript) part) :
      Expressed s lower c context
        (.branch .subscript c.line [value, part, .leaf context c.line])
  | call {t : Tree} (htag : c.tag = .call) (h : IsCall s lower c t) : Expressed s lower c context t
  | binary {op : Cst} {kind : Kind} {left right : Tree} (htag : c.tag = .binaryOperator)
      (hop : c.child? .operator = some op) (hkind : binaryKind? op.tag.name = some kind)
      (hleft : LowersIn lower .left .load c left) (hright : LowersIn lower .right .load c right) :
      Expressed s lower c context (.branch .binOp c.line [left, .leaf kind c.line, right])
  | unary {op : Cst} {kind : Kind} {value : Tree} (htag : c.tag = .unaryOperator)
      (hop : c.child? .operator = some op) (hkind : unaryKind? op.tag.name = some kind)
      (hvalue : LowersIn lower .argument .load c value) :
      Expressed s lower c context (.branch .unaryOp c.line [.leaf kind c.line, value])
  | negation {value : Tree} (htag : c.tag = .notOperator)
      (hvalue : LowersIn lower .argument .load c value) :
      Expressed s lower c context (.branch .unaryOp c.line [.leaf .notOf c.line, value])
  | chain {op : Cst} {operands : List Tree} (htag : c.tag = .booleanOperator)
      (hop : c.child? .operator = some op)
      (hoperands : (chainOperands op.tag.name [c]).mapM (fun r => do lower (← r) .load)
        = .ok operands) :
      Expressed s lower c context
        (.branch .boolOp c.line (.leaf (truthKind op.tag.name) c.line :: operands))
  | comparison {t : Tree} (htag : c.tag = .comparisonOperator) (h : IsComparison lower c t) :
      Expressed s lower c context t
  | number {spelling : String} (htag : c.tag = .integerLiteral ∨ c.tag = .floatLiteral) :
      Expressed s lower c context (.named .num c.line spelling [])
  | string {kind : Kind} (htag : c.tag = .stringLiteral) (hkind : stringKind s c = .ok kind) :
      Expressed s lower c context (.leaf kind c.line)
  | strings {kind : Kind} (htag : c.tag = .concatenatedString)
      (hkind : joinedKind s c.proper .str = .ok kind) :
      Expressed s lower c context (.leaf kind c.line)
  | constant {name : String} (hname : c.tag.constant? = some name) :
      Expressed s lower c context (.named .nameConstant c.line name [])
  | ellipsis (htag : c.tag = .ellipsis) : Expressed s lower c context (.leaf .ellipsis c.line)
  | listDisplay {ts : List Tree} (htag : c.tag = .listDisplay ∨ c.tag = .listPattern)
      (hts : lowerAll lower context c.proper = .ok ts) :
      Expressed s lower c context (inContext .listDisplay c.line ts context)
  | tuple {ts : List Tree}
      (htag : c.tag = .tuple ∨ c.tag = .expressionList ∨ c.tag = .patternList
        ∨ c.tag = .tuplePattern)
      (hts : lowerAll lower context c.proper = .ok ts) :
      Expressed s lower c context (inContext .tuple c.line ts context)
  | setDisplay {ts : List Tree} (htag : c.tag = .setDisplay)
      (hts : lowerAll lower .load c.proper = .ok ts) :
      Expressed s lower c context (.branch .setDisplay c.line ts)
  | dictionary {each : List (List Tree × List Tree)} (htag : c.tag = .dictionary)
      (heach : c.proper.mapM (dictionaryEntry lower) = .ok each) :
      Expressed s lower c context
        (.branch .dict c.line (each.flatMap (·.1) ++ each.flatMap (·.2)))
  | comprehension {kind : Kind} {body : Cst} {element loops : List Tree}
      (hkind : c.tag.comprehensionKind? = some kind) (hbody : c.child? .body = some body)
      (helement : IsElement lower body element)
      (hloops : List.Forall₂ (IsRound lower) (rounds (c.proper.drop 1)) loops)
      (hclauses : (rounds (c.proper.drop 1)).flatMap Round.clauses = c.proper.drop 1) :
      Expressed s lower c context (.branch kind c.line (element ++ loops))
  | wrapped {t : Tree} (htag : c.tag.isWrapper = true) (h : LowersFirst lower context c t) :
      Expressed s lower c context t
  | starred {value : Tree} (htag : c.tag = .listSplat ∨ c.tag = .listSplatPattern)
      (hvalue : LowersFirst lower context c value) :
      Expressed s lower c context (.branch .starred c.line [value, .leaf context c.line])
  | choice {first second third : Cst} {body test other : Tree}
      (htag : c.tag = .conditionalExpression) (hproper : c.proper = [first, second, third])
      (hbody : lower first .load = .ok body) (htest : lower second .load = .ok test)
      (hother : lower third .load = .ok other) :
      Expressed s lower c context (.branch .ifExp c.line [test, body, other])
  | lambda {given value : Tree} (htag : c.tag = .lambda)
      (hgiven : AreParameters s lower (c.child? .parameters) c.line given)
      (hvalue : LowersIn lower .body .load c value) :
      Expressed s lower c context (.branch .lambda c.line [given, value])
  | naming {key value : Tree} (htag : c.tag = .namedExpression)
      (hkey : LowersIn lower .name .store c key) (hvalue : LowersIn lower .value .load c value) :
      Expressed s lower c context (.branch .namedExpr c.line [key, value])
  | await {value : Tree} (htag : c.tag = .await) (hvalue : LowersFirst lower .load c value) :
      Expressed s lower c context (.branch .await c.line [value])
  | yield {ts : List Tree} (htag : c.tag = .yield)
      (hts : lowerAll lower .load c.proper = .ok ts) :
      Expressed s lower c context
        (.branch (if c.hasToken "from" then .yieldFrom else .yield) c.line ts)

section

variable {s : Source} {lower : Cst → Kind → Result Tree} {c : Cst} {context kind : Kind} {t : Tree}

theorem LowersFirst.under (h : LowersFirst lower context c t) : LowersUnder lower context c t := by
  obtain ⟨d, hd, h⟩ := h
  obtain ⟨rest, hproper⟩ := firstProper_eq_ok.mp hd
  exact ⟨d, Cst.mem_allNodes_of_mem_proper (hproper ▸ List.mem_cons_self), h⟩

theorem isSubscript_of_subscriptPart (h : subscriptPart lower c = .ok t) : IsSubscript lower c t := by
  unfold subscriptPart at h
  split at h
  · next htag =>
    simp only [slice, bind_eq_ok, pure_eq_ok] at h
    obtain ⟨bounds, hbounds, rfl⟩ := h
    exact .slice htag hbounds
  · exact .value h

theorem areSubscripts_of_subscripts {line : Nat} {cs : List Cst}
    (h : subscripts lower line cs = .ok t) : AreSubscripts lower line cs t := by
  unfold subscripts at h
  split at h
  · split at h
    · next htag =>
      simp only [slice, bind_eq_ok, pure_eq_ok] at h
      obtain ⟨bounds, hbounds, rfl⟩ := h
      exact .slice htag hbounds
    · simp only [bind_eq_ok, pure_eq_ok] at h
      obtain ⟨value, hvalue, rfl⟩ := h
      exact .index hvalue
  · simp only [bind_eq_ok, pure_eq_ok] at h
    obtain ⟨parts, hparts, rfl⟩ := h
    exact .several ((forall₂_of_mapM hparts).imp fun _ _ => isSubscript_of_subscriptPart)

/-- The operands of a chain stand under it. -/
theorem mem_of_chainOperands {operator : String} {pending : List Cst} :
    ∀ r ∈ chainOperands operator pending, ∀ d, r = .ok d → ∃ c ∈ pending, d ∈ c.allNodes := by
  fun_induction chainOperands operator pending with
  | case1 => simp
  | case2 c pending hlink hr => simp [required, hr]
  | case3 c pending hlink r hr hl => simp [required, hl]
  | case4 c pending hlink r hr l hl ih =>
    intro x hx d hd
    obtain ⟨e, he, hde⟩ := ih x hx d hd
    rcases List.mem_cons.mp he with rfl | he
    · exact ⟨c, List.mem_cons_self, Cst.mem_allNodes_trans hde (Cst.mem_allNodes_of_child? hl)⟩
    · rcases List.mem_cons.mp he with rfl | he
      · exact ⟨c, List.mem_cons_self, Cst.mem_allNodes_trans hde (Cst.mem_allNodes_of_child? hr)⟩
      · exact ⟨e, List.mem_cons_of_mem _ he, hde⟩
  | case5 c pending hlink ih =>
    refine List.forall_mem_cons.mpr ⟨fun d hd => ?_, fun x hx d hd => ?_⟩
    · obtain rfl := Except.ok.inj hd
      exact ⟨c, List.mem_cons_self, Cst.self_mem_nodes⟩
    · obtain ⟨e, he, hde⟩ := ih x hx d hd
      exact ⟨e, List.mem_cons_of_mem _ he, hde⟩

theorem under_of_chainOperands {operator : String} {ts : List Tree}
    (h : (chainOperands operator [c]).mapM (fun r => do lower (← r) .load) = .ok ts) :
    ∀ t ∈ ts, LowersUnder lower .load c t := by
  refine forall_of_mapM h fun r hr t ht => ?_
  obtain ⟨d, rfl, ht⟩ := bind_eq_ok.mp ht
  obtain ⟨e, he, hd⟩ := mem_of_chainOperands _ hr d rfl
  exact ⟨d, List.mem_singleton.mp he ▸ hd, ht⟩

theorem expressed_comprehension (hkind : c.tag.comprehensionKind? = some kind)
    (h : comprehension lower kind c = .ok t) : Expressed s lower c context t := by
  obtain ⟨body, hbody⟩ : ∃ body, c.child? .body = some body := by
    obtain ⟨body, hbody, -⟩ := bind_eq_ok.mp h
    exact ⟨body, required_eq_ok.mp hbody⟩
  obtain ⟨element, loops, rfl, helement, hloops⟩ := comprehension_eq_ok hbody h
  obtain ⟨hrounds, hclauses⟩ := forall₂_isRound hloops
  exact .comprehension hkind hbody helement hrounds hclauses

theorem expressed (h : expressionNode s lower c context = .ok t) : Expressed s lower c context t := by
  cases htag : c.tag
  case identifier =>
    simp only [expressionNode, htag, bind_eq_ok, pure_eq_ok] at h
    obtain ⟨name, hname, rfl⟩ := h
    exact .name htag hname
  case attributeAccess =>
    simp only [expressionNode, htag, bind_eq_ok, pure_eq_ok, required_eq_ok] at h
    obtain ⟨object, hobject, value, hvalue, last, hlast, name, hname, rfl⟩ := h
    exact .access htag ⟨object, hobject, hvalue⟩ hlast hname
  case subscript =>
    simp only [expressionNode, htag, bind_eq_ok, pure_eq_ok, required_eq_ok] at h
    obtain ⟨base, hbase, value, hvalue, part, hpart, rfl⟩ := h
    exact .subscript htag ⟨base, hbase, hvalue⟩ (areSubscripts_of_subscripts hpart)
  case call => exact .call htag (isCall_of_call htag h)
  case binaryOperator =>
    simp only [expressionNode, htag, bind_eq_ok, pure_eq_ok, required_eq_ok] at h
    obtain ⟨op, hop, kind, hkind, left, hleft, l, hl, right, hright, r, hr, rfl⟩ := h
    exact .binary htag hop (operatorOf_eq_ok hkind) ⟨left, hleft, hl⟩ ⟨right, hright, hr⟩
  case unaryOperator =>
    simp only [expressionNode, htag, bind_eq_ok, pure_eq_ok, required_eq_ok] at h
    obtain ⟨op, hop, kind, hkind, argument, hargument, value, hvalue, rfl⟩ := h
    exact .unary htag hop (operatorOf_eq_ok hkind) ⟨argument, hargument, hvalue⟩
  case notOperator =>
    simp only [expressionNode, htag, bind_eq_ok, pure_eq_ok, required_eq_ok] at h
    obtain ⟨argument, hargument, value, hvalue, rfl⟩ := h
    exact .negation htag ⟨argument, hargument, hvalue⟩
  case booleanOperator =>
    simp only [expressionNode, htag, bind_eq_ok, pure_eq_ok, required_eq_ok] at h
    obtain ⟨op, hop, operands, hoperands, rfl⟩ := h
    exact .chain htag hop hoperands
  case comparisonOperator => exact .comparison htag (isComparison_of_comparison htag h)
  case integerLiteral | floatLiteral =>
    simp only [expressionNode, htag, bind_eq_ok, pure_eq_ok] at h
    obtain ⟨spelling, hspelling, rfl⟩ := h
    exact .number (by simp [htag])
  case stringLiteral =>
    simp only [expressionNode, htag, bind_eq_ok, pure_eq_ok] at h
    obtain ⟨kind, hkind, rfl⟩ := h
    exact .string htag hkind
  case concatenatedString =>
    simp only [expressionNode, htag, bind_eq_ok, pure_eq_ok] at h
    obtain ⟨kind, hkind, rfl⟩ := h
    exact .strings htag hkind
  case trueLiteral | falseLiteral | noneLiteral =>
    simp only [expressionNode, htag, pure_eq_ok] at h
    subst h
    exact .constant (by rw [htag]; rfl)
  case ellipsis =>
    simp only [expressionNode, htag, pure_eq_ok] at h
    subst h
    exact .ellipsis htag
  case listDisplay | listPattern =>
    simp only [expressionNode, htag, bind_eq_ok, pure_eq_ok] at h
    obtain ⟨ts, hts, rfl⟩ := h
    exact .listDisplay (by simp [htag]) hts
  case tuple | expressionList | patternList | tuplePattern =>
    simp only [expressionNode, htag, bind_eq_ok, pure_eq_ok] at h
    obtain ⟨ts, hts, rfl⟩ := h
    exact .tuple (by simp [htag]) hts
  case setDisplay =>
    simp only [expressionNode, htag, bind_eq_ok, pure_eq_ok] at h
    obtain ⟨ts, hts, rfl⟩ := h
    exact .setDisplay htag hts
  case dictionary =>
    simp only [expressionNode, htag, bind_eq_ok, pure_eq_ok] at h
    obtain ⟨each, heach, rfl⟩ := h
    exact .dictionary htag heach
  case listComprehension | setComprehension | generatorExpression | dictionaryComprehension =>
    simp only [expressionNode, htag] at h
    exact expressed_comprehension (by rw [htag]; rfl) h
  case parenthesizedExpression | typeExpression | asPattern | asPatternTarget =>
    simp only [expressionNode, htag, bind_eq_ok] at h
    exact .wrapped (by rw [htag]; rfl) h
  case listSplat | listSplatPattern =>
    simp only [expressionNode, htag, bind_eq_ok, pure_eq_ok] at h
    obtain ⟨inner, hinner, value, hvalue, rfl⟩ := h
    exact .starred (by simp [htag]) ⟨inner, hinner, hvalue⟩
  case conditionalExpression =>
    simp only [expressionNode, htag] at h
    split at h
    · next first second third hproper =>
      simp only [bind_eq_ok, pure_eq_ok] at h
      obtain ⟨test, htest, body, hbody, other, hother, rfl⟩ := h
      exact .choice htag hproper hbody htest hother
    · cases h
  case lambda =>
    simp only [expressionNode, htag, bind_eq_ok, pure_eq_ok, required_eq_ok] at h
    obtain ⟨given, hgiven, inner, hinner, value, hvalue, rfl⟩ := h
    exact .lambda htag (areParameters_of_parameters hgiven) ⟨inner, hinner, hvalue⟩
  case namedExpression =>
    simp only [expressionNode, htag, bind_eq_ok, pure_eq_ok, required_eq_ok] at h
    obtain ⟨left, hleft, key, hkey, right, hright, value, hvalue, rfl⟩ := h
    exact .naming htag ⟨left, hleft, hkey⟩ ⟨right, hright, hvalue⟩
  case await =>
    simp only [expressionNode, htag, bind_eq_ok, pure_eq_ok] at h
    obtain ⟨inner, hinner, value, hvalue, rfl⟩ := h
    exact .await htag ⟨inner, hinner, hvalue⟩
  case yield =>
    simp only [expressionNode, htag, bind_eq_ok, pure_eq_ok] at h
    obtain ⟨ts, hts, rfl⟩ := h
    exact .yield htag hts
  all_goals simp [expressionNode, htag, unsupported] at h

/-! ### Targets -/

theorem Expressed.place (h : Expressed s lower c context t) (hc : c.tag.isPlace = true) :
    (c.tag = .identifier ∧ ∃ name, text s c = .ok name
      ∧ t = .named .name c.line name [.leaf context c.line])
    ∨ (c.tag = .attributeAccess ∨ c.tag = .subscript)
      ∧ (t.kind = .attributeOf ∨ t.kind = .subscript) := by
  unfold Tag.isPlace at hc
  cases h
  case name htag hname => exact Or.inl ⟨htag, _, hname, rfl⟩
  case access htag _ _ _ => exact Or.inr ⟨Or.inl htag, Or.inl rfl⟩
  case subscript htag _ _ => exact Or.inr ⟨Or.inr htag, Or.inr rfl⟩
  all_goals grind [Tag.constant?, Tag.isWrapper, Tag.comprehensionKind?]

theorem Expressed.pattern (h : Expressed s lower c context t) (hc : c.tag.isPattern = true) :
    ∃ kind ts, t = inContext kind c.line ts context
      ∧ ((kind = .tuple ∨ kind = .listDisplay) ∧ lowerAll lower context c.proper = .ok ts
        ∨ kind = .starred ∧ c.tag = .listSplatPattern
          ∧ ∃ u, ts = [u] ∧ LowersFirst lower context c u) := by
  unfold Tag.isPattern at hc
  cases h
  case listDisplay ts _ hts => exact ⟨_, ts, rfl, Or.inl ⟨Or.inr rfl, hts⟩⟩
  case tuple ts _ hts => exact ⟨_, ts, rfl, Or.inl ⟨Or.inl rfl, hts⟩⟩
  case starred u _ hu =>
    have hsplat : c.tag = .listSplatPattern := by grind
    exact ⟨_, [u], rfl, Or.inr ⟨rfl, hsplat, u, rfl, hu⟩⟩
  all_goals grind [Tag.constant?, Tag.isWrapper, Tag.comprehensionKind?]

end

end Lowering
end Gatehouse
