import Gatehouse.Cst

/-!
The shape of concrete trees: which children a node of each kind may have. Only what lowering relies
on is told: it looks for children in certain roles, or takes the first child of a kind of its own,
and what it does not look for must not be there.
-/
namespace Gatehouse

/-- A part that a node may have: a child in a role, of certain kinds. -/
structure Slot where
  role : Role
  allows : Tag → Bool
  many : Bool

namespace Slot

def single (role : Role) : Slot := ⟨role, fun _ => true, false⟩

def only (role : Role) (tag : Tag) : Slot := ⟨role, fun t => t == tag, false⟩

def several (role : Role) : Slot := ⟨role, fun _ => true, true⟩

end Slot

namespace Cst

def countIn (r : Role) (cs : List Cst) : Nat := cs.countP (fun d => d.role == some r)

/-- Every child of a kind of its own is one of the parts given. -/
structure Slotted (slots : List Slot) (cs : List Cst) : Prop where
  filled : ∀ d ∈ cs, d.isProper = true →
    ∃ slot ∈ slots, d.role = some slot.role ∧ slot.allows d.tag = true
  once : ∀ slot ∈ slots, slot.many = false → countIn slot.role cs ≤ 1

def Bare (cs : List Cst) : Prop := ∀ d ∈ cs, d.isProper = false

def Wrapping (cs : List Cst) : Prop := cs.countP isProper ≤ 1

/-- All children of kinds of their own after the first are in the role. -/
def Led (r : Role) (cs : List Cst) : Prop :=
  ∀ first rest, cs.filter isProper = first :: rest → ∀ d ∈ rest, d.role = some r

/-- The first child of a kind of its own is the only child in the role. -/
def Headed (r : Role) (cs : List Cst) : Prop :=
  countIn r cs ≤ 1 ∧ ∀ first rest, cs.filter isProper = first :: rest → first.role = some r

/-- The one child in a role is the one that is found. -/
theorem child?_eq_of_count {c d : Cst} {r : Role} (hcount : countIn r c.children ≤ 1)
    (hd : d ∈ c.children) (hrole : d.role = some r) : c.child? r = some d := by
  obtain ⟨before, after, hsplit⟩ := List.append_of_mem hd
  have htest : (d.role == some r) = true := beq_iff_eq.mpr hrole
  have hnone : before.countP (fun e => e.role == some r) = 0 := by
    unfold countIn at hcount
    rw [hsplit, List.countP_append, List.countP_cons, htest] at hcount
    simp only [if_true] at hcount
    omega
  have hbefore : before.find? (fun e => e.role == some r) = none := by
    rw [List.find?_eq_none]
    exact List.countP_eq_zero.mp hnone
  unfold child?
  rw [hsplit, List.find?_append, hbefore, List.find?_cons, htest]
  rfl

theorem Headed.child? {c d : Cst} {r : Role} {rest : List Cst} (h : Headed r c.children)
    (hproper : c.proper = d :: rest) : c.child? r = some d :=
  child?_eq_of_count h.1 (List.mem_filter.mp (hproper ▸ List.mem_cons_self)).1 (h.2 d rest hproper)

end Cst

/-- Kinds whose nodes are refused as they stand, or lowered to a node that is never admitted. What
is inside of them does not matter. -/
def Tag.isHopeless : Tag → Bool
  | .error | .lambda | .conditionalExpression | .namedExpression | .await | .yield
  | .generatorExpression | .setComprehension | .dictionaryComprehension | .classDefinition
  | .importFromStatement | .futureImportStatement | .nonlocalStatement | .deleteStatement
  | .raiseStatement | .tryStatement | .withStatement | .matchStatement | .typeAliasStatement
  | .execStatement | .breakStatement | .continueStatement | .splatType | .genericType
  | .unionType | .constrainedType | .memberType => true
  | _ => false

namespace Cst

/-- A child of an import that is the path of a module, dots and all. -/
def isPath (c d : Cst) : Bool :=
  (c.tag == .importStatement && d.tag == .dottedName)
    || (c.tag == .aliasedImport && d.role == some .name)

/-- A child that lowering never looks at although its parent is lowered: the parameters of a
function's types, the other name that an expression is given, and the annotation of a link in a
chain of assignments. -/
def isBlindSpot (c d : Cst) : Bool :=
  (c.tag == .functionDefinition && d.role == some .typeParameters)
    || (c.tag == .asPattern && d.role == some .alias)
    || (c.tag == .assignment && c.role == some .right && d.role == some .typeHint)

/-- Does a name count that stands in a child? Text of strings and paths of imports have none. -/
def isEntered (c d : Cst) : Bool := c.tag != .stringLiteral && !c.isPath d

end Cst

open Cst in
def Tag.Fits (tag : Tag) (cs : List Cst) : Prop :=
  match tag with
  | .token _ | .missing _ | .comment | .lineContinuation | .identifier | .integerLiteral
  | .floatLiteral | .trueLiteral | .falseLiteral | .noneLiteral | .ellipsis | .passStatement
  | .keywordSeparator | .positionalSeparator => Bare cs
  | .parenthesizedExpression | .parenthesizedListSplat | .typeExpression | .listSplat
  | .listSplatPattern | .dictionarySplat | .dictionarySplatPattern | .ifClause | .decorator
  | .asPatternTarget => Wrapping cs
  | .asPattern => Led .alias cs
  | .typedParameter => Led .typeHint cs ∧ countIn .typeHint cs ≤ 1
  | .listComprehension => Headed .body cs
  | .concatenatedString => ∀ d ∈ cs.filter isProper, d.tag = .stringLiteral
  | .dottedName => ∀ d ∈ cs.filter isProper, d.tag = .identifier
  | .attributeAccess => Slotted [.single .object, .only .attributeName .identifier] cs
  | .subscript => Slotted [.single .value, .several .subscript] cs
  | .call => Slotted [.single .function, ⟨.arguments,
      fun t => t == .argumentList || t == .generatorExpression, false⟩] cs
  | .binaryOperator | .booleanOperator | .augmentedAssignment =>
    Slotted [.single .left, .single .right] cs
  | .unaryOperator | .notOperator => Slotted [.single .argument] cs
  | .assignment => Slotted [.single .left, .single .typeHint, .single .right] cs
  | .keywordArgument => Slotted [.only .name .identifier, .single .value] cs
  | .pair => Slotted [.single .key, .single .value] cs
  | .forInClause => Slotted [.single .left, .several .right] cs
  | .defaultParameter => Slotted [.single .name, .single .value] cs
  | .typedDefaultParameter => Slotted [.single .name, .single .typeHint, .single .value] cs
  | .functionDefinition => Slotted [.only .name .identifier, .single .typeParameters,
      .only .parameters .parameters, .single .returnType, .only .body .block] cs
  | .decoratedDefinition => countIn .definition cs ≤ 1
      ∧ ∀ d ∈ cs.filter isProper, d.tag = .decorator ∨ d.role = some .definition
  | .forStatement => Slotted [.single .left, .single .right, .only .body .block,
      .only .alternative .elseClause] cs
  | .whileStatement => Slotted [.single .condition, .only .body .block,
      .only .alternative .elseClause] cs
  | .elseClause => Slotted [.only .body .block] cs
  | .elifClause => Slotted [.single .condition, .only .consequence .block] cs
  | .ifStatement => Slotted [.single .condition, .only .consequence .block,
      ⟨.alternative, fun t => t == .elifClause || t == .elseClause, true⟩] cs
      ∧ ∀ d ∈ (cs.filter (fun d => d.role == some .alternative && !d.tag.isExtra)).dropLast,
        d.tag = .elifClause
  | .importStatement => Slotted [.several .name] cs
  | .aliasedImport => Slotted [.only .name .dottedName, .single .alias] cs
  | _ => True

/-- A tree whose nodes are of the right shape, as far as it is worth looking. -/
inductive Cst.Shaped : Cst → Prop
  | intro {c : Cst} (fits : c.tag.Fits c.children) (children : ∀ d ∈ c.children,
      c.tag.isHopeless = false → c.tag ≠ .stringLiteral → c.isBlindSpot d = false → Shaped d) :
      Shaped c

end Gatehouse
