import Gatehouse.Proofs.Cst.Chain
import Gatehouse.Proofs.Cst.Statements
import Gatehouse.Proofs.Cst.Target

/-!
What the grammar says of assignments wherever they stand as statements: left of each link is
something that can be assigned to. Only nodes that an assignment can be reached through are entered;
what an expression holds does not matter.
-/
namespace Gatehouse

/-- Kinds of nodes that an assignment which is a statement may be, or stand in. A choice by patterns
is none, since nothing inside of its cases is lowered. -/
def Tag.mayAssign : Tag → Bool
  | .module | .block | .expressionStatement | .assignment | .ifStatement | .elifClause
  | .elseClause | .forStatement | .whileStatement | .tryStatement | .exceptClause
  | .finallyClause | .withStatement | .functionDefinition | .classDefinition
  | .decoratedDefinition => true
  | _ => false

namespace Cst

/-- Can the node stand left of an assignment? It is one place, or a list or brackets of targets, or
a splat of places. -/
def isLeftSide (c : Cst) : Bool :=
  c.tag.isPlace || (c.tag.isPattern && (c.tag != .listSplatPattern || c.proper.all (·.tag.isPlace)))

end Cst

/-- Does the child stand where it may? Left of an assignment is a left side, and in the role of a
block is a node that statements are reached through. -/
def Tag.seats (tag : Tag) (d : Cst) : Bool :=
  (tag != .assignment || d.role != some .left || d.isLeftSide)
    && (!d.role.any Role.isOfBlock || d.tag.mayAssign)

namespace Cst

mutual
/-- Has every assignment that is reached through the node a left side on its left? -/
def aims : Cst → Bool
  | .node tag _ _ cs => !tag.mayAssign || (cs.all tag.seats && allAim cs)

def allAim : List Cst → Bool
  | [] => true
  | c :: cs => c.aims && allAim cs
end

def Part (tag : Tag) (d : Cst) : Prop := tag.seats d = true ∧ d.aims = true

section

variable {c d : Cst} {tag : Tag} {cs : List Cst} {r : Role}

theorem allAim_iff : allAim cs = true ↔ ∀ c ∈ cs, c.aims = true := by
  induction cs with
  | nil => simp [allAim]
  | cons c cs ih => simp [allAim, ih]

theorem aims_iff : c.aims = true ↔
    (c.tag.mayAssign = true → ∀ d ∈ c.children, Part c.tag d) := by
  obtain ⟨tag, r, sp, cs⟩ := c
  simp only [aims, allAim_iff, Bool.or_eq_true, Bool.not_eq_true', Bool.and_eq_true,
    List.all_eq_true, ← forall₂_and, Cst.tag, children, Part]
  cases tag.mayAssign <;> simp

theorem isLeftSide_iff : c.isLeftSide = true ↔ c.tag.isPlace = true ∨ c.tag.isPattern = true
    ∧ (c.tag = .listSplatPattern → ∀ d ∈ c.proper, d.tag.isPlace = true) := by
  simp only [isLeftSide, Bool.or_eq_true, Bool.and_eq_true, List.all_eq_true, bne_iff_ne, ne_eq,
    Decidable.imp_iff_not_or]

@[simp] theorem isLeftSide_inRole : (c.inRole r).isLeftSide = c.isLeftSide := by
  simp only [isLeftSide, proper, tag_inRole, children_inRole]

@[simp] theorem aims_inRole : (c.inRole r).aims = c.aims := by
  rw [Bool.eq_iff_iff, aims_iff, aims_iff, tag_inRole, children_inRole]

theorem mayAssign_of_isLeftSide (h : c.isLeftSide = true) : c.tag.mayAssign = false := by
  have hkinds : ∀ tag : Tag, tag.isPlace = true ∨ tag.isPattern = true →
      tag.mayAssign = false := by
    intro tag h
    cases tag <;> first
      | rfl
      | simp [Tag.isPlace, Tag.isPattern] at h
  exact hkinds _ ((isLeftSide_iff.mp h).imp_right And.left)

theorem aims_of_mayAssign (h : c.tag.mayAssign = false) : c.aims = true :=
  aims_iff.mpr fun hmay => by
    rw [h] at hmay
    cases hmay

end

/-! ### What is reached through a node -/

section

variable {c d b : Cst} {r : Role}

theorem part_of_mem (h : c.aims = true) (hmay : c.tag.mayAssign = true) (hd : d ∈ c.children) :
    Part c.tag d :=
  aims_iff.mp h hmay d hd

theorem aims_of_mem_proper (h : c.aims = true) (hmay : c.tag.mayAssign = true)
    (hd : d ∈ c.proper) : d.aims = true :=
  (part_of_mem h hmay (List.mem_filter.mp hd).1).2

theorem aims_of_blockIn (h : c.aims = true) (hmay : c.tag.mayAssign = true)
    (hr : r.isOfBlock = true) (hb : b ∈ c.blockIn r) :
    b.aims = true ∧ b.tag.mayAssign = true := by
  have hchild : c.child? r = some b := Option.mem_toList.mp hb
  obtain ⟨hseats, haims⟩ := part_of_mem h hmay (mem_children_of_child? hchild)
  have hrole : b.role = some r := role_of_child? hchild
  simp only [Tag.seats, hrole, Option.any_some, hr, Bool.and_eq_true, Bool.not_true,
    Bool.false_or] at hseats
  exact ⟨haims, hseats.2⟩

/-- Left of every link of a chain is something that can be assigned to. -/
theorem isLeftSide_of_mem_links (h : c.aims = true) {link left : Cst} (hlink : link ∈ c.links)
    (hleft : link.child? .left = some left) : left.isLeftSide = true := by
  induction c using Cst.inductionOn with
  | step c ih =>
    by_cases htag : c.tag = .assignment
    · have hpart : ∀ {e : Cst} {r : Role}, c.child? r = some e → Part .assignment e :=
        fun he => htag ▸ part_of_mem h (by rw [htag]; rfl) (mem_children_of_child? he)
      rw [links_of_assignment htag, List.mem_cons, List.mem_flatMap] at hlink
      rcases hlink with rfl | ⟨right, hright, hlink⟩
      · have hrole : left.role = some .left := role_of_child? hleft
        simpa [Tag.seats, hrole, Role.isOfBlock] using (hpart hleft).1
      · have hchild := Option.mem_toList.mp hright
        exact ih right (mem_children_of_child? hchild) (hpart hchild).2 hlink
    · rw [links_eq_nil htag] at hlink
      cases hlink

end

end Cst

/-- The statements of a block are aimed, and so are the branches of a choice. -/
def Held.Aims : Held → Prop
  | block b => ∀ d ∈ b.proper, d.aims = true
  | branches cs => ∀ c ∈ cs, c.aims = true

namespace Cst

theorem aims_heldBlock {c : Cst} {r : Role} (h : c.aims = true) (hmay : c.tag.mayAssign = true)
    (hr : r.isOfBlock = true) : ∀ b ∈ c.blockIn r, (Held.block b).Aims := by
  intro b hb
  obtain ⟨haims, hkind⟩ := aims_of_blockIn h hmay hr hb
  exact fun d hd => aims_of_mem_proper haims hkind hd

/-- What a statement holds is aimed if the statement is. -/
theorem aims_of_held {c : Cst} (h : c.aims = true) : ∀ x ∈ c.held, x.Aims := by
  cases htag : c.tag
  case ifStatement =>
    have hmay : c.tag.mayAssign = true := by rw [htag]; rfl
    simp only [held, htag, List.forall_mem_append, List.forall_mem_map, List.forall_mem_singleton]
    refine ⟨aims_heldBlock h hmay rfl, fun d hd => ?_⟩
    exact (part_of_mem h hmay (List.mem_filter.mp hd).1).2
  case forStatement | whileStatement =>
    have hmay : c.tag.mayAssign = true := by rw [htag]; rfl
    simp only [held, htag, List.forall_mem_map, List.forall_mem_append, List.forall_mem_flatMap]
    refine ⟨aims_heldBlock h hmay rfl, fun d hd => ?_⟩
    obtain ⟨haims, hkind⟩ := aims_of_blockIn (r := .alternative) h hmay rfl hd
    exact aims_heldBlock haims hkind rfl
  case withStatement | functionDefinition | classDefinition =>
    have hmay : c.tag.mayAssign = true := by rw [htag]; rfl
    simpa only [held, htag, List.forall_mem_map] using aims_heldBlock h hmay (r := .body) rfl
  case tryStatement =>
    have hmay : c.tag.mayAssign = true := by rw [htag]; rfl
    simp only [held, htag, List.forall_mem_map, List.forall_mem_append, List.forall_mem_flatMap]
    refine ⟨aims_heldBlock h hmay rfl, fun d hd b hb => ?_⟩
    have hd := aims_of_mem_proper h hmay hd
    -- Only clauses have blocks, and only those of their children that are blocks.
    have hclause : d.tag.mayAssign = true ∧ b ∈ d.proper ∧ b.tag = .block := by
      unfold clauseBlocks at hb
      split at hb
      case h_4 => cases hb
      all_goals
        next hkind =>
          obtain ⟨hmem, hbtag⟩ := List.mem_filter.mp hb
          exact ⟨by rw [hkind]; rfl, hmem, beq_iff_eq.mp hbtag⟩
    obtain ⟨hkind, hmem, hbtag⟩ := hclause
    exact fun e he => aims_of_mem_proper (aims_of_mem_proper hd hkind hmem) (by rw [hbtag]; rfl) he
  all_goals simp [held, htag]

theorem aims_counted {c : Cst} (h : c.aims = true) : c.counted.aims = true := by
  unfold counted
  split
  · next htag =>
    cases hchild : c.child? .definition with
    | none => exact h
    | some d => exact (part_of_mem h (by rw [htag]; rfl) (mem_children_of_child? hchild)).2
  · exact h

end Cst

end Gatehouse
