import Gatehouse.Proofs.Cst.Statements
import Gatehouse.Proofs.Lowering.Layers
import Gatehouse.Proofs.Lowering.Stated

/-!
What a statement is lowered to: a node of its kind on its line, over expressions and over what its
blocks and branches are lowered to, in the order of the text.
-/
namespace Gatehouse

open Gatehouse.Tree

/-- Trees in a row: layers over parts, and between them what is given for what a statement holds, in
its order. Handlers stand over such rows, nested `n` deep at most. -/
inductive Gathers (part : Tree → Prop) (gives : Held → List Tree → Prop) :
    Nat → List Held → List Tree → Prop
  | nil {n : Nat} : Gathers part gives n [] []
  | part {n : Nat} {hs : List Held} {t : Tree} {ts : List Tree} (h : Over part (n + 1) t)
      (hts : Gathers part gives n hs ts) : Gathers part gives n hs (t :: ts)
  | held {n : Nat} {h : Held} {hs : List Held} {us ts : List Tree} (hus : gives h us)
      (hts : Gathers part gives n hs ts) : Gathers part gives n (h :: hs) (us ++ ts)
  | handler {n line : Nat} {hs hs' : List Held} {us ts : List Tree}
      (hus : Gathers part gives n hs us) (hts : Gathers part gives (n + 1) hs' ts) :
      Gathers part gives (n + 1) (hs ++ hs') (.branch .exceptHandler line us :: ts)

namespace Gathers

variable {part : Tree → Prop} {gives : Held → List Tree → Prop} {n : Nat} {hs hs' : List Held}
  {ts us : List Tree}

theorem append (h : Gathers part gives n hs us) (h' : Gathers part gives n hs' ts) :
    Gathers part gives n (hs ++ hs') (us ++ ts) := by
  induction h with
  | nil => exact h'
  | part h _ ih => exact .part h (ih h')
  | held hus _ ih =>
    rw [List.append_assoc, List.cons_append]
    exact .held hus (ih h')
  | handler hus _ _ ih =>
    rw [List.append_assoc, List.cons_append]
    exact .handler hus (ih h')

theorem of_parts (h : ∀ t ∈ ts, Over part (n + 1) t) : Gathers part gives n [] ts := by
  induction ts with
  | nil => exact .nil
  | cons t ts ih =>
    obtain ⟨ht, hts⟩ := List.forall_mem_cons.mp h
    exact .part ht (ih hts)

theorem of_held {h : Held} (hus : gives h us) : Gathers part gives n [h] us := by
  rw [← List.append_nil us]
  exact .held hus .nil

theorem flatten {α : Type} {as : List α} {f : α → List Held} {rows : List (List Tree)}
    (h : List.Forall₂ (fun a ts => Gathers part gives n (f a) ts) as rows) :
    Gathers part gives n (as.flatMap f) rows.flatten := by
  induction h with
  | nil => exact .nil
  | cons h _ ih =>
    rw [List.flatMap_cons, List.flatten_cons]
    exact h.append ih

end Gathers

/-- A tree stands for a statement: it is of one of its kinds and on its line, its decorators are
parts, and its children are gathered from parts and from what the statement holds. -/
structure StandsFor (part : Tree → Prop) (gives : Held → List Tree → Prop) (c : Cst) (t : Tree) :
    Prop where
  line : t.line = c.line
  kind : t.kind ∈ c.tag.statementKinds
  decorators : ∀ d ∈ t.decorators, part d
  children : Gathers part gives 1 c.held t.children

namespace Lowering

/-- A part of a statement: an expression, or the name that the old printing statement calls. -/
def IsMember (lower : Cst → Kind → Result Tree) (t : Tree) : Prop :=
  Lowers lower t ∨ ∃ line, t = .named .name line "print" [.leaf .load line]

def gives (block : Cst → Result (List Tree)) (branches : List Cst → Result (List Tree)) :
    Held → List Tree → Prop
  | .block b, ts => block b = .ok ts
  | .branches cs, ts => branches cs = .ok ts

section

variable {s : Source} {lower : Cst → Kind → Result Tree} {block : Cst → Result (List Tree)}
  {branches : List Cst → Result (List Tree)} {c d : Cst} {context : Kind} {t : Tree}
  {ts ds : List Tree} {n : Nat}

/-! ### Statements of a line -/

theorem member_of_lower (h : lower c context = .ok t) (hcontext : context.isContext = true) :
    Over (IsMember lower) n t :=
  .part (Or.inl ⟨c, context, hcontext, h⟩)

theorem member_of_within (h : LowersWithin lower c t) : Over (IsMember lower) n t := by
  obtain ⟨context, hcontext, d, -, h⟩ := h
  exact member_of_lower h hcontext

theorem member_of_under (h : LowersUnder lower context c t) (hcontext : context.isContext = true) :
    Over (IsMember lower) n t :=
  member_of_within (h.within hcontext)

theorem members_of_lowerAll {cs : List Cst} (h : lowerAll lower context cs = .ok ts)
    (hcontext : context.isContext = true) : ∀ t ∈ ts, Over (IsMember lower) n t :=
  forall_of_mapM h fun _ _ _ ht => member_of_lower ht hcontext

theorem standsFor_of_row {kind : Kind} {tag : Tag} {ident : Option String} {hs : List Held}
    (htag : c.tag = tag) (hheld : c.held = hs) (hkind : kind ∈ tag.statementKinds)
    (hself : tag ≠ .decoratedDefinition ∧ tag ≠ .elifClause)
    (hts : Gathers (IsMember lower) (gives block branches) 1 hs ts) :
    StandsFor (IsMember lower) (gives block branches) c.counted (.node kind c.line ident [] ts)
      ∧ c.counted.tag ≠ .elifClause := by
  subst htag
  rw [Cst.counted, if_neg hself.1]
  exact ⟨⟨rfl, hkind, fun d hd => (by cases hd), hheld ▸ hts⟩, hself.2⟩

theorem standsFor_of_members {kind : Kind} {tag : Tag} {ident : Option String} (htag : c.tag = tag)
    (hheld : c.held = []) (hkind : kind ∈ tag.statementKinds)
    (hself : tag ≠ .decoratedDefinition ∧ tag ≠ .elifClause)
    (hts : ∀ t ∈ ts, Over (IsMember lower) 2 t) :
    StandsFor (IsMember lower) (gives block branches) c.counted (.node kind c.line ident [] ts)
      ∧ c.counted.tag ≠ .elifClause :=
  standsFor_of_row htag hheld hkind hself (.of_parts hts)

theorem members_of_imports {cs : List Cst} (h : List.Forall₂ (Aliased s lower) cs ts) :
    ∀ t ∈ ts, Over (IsMember lower) 2 t := by
  refine forall_of_forall₂ h fun d _ t ht => ?_
  obtain ⟨name, us, rfl, hus⟩ := ht.parts
  exact over_named rfl fun u hu => member_of_within (hus u hu)

theorem IsContextOf.member (h : IsContextOf lower c t) : Over (IsMember lower) 2 t := by
  obtain ⟨us, rfl, hus⟩ := h.parts
  exact over_branch rfl fun u hu => member_of_within (hus u hu)

/-! ### Statements with blocks -/

theorem gathers_body {r : Role} (h : body block c r = .ok ts) :
    Gathers (IsMember lower) (gives block branches) n ((c.blockIn r).map .block) ts := by
  obtain ⟨b, hb, h⟩ := bind_eq_ok.mp h
  rw [Cst.blockIn, required_eq_ok.mp hb]
  exact .of_held h

theorem gathers_otherwise (h : otherwise block c = .ok ts) :
    Gathers (IsMember lower) (gives block branches) n
      (((c.child? .alternative).toList.flatMap (·.blockIn .body)).map .block) ts := by
  unfold otherwise at h
  split at h
  · next clause hclause =>
    rw [hclause, Option.toList_some, List.flatMap_singleton]
    exact gathers_body h
  · next hnone =>
    obtain rfl := Except.ok.inj h
    rw [hnone]
    exact .nil

theorem gathers_choice {rest : List Cst} {condition : Tree} {statements others : List Tree}
    (hcondition : lower d .load = .ok condition)
    (hstatements : body block c .consequence = .ok statements) (hothers : branches rest = .ok others) :
    Gathers (IsMember lower) (gives block branches) n
      ((c.blockIn .consequence).map .block ++ [.branches rest])
      (condition :: statements ++ others) :=
  (Gathers.part (member_of_lower hcondition rfl) (gathers_body hstatements)).append
    (.of_held hothers)

/-- What a handler has under it: its blocks hold statements, the rest are expressions. -/
theorem gathers_handlerParts {cs : List Cst} {rows : List (List Tree)}
    (h : List.Forall₂ (IsHandlerPart lower block) cs rows) :
    Gathers (IsMember lower) (gives block branches) 0
      ((cs.filter (·.tag == .block)).map .block) rows.flatten := by
  induction h with
  | nil => exact .nil
  | cons h _ ih =>
    rw [List.flatten_cons]
    cases h with
    | block htag hts =>
      rw [List.filter_cons_of_pos (by simp [htag])]
      exact .held hts ih
    | value htag ht =>
      rw [List.filter_cons_of_neg (by simp [htag])]
      exact .part (member_of_lower ht rfl) ih

/-- A clause of a `try` adds its blocks, with a handler over them if it is one. -/
theorem IsTryClause.gathers (h : IsTryClause lower block c ts) :
    Gathers (IsMember lower) (gives block branches) 1 (c.clauseBlocks.map .block) ts := by
  cases h with
  | handler htag hrows =>
    simp only [Cst.clauseBlocks, htag]
    rw [← List.append_nil (List.map _ _)]
    exact .handler (gathers_handlerParts hrows) .nil
  | blocks htag hrows =>
    have hblocks : c.clauseBlocks = c.proper.filter (·.tag == .block) := by
      rcases htag with htag | htag <;> simp only [Cst.clauseBlocks, htag]
    rw [hblocks, List.map_eq_flatMap]
    exact .flatten (hrows.imp fun _ _ hus => .of_held hus)
  | other htag =>
    obtain ⟨hexcept, helse, hfinally⟩ := htag
    have hnone : c.clauseBlocks = [] := by
      unfold Cst.clauseBlocks
      split
      · next htag => exact absurd htag hexcept
      · next htag => exact absurd htag helse
      · next htag => exact absurd htag hfinally
      · rfl
    rw [hnone]
    exact .nil

theorem members_of_decorators {cs : List Cst} (h : List.Forall₂ (LowersFirst lower .load) cs ds) :
    ∀ d ∈ ds, IsMember lower d := by
  refine forall_of_forall₂ h fun d _ u hu => ?_
  obtain ⟨inner, -, hu⟩ := hu
  exact Or.inl ⟨inner, .load, rfl, hu⟩

/-- A definition counts for what decorates it too. -/
theorem Defined.standsFor (h : Defined s lower block c ds t) (hds : ∀ d ∈ ds, IsMember lower d) :
    StandsFor (IsMember lower) (gives block branches) c t ∧ c.tag ≠ .elifClause := by
  cases h with
  | @function called name given statements returned htag _ _ hgiven hstatements hreturned =>
    have hg : Over (IsMember lower) 2 given :=
      (areParameters_of_parameters hgiven).over.of_parts fun _ => Or.inl
    have hheld : c.held = (c.blockIn .body).map .block ++ [] := by
      simp only [Cst.held, htag, List.append_nil]
    refine ⟨⟨rfl, ?_, hds, ?_⟩, by simp [htag]⟩
    · rw [htag, kind]
      split <;> decide
    · rw [hheld]
      exact .part hg ((gathers_body hstatements).append
        (.of_parts (members_of_lowerAll hreturned rfl)))
  | @classNode called name bases statements htag _ _ hbases hstatements =>
    have hb : ∀ b ∈ bases, Over (IsMember lower) 2 b := hbases.all fun _ _ hgiven b hb =>
      ((hgiven.over b hb).mono (by decide)).of_parts fun _ => Or.inl
    have hheld : c.held = [] ++ (c.blockIn .body).map .block := by
      simp only [Cst.held, htag, List.nil_append]
    refine ⟨⟨rfl, by simp [htag, Tag.statementKinds, kind], hds, ?_⟩, by simp [htag]⟩
    rw [hheld]
    exact (Gathers.of_parts hb).append (gathers_body hstatements)

/-- What a statement is lowered to stands for the node that counts for it, which is not a further
condition of a choice. -/
theorem Stated.standsFor (h : Stated s lower block branches c t) :
    StandsFor (IsMember lower) (gives block branches) c.counted t ∧ c.counted.tag ≠ .elifClause := by
  cases h with
  | assigned htag _ _ h =>
    obtain ⟨kind, ts, rfl, hkind, hts⟩ := h.parts
    have hmem : kind ∈ Tag.expressionStatement.statementKinds := by
      rcases hkind with rfl | rfl <;> decide
    exact standsFor_of_members htag (by simp only [Cst.held, htag]) hmem (by decide)
      fun u hu => member_of_within (hts u hu)
  | @combined d op kind target value htag _ _ _ hkind htarget hvalue =>
    have hop := Kind.isMinor_of_isOperator (Kind.isOperator_of_isBinary (isBinary_of_binaryKind? hkind))
    have ht : Over (IsMember lower) 2 target := member_of_under htarget.under rfl
    have hv : Over (IsMember lower) 2 value := member_of_under hvalue.under rfl
    exact standsFor_of_members htag (by simp only [Cst.held, htag]) (by decide) (by decide)
      (by simp [ht, hv, over_leaf hop])
  | value htag _ _ ht =>
    exact standsFor_of_members htag (by simp only [Cst.held, htag]) (by decide) (by decide)
      (List.forall_mem_singleton.mpr (member_of_lower ht rfl))
  | values htag _ hts =>
    exact standsFor_of_members htag (by simp only [Cst.held, htag]) (by decide) (by decide)
      (List.forall_mem_singleton.mpr (over_inContext rfl rfl (members_of_lowerAll hts rfl)))
  | printed htag _ _ hts =>
    have hcallee : Over (IsMember lower) 1 (named .name c.line "print" [leaf .load c.line]) :=
      .part (Or.inr ⟨_, rfl⟩)
    exact standsFor_of_members htag (by simp only [Cst.held, htag]) (by decide) (by decide)
      (List.forall_mem_singleton.mpr (over_branch rfl
        (List.forall_mem_cons.mpr ⟨hcallee, members_of_lowerAll hts rfl⟩)))
  | returned htag hts | asserted htag hts | raised htag hts | globals htag hts | nonlocals htag hts
      | selection htag hts =>
    exact standsFor_of_members htag (by simp only [Cst.held, htag]) (by decide) (by decide)
      (members_of_lowerAll hts rfl)
  | deletion htag hrows =>
    exact standsFor_of_members htag (by simp only [Cst.held, htag]) (by decide) (by decide)
      fun u hu => member_of_under (under_of_deletion hrows u hu) rfl
  | pass htag | breakLoop htag | continueLoop htag | typeAlias htag =>
    exact standsFor_of_members htag (by simp only [Cst.held, htag]) (by decide) (by decide)
      (by simp)
  | imports htag hnames | futureImports htag hnames =>
    exact standsFor_of_members htag (by simp only [Cst.held, htag]) (by decide) (by decide)
      (members_of_imports hnames)
  | importsFrom htag _ _ hnames =>
    refine standsFor_of_members htag (by simp only [Cst.held, htag]) (by decide) (by decide)
      (List.forall_mem_append.mpr ⟨members_of_imports hnames, ?_⟩)
    split
    · exact List.forall_mem_singleton.mpr (over_named rfl fun u hu => (by cases hu))
    · simp
  | choice htag hcondition hstatements hothers =>
    obtain ⟨d, -, hcondition⟩ := hcondition
    have hheld : c.held = (c.blockIn .consequence).map .block
        ++ [.branches (c.childrenIn .alternative)] := by
      simp only [Cst.held, htag]
    exact standsFor_of_row htag hheld (by decide) (by decide)
      (gathers_choice hcondition hstatements hothers)
  | forLoop htag htarget hvalues hstatements hothers =>
    exact standsFor_of_row htag (Cst.held_loop (Or.inl htag)) (by split <;> decide) (by decide)
      ((Gathers.part (member_of_under htarget.under rfl) (.part (member_of_under hvalues.under rfl)
        (gathers_body hstatements))).append (gathers_otherwise hothers))
  | whileLoop htag hcondition hstatements hothers =>
    exact standsFor_of_row htag (Cst.held_loop (Or.inr htag)) (by decide) (by decide)
      ((Gathers.part (member_of_under hcondition.under rfl) (gathers_body hstatements)).append
        (gathers_otherwise hothers))
  | defined h =>
    have hcounted : c.counted = c := by
      cases h <;> simp [Cst.counted, *]
    rw [hcounted]
    exact h.standsFor (by simp)
  | decorated htag hds hd h =>
    rw [Cst.counted, if_pos htag, hd, Option.getD_some]
    exact h.standsFor (members_of_decorators hds)
  | attempt htag hstatements hrows =>
    have hheld : c.held = (c.blockIn .body).map .block
        ++ c.proper.flatMap (fun d => d.clauseBlocks.map .block) := by
      simp only [Cst.held, htag, List.map_append, List.map_flatMap]
    exact standsFor_of_row htag hheld (by decide) (by decide)
      ((gathers_body hstatements).append (.flatten (hrows.imp fun _ _ => IsTryClause.gathers)))
  | withBlock htag hitems hstatements =>
    have hall := forall_of_forall₂ hitems fun _ _ _ hitem => hitem.member
    have hheld : c.held = [] ++ (c.blockIn .body).map .block := by
      simp only [Cst.held, htag, List.nil_append]
    exact standsFor_of_row htag hheld (by split <;> decide) (by decide)
      ((Gathers.of_parts hall).append (gathers_body hstatements))

end

end Lowering
end Gatehouse
