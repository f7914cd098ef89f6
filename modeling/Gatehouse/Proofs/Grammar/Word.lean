import Gatehouse.Grammar.Word
import Gatehouse.Proofs.Reader

/-!
What the smallest readers of the grammar answer: tokens are marks, names are identifiers, and a list
with signs between its items is made of what the items are made of. Whatever is read is laid out
from the place where its reader begins to the place where it stops.
-/
namespace Gatehouse

abbrev Cst.Lies (s : Source) (lo : Nat) (cs : List Cst) (hi : Nat) : Prop :=
  Cst.Lays s (fun _ => True) lo cs hi

theorem Cst.Lays.lies {s : Source} {P : Cst → Prop} {lo hi : Nat} {cs : List Cst}
    (h : Cst.Lays s P lo cs hi) : Cst.Lies s lo cs hi := h.mono fun _ _ => trivial

theorem Cst.Lays.joined {s : Source} {lo hi : Nat} {c : Cst} {cs : List Cst} {tag : Tag}
    (h : Cst.Lies s lo (c :: cs) hi) (horders : tag.orders (c :: cs) = true) :
    Cst.Lies s lo [Cst.join tag (c :: cs)] hi :=
  h.join (List.cons_ne_nil c cs) horders trivial

namespace Grammar

open Reader
open Cst (Lays Loose Formed FormedAs Mark)

/-- The node has the property and is laid out from the row on to where the reader stands. -/
abbrev Reaches (s : Source) (P : Cst → Prop) (lo : Nat) (t : Cst) (d : Cursor) : Prop :=
  Lays s P lo [t] (d.row s)

abbrev ReachAll (s : Source) (P : Cst → Prop) (lo : Nat) (ts : List Cst) (d : Cursor) : Prop :=
  Lays s P lo ts (d.row s)

abbrev MayReach (s : Source) (P : Cst → Prop) (lo : Nat) (found : Option Cst) (d : Cursor) : Prop :=
  Lays s P lo found.toList (d.row s)

def Reads (s : Source) (P : Cst → Prop) (r : Reader Cst) : Prop :=
  ∀ c, Leads s c r (Reaches s P (c.row s))

def ReadsAll (s : Source) (P : Cst → Prop) (r : Reader (List Cst)) : Prop :=
  ∀ c, Leads s c r (ReachAll s P (c.row s))

/-- Phrases are read as nodes of kinds of their own. -/
def Sound (s : Source) (nested : Nested) : Prop :=
  ∀ p here follow, Reads s Formed (nested p here follow)

/-- A node and further nodes, with marks between them. -/
structure Items (s : Source) (lo : Nat) (cs : List Cst) (hi : Nat) : Prop
    extends Lays s Loose lo cs hi where
  head : ∃ first rest, cs = first :: rest ∧ first.Formed

variable {s : Source} {c : Cursor} {x : Lexeme} {lo hi : Nat} {P : Cst → Prop}

theorem Reads.mono {Q : Cst → Prop} {r : Reader Cst} (h : Reads s P r) (hPQ : ∀ t, P t → Q t) :
    Reads s Q r := fun c => leads_mono (h c) fun _ _ ht => ht.mono hPQ

theorem Items.ne (h : Items s lo cs hi) : cs ≠ [] := by
  obtain ⟨first, rest, rfl, -⟩ := h.head
  exact List.cons_ne_nil first rest

theorem Items.formed {t : Cst} (h : Items s lo [t] hi) : Lays s Formed lo [t] hi := by
  obtain ⟨first, rest, heq, hfirst⟩ := h.head
  obtain ⟨rfl, -⟩ := List.cons.inj heq
  exact h.one_of id hfirst

theorem Items.made {tag : Tag} {cs : List Cst} (h : Items s lo cs hi)
    (hproper : (tag.isNamed && !tag.isExtra) = true) (hfits : tag.Fits cs)
    (horders : tag.orders cs = true) : Lays s Formed lo [Cst.join tag cs] hi :=
  (h.toLays.child.made_of_ne h.ne hproper hfits horders).formed

/-! ### Tokens -/

theorem reads_accept {tag : Tag} (hx : x.Ahead c) (h : ∀ span, P (.node tag none span [])) :
    Leads s c (accept x tag) (Reaches s P (c.row s)) :=
  leads_mono (leads_accept hx h) fun _ _ h => h.1

theorem reads_mark (hx : x.Ahead c) (t : String) :
    Leads s c (accept x (.token t)) (Reaches s Mark (c.row s)) :=
  reads_accept hx (Cst.mark_token t)

theorem reads_leaf {tag : Tag} (hx : x.Ahead c) (hfits : tag.Fits [])
    (hproper : (tag.isNamed && !tag.isExtra) = true) :
    Leads s c (accept x tag) (Reaches s (FormedAs tag) (c.row s)) :=
  reads_accept hx fun sp => Cst.formed_leaf tag hfits sp hproper

theorem reads_identifier (hx : x.Ahead c) :
    Leads s c (accept x .identifier) (Reaches s (FormedAs .identifier) (c.row s)) :=
  reads_leaf hx Cst.bare_nil rfl

theorem reads_sign (e : Expect) (t : String) : Reads s Mark (sign e t) := by
  refine fun c => leads_peek fun x hx => ?_
  split
  · exact reads_mark hx t
  · exact leads_refuse

theorem reads_word (e : Expect) (w : String) : Reads s Mark (word e w) := by
  refine fun c => leads_peek fun x hx => ?_
  split
  · exact reads_mark hx w
  · exact leads_refuse

theorem reads_sign? (e : Expect) (t : String) :
    Leads s c (sign? e t) (MayReach s Mark (c.row s)) := by
  refine leads_peek fun x hx => ?_
  split
  · exact leads_map (reads_mark hx t) fun _ _ h => h
  · exact leads_pure .none

theorem reads_word? (e : Expect) (w : String) :
    Leads s c (word? e w) (MayReach s Mark (c.row s)) := by
  refine leads_peek fun x hx => ?_
  split
  · exact leads_map (reads_mark hx w) fun _ _ h => h
  · exact leads_pure .none

theorem reads_name (e : Expect) : Reads s (FormedAs .identifier) (name e) := by
  refine fun c => leads_peek fun x hx => ?_
  split
  · split
    · exact reads_identifier hx
    · exact leads_refuse
  · exact leads_refuse

theorem looks_atSign (e : Expect) (t : String) : Looks (atSign e t) :=
  looks_bind looks_peek fun _ => looks_pure

theorem looks_before (close : String) : Looks (not <$> atSign operandOrClose close) :=
  looks_map (looks_atSign _ _)

theorem looks_always : Looks (pure true) := looks_pure

/-! ### Lists -/

section

variable {t : String} {follow : Expect} {more : Reader Bool} {item : Reader Cst}

/-- What is added to a list with signs between its items is made of signs and items. -/
theorem reads_separated {first : List Cst} (hfirst : Lays s P lo first (c.row s))
    (hmore : Looks more) (hmark : ∀ c, Mark c → P c) (hitem : Reads s P item) :
    Leads s c (separated t follow more item first)
      fun cs d => (∃ rest, cs = first ++ rest) ∧ Lays s P lo cs (d.row s) := by
  refine leads_iterate (fun cs d => (∃ rest, cs = first ++ rest) ∧ Lays s P lo cs (d.row s))
    ⟨⟨[], by simp⟩, hfirst⟩ ?_
  rintro _ d ⟨⟨rest, rfl⟩, hread⟩
  refine leads_bind (reads_sign? follow t) fun found e hfound => ?_
  split
  · exact leads_pure ⟨⟨rest, rfl⟩, hread.to_le hfound.le⟩
  · next mark =>
    have hfound : Lays s P (d.row s) [mark] (e.row s) := hfound.mono hmark
    refine leads_look hmore fun goesOn => ?_
    split
    · refine leads_bind (hitem e) fun c d hc => leads_pure ?_
      exact ⟨⟨rest ++ [mark, c], by simp⟩, hread.append (hfound.append hc)⟩
    · exact leads_pure ⟨⟨rest ++ [mark], by simp⟩, hread.append hfound⟩

theorem reads_itemsAfter {first : Cst} (hfirst : Lays s Formed lo [first] (c.row s))
    (hmore : Looks more) (hitem : Reads s Formed item) :
    Leads s c (separated t follow more item [first])
      fun cs d => (∃ rest, cs = first :: rest) ∧ Items s lo cs (d.row s) := by
  refine leads_mono (reads_separated hfirst.loose hmore (fun _ => Mark.toLoose)
    (hitem.mono fun _ => Formed.toLoose)) ?_
  rintro _ d ⟨⟨rest, rfl⟩, h⟩
  exact ⟨⟨rest, rfl⟩, h, first, rest, rfl, hfirst.one⟩

theorem reads_items {first : Cst} (hfirst : Lays s Formed lo [first] (c.row s))
    (hmore : Looks more) (hitem : Reads s Formed item) :
    Leads s c (separated t follow more item [first]) fun cs d => Items s lo cs (d.row s) :=
  leads_mono (reads_itemsAfter hfirst hmore hitem) fun _ _ => And.right

end

end Grammar
end Gatehouse
