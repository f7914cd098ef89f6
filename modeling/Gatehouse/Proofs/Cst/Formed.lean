import Gatehouse.Proofs.Cst.Aims
import Gatehouse.Proofs.Cst.Shape

/-!
Nodes as the grammar makes them: of the right shape and in no role yet, with a left side on the left
of every assignment that is reached through them. A node over given children is one if they may
stand under it and are what its kind asks for.
-/
namespace Gatehouse

/-- May a child of a kind stand in a role under a node? In the role of a block is a node that
statements are reached through; left of an assignment not everything may stand. -/
def Tag.holds (tag : Tag) (r : Role) (child : Tag) : Bool :=
  match tag, r with
  | .assignment, .left => false
  | _, _ => !tag.mayAssign || !r.isOfBlock || child.mayAssign

theorem Tag.holds_of_mayAssign {tag child : Tag} {r : Role} (h : tag.mayAssign = false) :
    tag.holds r child = true := by
  unfold Tag.holds
  split
  · cases h
  · simp [h]

namespace Cst

/-- A node or mark that plays no part yet. -/
structure Loose (c : Cst) : Prop where
  shaped : c.Shaped
  free : c.role = none
  aims : c.aims = true

/-- A node of a kind of its own that plays no part yet. -/
structure Formed (c : Cst) : Prop extends c.Loose where
  proper : c.isProper = true

structure FormedAs (tag : Tag) (c : Cst) : Prop extends c.Formed where
  kind : c.tag = tag

/-- A word or sign between the parts of a node. -/
structure Mark (c : Cst) : Prop extends c.Loose where
  improper : c.isProper = false

/-- What may stand under a node of a kind. Of what is under a node that is refused in any case no
shape is asked. -/
structure Child (tag : Tag) (d : Cst) : Prop where
  shaped : tag.isHopeless = false → d.Shaped
  part : tag.mayAssign = true → Part tag d

/-- Properties of nodes and marks that play no part yet. -/
class PlaysNoPart (P : Cst → Prop) : Prop where
  loose {c : Cst} : P c → c.Loose

instance : PlaysNoPart Loose := ⟨id⟩

instance : PlaysNoPart Formed := ⟨Formed.toLoose⟩

instance {tag : Tag} : PlaysNoPart (FormedAs tag) := ⟨fun h => h.toLoose⟩

instance : PlaysNoPart Mark := ⟨Mark.toLoose⟩

section

variable {c d : Cst} {tag : Tag} {cs : List Cst}

@[simp] theorem tag_join : (join tag cs).tag = tag := by cases cs <;> rfl
@[simp] theorem role_join : (join tag cs).role = none := by cases cs <;> rfl
@[simp] theorem children_join : (join tag cs).children = cs := by cases cs <;> rfl

@[simp] theorem isProper_inRole (r : Role) : (c.inRole r).isProper = c.isProper := by
  rw [isProper, tag_inRole, isProper]

/-! ### Children -/

theorem Shaped.inRole (h : c.Shaped) (hrole : c.role = none) (r : Role) : (c.inRole r).Shaped := by
  obtain ⟨fits, children⟩ := h
  refine .intro (by simpa using fits) fun d hd hope htext hseen => ?_
  rw [children_inRole] at hd
  rw [tag_inRole] at hope htext
  refine children d hd hope htext ?_
  simp only [isBlindSpot, tag_inRole, Bool.or_eq_false_iff] at hseen ⊢
  exact ⟨hseen.1, by simp [hrole]⟩

theorem Loose.child (h : c.Loose) : Child tag c :=
  ⟨fun _ => h.shaped, fun _ => ⟨by simp [Tag.seats, h.free], h.aims⟩⟩

theorem seats_inRole {r : Role} (hr : tag.holds r c.tag = true) (hmay : tag.mayAssign = true) :
    tag.seats (c.inRole r) = true := by
  unfold Tag.holds at hr
  split at hr
  · cases hr
  · next hne =>
    have hleft : tag ≠ .assignment ∨ r ≠ .left :=
      Decidable.not_and_iff_or_not.mp fun ⟨htag, hr⟩ => hne htag hr
    simp only [hmay, Bool.not_true, Bool.false_or] at hr
    rcases hleft with hleft | hleft <;> simp [Tag.seats, hleft, hr]

theorem Loose.inRole (h : c.Loose) {r : Role} (hr : tag.holds r c.tag = true) :
    Child tag (c.inRole r) :=
  ⟨fun _ => h.shaped.inRole h.free r, fun hmay => ⟨seats_inRole hr hmay, by rw [aims_inRole, h.aims]⟩⟩

theorem Loose.onLeft (h : c.Loose) (hleft : c.isLeftSide = true) :
    Child .assignment (c.inRole .left) :=
  ⟨fun _ => h.shaped.inRole h.free .left, fun _ =>
    ⟨by simp [Tag.seats, hleft, Role.isOfBlock], by rw [aims_inRole, h.aims]⟩⟩

theorem child_of_hopeless (hope : tag.isHopeless = true)
    (h : tag.mayAssign = false ∨ d.role = none ∧ d.tag.mayAssign = false) : Child tag d where
  shaped hno := by
    rw [hope] at hno
    cases hno
  part hmay := by
    rcases h with h | ⟨hrole, h⟩
    · rw [h] at hmay
      cases hmay
    · exact ⟨by simp [Tag.seats, hrole], aims_of_mayAssign h⟩

/-! ### Nodes over children -/

theorem formed_join (hproper : (tag.isNamed && !tag.isExtra) = true) (hfits : tag.Fits cs)
    (h : ∀ d ∈ cs, Child tag d) : (join tag cs).FormedAs tag where
  shaped := .intro (by simpa using hfits) fun d hd hope _ _ =>
    (h d (by simpa using hd)).shaped (by rwa [tag_join] at hope)
  free := role_join
  aims := aims_iff.mpr fun hmay d hd => by
    rw [tag_join] at hmay ⊢
    rw [children_join] at hd
    exact (h d hd).part hmay
  proper := by rwa [isProper, tag_join]
  kind := tag_join

theorem bare_nil : Bare [] := fun d hd => by cases hd

theorem formed_leaf (tag : Tag) (hfits : tag.Fits []) (sp : Span)
    (hproper : (tag.isNamed && !tag.isExtra) = true) : (Cst.node tag none sp []).FormedAs tag where
  shaped := .intro hfits fun d hd => by cases hd
  free := rfl
  aims := aims_iff.mpr fun _ d hd => by cases hd
  proper := hproper
  kind := rfl

theorem formed_of_string (h : c.tag = .stringLiteral) (hrole : c.role = none) :
    c.FormedAs .stringLiteral where
  shaped := .intro (h ▸ trivial) fun d hd _ htext => absurd h htext
  free := hrole
  aims := aims_of_mayAssign (by rw [h]; rfl)
  proper := by rw [isProper, h]; rfl
  kind := h

/-! ### Marks -/

theorem mark_token (t : String) (sp : Span) : (Cst.node (.token t) none sp []).Mark :=
  ⟨⟨.intro bare_nil fun d hd => (by cases hd), rfl, aims_of_mayAssign rfl⟩, rfl⟩

theorem mark_join {t : String} (h : ∀ d ∈ cs, d.Mark) : (join (.token t) cs).Mark where
  shaped := by
    refine .intro ?_ fun d hd _ _ _ => (h d (by simpa using hd)).shaped
    rw [tag_join, children_join]
    exact fun d hd => (h d hd).improper
  free := role_join
  aims := aims_of_mayAssign (by rw [tag_join]; rfl)
  improper := by rw [isProper, tag_join]; rfl

theorem Mark.bare (h : c.Mark) : Bare [c] := by
  intro d hd
  rw [List.mem_singleton.mp hd]
  exact h.improper

theorem Mark.wrapping (h : c.Mark) : Wrapping [c, d] := by
  rw [Wrapping, List.countP_cons_of_neg (by simp [h.improper])]
  exact List.countP_le_length

theorem wrapping_between {e : Cst} (hc : c.isProper = false) (he : e.isProper = false) :
    Wrapping [c, d, e] := by
  rw [Wrapping, List.countP_cons_of_neg (by simp [hc]), List.countP_cons,
    List.countP_cons_of_neg (by simp [he])]
  split <;> simp

/-! ### Nodes under another kind -/

theorem Shaped.fits (h : c.Shaped) : c.tag.Fits c.children := by
  obtain ⟨fits, -⟩ := h
  exact fits

theorem Shaped.wrapping (h : c.Shaped) (htag : c.tag = .parenthesizedListSplat) :
    Wrapping c.children := by
  have hfits := h.fits
  rwa [htag] at hfits

theorem Shaped.children_shaped (h : c.Shaped) (hope : c.tag.isHopeless = false)
    (htext : c.tag ≠ .stringLiteral) (hseen : ∀ d, c.isBlindSpot d = false) :
    ∀ d ∈ c.children, d.Shaped := by
  obtain ⟨-, children⟩ := h
  exact fun d hd => children d hd hope htext (hseen d)

theorem Shaped.inside (h : c.Shaped) (htag : c.tag = .tuple ∨ c.tag = .parenthesizedListSplat) :
    ∀ d ∈ c.children, d.Shaped := by
  refine h.children_shaped ?_ ?_ fun d => ?_
  all_goals rcases htag with htag | htag <;> simp [htag, Tag.isHopeless, isBlindSpot]

theorem Shaped.retag (h : c.Shaped) (htag : c.tag = .tuple ∨ c.tag = .parenthesizedListSplat)
    (hfits : tag.Fits c.children) : (c.retag tag).Shaped :=
  .intro (by rwa [tag_retag, children_retag]) fun d hd _ _ _ =>
    h.inside htag d (by rwa [children_retag] at hd)

theorem Shaped.formed (h : c.Shaped) (hrole : c.role = none) (hproper : c.isProper = true)
    (hmay : c.tag.mayAssign = false) : c.Formed :=
  ⟨⟨h, hrole, aims_of_mayAssign hmay⟩, hproper⟩

end

/-! ### Parts in their order -/

/-- Children fill the parts of a node in their order, with marks anywhere between them. Parts may
be left out. -/
inductive Fills (all : List Slot) : List Slot → List Cst → Prop
  | nil {slots : List Slot} : Fills all slots []
  | mark {slots : List Slot} {d : Cst} {cs : List Cst} (hproper : d.isProper = false)
      (hrole : ∀ slot ∈ all, d.role ≠ some slot.role) (h : Fills all slots cs) :
      Fills all slots (d :: cs)
  | skip {slot : Slot} {slots : List Slot} {cs : List Cst} (h : Fills all slots cs) :
      Fills all (slot :: slots) cs
  | one {slot : Slot} {slots : List Slot} {d : Cst} {cs : List Cst}
      (hrole : d.role = some slot.role) (hallows : slot.allows d.tag = true)
      (h : Fills all slots cs) : Fills all (slot :: slots) (d :: cs)
  | more {slot : Slot} {slots : List Slot} {d : Cst} {cs : List Cst} (hmany : slot.many = true)
      (hrole : d.role = some slot.role) (hallows : slot.allows d.tag = true)
      (h : Fills all (slot :: slots) cs) : Fills all (slot :: slots) (d :: cs)

namespace Fills

variable {all slots : List Slot} {cs : List Cst} {slot : Slot}

theorem filled (h : Fills all slots cs) : ∀ d ∈ cs, d.isProper = true →
    ∃ slot ∈ slots, d.role = some slot.role ∧ slot.allows d.tag = true := by
  induction h with
  | nil => intro d hd; cases hd
  | mark hproper _ _ ih =>
    refine List.forall_mem_cons.mpr ⟨fun h => ?_, ih⟩
    rw [hproper] at h
    cases h
  | skip _ ih =>
    intro d hd hproper
    obtain ⟨slot, hslot, hin⟩ := ih d hd hproper
    exact ⟨slot, List.mem_cons_of_mem _ hslot, hin⟩
  | one hrole hallows _ ih =>
    refine List.forall_mem_cons.mpr ⟨fun _ => ⟨_, List.mem_cons_self, hrole, hallows⟩, ?_⟩
    intro d hd hproper
    obtain ⟨slot, hslot, hin⟩ := ih d hd hproper
    exact ⟨slot, List.mem_cons_of_mem _ hslot, hin⟩
  | more _ hrole hallows _ ih =>
    exact List.forall_mem_cons.mpr ⟨fun _ => ⟨_, List.mem_cons_self, hrole, hallows⟩, ih⟩

theorem countIn_eq_zero (h : Fills all slots cs) (hslot : slot ∈ all)
    (hout : ∀ other ∈ slots, other.role ≠ slot.role) : countIn slot.role cs = 0 := by
  rw [countIn, List.countP_eq_zero]
  induction h with
  | nil => intro d hd; cases hd
  | mark _ hrole _ ih =>
    exact List.forall_mem_cons.mpr ⟨by simpa using hrole slot hslot, ih hout⟩
  | skip _ ih => exact ih fun other hother => hout other (List.mem_cons_of_mem _ hother)
  | one hrole _ _ ih =>
    refine List.forall_mem_cons.mpr ⟨by simpa [hrole] using hout _ List.mem_cons_self, ?_⟩
    exact ih fun other hother => hout other (List.mem_cons_of_mem _ hother)
  | more _ hrole _ _ ih =>
    exact List.forall_mem_cons.mpr ⟨by simpa [hrole] using hout _ List.mem_cons_self, ih hout⟩

/-- A part that is there at most once has one child at most. -/
theorem countIn_le_one (h : Fills all slots cs) (hall : ∀ slot ∈ slots, slot ∈ all)
    (hnodup : (slots.map Slot.role).Nodup) (hslot : slot ∈ slots) (hone : slot.many = false) :
    countIn slot.role cs ≤ 1 := by
  induction h with
  | nil => exact Nat.zero_le _
  | mark _ hrole _ ih =>
    rw [countIn, List.countP_cons_of_neg (by simpa using hrole slot (hall slot hslot))]
    exact ih hall hnodup hslot
  | @skip first rest cs h ih =>
    obtain ⟨hfirst, hrest⟩ := List.nodup_cons.mp hnodup
    rcases List.mem_cons.mp hslot with rfl | hslot
    · rw [h.countIn_eq_zero (hall slot List.mem_cons_self) fun other hother heq =>
        hfirst (List.mem_map.mpr ⟨other, hother, heq⟩)]
      exact Nat.zero_le _
    · exact ih (fun other hother => hall other (List.mem_cons_of_mem _ hother)) hrest hslot
  | @one first rest d cs hrole _ h ih =>
    obtain ⟨hfirst, hrest⟩ := List.nodup_cons.mp hnodup
    have hallRest : ∀ other ∈ rest, other ∈ all := fun other hother =>
      hall other (List.mem_cons_of_mem _ hother)
    rcases List.mem_cons.mp hslot with rfl | hslot
    · have hzero := h.countIn_eq_zero (hall slot List.mem_cons_self) fun other hother heq =>
        hfirst (List.mem_map.mpr ⟨other, hother, heq⟩)
      rw [countIn] at hzero ⊢
      rw [List.countP_cons, hzero]
      split <;> omega
    · have hne : first.role ≠ slot.role := fun heq =>
        hfirst (List.mem_map.mpr ⟨slot, hslot, heq.symm⟩)
      rw [countIn, List.countP_cons_of_neg (by simpa [hrole] using hne)]
      exact ih hallRest hrest hslot
  | @more first rest d cs hmany hrole _ h ih =>
    have hne : first.role ≠ slot.role := by
      rcases List.mem_cons.mp hslot with rfl | hslot
      · rw [hmany] at hone
        cases hone
      · obtain ⟨hfirst, -⟩ := List.nodup_cons.mp hnodup
        exact fun heq => hfirst (List.mem_map.mpr ⟨slot, hslot, heq.symm⟩)
    rw [countIn, List.countP_cons_of_neg (by simpa [hrole] using hne)]
    exact ih hall hnodup hslot

theorem parts {items : List Cst} (hmany : slot.many = true)
    (hitems : ∀ d ∈ items, d.Mark ∨ d.role = some slot.role ∧ slot.allows d.tag = true)
    (h : Fills all (slot :: slots) cs) : Fills all (slot :: slots) (items ++ cs) := by
  induction items with
  | nil => exact h
  | cons d items ih =>
    obtain ⟨hd, hitems⟩ := List.forall_mem_cons.mp hitems
    rcases hd with hd | ⟨hrole, hallows⟩
    · exact .mark hd.improper (by simp [hd.free]) (ih hitems)
    · exact .more hmany hrole hallows (ih hitems)

theorem slotted {cs : List Cst} (h : Fills all all cs) (hnodup : (all.map Slot.role).Nodup) :
    Slotted all cs where
  filled := Fills.filled h
  once _ hslot hone := Fills.countIn_le_one h (fun _ hmem => hmem) hnodup hslot hone

end Fills

end Cst
end Gatehouse
