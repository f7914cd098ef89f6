import Gatehouse.Proofs.Cst.Formed
import Gatehouse.Proofs.Cst.Laid
import Gatehouse.Proofs.Source

/-!
Nodes with a property, laid out one after another on the rows of a text: what a reader answers. From
nodes that may stand under a kind a node of that kind is made, which is laid out where they are.
-/
namespace Gatehouse.Cst

variable {s : Source} {P Q : Cst → Prop} {lo lo' mid hi hi' : Nat} {c d : Cst} {as bs cs : List Cst}
  {tag : Tag} {r : Role}

/-- Nodes with a property, one after another from one row of the text to another. Of where they are
nothing is said if the rows of the text go back. -/
structure Lays (s : Source) (P : Cst → Prop) (lo : Nat) (cs : List Cst) (hi : Nat) : Prop where
  all : ∀ c ∈ cs, P c
  laid : Monotone s.row → Laid lo cs hi

namespace Lays

theorem nil (h : Monotone s.row → lo ≤ hi) : Lays s P lo [] hi := ⟨by simp, fun hs => .nil (h hs)⟩

theorem none : Lays s P lo [] lo := nil fun _ => Nat.le_refl lo

theorem one (h : Lays s P lo [c] hi) : P c := h.all c List.mem_cons_self

theorem mono (h : Lays s P lo cs hi) (hPQ : ∀ c, P c → Q c) : Lays s Q lo cs hi :=
  ⟨fun c hc => hPQ c (h.all c hc), h.laid⟩

theorem le (h : Lays s P lo cs hi) : Monotone s.row → lo ≤ hi := fun hs => (h.laid hs).le

theorem to_le (h : Lays s P lo cs hi) (hhi : Monotone s.row → hi ≤ hi') : Lays s P lo cs hi' :=
  ⟨h.all, fun hs => (h.laid hs).to_le (hhi hs)⟩

theorem from_le (h : Lays s P lo cs hi) (hlo : Monotone s.row → lo' ≤ lo) : Lays s P lo' cs hi :=
  ⟨h.all, fun hs => (h.laid hs).from_le (hlo hs)⟩

theorem append (has : Lays s P lo as mid) (hbs : Lays s P mid bs hi) :
    Lays s P lo (as ++ bs) hi :=
  ⟨List.forall_mem_append.mpr ⟨has.all, hbs.all⟩, fun hs => (has.laid hs).append (hbs.laid hs)⟩

theorem uncons (h : Lays s P lo (c :: cs) hi) :
    ∃ mid, Lays s P lo [c] mid ∧ Lays s P mid cs hi := by
  obtain ⟨hc, hcs⟩ := List.forall_mem_cons.mp h.all
  by_cases hs : Monotone s.row
  · obtain ⟨mid, hfirst, hrest⟩ := laid_cons.mp (h.laid hs)
    exact ⟨mid, ⟨by simpa using hc, fun _ => hfirst⟩, hcs, fun _ => hrest⟩
  · exact ⟨0, ⟨by simpa using hc, fun h => absurd h hs⟩, hcs, fun h => absurd h hs⟩

theorem map {f : Cst → Cst} (h : Lays s P lo cs hi) (hP : ∀ c, P c → Q (f c))
    (hf : ∀ lo hi c, Laid lo [c] hi → Laid lo [f c] hi) : Lays s Q lo (cs.map f) hi :=
  ⟨List.forall_mem_map.mpr fun c hc => hP c (h.all c hc), fun hs => (h.laid hs).map hf⟩

theorem one_of (h : Lays s P lo [c] hi) (hlaid : Laid lo [c] hi → Laid lo [d] hi) (hd : Q d) :
    Lays s Q lo [d] hi :=
  ⟨by simpa using hd, fun hs => hlaid (h.laid hs)⟩

theorem join (h : Lays s P lo cs hi) (hne : cs ≠ []) (horders : tag.orders cs = true)
    (hQ : Q (Cst.join tag cs)) : Lays s Q lo [Cst.join tag cs] hi :=
  ⟨by simpa using hQ, fun hs => (h.laid hs).join horders hne⟩

theorem token {t : String} (h : Lays s Mark lo cs hi) (hne : cs ≠ []) :
    Lays s Mark lo [Cst.join (.token t) cs] hi := h.join hne rfl (mark_join h.all)

/-! ### Nodes over children -/

section

variable [PlaysNoPart P]

theorem under (tag : Tag) (h : Lays s P lo cs hi) : Lays s (Child tag) lo cs hi :=
  h.mono fun _ hc => (PlaysNoPart.loose hc).child

theorem child (h : Lays s P lo cs hi) : Lays s (Child tag) lo cs hi := h.under tag

theorem loose (h : Lays s P lo cs hi) : Lays s Loose lo cs hi := h.mono fun _ => PlaysNoPart.loose

theorem inRole (h : Lays s P lo [c] hi) (hr : tag.holds r c.tag = true) :
    Lays s (Child tag) lo [c.inRole r] hi :=
  h.one_of Laid.inRole ((PlaysNoPart.loose h.one).inRole hr)

end

theorem anyChild (h : Lays s P lo cs hi) (hope : tag.isHopeless = true)
    (hmay : tag.mayAssign = false) : Lays s (Child tag) lo cs hi :=
  h.mono fun _ _ => child_of_hopeless hope (Or.inl hmay)

theorem formed (h : Lays s (FormedAs tag) lo cs hi) : Lays s Formed lo cs hi :=
  h.mono fun _ => FormedAs.toFormed

theorem made_of_ne (h : Lays s (Child tag) lo cs hi) (hne : cs ≠ [])
    (hproper : (tag.isNamed && !tag.isExtra) = true) (hfits : tag.Fits cs)
    (horders : tag.orders cs = true) : Lays s (FormedAs tag) lo [Cst.join tag cs] hi :=
  h.join hne horders (formed_join hproper hfits h.all)

theorem made (h : Lays s (Child tag) lo (c :: cs) hi)
    (hproper : (tag.isNamed && !tag.isExtra) = true) (hfits : tag.Fits (c :: cs))
    (horders : tag.orders (c :: cs) = true) :
    Lays s (FormedAs tag) lo [Cst.join tag (c :: cs)] hi :=
  h.made_of_ne (List.cons_ne_nil c cs) hproper hfits horders

theorem node (h : Lays s (Child tag) lo (c :: cs) hi)
    (hproper : (tag.isNamed && !tag.isExtra) = true) (hfits : tag.Fits (c :: cs))
    (horders : tag.orders (c :: cs) = true) : Lays s Formed lo [Cst.join tag (c :: cs)] hi :=
  (h.made hproper hfits horders).formed

theorem wrapped (hc : Lays s Mark lo [c] mid) (tag : Tag) (hd : Lays s Formed mid [d] hi)
    (hproper : (tag.isNamed && !tag.isExtra) = true) (hfits : Wrapping [c, d] → tag.Fits [c, d])
    (horders : tag.orders [c, d] = true) : Lays s (FormedAs tag) lo [Cst.join tag [c, d]] hi :=
  (hc.child.append hd.child).made hproper (hfits hc.one.wrapping) horders

end Lays

/-! ### Parts in their order -/

/-- What stands in a part of a node, or is a mark between what stands there. -/
structure Occupies (tag : Tag) (slot : Slot) (d : Cst) : Prop extends Child tag d where
  place : d.Mark ∨ d.role = some slot.role ∧ slot.allows d.tag = true

theorem Mark.occupies {slot : Slot} (h : c.Mark) : Occupies tag slot c := ⟨h.child, Or.inl h⟩

theorem Lays.occupies [PlaysNoPart P] {slot : Slot} (h : Lays s P lo [c] hi)
    (hallows : slot.allows c.tag = true) (hr : tag.holds slot.role c.tag = true) :
    Lays s (Occupies tag slot) lo [c.inRole slot.role] hi :=
  h.one_of Laid.inRole ⟨(PlaysNoPart.loose h.one).inRole hr,
    Or.inr ⟨role_inRole _ _, by rwa [tag_inRole]⟩⟩

theorem Lays.occupyAll {kind : Tag} {slot : Slot} (h : Lays s (FormedAs kind) lo cs hi)
    (hallows : slot.allows kind = true) (hr : tag.holds slot.role kind = true) :
    Lays s (Occupies tag slot) lo (cs.map (Cst.inRole slot.role)) hi :=
  h.map (fun _ hc => ⟨hc.toLoose.inRole (by rwa [hc.kind]),
    Or.inr ⟨role_inRole _ _, by rwa [tag_inRole, hc.kind]⟩⟩) fun _ _ _ => Laid.inRole

/-- Children that fill the parts of a node in their order, laid out one after another. -/
structure Filling (s : Source) (tag : Tag) (whole slots : List Slot) (lo : Nat) (cs : List Cst)
    (hi : Nat) : Prop extends Lays s (Child tag) lo cs hi where
  fills : Fills whole slots cs

abbrev Filled (s : Source) (tag : Tag) (slots : List Slot) (lo : Nat) (cs : List Cst) (hi : Nat) :
    Prop :=
  Filling s tag slots slots lo cs hi

namespace Filling

variable {whole slots : List Slot} {slot : Slot}

theorem nil : Filling s tag whole slots lo [] lo := ⟨.none, .nil⟩

theorem from_le (h : Filling s tag whole slots lo cs hi) (hlo : Monotone s.row → lo' ≤ lo) :
    Filling s tag whole slots lo' cs hi := ⟨h.toLays.from_le hlo, h.fills⟩

theorem token (hd : Lays s Mark lo [d] mid) (h : Filling s tag whole slots mid cs hi) :
    Filling s tag whole slots lo (d :: cs) hi :=
  ⟨hd.child.append h.toLays, .mark hd.one.improper (by simp [hd.one.free]) h.fills⟩

theorem tokens (hbefore : Lays s Mark lo as mid) (h : Filling s tag whole slots mid cs hi) :
    Filling s tag whole slots lo (as ++ cs) hi := by
  induction as generalizing lo with
  | nil => exact h.from_le hbefore.le
  | cons d as ih =>
    obtain ⟨stop, hd, has⟩ := hbefore.uncons
    exact .token hd (ih has)

theorem sign (hd : Lays s Mark lo [d] mid) (hrole : ∀ slot ∈ whole, r ≠ slot.role)
    (hr : tag.holds r d.tag = true) (h : Filling s tag whole slots mid cs hi) :
    Filling s tag whole slots lo (d.inRole r :: cs) hi :=
  ⟨(hd.inRole hr).append h.toLays,
    .mark (by rw [isProper_inRole, hd.one.improper]) (by simpa using hrole) h.fills⟩

theorem skip (h : Filling s tag whole slots lo cs hi) :
    Filling s tag whole (slot :: slots) lo cs hi := ⟨h.toLays, .skip h.fills⟩

theorem one (hd : Lays s (Child tag) lo [d] mid) (hrole : d.role = some slot.role)
    (hallows : slot.allows d.tag = true) (h : Filling s tag whole slots mid cs hi) :
    Filling s tag whole (slot :: slots) lo (d :: cs) hi :=
  ⟨hd.append h.toLays, .one hrole hallows h.fills⟩

theorem part [PlaysNoPart P] (hd : Lays s P lo [d] mid) (hallows : slot.allows d.tag = true)
    (hr : tag.holds slot.role d.tag = true) (h : Filling s tag whole slots mid cs hi) :
    Filling s tag whole (slot :: slots) lo (d.inRole slot.role :: cs) hi :=
  .one (hd.inRole hr) (role_inRole _ _) (by rwa [tag_inRole]) h

theorem optional [PlaysNoPart P] {found : Option Cst} (hd : Lays s P lo found.toList mid)
    (hallows : ∀ t ∈ found, slot.allows t.tag = true)
    (hr : ∀ t ∈ found, tag.holds slot.role t.tag = true)
    (h : Filling s tag whole slots mid cs hi) :
    Filling s tag whole (slot :: slots) lo (found.toList.map (Cst.inRole slot.role) ++ cs) hi := by
  cases found with
  | none => exact (h.from_le hd.le).skip
  | some t => exact .part hd (hallows t rfl) (hr t rfl) h

theorem only {kind : Tag} (hd : Lays s (FormedAs kind) lo [d] mid)
    (hr : tag.holds r kind = true) (h : Filling s tag whole slots mid cs hi) :
    Filling s tag whole (.only r kind :: slots) lo (d.inRole r :: cs) hi :=
  .one (hd.inRole (by rwa [hd.one.kind])) (role_inRole _ _)
    (by simp [Slot.only, hd.one.kind]) h

theorem parts (hmany : slot.many = true) (hitems : Lays s (Occupies tag slot) lo as mid)
    (h : Filling s tag whole (slot :: slots) mid cs hi) :
    Filling s tag whole (slot :: slots) lo (as ++ cs) hi :=
  ⟨(hitems.mono fun _ hd => hd.toChild).append h.toLays,
    .parts hmany (fun d hd => (hitems.all d hd).place) h.fills⟩

theorem made (h : Filled s tag whole lo cs hi) (hne : cs ≠ [])
    (hnodup : (whole.map Slot.role).Nodup) (hfits : Slotted whole cs → tag.Fits cs)
    (hproper : (tag.isNamed && !tag.isExtra) = true) (horders : tag.orders cs = true) :
    Lays s (FormedAs tag) lo [Cst.join tag cs] hi :=
  h.toLays.made_of_ne hne hproper (hfits (h.fills.slotted hnodup)) horders

end Filling

end Gatehouse.Cst
