import Gatehouse.Linter
import Gatehouse.Proofs.Cst.Names
import Gatehouse.Proofs.Lowering.Result

/-!
Concrete trees that are clear where lowering looks: no name is hidden there, nothing is
asynchronous that lowering asks about, and strings are plain. What it takes for one node to be
clear, given its children.
-/
namespace Gatehouse

def Tag.isOrdinary : Tag → Bool
  | .identifier | .stringLiteral | .functionDefinition | .forStatement => false
  | tag => !tag.isHopeless

namespace Lowering

/-- No name that is seen in a tree is hidden. -/
def Shown (s : Source) (c : Cst) : Prop :=
  ∀ leaf ∈ c.identifiers Cst.isSeen, ∀ name, text s leaf = .ok name → Linter.isHidden name = false

/-- A node that may be lowered to a safe tree, as far as it goes by itself: it is not refused as it
stands, a name is not hidden, a string is of characters alone, and no function or loop is
asynchronous. -/
structure Plain (s : Source) (c : Cst) : Prop where
  hopeful : c.tag.isHopeless = false
  shown : c.tag = .identifier → ∀ name, text s c = .ok name → Linter.isHidden name = false
  literal : c.tag = .stringLiteral → stringKind s c = .ok .str
  prompt : c.tag = .functionDefinition ∨ c.tag = .forStatement → c.hasToken "async" = false

def Clear (s : Source) (c : Cst) : Prop := ∀ n ∈ c.nodes Cst.isSeen, Plain s n

section

variable {s : Source} {c : Cst}

theorem shown_of_clear (h : Clear s c) : Shown s c := by
  intro leaf hleaf
  obtain ⟨hmem, htag⟩ := Cst.mem_nodes_of_mem_identifiers hleaf
  exact (h leaf hmem).shown htag

theorem plain_of_tag {tag : Tag} (htag : c.tag = tag) (h : tag.isOrdinary = true) : Plain s c := by
  subst htag
  refine ⟨?_, fun htag => ?_, fun htag => ?_, fun htag => ?_⟩
  · unfold Tag.isOrdinary at h
    split at h
    all_goals first
      | cases h
      | simpa using h
  · rw [htag] at h
    cases h
  · rw [htag] at h
    cases h
  · rcases htag with htag | htag <;>
      · rw [htag] at h
        cases h

theorem plain_of_not_proper (h : c.isProper = false) : Plain s c := by
  cases htag : c.tag <;> first
    | exact plain_of_tag htag rfl
    | simp [Cst.isProper, Tag.isNamed, Tag.isExtra, htag] at h

theorem plain_of_prompt (htag : c.tag = .functionDefinition ∨ c.tag = .forStatement)
    (h : c.hasToken "async" = false) : Plain s c := by
  refine ⟨?_, fun hother => ?_, fun hother => ?_, fun _ => h⟩
  all_goals rcases htag with htag | htag
  all_goals first
    | rw [htag]
      rfl
    | rw [htag] at hother
      cases hother

theorem clear_of_children (hplain : Plain s c)
    (h : ∀ d ∈ c.children, c.isSeen d = true → Clear s d) : Clear s c := by
  intro n hn
  obtain rfl | ⟨d, hd, hseen, hn⟩ := Cst.mem_nodes.mp hn
  · exact hplain
  · exact h d hd hseen n hn

theorem clear_of_stringLiteral (htag : c.tag = .stringLiteral) (h : stringKind s c = .ok .str) :
    Clear s c := by
  refine clear_of_children ⟨?_, ?_, fun _ => h, ?_⟩ fun d hd hseen => ?_
  · simp [htag, Tag.isHopeless]
  · simp [htag]
  · simp [htag]
  · simp [Cst.isSeen, Cst.isEntered, htag] at hseen

theorem clear_of_not_proper (hc : c.Shaped) (hproper : c.isProper = false) : Clear s c :=
  fun n hn => plain_of_not_proper (hc.improper hproper n hn)

theorem shaped_of_seen (hc : c.Shaped) (hope : c.tag.isHopeless = false) {d : Cst}
    (hd : d ∈ c.children) (hseen : c.isSeen d = true) : d.Shaped := by
  cases hc with
  | intro fits children =>
    simp only [Cst.isSeen, Cst.isEntered, Bool.and_eq_true, Bool.not_eq_true', bne_iff_ne] at hseen
    exact children d hd hope hseen.1.1 hseen.2

theorem fits_of_shaped (hc : c.Shaped) {tag : Tag} (htag : c.tag = tag) : tag.Fits c.children := by
  cases hc with
  | intro fits children => exact htag ▸ fits

theorem clear_of_proper (hc : c.Shaped) (hplain : Plain s c)
    (h : ∀ d ∈ c.proper, c.isSeen d = true → d.Shaped → Clear s d) : Clear s c := by
  refine clear_of_children hplain fun d hd hseen => ?_
  have hshaped := shaped_of_seen hc hplain.hopeful hd hseen
  cases hproper : d.isProper with
  | false => exact clear_of_not_proper hshaped hproper
  | true => exact h d (List.mem_filter.mpr ⟨hd, hproper⟩) hseen hshaped

theorem clear_of_only {d : Cst} (hc : c.Shaped) (hplain : Plain s c) (hproper : c.proper = [d])
    (h : d.Shaped → Clear s d) : Clear s c :=
  clear_of_proper hc hplain fun e he _ => by
    rw [hproper] at he
    obtain rfl := List.mem_singleton.mp he
    exact h

/-- A plain node that wraps another is clear if that one is. -/
theorem clear_of_wrapping (hc : c.Shaped) (hplain : Plain s c) (hwraps : Cst.Wrapping c.children)
    {d : Cst} (hd : firstProper c = .ok d) (h : c.isSeen d = true → d.Shaped → Clear s d) :
    Clear s c := by
  refine clear_of_proper hc hplain fun e he hseen hshaped => ?_
  obtain rfl : d = e := by
    unfold firstProper at hd
    rw [Cst.Wrapping, List.countP_eq_length_filter] at hwraps
    change c.proper.length ≤ 1 at hwraps
    cases hparts : c.proper with
    | nil => simp [hparts] at he
    | cons first rest =>
      rw [hparts] at hd he hwraps
      obtain rfl := Except.ok.inj hd
      cases rest with
      | nil => exact (List.mem_singleton.mp he).symm
      | cons second rest => simp at hwraps
  exact h hseen hshaped

theorem eq_of_required {r : Role} {d e : Cst} (hcount : Cst.countIn r c.children ≤ 1)
    (hd : required c r = .ok d) (he : e ∈ c.children) (hrole : e.role = some r) : d = e := by
  rw [required_eq_ok, Cst.child?_eq_of_count hcount he hrole] at hd
  exact (Option.some.inj hd).symm

theorem clear_of_name {name : String} (hc : c.Shaped) (htag : c.tag = .identifier)
    (htext : text s c = .ok name) (hname : Linter.isHidden name = false) : Clear s c := by
  intro n hn
  obtain rfl | himproper := hc.name htag n hn
  · refine ⟨by simp [htag, Tag.isHopeless], fun _ m hm => ?_, by simp [htag], by simp [htag]⟩
    obtain rfl := Except.ok.inj (htext.symm.trans hm)
    exact hname
  · exact plain_of_not_proper himproper

def ClearIn (s : Source) (c : Cst) (slot : Slot) : Prop :=
  ∀ d ∈ c.proper, d.role = some slot.role → slot.allows d.tag = true → c.isSeen d = true →
    d.Shaped → Clear s d

theorem clear_of_parts {slots : List Slot} (hc : c.Shaped) (hplain : Plain s c)
    (hslots : Cst.Slotted slots c.children) (h : ∀ slot ∈ slots, ClearIn s c slot) : Clear s c := by
  refine clear_of_proper hc hplain fun d hd hseen hshaped => ?_
  obtain ⟨hmem, hproper⟩ := List.mem_filter.mp hd
  obtain ⟨slot, hslot, hrole, hallows⟩ := hslots.filled d hmem hproper
  exact h slot hslot d hd hrole hallows hseen hshaped

section

variable {slots : List Slot} {slot : Slot}

theorem clearIn_of_child (hslots : Cst.Slotted slots c.children) (hslot : slot ∈ slots)
    (hone : slot.many = false) (h : ∀ d, c.child? slot.role = some d → slot.allows d.tag = true →
      d.Shaped → Clear s d) : ClearIn s c slot := by
  intro d hd hrole hallows _ hshaped
  have hmem := (List.mem_filter.mp hd).1
  exact h d (Cst.child?_eq_of_count (hslots.once slot hslot hone) hmem hrole) hallows hshaped

theorem clearIn_of_required {d : Cst} (hslots : Cst.Slotted slots c.children) (hslot : slot ∈ slots)
    (hone : slot.many = false) (hd : required c slot.role = .ok d)
    (h : slot.allows d.tag = true → d.Shaped → Clear s d) : ClearIn s c slot := by
  refine clearIn_of_child hslots hslot hone fun e he hallows hshaped => ?_
  obtain rfl : d = e := Option.some.inj ((required_eq_ok.mp hd).symm.trans he)
  exact h hallows hshaped

theorem clearIn_of_childrenIn (h : ∀ d ∈ c.childrenIn slot.role, c.isSeen d = true →
    d.Shaped → Clear s d) : ClearIn s c slot := by
  intro d hd hrole _ hseen hshaped
  obtain ⟨hmem, hproper⟩ := List.mem_filter.mp hd
  simp only [Cst.isProper, Bool.and_eq_true] at hproper
  exact h d (List.mem_filter.mpr ⟨hmem, by simp [hrole, hproper.2]⟩) hseen hshaped

theorem clearIn_of_not_seen (h : ∀ d ∈ c.children, d.role = some slot.role → c.isSeen d = false) :
    ClearIn s c slot := by
  intro d hd hrole _ hseen
  rw [h d (List.mem_filter.mp hd).1 hrole] at hseen
  cases hseen

end

end

end Lowering
end Gatehouse
