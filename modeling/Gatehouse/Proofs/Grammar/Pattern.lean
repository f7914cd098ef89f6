import Gatehouse.Grammar.Pattern
import Gatehouse.Proofs.Grammar.Word

/-!
What an expression denotes as a target: a node of the same shape in the same place, which may stand
left of an assignment.
-/
namespace Gatehouse

/-- A node that may stand left of an assignment. -/
structure Cst.Aimed (c : Cst) : Prop extends c.Formed where
  left : c.isLeftSide = true

theorem Cst.Lays.onLeft {s : Source} {lo hi : Nat} {c : Cst} (h : Cst.Lays s Cst.Aimed lo [c] hi) :
    Cst.Lays s (Cst.Child .assignment) lo [c.inRole .left] hi :=
  h.one_of Cst.Laid.inRole (h.one.toLoose.onLeft h.one.left)

namespace Grammar

open Cst (Laid Lays Formed Aimed)

theorem isSplatTarget_eq (c : Cst) : isSplatTarget c = c.tag.isPlace := by
  unfold isSplatTarget
  generalize c.tag = tag
  cases tag <;> rfl

/-- Under a splat there is one node at most, so if one is a place, all are. -/
theorem isPlace_of_wrapping {cs : List Cst} (hcs : Cst.Wrapping cs)
    (hany : cs.any isSplatTarget = true) : ∀ d ∈ cs.filter Cst.isProper, d.tag.isPlace = true := by
  obtain ⟨e, he, hplace⟩ := List.any_eq_true.mp hany
  rw [isSplatTarget_eq] at hplace
  have hproper : e.isProper = true := by
    rw [Cst.isProper]
    generalize e.tag = tag at hplace ⊢
    cases tag <;> first
      | rfl
      | cases hplace
  have hmem : e ∈ cs.filter Cst.isProper := List.mem_filter.mpr ⟨he, hproper⟩
  rw [Cst.Wrapping, List.countP_eq_length_filter] at hcs
  intro d hd
  cases hkept : cs.filter Cst.isProper with
  | nil =>
    rw [hkept] at hmem
    cases hmem
  | cons first rest =>
    rw [hkept] at hmem hd hcs
    obtain rfl : rest = [] := List.eq_nil_of_length_eq_zero (by simpa using hcs)
    rwa [List.mem_singleton.mp hd, ← List.mem_singleton.mp hmem]

structure Denotes (c p : Cst) : Prop where
  shaped : p.Shaped
  role : p.role = c.role
  proper : p.isProper = true
  left : p.isLeftSide = true
  laid : ∀ {lo hi}, Laid lo [c] hi → Laid lo [p] hi

mutual
/-- Induction on the expression, whose kind says what is denoted. -/
theorem denotes_of_toPattern? : {c p : Cst} → toPattern? c = some p → c.Shaped → Denotes c p
  | .node tag r sp cs, p, h, hc => by
    cases tag
    case identifier | attributeAccess | subscript =>
      obtain rfl := Option.some.inj h
      exact ⟨hc, rfl, rfl, rfl, id⟩
    case listSplat =>
      rw [toPattern?] at h
      split at h
      · next hany =>
        obtain rfl := Option.some.inj h
        have hcs : ∀ d ∈ cs, d.Shaped := hc.children_shaped rfl (by simp [Cst.tag]) fun _ => rfl
        refine ⟨.intro hc.fits fun d hd _ _ _ => hcs d hd, rfl, rfl, ?_, fun hlaid => ?_⟩
        · exact Cst.isLeftSide_iff.mpr (Or.inr ⟨rfl, fun _ => isPlace_of_wrapping hc.fits hany⟩)
        · obtain ⟨hrow, -, hunder⟩ := Cst.laid_node.mp hlaid
          exact Cst.laid_node.mpr ⟨hrow, rfl, hunder⟩
      · cases h
    case parenthesizedExpression | tuple | listDisplay =>
      rw [toPattern?, Option.map_eq_some_iff] at h
      obtain ⟨ps, hps, rfl⟩ := h
      have hcs : ∀ d ∈ cs, d.Shaped := hc.children_shaped rfl (by simp [Cst.tag]) fun _ => rfl
      obtain ⟨hall, -, hlaid⟩ := denotes_of_toPatterns? cs hps hcs
      refine ⟨.intro trivial fun d hd _ _ _ => hall d hd, rfl, rfl, rfl, fun hnode => ?_⟩
      obtain ⟨hrow, -, hunder⟩ := Cst.laid_node.mp hnode
      exact Cst.laid_node.mpr ⟨hrow, rfl, hlaid hunder⟩
    all_goals cases h

theorem denotes_of_toPatterns? : (cs : List Cst) → {ps : List Cst} → toPatterns? cs = some ps →
    (∀ c ∈ cs, c.Shaped) → (∀ p ∈ ps, p.Shaped) ∧ (cs ≠ [] → ps ≠ [])
      ∧ ∀ {lo hi}, Laid lo cs hi → Laid lo ps hi
  | [], ps, h, _ => by
    obtain rfl := Option.some.inj h
    exact ⟨by simp, id, id⟩
  | c :: cs, ps, h, hcs => by
    obtain ⟨hc, hcs⟩ := List.forall_mem_cons.mp hcs
    rw [toPatterns?] at h
    split at h
    · rw [Option.map_eq_some_iff] at h
      obtain ⟨qs, hqs, rfl⟩ := h
      obtain ⟨hall, -, hlaid⟩ := denotes_of_toPatterns? cs hqs hcs
      refine ⟨List.forall_mem_cons.mpr ⟨hc, hall⟩, by simp, fun h => ?_⟩
      obtain ⟨mid, hfirst, hrest⟩ := Cst.laid_cons.mp h
      exact hfirst.append (hlaid hrest)
    · simp only [Option.bind_eq_bind, Option.bind_eq_some_iff] at h
      obtain ⟨q, hq, qs, hqs, h⟩ := h
      obtain rfl := Option.some.inj h
      have hdenotes := denotes_of_toPattern? hq hc
      obtain ⟨hall, -, hlaid⟩ := denotes_of_toPatterns? cs hqs hcs
      refine ⟨List.forall_mem_cons.mpr ⟨hdenotes.shaped, hall⟩, by simp, fun h => ?_⟩
      obtain ⟨mid, hfirst, hrest⟩ := Cst.laid_cons.mp h
      exact (hdenotes.laid hfirst).append (hlaid hrest)
end

variable {s : Source} {lo hi : Nat} {p : Cst}

theorem lays_of_toPattern? {c : Cst} (h : toPattern? c = some p) (hc : Lays s Formed lo [c] hi) :
    Lays s Aimed lo [p] hi := by
  have hdenotes := denotes_of_toPattern? h hc.one.shaped
  have hformed : p.Formed := hdenotes.shaped.formed (hdenotes.role.trans hc.one.free)
    hdenotes.proper (Cst.mayAssign_of_isLeftSide hdenotes.left)
  exact hc.one_of hdenotes.laid ⟨hformed, hdenotes.left⟩

theorem lays_of_targetOf? {items : List Cst} (h : targetOf? items = some p)
    (hitems : Items s lo items hi) : Lays s Aimed lo [p] hi := by
  unfold targetOf? at h
  split at h
  · exact lays_of_toPattern? h hitems.formed
  · rw [Option.map_eq_some_iff] at h
    obtain ⟨ps, hps, rfl⟩ := h
    obtain ⟨hall, hne, hlaid⟩ :=
      denotes_of_toPatterns? _ hps fun c hc => (hitems.all c hc).shaped
    have hformed : (Cst.join .patternList ps).Formed :=
      Cst.Shaped.formed (.intro (by simp [Tag.Fits]) fun d hd _ _ _ => hall d (by simpa using hd))
        Cst.role_join (by simp [Cst.isProper, Tag.isNamed, Tag.isExtra]) (by simp [Tag.mayAssign])
    refine ⟨?_, fun hs => (hlaid (hitems.laid hs)).join rfl (hne hitems.ne)⟩
    simpa using ⟨hformed, by simp [Cst.isLeftSide, Tag.isPattern]⟩

end Grammar
end Gatehouse
