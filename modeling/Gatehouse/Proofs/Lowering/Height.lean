import Gatehouse.Proofs.Lowering.Levels
import Gatehouse.Proofs.Lowering.Outline

/-!
Trees of lowered texts are not high. Each level adds four layers of nodes at most, whatever chains of
conditions, comparisons, operators or assignments a text may have, and there are `maxNesting` levels.
-/
namespace Gatehouse

open Gatehouse.Tree

section

variable {part : Tree → Prop} {gives : Held → List Tree → Prop} {k m n : Nat}

/-- A row is no higher than the layers over its parts, and than the handlers over what is held. -/
theorem Gathers.height_le {hs : List Held} {ts : List Tree} (h : Gathers part gives n hs ts)
    (hpart : ∀ t, part t → t.height ≤ k)
    (hgives : ∀ x us, gives x us → ∀ u ∈ us, u.height ≤ m) :
    ∀ t ∈ ts, t.height ≤ max (k + 1) m + n := by
  induction h with
  | nil => intro t ht; cases ht
  | @part n hs t ts h _ ih =>
    have ht : t.height ≤ k + (n + 1) := h.height_le hpart
    exact List.forall_mem_cons.mpr ⟨by omega, ih⟩
  | held hus _ ih =>
    refine List.forall_mem_append.mpr ⟨fun u hu => ?_, ih⟩
    have hu := hgives _ _ hus u hu
    omega
  | handler _ _ ihHandler ih =>
    refine List.forall_mem_cons.mpr ⟨height_le_succ_iff.mpr ?_, ih⟩
    simpa [parts, branch, decorators, children] using ihHandler

theorem StandsFor.height_le {c : Cst} {t : Tree} (h : StandsFor part gives c t)
    (hpart : ∀ t, part t → t.height ≤ k)
    (hgives : ∀ x us, gives x us → ∀ u ∈ us, u.height ≤ m) :
    t.height ≤ max (k + 1) m + 2 := by
  refine height_le_succ_iff.mpr (List.forall_mem_append.mpr ⟨fun d hd => ?_, ?_⟩)
  · have := hpart d (h.decorators d hd)
    omega
  · exact h.children.height_le hpart hgives

end

namespace Lowering

variable {s : Source} {levels : Nat} {c : Cst} {t : Tree}

theorem height_expression {context : Kind} (h : expression s levels c context = .ok t)
    (hcontext : context.isContext = true) : t.height ≤ 4 * levels := by
  induction levels generalizing c context t with
  | zero => cases h
  | succ levels ih =>
    refine ((expressed h).over hcontext).height_le fun u hu => ?_
    obtain ⟨d, x, hx, hu⟩ := hu
    exact ih hu hx

theorem height_member (h : IsMember (expression s levels) t) : t.height ≤ max 2 (4 * levels) := by
  rcases h with ⟨d, context, hcontext, h⟩ | ⟨line, rfl⟩
  · exact Nat.le_trans (height_expression h hcontext) (Nat.le_max_right _ _)
  · exact Nat.le_max_left _ _

/-- Statements, and branches of a choice, have four layers to each level that is left and one more. -/
structure Low (s : Source) (levels : Nat) : Prop where
  statement : ∀ {c t}, statement s levels c = .ok t → t.height ≤ 4 * levels + 1
  branches : ∀ {cs ts}, branches s levels cs = .ok ts → ∀ t ∈ ts, t.height ≤ 4 * levels + 1

theorem Low.gives (h : Low s levels) {x : Held} {us : List Tree}
    (hus : gives (fun b => b.proper.mapM (Lowering.statement s levels)) (Lowering.branches s levels)
      x us) : ∀ u ∈ us, u.height ≤ 4 * levels + 1 := by
  cases x with
  | block b => exact forall_of_mapM hus fun d _ u hu => h.statement hu
  | branches cs => exact h.branches hus

theorem height_stated (hbelow : Low s levels)
    (h : Stated s (expression s levels) (fun b => b.proper.mapM (statement s levels))
      (branches s levels) c t) : t.height ≤ max 5 (4 * levels + 3) := by
  have := h.standsFor.1.height_le (fun _ => height_member) fun _ _ => hbelow.gives
  omega

theorem low (s : Source) (levels : Nat) : Low s levels := by
  have hall : Throughout s levels (fun _ t => t.height ≤ 4 * levels + 1)
      fun _ ts => ∀ t ∈ ts, t.height ≤ 4 * levels + 1 := by
    apply throughout
    · intro n hbelow c t h
      have := height_stated ⟨hbelow.statement, hbelow.branches⟩ h
      omega
    · intro n hhere hbelow cs ts h
      cases h with
      | nil => intro t ht; cases ht
      | otherwise _ hts =>
        obtain ⟨b, -, hts⟩ := bind_eq_ok.mp hts
        exact forall_of_mapM hts fun d _ u hu => hhere hu
      | @further n _ _ _ _ _ _ _ _ hcondition hstatements hothers =>
        have hlow : Low s n := ⟨(hbelow n rfl).statement, (hbelow n rfl).branches⟩
        have hrow := (gathers_choice hcondition hstatements hothers).height_le
          (n := 0) (fun _ => height_member) fun _ _ => hlow.gives
        have hheight : (max (max 2 (4 * n) + 1) (4 * n + 1)) + 0 + 1 ≤ 4 * (n + 1) + 1 := by
          omega
        refine List.forall_mem_singleton.mpr (Nat.le_trans (height_le_succ_iff.mpr ?_) hheight)
        simpa [parts, branch, decorators, children] using hrow
  exact ⟨hall.statement, hall.branches⟩

theorem height_statement (hbelow : Low s levels) (h : statement s (levels + 1) c = .ok t) :
    t.height ≤ max 5 (4 * levels + 3) := by
  rw [statement] at h
  exact height_stated hbelow (stated h)

/-- A lowered text is four times as high as levels may nest at most, and no recursion over a node of
its tree, which has other nodes above it, nests deeper than what is left of that. -/
theorem module_height_le (h : module s c = .ok t) : t.height ≤ 4 * maxNesting
    ∧ ∀ o ∈ t.occurrences, o.tree.RecursesWithin (4 * maxNesting - o.above.length) := by
  have hheight : t.height ≤ 4 * maxNesting := by
    simp only [module, bind_eq_ok, pure_eq_ok] at h
    obtain ⟨statements, hstatements, rfl⟩ := h
    have hall : ∀ u ∈ statements, u.height ≤ 4 * maxNesting - 1 :=
      forall_of_mapM hstatements fun d _ u hu => height_statement (low s (maxNesting - 1)) hu
    refine (height_le_succ_iff (n := 4 * maxNesting - 1)).mpr ?_
    simpa [parts, branch, decorators, children] using hall
  refine ⟨hheight, fun o ho => recursesWithin_of_height ?_⟩
  have hplace := length_above_add_height_le hheight ho
  rw [List.length_nil] at hplace
  omega

/-- A subscript of two parts, of which one is a slice, takes four layers on its level. -/
def layered : Source := Source.ofBytes "x[y:z, 1]".toUTF8

theorem lower_layered : (module layered (Grammar.tree layered)).toOption.map height = some 8 := by
  rw [module_eq]
  decide +kernel

theorem height_layered : ∃ t, module layered (Grammar.tree layered) = .ok t ∧ t.height = 8
    ∧ t.height ≤ 4 * maxNesting ∧ t.RecursesWithin (4 * maxNesting) := by
  cases h : module layered (Grammar.tree layered) with
  | error e =>
    have hheight := lower_layered
    rw [h] at hheight
    cases hheight
  | ok t =>
    have hheight := lower_layered
    rw [h] at hheight
    obtain ⟨hle, hplaces⟩ := module_height_le h
    have hroot : ⟨t, [], false⟩ ∈ t.occurrences := by
      rw [occurrences, occurrencesFrom_eq]
      exact List.mem_cons_self
    exact ⟨t, rfl, Option.some.inj hheight, hle, hplaces _ hroot⟩

end Lowering
end Gatehouse
