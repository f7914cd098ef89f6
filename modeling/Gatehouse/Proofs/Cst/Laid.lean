import Gatehouse.Proofs.Cst.Formed
import Gatehouse.Proofs.Cst.Lines

/-!
Trees laid out one after another, from one row of a text to another. No node starts above its parent
or above the end of what stands before it, and children come in the order of the grammar. Such trees
are put together from their parts in the order in which these are read.
-/
namespace Gatehouse

theorem Tag.orders_nil (tag : Tag) : tag.orders [] = true := by
  cases tag <;> rfl

namespace Cst

/-- Trees from one row to another, each with what is under it before the next. -/
inductive Laid : Nat → List Cst → Nat → Prop
  | nil {lo hi : Nat} (hle : lo ≤ hi) : Laid lo [] hi
  | cons {lo mid hi : Nat} {tag : Tag} {role : Option Role} {span : Span} {under cs : List Cst}
      (hrow : lo ≤ span.row) (horders : tag.orders under = true) (hunder : Laid span.row under mid)
      (hcs : Laid mid cs hi) : Laid lo (.node tag role span under :: cs) hi

section

variable {lo lo' mid hi hi' : Nat} {c : Cst} {as bs cs : List Cst} {tag : Tag} {r : Role}

namespace Laid

theorem le (h : Laid lo cs hi) : lo ≤ hi := by
  induction h with
  | nil hle => exact hle
  | cons hrow _ _ _ ihunder ihcs => exact Nat.le_trans hrow (Nat.le_trans ihunder ihcs)

theorem from_le (h : Laid lo cs hi) (hlo : lo' ≤ lo) : Laid lo' cs hi := by
  cases h with
  | nil hle => exact .nil (Nat.le_trans hlo hle)
  | cons hrow horders hunder hcs => exact .cons (Nat.le_trans hlo hrow) horders hunder hcs

theorem append (has : Laid lo as mid) (hbs : Laid mid bs hi) : Laid lo (as ++ bs) hi := by
  induction has with
  | nil hle => exact hbs.from_le hle
  | cons hrow horders hunder _ _ ih => exact .cons hrow horders hunder (ih hbs)

theorem to_le (h : Laid lo cs hi) (hhi : hi ≤ hi') : Laid lo cs hi' := by
  rw [← List.append_nil cs]
  exact h.append (.nil hhi)

end Laid

theorem laid_cons : Laid lo (c :: cs) hi ↔ ∃ mid, Laid lo [c] mid ∧ Laid mid cs hi := by
  constructor
  · intro h
    cases h with
    | cons hrow horders hunder hcs =>
      exact ⟨_, .cons hrow horders hunder (.nil (Nat.le_refl _)), hcs⟩
  · rintro ⟨mid, hc, hcs⟩
    exact hc.append hcs

theorem laid_node {role : Option Role} {span : Span} : Laid lo [.node tag role span cs] hi ↔
    lo ≤ span.row ∧ tag.orders cs = true ∧ Laid span.row cs hi := by
  constructor
  · intro h
    cases h with
    | cons hrow horders hunder hnil => exact ⟨hrow, horders, hunder.to_le hnil.le⟩
  · rintro ⟨hrow, horders, hunder⟩
    exact .cons hrow horders hunder (.nil (Nat.le_refl _))

namespace Laid

theorem raise {lo' : Nat} (h : Laid lo (c :: cs) hi) (hrow : lo' ≤ c.span.row) :
    Laid lo' (c :: cs) hi := by
  cases h with
  | cons _ horders hunder hcs => exact .cons hrow horders hunder hcs

theorem inRole (h : Laid lo [c] hi) : Laid lo [c.inRole r] hi := by
  obtain ⟨tag, role, span, under⟩ := c
  exact laid_node.mpr (laid_node.mp h)

theorem retag (h : Laid lo [c] hi) (horders : tag.orders c.children = true) :
    Laid lo [c.retag tag] hi := by
  obtain ⟨old, role, span, under⟩ := c
  obtain ⟨hrow, -, hunder⟩ := laid_node.mp h
  exact laid_node.mpr ⟨hrow, horders, hunder⟩

theorem join (h : Laid lo cs hi) (horders : tag.orders cs = true) (hne : cs ≠ []) :
    Laid lo [Cst.join tag cs] hi := by
  cases h with
  | nil => exact absurd rfl hne
  | cons hrow hfirst hunder hcs =>
    exact laid_node.mpr ⟨hrow, horders, .cons (Nat.le_refl _) hfirst hunder hcs⟩

theorem map {f : Cst → Cst} (hf : ∀ lo hi c, Laid lo [c] hi → Laid lo [f c] hi)
    (h : Laid lo cs hi) : Laid lo (cs.map f) hi := by
  induction cs generalizing lo with
  | nil => exact h
  | cons c cs ih =>
    obtain ⟨mid, hc, hcs⟩ := laid_cons.mp h
    exact (hf _ _ _ hc).append (ih hcs)

/-- The rows of all nodes are between those the trees are laid between. -/
theorem rows (h : Laid lo cs hi) :
    (cs.flatMap allNodes).Pairwise (fun m n => m.line ≤ n.line)
      ∧ ∀ n ∈ cs.flatMap allNodes,
        lo ≤ n.span.row ∧ n.span.row ≤ hi ∧ n.tag.orders n.children = true := by
  induction h with
  | nil => exact ⟨.nil, by simp⟩
  | @cons lo mid hi tag role span under cs hrow horders hunder hcs ihunder ihcs =>
    obtain ⟨hpairunder, hallunder⟩ := ihunder
    obtain ⟨hpaircs, hallcs⟩ := ihcs
    have hmid := hunder.le
    have hhi := hcs.le
    have hfirst : ∀ n ∈ (node tag role span under).allNodes,
        span.row ≤ n.span.row ∧ n.span.row ≤ mid ∧ n.tag.orders n.children = true := by
      rw [allNodes_eq]
      exact List.forall_mem_cons.mpr ⟨⟨Nat.le_refl _, hmid, horders⟩, hallunder⟩
    rw [List.flatMap_cons]
    refine ⟨List.pairwise_append.mpr ⟨?_, hpaircs, fun m hm n hn => ?_⟩, ?_⟩
    · rw [allNodes_eq]
      exact List.pairwise_cons.mpr
        ⟨fun n hn => Nat.succ_le_succ (hallunder n hn).1, hpairunder⟩
    · exact Nat.succ_le_succ (Nat.le_trans (hfirst m hm).2.1 (hallcs n hn).1)
    · refine List.forall_mem_append.mpr ⟨fun n hn => ?_, fun n hn => ?_⟩
      · obtain ⟨hlo, hle, hown⟩ := hfirst n hn
        exact ⟨Nat.le_trans hrow hlo, Nat.le_trans hle hhi, hown⟩
      · obtain ⟨hlo, hle, hown⟩ := hallcs n hn
        exact ⟨Nat.le_trans hrow (Nat.le_trans hmid hlo), hle, hown⟩

theorem written (h : Laid lo [c] hi) : c.Written ∧ ∀ n ∈ c.allNodes, n.span.row ≤ hi := by
  obtain ⟨hrows, hall⟩ := h.rows
  rw [List.flatMap_singleton] at hrows hall
  exact ⟨⟨hrows, fun n hn => (hall n hn).2.2⟩, fun n hn => (hall n hn).2.1⟩

end Laid

end

end Cst
end Gatehouse
