import Gatehouse.Proofs.Cst.Chain

/-!
The lines on which the nodes of a concrete tree start. In a tree of a text they never go back from
one node to the next, and what is named, or decorated, has a place of its own among the parts: a name
stands before its annotation, and decorators before what they decorate.
-/
namespace Gatehouse

/-- What the grammar says of the order of a node's children, and lowering does not check: the name of
a parameter comes before its annotation, and no decorator after the definition. -/
def Tag.orders (tag : Tag) (cs : List Cst) : Bool :=
  match tag with
  | .typedParameter =>
    (cs.takeWhile (!·.isProper)).all (·.role != some .typeHint)
      && (cs.find? Cst.isProper).all (·.role != some .typeHint)
  | .defaultParameter | .typedDefaultParameter =>
    (cs.takeWhile (·.role != some .name)).all (·.role != some .typeHint)
  | .decoratedDefinition =>
    (cs.dropWhile (·.role != some .definition)).all (·.tag != .decorator)
  | _ => true

namespace Cst

/-- Does a node of the tree start on the line? -/
def HasLine (c : Cst) (line : Nat) : Prop := ∃ n ∈ c.allNodes, n.line = line

/-- Each child starts on the line of its parent or on a later one. -/
def Descends (c : Cst) : Prop := ∀ n ∈ c.allNodes, ∀ d ∈ n.children, n.line ≤ d.line

def Before (c d : Cst) : Prop := ∀ m ∈ c.allNodes, ∀ n ∈ d.allNodes, m.line ≤ n.line

/-- Lines never go back in the order of the text, and children stand in the order of the grammar. -/
structure Written (c : Cst) : Prop where
  rows : c.allNodes.Pairwise fun m n => m.line ≤ n.line
  orders : ∀ n ∈ c.allNodes, n.tag.orders n.children = true

section

variable {c d e n : Cst} {line : Nat} {r : Role}

theorem allNodes_eq (c : Cst) : c.allNodes = c :: c.children.flatMap allNodes := by
  have hunder : ∀ parent cs, nodesUnder (fun _ _ => true) parent cs = cs.flatMap allNodes := by
    intro parent cs
    induction cs with
    | nil => rfl
    | cons d cs ih => rw [nodesUnder, ih, if_pos rfl, List.flatMap_cons, allNodes]
  obtain ⟨tag, r, sp, cs⟩ := c
  rw [allNodes, nodes, hunder]
  rfl

/-! ### Lines of a node and of the nodes under it -/

theorem hasLine_line (c : Cst) : c.HasLine c.line := ⟨c, self_mem_nodes, rfl⟩

theorem HasLine.mono (h : d.HasLine line) (hd : d ∈ c.allNodes) : c.HasLine line := by
  obtain ⟨n, hn, rfl⟩ := h
  exact ⟨n, mem_allNodes_trans hn hd, rfl⟩

theorem Descends.of_mem (h : c.Descends) (hd : d ∈ c.allNodes) : d.Descends := fun n hn =>
  h n (mem_allNodes_trans hn hd)

theorem Descends.line_le (h : c.Descends) (hline : c.HasLine line) : c.line ≤ line := by
  obtain ⟨n, hn, rfl⟩ := hline
  induction c using inductionOn with
  | step c ih =>
    obtain rfl | ⟨d, hd, hn⟩ := mem_allNodes.mp hn
    · exact Nat.le_refl _
    · exact Nat.le_trans (h c self_mem_nodes d hd)
        (ih d hd (h.of_mem (mem_allNodes_of_mem_children hd)) hn)

theorem Before.line_le {line' : Nat} (h : c.Before d) (hc : c.HasLine line) (hd : d.HasLine line') :
    line ≤ line' := by
  obtain ⟨m, hm, rfl⟩ := hc
  obtain ⟨n, hn, rfl⟩ := hd
  exact h m hm n hn

theorem pairwise_allNodes : (c.allNodes.Pairwise fun m n => m.line ≤ n.line) ↔
    (∀ n, n ∈ c.children.flatMap allNodes → c.line ≤ n.line)
    ∧ (∀ d ∈ c.children, d.allNodes.Pairwise fun m n => m.line ≤ n.line)
    ∧ c.children.Pairwise Before := by
  rw [allNodes_eq, List.pairwise_cons, List.pairwise_flatMap]
  rfl

theorem Written.descends (h : c.Written) : c.Descends := by
  intro n hn d hd
  have hrows : n.allNodes.Pairwise fun m n => m.line ≤ n.line := by
    obtain ⟨hrows, -⟩ := h
    induction c using inductionOn with
    | step c ih =>
      obtain rfl | ⟨e, he, hn⟩ := mem_allNodes.mp hn
      · exact hrows
      · exact ih e he hn ((pairwise_allNodes.mp hrows).2.1 e he)
  exact (pairwise_allNodes.mp hrows).1 d (List.mem_flatMap.mpr ⟨d, hd, self_mem_nodes⟩)

theorem Written.of_mem_children (h : c.Written) (hd : d ∈ c.children) : d.Written where
  rows := (pairwise_allNodes.mp h.rows).2.1 d hd
  orders n hn := h.orders n (mem_allNodes.mpr (Or.inr ⟨d, hd, hn⟩))

theorem Written.of_mem (h : c.Written) (hd : d ∈ c.allNodes) : d.Written := by
  induction c using inductionOn with
  | step c ih =>
    obtain rfl | ⟨e, he, hd⟩ := mem_allNodes.mp hd
    · exact h
    · exact ih e he (h.of_mem_children he) hd

theorem Written.pairwise (h : c.Written) : c.children.Pairwise Before :=
  (pairwise_allNodes.mp h.rows).2.2

theorem Written.before_of_split (h : c.Written) {as bs : List Cst} (hsplit : c.children = as ++ bs)
    (hd : d ∈ as) (he : e ∈ bs) : d.Before e := by
  have hpairwise := h.pairwise
  rw [hsplit, List.pairwise_append] at hpairwise
  exact hpairwise.2.2 d hd e he

/-! ### What stands before what -/

/-- A child that is found stands before those that come neither before it nor in its place. -/
theorem Written.before_of_find {p : Cst → Bool} (h : c.Written) (hd : c.children.find? p = some d)
    (he : e ∈ c.children) (hne : d ≠ e) (hfirst : e ∉ c.children.takeWhile (!p ·)) :
    d.Before e := by
  obtain ⟨hp, as, bs, hsplit, has⟩ := List.find?_eq_some_iff_append.mp hd
  have htake : c.children.takeWhile (!p ·) = as := by
    rw [hsplit, List.takeWhile_append_of_pos has, List.takeWhile_cons_of_neg (by simp [hp]),
      List.append_nil]
  have hlater : e ∈ bs := by
    rw [hsplit, List.mem_append, List.mem_cons] at he
    rcases he with he | rfl | he
    · exact absurd (htake ▸ he) hfirst
    · exact absurd rfl hne
    · exact he
  have hsplit : c.children = (as ++ [d]) ++ bs := by rw [hsplit, List.append_cons]
  exact h.before_of_split hsplit List.mem_concat_self hlater

theorem Written.name_before_hint (h : c.Written) (htag : c.tag = .typedParameter) {rest : List Cst}
    (hproper : c.proper = d :: rest) (he : c.child? .typeHint = some e) : d.Before e := by
  have horders := h.orders c self_mem_nodes
  have hfirst : c.children.find? isProper = some d := by
    rw [← List.head?_filter, ← proper, hproper, List.head?_cons]
  simp only [htag, Tag.orders, hfirst, Option.all_some, Bool.and_eq_true, List.all_eq_true,
    bne_iff_ne] at horders
  exact h.before_of_find hfirst (mem_children_of_child? he)
    (fun heq => horders.2 (heq ▸ role_of_child? he)) fun hmem => horders.1 e hmem (role_of_child? he)

theorem Written.named_before_hint (h : c.Written)
    (htag : c.tag = .defaultParameter ∨ c.tag = .typedDefaultParameter)
    (hd : c.child? .name = some d) (he : c.child? .typeHint = some e) : d.Before e := by
  have horders : ((c.children.takeWhile (·.role != some .name)).all
      (·.role != some .typeHint)) = true := by
    have horders := h.orders c self_mem_nodes
    rcases htag with htag | htag <;> simpa only [htag, Tag.orders] using horders
  have hroles : d ≠ e := fun heq => by
    have hrole := role_of_child? hd
    rw [heq, role_of_child? he] at hrole
    cases hrole
  refine h.before_of_find hd (mem_children_of_child? he) hroles fun hmem => ?_
  simpa [role_of_child? he] using List.all_eq_true.mp horders e hmem

theorem Written.decorator_before (h : c.Written) (htag : c.tag = .decoratedDefinition)
    (hd : d ∈ c.proper) (hdecorator : d.tag = .decorator) (he : c.child? .definition = some e) :
    d.Before e := by
  have horders := h.orders c self_mem_nodes
  simp only [htag, Tag.orders] at horders
  obtain ⟨hp, as, bs, hsplit, has⟩ := List.find?_eq_some_iff_append.mp he
  rw [hsplit, List.dropWhile_append_of_pos (by simpa using has),
    List.dropWhile_cons_of_neg (by simpa using hp), List.all_eq_true] at horders
  have hmem := (List.mem_filter.mp hd).1
  rw [hsplit, List.mem_append] at hmem
  rcases hmem with hmem | hmem
  · exact h.before_of_split hsplit hmem List.mem_cons_self
  · simpa [hdecorator] using horders d hmem

end

end Cst
end Gatehouse
