import Gatehouse.Proofs.Cst.Shape

/-!
Where the nodes of a concrete tree stand, and its names among them: what is reached from its root
through children that are entered, and the parts that lowering passes by.
-/
namespace Gatehouse.Cst

mutual
/-- The nodes of a tree, in the order of the text, that are reached through children that are
entered. -/
def nodes (enters : Cst → Cst → Bool) : Cst → List Cst
  | .node tag r sp cs => .node tag r sp cs :: nodesUnder enters (.node tag r sp cs) cs

def nodesUnder (enters : Cst → Cst → Bool) (parent : Cst) : List Cst → List Cst
  | [] => []
  | c :: cs => (if enters parent c then c.nodes enters else []) ++ nodesUnder enters parent cs
end

/-- All nodes of a tree. -/
def allNodes (c : Cst) : List Cst := c.nodes fun _ _ => true

mutual
/-- The identifiers of a tree, in the order of the text, that are reached through children that are
entered. -/
def identifiers (enters : Cst → Cst → Bool) : Cst → List Cst
  | .node tag r sp cs =>
    let c := Cst.node tag r sp cs
    (if tag = .identifier then [c] else []) ++ identifiersUnder enters c cs

def identifiersUnder (enters : Cst → Cst → Bool) (parent : Cst) : List Cst → List Cst
  | [] => []
  | c :: cs =>
    (if enters parent c then c.identifiers enters else []) ++ identifiersUnder enters parent cs
end

mutual
/-- The parts of a tree that lowering passes by although names count in them. -/
def blindSpots : Cst → List Cst
  | .node tag r sp cs => blindSpotsUnder (.node tag r sp cs) cs

def blindSpotsUnder (parent : Cst) : List Cst → List Cst
  | [] => []
  | c :: cs =>
    (if parent.isEntered c then if parent.isBlindSpot c then [c] else c.blindSpots else [])
      ++ blindSpotsUnder parent cs
end

/-- Does lowering look at a child whose names count? -/
def isSeen (c d : Cst) : Bool := c.isEntered d && !c.isBlindSpot d

mutual
theorem inductionOn {P : Cst → Prop} (step : ∀ c : Cst, (∀ d ∈ c.children, P d) → P c) :
    (c : Cst) → P c
  | .node _ _ _ cs => step _ (inductionOnAll step cs)

theorem inductionOnAll {P : Cst → Prop} (step : ∀ c : Cst, (∀ d ∈ c.children, P d) → P c) :
    (cs : List Cst) → ∀ d ∈ cs, P d
  | [] => fun _ hd => by cases hd
  | c :: cs => List.forall_mem_cons.mpr ⟨inductionOn step c, inductionOnAll step cs⟩
end

section

variable {enters : Cst → Cst → Bool} {c n leaf part : Cst}

theorem mem_nodesUnder {parent : Cst} {cs : List Cst} :
    n ∈ nodesUnder enters parent cs ↔ ∃ c ∈ cs, enters parent c = true ∧ n ∈ c.nodes enters := by
  induction cs with
  | nil => simp [nodesUnder]
  | cons c cs ih =>
    rw [nodesUnder, List.mem_append, ih]
    by_cases h : enters parent c <;> simp [h]

theorem mem_nodes :
    n ∈ c.nodes enters ↔ n = c ∨ ∃ d ∈ c.children, enters c d = true ∧ n ∈ d.nodes enters := by
  obtain ⟨tag, r, sp, cs⟩ := c
  rw [nodes, List.mem_cons, mem_nodesUnder, children]

theorem self_mem_nodes : c ∈ c.nodes enters := mem_nodes.mpr (Or.inl rfl)

theorem mem_nodes_trans {m : Cst} (hn : n ∈ c.nodes enters) (hm : m ∈ n.nodes enters) :
    m ∈ c.nodes enters := by
  induction c using inductionOn with
  | step c ih =>
    obtain rfl | ⟨d, hd, henters, hn⟩ := mem_nodes.mp hn
    · exact hm
    · exact mem_nodes.mpr (Or.inr ⟨d, hd, henters, ih d hd hn⟩)

theorem mem_identifiersUnder {parent : Cst} {cs : List Cst} :
    leaf ∈ identifiersUnder enters parent cs ↔
      ∃ c ∈ cs, enters parent c = true ∧ leaf ∈ c.identifiers enters := by
  induction cs with
  | nil => simp [identifiersUnder]
  | cons c cs ih =>
    rw [identifiersUnder, List.mem_append, ih]
    by_cases h : enters parent c <;> simp [h]

theorem mem_identifiers : leaf ∈ c.identifiers enters ↔ (c.tag = .identifier ∧ leaf = c)
    ∨ ∃ d ∈ c.children, enters c d = true ∧ leaf ∈ d.identifiers enters := by
  obtain ⟨tag, r, sp, cs⟩ := c
  rw [identifiers, List.mem_append, mem_identifiersUnder]
  by_cases h : tag = .identifier <;> simp [h, Cst.tag, Cst.children]

theorem mem_nodes_of_mem_identifiers (h : leaf ∈ c.identifiers enters) :
    leaf ∈ c.nodes enters ∧ leaf.tag = .identifier := by
  induction c using inductionOn with
  | step c ih =>
    rcases mem_identifiers.mp h with ⟨htag, rfl⟩ | ⟨d, hd, henters, hleaf⟩
    · exact ⟨self_mem_nodes, htag⟩
    · obtain ⟨hmem, htag⟩ := ih d hd hleaf
      exact ⟨mem_nodes.mpr (Or.inr ⟨d, hd, henters, hmem⟩), htag⟩

theorem mem_blindSpotsUnder {parent : Cst} {cs : List Cst} :
    part ∈ blindSpotsUnder parent cs ↔ ∃ d ∈ cs, parent.isEntered d = true
      ∧ (parent.isBlindSpot d = true ∧ part = d
        ∨ parent.isBlindSpot d = false ∧ part ∈ d.blindSpots) := by
  induction cs with
  | nil => simp [blindSpotsUnder]
  | cons c cs ih =>
    rw [blindSpotsUnder, List.mem_append, ih]
    by_cases hentered : parent.isEntered c <;> by_cases hblind : parent.isBlindSpot c <;>
      simp [hentered, hblind]

theorem mem_blindSpots : part ∈ c.blindSpots ↔ ∃ d ∈ c.children, c.isEntered d = true
    ∧ (c.isBlindSpot d = true ∧ part = d ∨ c.isBlindSpot d = false ∧ part ∈ d.blindSpots) := by
  obtain ⟨tag, r, sp, cs⟩ := c
  rw [blindSpots, mem_blindSpotsUnder, children]

/-- A node of a tree is seen, or stands in a part that is passed by, or under a child of a seen
node that is not entered. -/
theorem mem_allNodes_cases (h : n ∈ c.allNodes) : n ∈ c.nodes isSeen
    ∨ (∃ part ∈ c.blindSpots, n ∈ part.allNodes)
    ∨ ∃ p ∈ c.nodes isSeen, ∃ d ∈ p.children, p.isEntered d = false ∧ n ∈ d.allNodes := by
  induction c using inductionOn with
  | step c ih =>
    obtain rfl | ⟨d, hd, -, hn⟩ := mem_nodes.mp h
    · exact Or.inl self_mem_nodes
    by_cases hentered : c.isEntered d = true
    · by_cases hblind : c.isBlindSpot d = true
      · exact Or.inr (Or.inl ⟨d, mem_blindSpots.mpr ⟨d, hd, hentered, Or.inl ⟨hblind, rfl⟩⟩, hn⟩)
      · have hseen : c.isSeen d = true := by simp [isSeen, hentered, hblind]
        have hunder : ∀ p, p ∈ d.nodes isSeen → p ∈ c.nodes isSeen := fun p hp =>
          mem_nodes.mpr (Or.inr ⟨d, hd, hseen, hp⟩)
        obtain hn | ⟨part, hpart, hn⟩ | ⟨p, hp, e, he, hout, hn⟩ := ih d hd hn
        · exact Or.inl (hunder n hn)
        · refine Or.inr (Or.inl ⟨part, mem_blindSpots.mpr ⟨d, hd, hentered, Or.inr ?_⟩, hn⟩)
          exact ⟨Bool.eq_false_iff.mpr hblind, hpart⟩
        · exact Or.inr (Or.inr ⟨p, hunder p hp, e, he, hout, hn⟩)
    · exact Or.inr (Or.inr ⟨c, self_mem_nodes, d, hd, Bool.eq_false_iff.mpr hentered, hn⟩)

/-- Under a word or a sign there are only such. -/
theorem Shaped.improper (hc : c.Shaped) (himproper : c.isProper = false) :
    ∀ n ∈ c.nodes enters, n.isProper = false := by
  induction hc with
  | intro fits children ih =>
    rename_i c
    intro n hn
    have htag : (∃ t, c.tag = .token t) ∨ (∃ t, c.tag = .missing t) ∨ c.tag = .comment
        ∨ c.tag = .lineContinuation := by
      cases htag : c.tag <;> simp [isProper, Tag.isNamed, Tag.isExtra, htag] at himproper ⊢
    have hbare : Bare c.children := by
      rcases htag with ⟨t, ht⟩ | ⟨t, ht⟩ | ht | ht <;>
        (rw [ht] at fits; exact fits)
    have hplain : c.tag.isHopeless = false ∧ c.tag ≠ .stringLiteral
        ∧ ∀ d, c.isBlindSpot d = false := by
      rcases htag with ⟨t, ht⟩ | ⟨t, ht⟩ | ht | ht <;>
        simp [Tag.isHopeless, isBlindSpot, ht]
    obtain rfl | ⟨d, hd, -, hn⟩ := mem_nodes.mp hn
    · exact himproper
    · exact ih d hd hplain.1 hplain.2.1 (hplain.2.2 d) (hbare d hd) n hn

theorem Shaped.name (hc : c.Shaped) (htag : c.tag = .identifier) :
    ∀ n ∈ c.nodes enters, n = c ∨ n.isProper = false := by
  intro n hn
  cases hc with
  | intro fits children =>
    rw [htag] at fits
    obtain rfl | ⟨d, hd, -, hn⟩ := mem_nodes.mp hn
    · exact Or.inl rfl
    · have hd' := children d hd (by simp [htag, Tag.isHopeless]) (by simp [htag])
        (by simp [isBlindSpot, htag])
      exact Or.inr (hd'.improper (fits d hd) n hn)

/-- Under the path of a module there are only names, words and signs. -/
theorem Shaped.path (hc : c.Shaped) (htag : c.tag = .dottedName) :
    ∀ n ∈ c.nodes enters, n.tag = .dottedName ∨ n.tag = .identifier ∨ n.isProper = false := by
  intro n hn
  cases hc with
  | intro fits children =>
    rw [htag] at fits
    obtain rfl | ⟨d, hd, -, hn⟩ := mem_nodes.mp hn
    · exact Or.inl htag
    · have hd' := children d hd (by simp [htag, Tag.isHopeless]) (by simp [htag])
        (by simp [isBlindSpot, htag])
      cases hproper : d.isProper with
      | false => exact Or.inr (Or.inr (hd'.improper hproper n hn))
      | true =>
        have hname := fits d (List.mem_filter.mpr ⟨hd, hproper⟩)
        obtain rfl | himproper := hd'.name hname n hn
        · exact Or.inr (Or.inl hname)
        · exact Or.inr (Or.inr himproper)

mutual
theorem mem_identifiers_isEntered : (c : Cst) → (leaf ∈ c.identifiers isEntered ↔
    leaf ∈ c.identifiers isSeen ∨ ∃ part ∈ c.blindSpots, leaf ∈ part.identifiers isEntered)
  | .node tag r sp cs => by
    have hcs := mem_identifiersUnder_isEntered (.node tag r sp cs) cs
    rw [identifiers, identifiers, blindSpots, List.mem_append, List.mem_append, hcs, or_assoc]

theorem mem_identifiersUnder_isEntered (parent : Cst) : (cs : List Cst) →
    (leaf ∈ identifiersUnder isEntered parent cs ↔ leaf ∈ identifiersUnder isSeen parent cs
      ∨ ∃ part ∈ blindSpotsUnder parent cs, leaf ∈ part.identifiers isEntered)
  | [] => by simp [identifiersUnder, blindSpotsUnder]
  | c :: cs => by
    have hc := mem_identifiers_isEntered c
    have hcs := mem_identifiersUnder_isEntered parent cs
    rw [identifiersUnder, identifiersUnder, blindSpotsUnder, List.mem_append, List.mem_append, hcs]
    simp only [List.mem_append, or_and_right, exists_or]
    -- The child is not entered, or a part that is passed by itself, or may hold such parts.
    by_cases hentered : parent.isEntered c
    · by_cases hblind : parent.isBlindSpot c
      · simp [isSeen, hentered, hblind, or_left_comm]
      · simp [isSeen, hentered, hblind, hc, or_assoc, or_left_comm]
    · simp [isSeen, hentered]
end

end

/-! ### All nodes -/

section

variable {c d n : Cst} {r : Role}

theorem mem_children_of_child? (h : c.child? r = some d) : d ∈ c.children :=
  List.mem_of_find?_eq_some h

theorem role_of_child? (h : c.child? r = some d) : d.role = some r := by
  simpa using List.find?_some h

theorem mem_allNodes : n ∈ c.allNodes ↔ n = c ∨ ∃ d ∈ c.children, n ∈ d.allNodes := by
  rw [allNodes, mem_nodes]
  simp only [true_and, allNodes]

theorem mem_allNodes_of_mem_children (h : d ∈ c.children) : d ∈ c.allNodes :=
  mem_allNodes.mpr (Or.inr ⟨d, h, self_mem_nodes⟩)

theorem mem_allNodes_of_mem_proper (h : d ∈ c.proper) : d ∈ c.allNodes :=
  mem_allNodes_of_mem_children (List.mem_filter.mp h).1

theorem mem_allNodes_of_mem_childrenIn (h : d ∈ c.childrenIn r) : d ∈ c.allNodes :=
  mem_allNodes_of_mem_children (List.mem_filter.mp h).1

theorem mem_allNodes_of_child? (h : c.child? r = some d) : d ∈ c.allNodes :=
  mem_allNodes_of_mem_children (mem_children_of_child? h)

theorem mem_allNodes_trans (hn : n ∈ d.allNodes) (hd : d ∈ c.allNodes) : n ∈ c.allNodes := by
  induction c using inductionOn with
  | step c ih =>
    obtain rfl | ⟨e, he, hd⟩ := mem_allNodes.mp hd
    · exact hn
    · exact mem_allNodes.mpr (Or.inr ⟨e, he, ih e he hd⟩)

end

end Gatehouse.Cst
