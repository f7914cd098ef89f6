import Gatehouse.Contract
import Gatehouse.Proofs.Cst.Lines

/-!
What the search for the first fault finds. A walker leaves nodes behind in the order of the text,
and no fault is among them; so the search ends at the first fault, and after as many passes as the
tree has nodes at the latest.
-/
namespace Gatehouse

namespace Cst

theorem anyFault_eq_any (cs : List Cst) : anyFault cs = cs.any hasFault := by
  induction cs with
  | nil => rfl
  | cons c cs ih => rw [anyFault, ih, List.any_cons]

/-- A tree has a fault if one of its nodes is one. -/
theorem hasFault_iff {c : Cst} : c.hasFault = true ↔ ∃ n ∈ c.allNodes, n.tag.isFault = true := by
  induction c using inductionOn with
  | step c ih =>
    have hself : c.hasFault = (c.tag.isFault || c.children.any hasFault) := by
      obtain ⟨tag, r, sp, cs⟩ := c
      rw [hasFault, anyFault_eq_any]
      rfl
    rw [hself, Bool.or_eq_true, List.any_eq_true]
    constructor
    · rintro (hfault | ⟨d, hd, hfault⟩)
      · exact ⟨c, self_mem_nodes, hfault⟩
      · obtain ⟨n, hn, hfault⟩ := (ih d hd).mp hfault
        exact ⟨n, mem_allNodes.mpr (Or.inr ⟨d, hd, hn⟩), hfault⟩
    · rintro ⟨n, hn, hfault⟩
      obtain rfl | ⟨d, hd, hn⟩ := mem_allNodes.mp hn
      · exact Or.inl hfault
      · exact Or.inr ⟨d, hd, (ih d hd).mpr ⟨n, hn, hfault⟩⟩

end Cst

namespace Walker

/-- The test is right about a node: it holds of it if the node or one under it is a fault. -/
def Tells (faulty : Cst → Bool) (n : Cst) : Prop :=
  faulty n = true ↔ ∃ m ∈ n.allNodes, m.tag.isFault = true

def nodesAhead (c : Walker) : List Cst := c.ahead.flatMap Cst.allNodes

/-- What a number of passes of the search comes to, if it is over by then. -/
def within (faulty : Cst → Bool) : Nat → Walker → Option (Option Nat)
  | 0, _ => none
  | passes + 1, c =>
    match c.pass faulty with
    | .inl next => next.within faulty passes
    | .inr answer => some answer

section

variable {faulty : Cst → Bool} {c d : Walker} {root : Cst} {answer : Option Nat}

theorem nodesAhead_eq (c : Walker) :
    c.nodesAhead = c.node.allNodes ++ c.rest.flatMap Cst.allNodes := by
  rw [nodesAhead, ahead, List.flatMap_cons]

theorem nodesAhead_start (root : Cst) : (start root).nodesAhead = root.allNodes := by
  simp [nodesAhead_eq, start, rest]

theorem nodesAhead_of_firstChild? (h : c.firstChild? = some d) :
    c.nodesAhead = c.node :: d.nodesAhead := by
  rw [nodesAhead_eq, Cst.allNodes_eq, nodesAhead, ahead_of_firstChild? h, List.flatMap_append]
  rfl

theorem nodesAhead_of_climb? (h : c.climb? = some d) :
    c.nodesAhead = c.node.allNodes ++ d.nodesAhead := by
  have hahead := ahead_climb? c
  rw [h, Option.map_some, Option.getD_some] at hahead
  rw [nodesAhead_eq, nodesAhead, hahead]

theorem nodesAhead_of_climb?_eq_none (h : c.climb? = none) : c.nodesAhead = c.node.allNodes := by
  have hahead := ahead_climb? c
  rw [h, Option.map_none, Option.getD_none] at hahead
  rw [nodesAhead_eq, ← hahead, List.flatMap_nil, List.append_nil]

/-- Below a node that is not entered there is no fault. -/
theorem isFault_eq_false_of_not_entered (hnode : c.node.tag.isFault = false)
    (hfaulty : Tells faulty c.node)
    (h : (if faulty c.node then c.firstChild? else none) = none) :
    ∀ m ∈ c.node.allNodes, m.tag.isFault = false := by
  intro m hm
  split at h
  · -- It has no children, so it is the only node.
    have hchildren : c.node.children = [] := by
      unfold firstChild? at h
      split at h
      · assumption
      · cases h
    rw [Cst.allNodes_eq, hchildren, List.flatMap_nil, List.mem_singleton] at hm
    rwa [hm]
  · next hnot =>
    refine Bool.eq_false_iff.mpr fun hfault => hnot (hfaulty.mpr ⟨m, hm, hfault⟩)

/-- A pass that goes on leaves nodes behind, at least one, and no fault among them. -/
theorem nodesAhead_of_pass (hfaulty : Tells faulty c.node) (h : c.pass faulty = .inl d) :
    ∃ passed, c.nodesAhead = passed ++ d.nodesAhead ∧ passed ≠ []
      ∧ ∀ m ∈ passed, m.tag.isFault = false := by
  unfold pass at h
  split at h
  · cases h
  · next hnode =>
    have hnode : c.node.tag.isFault = false := Bool.eq_false_iff.mpr hnode
    split at h
    · next child hchild =>
      obtain rfl := Sum.inl.inj h
      split at hchild
      · exact ⟨[c.node], nodesAhead_of_firstChild? hchild, by simp, by simpa using hnode⟩
      · cases hchild
    · next hentered =>
      split at h
      · next next hnext =>
        obtain rfl := Sum.inl.inj h
        exact ⟨c.node.allNodes, nodesAhead_of_climb? hnext, List.ne_nil_of_mem Cst.self_mem_nodes,
          isFault_eq_false_of_not_entered hnode hfaulty hentered⟩
      · cases h

/-- A pass that ends the search has the first fault ahead before it, or no fault is ahead. -/
theorem answer_of_pass (hfaulty : Tells faulty c.node) (h : c.pass faulty = .inr answer) :
    answer = (c.nodesAhead.find? (·.tag.isFault)).map Cst.line := by
  unfold pass at h
  split at h
  · next hnode =>
    rw [← Sum.inr.inj h, nodesAhead_eq, Cst.allNodes_eq, List.cons_append, List.find?_cons, hnode]
    rfl
  · next hnode =>
    have hnode : c.node.tag.isFault = false := Bool.eq_false_iff.mpr hnode
    split at h
    · cases h
    · next hentered =>
      split at h
      · cases h
      · next hover =>
        have hnone := isFault_eq_false_of_not_entered hnode hfaulty hentered
        rw [← Sum.inr.inj h, nodesAhead_of_climb?_eq_none hover,
          List.find?_eq_none.mpr (by simpa using hnone), Option.map_none]

/-- As many passes as there are nodes ahead are enough, and they come to the first fault ahead. -/
theorem within_eq (hfaulty : ∀ n ∈ c.nodesAhead, Tells faulty n) {passes : Nat}
    (hpasses : c.nodesAhead.length ≤ passes) :
    c.within faulty passes = some ((c.nodesAhead.find? (·.tag.isFault)).map Cst.line) := by
  induction passes generalizing c with
  | zero =>
    rw [nodesAhead_eq, Cst.allNodes_eq] at hpasses
    simp at hpasses
  | succ passes ih =>
    have hnode : c.node ∈ c.nodesAhead := by
      rw [nodesAhead_eq]
      exact List.mem_append_left _ Cst.self_mem_nodes
    rw [within]
    cases hpass : c.pass faulty with
    | inr answer => rw [answer_of_pass (hfaulty c.node hnode) hpass]
    | inl next =>
      obtain ⟨passed, heq, hsome, hpassed⟩ := nodesAhead_of_pass (hfaulty c.node hnode) hpass
      rw [heq] at hfaulty hpasses ⊢
      have hlength : 0 < passed.length := List.length_pos_iff.mpr hsome
      rw [List.length_append] at hpasses
      rw [List.find?_append, List.find?_eq_none.mpr (by simpa using hpassed), Option.none_or]
      exact ih (fun n hn => hfaulty n (List.mem_append_right _ hn)) (by omega)

theorem search_of_within {passes : Nat} (h : c.within faulty passes = some answer) :
    c.search faulty = answer := by
  induction passes generalizing c with
  | zero => cases h
  | succ passes ih =>
    rw [within] at h
    rw [search]
    split at h
    · next next hpass =>
      rw [hpass]
      exact ih h
    · next answer' hpass =>
      rw [hpass]
      exact Option.some.inj h

end

theorem search_start {faulty : Cst → Bool} {root : Cst}
    (hfaulty : ∀ n ∈ root.allNodes, Tells faulty n) :
    (start root).search faulty = (root.allNodes.find? (·.tag.isFault)).map Cst.line := by
  rw [← nodesAhead_start] at hfaulty ⊢
  exact search_of_within (within_eq hfaulty (Nat.le_refl _))

/-- Where the test is right about every node, the search ends after as many passes as the tree has
nodes at the latest, and it finds the line of the first fault, a node being before all that is under
it. It finds nothing only if there is no fault; so a faulty text is always refused on the line of a
fault of its own. -/
theorem finds_first_fault {faulty : Cst → Bool} {root : Cst}
    (hfaulty : ∀ n ∈ root.allNodes, Tells faulty n) :
    (start root).within faulty root.allNodes.length
        = some ((root.allNodes.find? (·.tag.isFault)).map Cst.line)
    ∧ (start root).search faulty = (root.allNodes.find? (·.tag.isFault)).map Cst.line
    ∧ ((start root).search faulty = none ↔ ∀ n ∈ root.allNodes, n.tag.isFault = false)
    ∧ (faulty root = true → ∃ n, root.allNodes.find? (·.tag.isFault) = some n
        ∧ (start root).search faulty = some n.line
        ∧ ∀ s, Contract.ofCst s root = .error (.syntaxError n.line .invalid)) := by
  have hsearch := search_start hfaulty
  refine ⟨?_, hsearch, ?_, fun hroot => ?_⟩
  · have hwithin := within_eq (c := start root) (by rwa [nodesAhead_start]) (Nat.le_refl _)
    rwa [nodesAhead_start] at hwithin
  · rw [hsearch, Option.map_eq_none_iff, List.find?_eq_none]
    simp only [Bool.not_eq_true]
  · have hexists := (hfaulty root Cst.self_mem_nodes).mp hroot
    obtain ⟨n, hn⟩ := Option.isSome_iff_exists.mp (List.find?_isSome.mpr hexists)
    refine ⟨n, hn, by rw [hsearch, hn, Option.map_some], fun s => ?_⟩
    have hfound : root.firstFault? = some n.line := by
      rw [Cst.firstFault?, search_start fun _ _ => Cst.hasFault_iff, hn, Option.map_some]
    rw [Contract.ofCst, if_pos (Cst.hasFault_iff.mpr hexists), hfound, Option.getD_some]

/-- A tree with two faults, a part without any before them, and rows that go back. -/
def twoFaults : Cst :=
  let node (tag : Tag) (row : Nat) (cs : List Cst) : Cst := .node tag none ⟨0, 0, row⟩ cs
  node .module 0 [node .expressionStatement 0 [node .identifier 0 []],
    node .ifStatement 1 [node .identifier 1 [node .comment 1 []], node (.missing ":") 4 []],
    node .error 2 [node .error 3 []]]

theorem finds_twoFaults : (∀ n ∈ twoFaults.allNodes, Tells Cst.hasFault n)
    ∧ (start twoFaults).within Cst.hasFault 9 = some (some 5)
    ∧ ∀ s, Contract.ofCst s twoFaults = .error (.syntaxError 5 .invalid) := by
  have hfaulty : ∀ n ∈ twoFaults.allNodes, Tells Cst.hasFault n := fun _ _ => Cst.hasFault_iff
  obtain ⟨hwithin, -, -, hrefused⟩ := finds_first_fault hfaulty
  obtain ⟨n, hfirst, -, hrefused⟩ := hrefused (by decide)
  have hline : (twoFaults.allNodes.find? (·.tag.isFault)).map Cst.line = some 5 := by decide
  refine ⟨hfaulty, by rw [← hline]; exact hwithin, ?_⟩
  rw [hfirst, Option.map_some, Option.some.injEq] at hline
  rwa [hline] at hrefused

end Walker
end Gatehouse
