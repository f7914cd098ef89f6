import Gatehouse.Proofs.Grammar.Block
import Gatehouse.Proofs.Lowering.Levels
import Gatehouse.Proofs.Lowering.Statement

/-!
Asynchronous constructs of a contract that is read and passes the standard policy. Loops, contexts
and functions are asked whether they are asynchronous, and those that are do not pass; neither does
what waits. The clause of a comprehension is not asked, and what lowering passes by may hold
anything.
-/
namespace Gatehouse

/-- Does the node wait for something, or is it marked as asynchronous? -/
def Cst.isAsynchronous (c : Cst) : Bool :=
  match c.tag with
  | .await => true
  | .functionDefinition | .forStatement | .withStatement | .forInClause => c.hasToken "async"
  | _ => false

namespace Lowering

variable {s : Source} {c n : Cst}

theorem shaped_of_mem_nodes (h : Clear s c) (hc : c.Shaped) :
    ∀ n ∈ c.nodes Cst.isSeen, n.Shaped := by
  induction c using Cst.inductionOn with
  | step c ih =>
    intro n hn
    obtain rfl | ⟨d, hd, hseen, hn⟩ := Cst.mem_nodes.mp hn
    · exact hc
    · have hope := (h c Cst.self_mem_nodes).hopeful
      have hd' : Clear s d := fun m hm => h m (Cst.mem_nodes.mpr (Or.inr ⟨d, hd, hseen, hm⟩))
      exact ih d hd hd' (shaped_of_seen hc hope hd hseen) n hn

theorem Plain.forInClause (h : Plain s n) (hn : n.isAsynchronous = true) :
    n.tag = .forInClause := by
  have hope := h.hopeful
  unfold Cst.isAsynchronous at hn
  split at hn
  · next htag => simp [htag, Tag.isHopeless] at hope
  · next htag => simp [h.prompt (Or.inl htag)] at hn
  · next htag => simp [h.prompt (Or.inr htag)] at hn
  · next htag => simp [htag, Tag.isHopeless] at hope
  · next htag => exact htag
  · cases hn

/-- A child that is the path of a module is of the right shape, and a dotted name unless it is a
remark. -/
theorem shaped_of_isPath {p d : Cst} (hp : p.Shaped) (hpath : p.isPath d = true)
    (hd : d ∈ p.children) : d.Shaped ∧ (d.isProper = true → d.tag = .dottedName) := by
  simp only [Cst.isPath, Bool.or_eq_true, Bool.and_eq_true, beq_iff_eq] at hpath
  have hkind : p.tag = .importStatement ∨ p.tag = .aliasedImport := hpath.imp And.left And.left
  refine ⟨?_, fun hproper => ?_⟩
  · cases hp with
    | intro fits children =>
      rcases hkind with hkind | hkind <;>
        exact children d hd (by simp [hkind, Tag.isHopeless]) (by simp [hkind])
          (by simp [Cst.isBlindSpot, hkind])
  · rcases hpath with ⟨-, htag⟩ | ⟨htag, hrole⟩
    · exact htag
    · have hslots : Cst.Slotted [.only .name .dottedName, .single .alias] p.children :=
        fits_of_shaped hp htag
      obtain ⟨slot, hslot, hin, hallows⟩ := hslots.filled d hd hproper
      simp only [List.mem_cons, List.not_mem_nil, or_false] at hslot
      rcases hslot with rfl | rfl
      · exact beq_iff_eq.mp hallows
      · cases hrole.symm.trans hin

theorem isAsynchronous_of_not_proper (h : n.isProper = false) : n.isAsynchronous = false := by
  cases htag : n.tag
  case await | functionDefinition | forStatement | withStatement | forInClause =>
    simp [Cst.isProper, Tag.isNamed, Tag.isExtra, htag] at h
  all_goals simp [Cst.isAsynchronous, htag]

theorem isAsynchronous_of_isPath {p d : Cst} (hp : p.Shaped) (hpath : p.isPath d = true)
    (hd : d ∈ p.children) (hn : n ∈ d.allNodes) : n.isAsynchronous = false := by
  obtain ⟨hshaped, hdotted⟩ := shaped_of_isPath hp hpath hd
  cases hproper : d.isProper with
  | false => exact isAsynchronous_of_not_proper (hshaped.improper hproper n hn)
  | true =>
    obtain htag | htag | himproper := hshaped.path (hdotted hproper) n hn
    · simp [Cst.isAsynchronous, htag]
    · simp [Cst.isAsynchronous, htag]
    · exact isAsynchronous_of_not_proper himproper

/-- Where a clear tree is asynchronous: in clauses of comprehensions, in what lowering passes by,
and inside of plain strings. -/
theorem asynchronous_cases (h : Clear s c) (hc : c.Shaped) (hn : n ∈ c.allNodes)
    (hasync : n.isAsynchronous = true) : n.tag = .forInClause
      ∨ (∃ part ∈ c.blindSpots, n ∈ part.allNodes)
      ∨ ∃ p ∈ c.nodes Cst.isSeen, p.tag = .stringLiteral ∧ stringKind s p = .ok .str
        ∧ ∃ d ∈ p.children, n ∈ d.allNodes := by
  obtain hseen | hblind | ⟨p, hp, d, hd, hout, hn⟩ := Cst.mem_allNodes_cases hn
  · exact Or.inl ((h n hseen).forInClause hasync)
  · exact Or.inr (Or.inl hblind)
  · by_cases htext : p.tag = .stringLiteral
    · exact Or.inr (Or.inr ⟨p, hp, htext, (h p hp).literal htext, d, hd, hn⟩)
    · have hpath : p.isPath d = true := by simpa [Cst.isEntered, htext] using hout
      have hshaped := shaped_of_mem_nodes h hc p hp
      rw [isAsynchronous_of_isPath hshaped hpath hd hn] at hasync
      cases hasync

end Lowering

namespace Contract

/-- A text that is read and passes the standard policy, with anything registered, is asynchronous
nowhere but in clauses of comprehensions, in the parts that lowering passes by and inside of plain
strings. -/
theorem asynchronous_of_check {bytes : ByteArray} {r : Registry} {t : Tree}
    (hread : read bytes = .ok t) (hpass : Linter.check .standard r t = .pass) :
    let s := Source.ofBytes bytes
    ∀ n ∈ (Grammar.tree s).allNodes, n.isAsynchronous = true → n.tag = .forInClause
      ∨ (∃ part ∈ (Grammar.tree s).blindSpots, n ∈ part.allNodes)
      ∨ ∃ p ∈ (Grammar.tree s).nodes Cst.isSeen, p.tag = .stringLiteral
        ∧ Lowering.stringKind s p = .ok .str ∧ ∃ d ∈ p.children, n ∈ d.allNodes := by
  intro s n hn hasync
  have hclear : Lowering.Clear s (Grammar.tree s) :=
    Lowering.module_clear (Grammar.tag_tree _) (ofCst_eq_ok hread).2 (Linter.safe_of_check hpass)
      (Grammar.tree_shaped _)
  exact Lowering.asynchronous_cases hclear (Grammar.tree_shaped _) hn hasync

/-- A contract that is asynchronous in a comprehension, in the parameters of a function's types and
inside of a plain string that goes on past its line. -/
def waiting : ByteArray := "@export\ndef f[await a]():[1 async for x in '\x7bawait b\x7d\n']".toUTF8

theorem read_waiting : read waiting = .ok (.branch .module 1 [.node .functionDef 2 (some "f")
    [.named .name 1 "export" [.leaf .load 1]]
    [.leaf .arguments 2, .branch .expr 2 [.branch .listComp 2 [.named .num 2 "1" [],
      .branch .comprehension 2 [.named .name 2 "x" [.leaf .store 2], .leaf .str 2]]]]]) := by
  rw [read_eq]
  decide +kernel

/-- It passes, with nothing registered, and is asynchronous in each of these places. -/
theorem waiting_passes :
    (∃ t, read waiting = .ok t ∧ Linter.check .standard (.ofNames []) t = .pass)
      ∧ (∃ n ∈ (Grammar.tree (Source.ofBytes waiting)).allNodes,
        n.isAsynchronous = true ∧ n.tag = .forInClause)
      ∧ (∃ part ∈ (Grammar.tree (Source.ofBytes waiting)).blindSpots,
        ∃ n ∈ part.allNodes, n.isAsynchronous = true ∧ n.tag = .await)
      ∧ ∃ p ∈ (Grammar.tree (Source.ofBytes waiting)).nodes Cst.isSeen, p.tag = .stringLiteral
        ∧ Lowering.stringKind (Source.ofBytes waiting) p = .ok .str
        ∧ ∃ d ∈ p.children, ∃ n ∈ d.allNodes, n.isAsynchronous = true ∧ n.tag = .await :=
  ⟨⟨_, read_waiting, by decide⟩, by decide +kernel⟩

/-- So all that is asynchronous in it stands in one of them. -/
theorem waiting_asynchronous :
    (∃ t, read waiting = .ok t ∧ Linter.check .standard (.ofNames []) t = .pass)
      ∧ ∀ n ∈ (Grammar.tree (Source.ofBytes waiting)).allNodes, n.isAsynchronous = true →
        n.tag = .forInClause
        ∨ (∃ part ∈ (Grammar.tree (Source.ofBytes waiting)).blindSpots, n ∈ part.allNodes)
        ∨ ∃ p ∈ (Grammar.tree (Source.ofBytes waiting)).nodes Cst.isSeen, p.tag = .stringLiteral
          ∧ Lowering.stringKind (Source.ofBytes waiting) p = .ok .str
          ∧ ∃ d ∈ p.children, n ∈ d.allNodes :=
  ⟨⟨_, read_waiting, by decide⟩,
    asynchronous_of_check (r := .ofNames []) read_waiting (by decide)⟩

end Contract
end Gatehouse
