import Gatehouse.Proofs.Grammar.Block
import Gatehouse.Proofs.Lowering.Levels
import Gatehouse.Proofs.Lowering.Statement

/-!
Hidden names of a contract that is read and passes the standard policy. None of them is where
lowering looks, so all of them stand in parts that it passes by.
-/
namespace Gatehouse.Contract

/-- An identifier of a text is hidden. -/
def Hides (s : Source) (leaf : Cst) : Prop :=
  ∃ name, Lowering.text s leaf = .ok name ∧ Linter.isHidden name = true

theorem shown_of_check {bytes : ByteArray} {r : Registry} {t : Tree} (hread : read bytes = .ok t)
    (hpass : Linter.check .standard r t = .pass) :
    Lowering.Shown (Source.ofBytes bytes) (Grammar.tree (Source.ofBytes bytes)) :=
  Lowering.module_shown (Grammar.tag_tree _) (ofCst_eq_ok hread).2 (Linter.safe_of_check hpass)
    (Grammar.tree_shaped _)

/-- A text that is read and passes the standard policy, with anything registered, hides no name
where lowering looks. It hides none at all that counts exactly when it hides none in the parts that
lowering passes by: the parameters of a function's types, the other name of an expression, and
annotations inside of a chain of assignments. -/
theorem hides_no_name_iff {bytes : ByteArray} {r : Registry} {t : Tree} (hread : read bytes = .ok t)
    (hpass : Linter.check .standard r t = .pass) :
    let s := Source.ofBytes bytes
    Lowering.Shown s (Grammar.tree s)
      ∧ ((∀ leaf ∈ (Grammar.tree s).identifiers Cst.isEntered, ¬Hides s leaf)
        ↔ ∀ part ∈ (Grammar.tree s).blindSpots, ∀ leaf ∈ part.identifiers Cst.isEntered,
          ¬Hides s leaf) := by
  intro s
  have hshown : Lowering.Shown s (Grammar.tree s) := shown_of_check hread hpass
  refine ⟨hshown, fun h part hpart leaf hleaf => ?_, fun h leaf hleaf hhides => ?_⟩
  · exact h leaf ((Cst.mem_identifiers_isEntered _).mpr (Or.inr ⟨part, hpart, hleaf⟩))
  · rcases (Cst.mem_identifiers_isEntered _).mp hleaf with hseen | ⟨part, hpart, hin⟩
    · obtain ⟨name, hname, hhidden⟩ := hhides
      rw [hshown leaf hseen name hname] at hhidden
      cases hhidden
    · exact h part hpart leaf hin hhides

/-- A contract with a hidden name in each kind of part that lowering passes by. -/
def escaping : ByteArray := "@export\ndef f[_T]():\n a=b:_U=1 as _V".toUTF8

/-- What is read of it, and the names that count in it. Both come of one reading of its text. -/
theorem read_escaping :
    (read escaping, ((Grammar.tree (Source.ofBytes escaping)).identifiers Cst.isEntered).map
        (Lowering.text (Source.ofBytes escaping)))
      = (.ok (.branch .module 1 [.node .functionDef 2 (some "f")
          [.named .name 1 "export" [.leaf .load 1]]
          [.leaf .arguments 2, .branch .assign 3 [.named .name 3 "a" [.leaf .store 3],
            .named .name 3 "b" [.leaf .store 3], .named .num 3 "1" []]]]),
        [.ok "export", .ok "f", .ok "_T", .ok "a", .ok "b", .ok "_U", .ok "_V"]) := by
  rw [read_eq]
  decide +kernel

theorem hides_of_mem {name : String} (h : name ∈ ["_T", "_U", "_V"]) :
    ∃ leaf ∈ (Grammar.tree (Source.ofBytes escaping)).identifiers Cst.isEntered,
      Lowering.text (Source.ofBytes escaping) leaf = .ok name
        ∧ Hides (Source.ofBytes escaping) leaf := by
  have hnames := (Prod.mk.inj read_escaping).2
  have hmem : Except.ok name ∈ ((Grammar.tree (Source.ofBytes escaping)).identifiers
      Cst.isEntered).map (Lowering.text (Source.ofBytes escaping)) := by
    rw [hnames]
    simp only [List.mem_cons, List.not_mem_nil, or_false] at h
    rcases h with rfl | rfl | rfl <;> simp
  have hhidden : ∀ name ∈ ["_T", "_U", "_V"], Linter.isHidden name = true := by decide
  obtain ⟨leaf, hleaf, htext⟩ := List.mem_map.mp hmem
  exact ⟨leaf, hleaf, htext, name, htext, hhidden name h⟩

/-- It passes all the same, with nothing registered. -/
theorem escaping_passes : ∃ t, read escaping = .ok t
    ∧ Linter.check .standard (.ofNames []) t = .pass
    ∧ ∀ name ∈ ["_T", "_U", "_V"],
      ∃ leaf ∈ (Grammar.tree (Source.ofBytes escaping)).identifiers Cst.isEntered,
        Lowering.text (Source.ofBytes escaping) leaf = .ok name
          ∧ Hides (Source.ofBytes escaping) leaf :=
  ⟨_, (Prod.mk.inj read_escaping).1, by decide, fun _ hname => hides_of_mem hname⟩

/-- So some part of it that lowering passes by hides a name. -/
theorem escaping_hides_in_blindSpot :
    ∃ part ∈ (Grammar.tree (Source.ofBytes escaping)).blindSpots,
      ∃ leaf ∈ part.identifiers Cst.isEntered, Hides (Source.ofBytes escaping) leaf := by
  apply Classical.byContradiction
  intro hnone
  have hread := (Prod.mk.inj read_escaping).1
  have hall := (hides_no_name_iff (r := .ofNames []) hread (by decide)).2.mpr
    (fun part hpart leaf hleaf hhides => hnone ⟨part, hpart, leaf, hleaf, hhides⟩)
  obtain ⟨leaf, hleaf, -, hhides⟩ := hides_of_mem (show "_T" ∈ _ by decide)
  exact hall leaf hleaf hhides

end Gatehouse.Contract
