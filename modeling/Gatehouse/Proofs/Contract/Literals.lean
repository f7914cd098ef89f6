import Gatehouse.Proofs.Contract.Asynchronous
import Gatehouse.Proofs.Linter.Rules
import Gatehouse.Proofs.Lowering.Strings

/-!
Interpolated strings and bytes of a contract. What stands inside of a literal is not lowered, so a
literal with the letters of one of these must not pass wherever lowering meets it. A plain string
does pass, even one that goes on past its line and in which an interpolation is read.
-/
namespace Gatehouse

namespace Linter

variable {p : Policy} {r : Registry} {root : Tree} {o : Occurrence} {v : Violation}

theorem mem_inspect_of_refusal (ho : o ∈ root.occurrences) (hsees : p.sees o = true)
    (hv : refusal? p o.tree = some v) : v ∈ inspect p r root := by
  have hrule := rule_of_refusal hv
  have hmem : v ∈ (inspect p r root).filter (fun w => w.rule = v.rule) := by
    rw [inspect_filter_rule p r root (ne_of_mem_of_not_mem hrule (by decide))
      (ne_of_mem_of_not_mem hrule (by decide))]
    refine List.mem_flatMap.mpr ⟨o, List.mem_filter.mpr ⟨ho, hsees⟩, ?_⟩
    rw [notes_of_refusal hv]
    simp [Note.violation?]
  exact List.mem_of_mem_filter hmem

theorem check_ne_pass_of_not_allowed (ho : o ∈ root.occurrences)
    (h : p.allows o.tree.kind = false) : check p r root ≠ .pass := by
  intro hpass
  have hclean := (admissible_of_check_eq_pass hpass).clean o ho
  rw [hclean.allowed] at h
  cases h

end Linter

namespace Lowering

variable {s : Source} {c : Cst}

theorem refusal_of_literal {levels : Nat} {context : Kind} {t : Tree} (hc : c.IsLiteral)
    (hbears : Bears s (interpolating ++ binary) c.strings)
    (ht : expression s levels c context = .ok t) :
    Policy.standard.allows t.kind = false
      ∧ Linter.refusal? .standard t = some (.illegalSyntax t.kind c.line) := by
  obtain ⟨kind, rfl, h⟩ := classifies_of_expression hc ht
  rcases h.cases with rfl | rfl | rfl
  · exact absurd hbears (h.plain.mp rfl)
  · exact ⟨rfl, rfl⟩
  · exact ⟨rfl, rfl⟩

theorem not_bears_of_str {parts : List Cst} (h : ∀ d ∈ parts, stringKind s d = .ok .str) :
    ¬Bears s (interpolating ++ binary) parts := by
  rintro ⟨d, hd, t, ht, hmarked⟩
  exact (classifies_of_stringKind (h d hd)).plain.mp rfl ⟨d, by simp, t, ht, hmarked⟩

/-- The strings of a literal that is seen in a clear tree are seen too, and are strings. -/
theorem mem_nodes_of_mem_strings {root d : Cst} (hclear : Clear s root) (hroot : root.Shaped)
    (hc : c.IsLiteral) (hseen : c ∈ root.nodes Cst.isSeen) (hd : d ∈ c.strings) :
    d ∈ root.nodes Cst.isSeen ∧ d.tag = .stringLiteral := by
  rcases hc with htag | htag
  · simp only [Cst.strings, htag, reduceCtorEq, if_false, List.mem_singleton] at hd
    subst hd
    exact ⟨hseen, htag⟩
  · simp only [Cst.strings, htag, if_true] at hd
    have hparts : ∀ d ∈ c.proper, d.tag = .stringLiteral :=
      fits_of_shaped (shaped_of_mem_nodes hclear hroot c hseen) htag
    have hentered : c.isSeen d = true := by
      simp [Cst.isSeen, Cst.isEntered, Cst.isPath, Cst.isBlindSpot, htag]
    have hmet : d ∈ c.nodes Cst.isSeen :=
      Cst.mem_nodes.mpr (Or.inr ⟨d, List.mem_of_mem_filter hd, hentered, Cst.self_mem_nodes⟩)
    exact ⟨Cst.mem_nodes_trans hseen hmet, hparts d hd⟩

end Lowering

namespace Contract

open Lowering

variable {s : Source} {c : Cst}

theorem check_ne_pass_of_bears {r : Registry} {t : Tree} (hc : c.IsLiteral)
    (hbears : Bears s (interpolating ++ binary) c.strings)
    (hread : ofCst s (Grammar.tree s) = .ok t) (hseen : c ∈ (Grammar.tree s).nodes Cst.isSeen) :
    Linter.check .standard r t ≠ .pass := by
  intro hpass
  have hclear : Clear s (Grammar.tree s) :=
    module_clear (Grammar.tag_tree s) (ofCst_eq_ok hread).2 (Linter.safe_of_check hpass)
      (Grammar.tree_shaped s)
  refine not_bears_of_str (fun d hd => ?_) hbears
  obtain ⟨hmet, htag⟩ := mem_nodes_of_mem_strings hclear (Grammar.tree_shaped s) hc hseen hd
  exact (hclear d hmet).literal htag

/-- A literal is lowered whenever its strings are text, and to a leaf of its line whose kind the
letters before the first quotes tell, in whatever order its strings stand. If one of these bears a
letter of interpolated strings or of bytes, no tree that has the leaf passes the standard policy,
with anything registered, and the leaf is reported wherever it can be seen; nor does any source pass
that has the literal where lowering looks. -/
theorem no_marked_literal_hides (hc : c.IsLiteral) :
    (∀ levels context, (∃ t, expression s (levels + 1) c context = .ok t)
      ↔ ∀ d ∈ c.strings, ∃ x, text s d = .ok x)
    ∧ (∀ levels context t, expression s levels c context = .ok t →
      ∃ kind, t = .leaf kind c.line ∧ Classifies s c.strings kind)
    ∧ (∀ d : Cst, d.tag = c.tag → d.line = c.line → d.strings.Perm c.strings →
      ∀ levels context, expression s levels d context = expression s levels c context)
    ∧ (Bears s (interpolating ++ binary) c.strings →
      (∀ levels context r root, ∀ o ∈ root.occurrences, expression s levels c context = .ok o.tree →
        Linter.check .standard r root ≠ .pass ∧ (Policy.standard.sees o = true →
          .illegalSyntax o.tree.kind c.line ∈ Linter.inspect .standard r root))
      ∧ ∀ r t, ofCst s (Grammar.tree s) = .ok t → c ∈ (Grammar.tree s).nodes Cst.isSeen →
        Linter.check .standard r t ≠ .pass) := by
  refine ⟨exists_expression_iff hc, fun levels context t ht => classifies_of_expression hc ht,
    fun d => expression_of_perm hc, fun hbears => ⟨?_, fun r t => check_ne_pass_of_bears hc hbears⟩⟩
  intro levels context r root o ho hlowered
  obtain ⟨hdenied, hrefusal⟩ := refusal_of_literal hc hbears hlowered
  exact ⟨Linter.check_ne_pass_of_not_allowed ho hdenied,
    fun hsees => Linter.mem_inspect_of_refusal ho hsees hrefusal⟩

/-- A contract with a literal of three strings: plain text, an interpolated string and bytes. -/
def mixed : ByteArray := "@export\ndef f(x):\n return 'a' F'\x7bx\x7d' b'c'\n".toUTF8

theorem read_mixed : ∃ t, read mixed = .ok t
    ∧ ∃ o ∈ t.occurrences, o.tree = .leaf .joinedStr 3 ∧ Policy.standard.sees o = true := by
  refine ⟨.branch .module 1 [.node .functionDef 2 (some "f")
    [.named .name 1 "export" [.leaf .load 1]]
    [.branch .arguments 2 [.named .arg 2 "x" []],
      .branch .returnValue 3 [.leaf .joinedStr 3]]], ?_, by decide⟩
  rw [read_eq]
  decide +kernel

theorem literal_of_mixed : ∃ c ∈ (Grammar.tree (Source.ofBytes mixed)).nodes Cst.isSeen,
    c.tag = .concatenatedString ∧ c.strings.length = 3
      ∧ expression (Source.ofBytes mixed) 1 c .load = .ok (.leaf .joinedStr 3) := by
  decide +kernel

/-- It does not pass, with nothing registered, and the other way round the literal is the same. -/
theorem mixed_does_not_hide : ∃ t, read mixed = .ok t
    ∧ ∃ c ∈ (Grammar.tree (Source.ofBytes mixed)).nodes Cst.isSeen, c.strings.length = 3
      ∧ Linter.check .standard (.ofNames []) t ≠ .pass
      ∧ .illegalSyntax .joinedStr 3 ∈ Linter.inspect .standard (.ofNames []) t
      ∧ expression (Source.ofBytes mixed) 1 (.node c.tag c.role c.span c.children.reverse) .load
        = .ok (.leaf .joinedStr 3) := by
  obtain ⟨t, hread, o, ho, htree, hsees⟩ := read_mixed
  obtain ⟨c, hseen, htag, hlength, hlowered⟩ := literal_of_mixed
  obtain ⟨-, hkind, horder, hmarked⟩ :=
    no_marked_literal_hides (s := Source.ofBytes mixed) (c := c) (Or.inr htag)
  obtain ⟨kind, hleaf, hclassifies⟩ := hkind 1 .load _ hlowered
  obtain ⟨rfl, hline, -⟩ := Tree.node.inj hleaf
  have hbears : Bears (Source.ofBytes mixed) (interpolating ++ binary) c.strings :=
    bears_letters_append_iff.mpr (Or.inl (hclassifies.interpolated.mp rfl))
  obtain ⟨hplaces, hsources⟩ := hmarked hbears
  refine ⟨t, hread, c, hseen, hlength, hsources (.ofNames []) t hread hseen, ?_, ?_⟩
  · have hreported := (hplaces 1 .load (.ofNames []) t o ho (htree ▸ hlowered)).2 hsees
    rwa [htree, ← hline] at hreported
  · rw [horder (.node c.tag c.role c.span c.children.reverse) rfl rfl
      (Cst.strings_perm htag rfl (List.reverse_perm c.children)), hlowered]

/-- A contract with a string that goes on past its line and in which an interpolation is read all
the same. -/
def overrun : ByteArray := "@export\ndef f(x):\n    return '\x7bx\x7d\n'\n".toUTF8

/-- The string is plain text by its letters, so the contract passes although nothing of the
interpolation has been lowered. -/
theorem overrun_passes :
    (∃ t, read overrun = .ok t ∧ Linter.check .standard (.ofNames []) t = .pass)
      ∧ ∃ c ∈ (Grammar.tree (Source.ofBytes overrun)).nodes Cst.isSeen, c.tag = .stringLiteral
        ∧ stringKind (Source.ofBytes overrun) c = .ok .str
        ∧ ∃ d ∈ c.children, d.tag = .interpolation := by
  refine ⟨⟨.branch .module 1 [.node .functionDef 2 (some "f")
    [.named .name 1 "export" [.leaf .load 1]]
    [.branch .arguments 2 [.named .arg 2 "x" []],
      .branch .returnValue 3 [.leaf .str 3]]], ?_, by decide⟩, by decide +kernel⟩
  rw [read_eq]
  decide +kernel

end Contract
end Gatehouse
