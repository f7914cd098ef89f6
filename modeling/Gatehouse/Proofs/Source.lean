import Gatehouse.Source
import Mathlib.Data.List.Basic
import Mathlib.Order.Monotone.Basic

/-!
The rows of a text's characters. They never go back, and none is past the row on which the text ends.
-/
namespace Gatehouse.Source

/-- Reading keeps the rows in their order: those of the characters read, and then the row reached. -/
theorem pairwise_decodeFrom {bytes : ByteArray} {i row : Nat} {read : Array Glyph}
    (h : (read.toList.map Glyph.row ++ [row]).Pairwise (· ≤ ·)) :
    ((decodeFrom bytes i row read).1.toList.map Glyph.row
      ++ [(decodeFrom bytes i row read).2]).Pairwise (· ≤ ·) := by
  fun_induction decodeFrom bytes i row read with
  | case1 i row read hi c w hchar hw ih =>
    refine ih ?_
    have hnext : row ≤ if c == '\n' then row + 1 else row := by
      split
      · exact Nat.le_succ row
      · exact Nat.le_refl row
    have hbelow : ∀ r ∈ read.toList.map Glyph.row ++ [row], r ≤ row := by
      intro r hr
      rcases List.mem_append.mp hr with hr | hr
      · exact (List.pairwise_append.mp h).2.2 r hr row (List.mem_singleton_self row)
      · exact Nat.le_of_eq (List.mem_singleton.mp hr)
    rw [Array.toList_push, List.map_append, List.map_singleton, List.pairwise_append]
    refine ⟨h, List.pairwise_singleton _ _, fun r hr r' hr' => ?_⟩
    rw [List.mem_singleton.mp hr']
    exact (hbelow r hr).trans hnext
  | case2 => exact h
  | case3 => exact h

theorem pairwise_ofBytes (bytes : ByteArray) :
    ((ofBytes bytes).glyphs.toList.map Glyph.row ++ [(ofBytes bytes).lastRow]).Pairwise (· ≤ ·) :=
  pairwise_decodeFrom (List.pairwise_singleton _ 0)

theorem row_le_lastRow (bytes : ByteArray) (i : Nat) :
    (ofBytes bytes).row i ≤ (ofBytes bytes).lastRow := by
  obtain ⟨-, -, hlast⟩ := List.pairwise_append.mp (pairwise_ofBytes bytes)
  rw [row]
  split
  · next g hg =>
    have hmem : g.row ∈ (ofBytes bytes).glyphs.toList.map Glyph.row :=
      List.mem_map_of_mem (Array.mem_toList_iff.mpr (Array.mem_of_getElem? hg))
    exact hlast _ hmem _ (List.mem_singleton_self _)
  · exact Nat.le_refl _

theorem row_mono (bytes : ByteArray) : Monotone (ofBytes bytes).row := by
  obtain ⟨hrows, -, -⟩ := List.pairwise_append.mp (pairwise_ofBytes bytes)
  rw [List.pairwise_map] at hrows
  refine fun i j hij => ?_
  rcases Nat.eq_or_lt_of_le hij with rfl | hij
  · exact Nat.le_refl _
  cases hj : (ofBytes bytes).glyphs[j]? with
  | none =>
    refine (row_le_lastRow bytes i).trans (Nat.le_of_eq ?_)
    simp only [row, hj]
  | some g =>
    obtain ⟨hbound, hg⟩ := Array.getElem?_eq_some_iff.mp hj
    have hi := hij.trans hbound
    have hle := List.pairwise_iff_getElem.mp hrows i j hi hbound hij
    simpa only [row, hj, Array.getElem?_eq_getElem hi, Array.getElem_toList, hg] using hle

end Gatehouse.Source
