import Gatehouse.Grammar.Literal

/-!
Tokens lie ahead of the place they are looked for from, and end no earlier than they begin. So do the
pieces of strings.
-/
namespace Gatehouse

namespace Layout

theorem le_skipGap {s : Source} {remarks : Bool} {g g' : Gap} (h : skipGap s remarks g = some g') :
    g.stop ≤ g'.stop := by
  fun_induction skipGap s remarks g with
  | case1 g _ _ ih | case2 g _ _ ih | case3 g _ _ ih | case4 g _ _ ih | case5 g _ _ ih =>
    exact Nat.le_of_succ_le (ih h)
  | case6 g _ _ _ _ ih =>
    have hremark := le_remarkEnd s g.stop
    exact Nat.le_trans hremark (Nat.le_of_succ_le (ih h))
  | case9 g _ _ next _ ih =>
    have hnext : g.stop ≤ next := by
      simp only [next]
      split <;> omega
    exact Nat.le_trans hnext (Nat.le_of_succ_le (ih h))
  | case7 | case10 => cases h
  | case8 | case11 | case12 =>
    obtain rfl := Option.some.inj h
    exact Nat.le_refl _

theorem le_openQuote {s : Source} {i stop : Nat} {q : Char} {triple : Bool}
    (h : openQuote s i = some (q, triple, stop)) : i ≤ stop := by
  simp only [openQuote] at h
  repeat' split at h
  all_goals simp only [Option.some.injEq, Prod.mk.injEq, reduceCtorEq] at h
  all_goals omega

theorem le_openString {s : Source} {i stop : Nat} {d d' : Delimiter}
    (h : openString s i d = some (d', stop)) : i ≤ stop := by
  fun_induction openString s i d with
  | case1 _ _ _ _ _ ih | case2 _ _ _ _ _ _ ih | case3 _ _ _ _ _ _ _ ih
  | case4 _ _ _ _ _ _ _ _ ih => exact Nat.le_of_succ_le (ih h)
  | case5 =>
    obtain ⟨⟨q, triple, stop⟩, hquote, heq⟩ := Option.map_eq_some_iff.mp h
    obtain ⟨-, rfl⟩ := Prod.mk.inj heq
    exact le_openQuote hquote
  | case6 => cases h

/-- A token of layout lies ahead. -/
theorem scan_ahead {s : Source} {e : Expect} {l : Layout} {i : Nat} {m : Marked}
    (h : scan s e l i = some m) : i ≤ m.start ∧ m.start ≤ m.stop := by
  unfold scan at h
  obtain ⟨g, hg, h⟩ := Option.bind_eq_some_iff.mp h
  have hstop : i ≤ g.stop := le_skipGap hg
  extract_lets atQuote closes outside at h
  split at h
  · obtain rfl := Option.some.inj h
    exact ⟨Nat.le_refl i, Nat.le_refl i⟩
  split at h
  · obtain rfl := Option.some.inj h
    exact ⟨Nat.le_refl i, Nat.le_refl i⟩
  split at h
  · obtain rfl := Option.some.inj h
    exact ⟨Nat.le_refl i, Nat.le_refl i⟩
  split at h
  · obtain ⟨⟨d, stop⟩, hopen, h⟩ := Option.bind_eq_some_iff.mp h
    obtain rfl := Option.some.inj h
    exact ⟨hstop, le_openString hopen⟩
  · cases h

def Piece.stop? : Piece → Option Nat
  | .content stop | .doubledBrace stop | .close stop => some stop
  | .other => none

theorem le_run {s : Source} {d : Delimiter} {full : Bool} {i stop : Nat}
    (h : (run s d full i).stop? = some stop) : i ≤ stop := by
  fun_induction run s d full i with
  | case3 full i _ _ _ _ _ _ ih => exact Nat.le_trans (Nat.le_of_lt (lt_rawBackslash s d i)) (ih h)
  | case4 _ i _ _ _ _ _ _ _ _ _ ih => exact Nat.le_trans (Nat.le_add_right i 3) (ih h)
  | case14 _ i _ _ _ _ _ _ _ ih => exact Nat.le_of_succ_le (ih h)
  | case1 | case13 | case15 => cases h
  | case2 full _ _ _ kept | case5 full _ _ _ kept | case6 full _ _ _ kept =>
    cases full with
    | true =>
      obtain rfl := Option.some.inj h
      exact Nat.le_refl _
    | false => cases h
  | case7 | case8 | case9 | case10 | case11 | case12 =>
    obtain rfl := Option.some.inj h
    omega

theorem le_piece {s : Source} {d : Delimiter} {i stop : Nat}
    (h : (piece s d i).stop? = some stop) : i ≤ stop := by
  simp only [piece] at h
  split at h
  · split at h
    · obtain rfl := Option.some.inj h
      exact Nat.le_add_right i 2
    · cases h
  · exact le_run h

end Layout

namespace Lexeme

theorem le_continuedLine? {s : Source} {i stop : Nat} (h : continuedLine? s i = some stop) :
    i ≤ stop := by
  unfold continuedLine? at h
  repeat' split at h
  all_goals simp only [Option.some.injEq, reduceCtorEq] at h
  all_goals omega

theorem plainAt_ahead {s : Source} {i start stop : Nat} {t : Token}
    (h : plainAt s i = .token t start stop) : i ≤ start ∧ start ≤ stop := by
  have hblank := le_spanEnd s isBlank i
  simp only [plainAt] at h
  generalize spanEnd s isBlank i = j at h hblank
  have hword := le_spanEnd s Text.isIdentifierPart (j + 1)
  repeat' split at h
  all_goals simp only [Plain.token.injEq, Bool.and_eq_true, decide_eq_true_eq, reduceCtorEq] at *
  all_goals omega

theorem read_ahead (s : Source) (e : Expect) (l : Layout) (i : Nat) :
    i ≤ (read s e l i).start ∧ (read s e l i).start ≤ (read s e l i).stop := by
  fun_induction read s e l i with
  | case1 i m hscan => exact Layout.scan_ahead hscan
  | case2 i _ t start stop hplain => exact plainAt_ahead hplain
  | case3 i _ stop _ hstop ih => exact ⟨Nat.le_trans (Nat.le_of_lt hstop.1) ih.1, ih.2⟩
  | case4 i => exact ⟨Nat.le_refl i, Nat.le_refl i⟩

end Lexeme

namespace Grammar

theorem le_escapeEnd (s : Source) (i : Nat) : i ≤ escapeEnd s i := by
  have hname := Lexeme.le_spanEnd s (fun d => d != '\x7d' && d != '\x00') (i + 3)
  simp only [escapeEnd]
  repeat' split
  all_goals omega

end Grammar

end Gatehouse
