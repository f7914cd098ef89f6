import Gatehouse.Grammar.Literal
import Gatehouse.Proofs.Grammar.Word

/-!
Lists of expressions, and strings. The inside of a string is never entered, so of it only is said
where it stands.
-/
namespace Gatehouse.Grammar

open Reader
open Cst (Lays Lies Formed FormedAs)

section

variable {s : Source} {c : Cursor} {x : Lexeme} {lo hi : Nat} {nested : Nested}

/-! ### Lists of expressions -/

theorem lays_asExpressionList {items : List Cst} (h : Items s lo items hi) :
    Lays s Formed lo [asExpressionList items] hi := by
  unfold asExpressionList
  split
  · exact h.formed
  · exact h.made rfl trivial rfl

variable (hnested : Sound s nested)

include hnested

theorem reads_expressionItems (here follow : Expect) :
    Leads s c (expressionItems nested here follow) fun cs d => Items s (c.row s) cs (d.row s) :=
  leads_bind (hnested _ _ _ c) fun _ _ hfirst => reads_items hfirst (looks_map looks_peek)
    (hnested _ _ _)

theorem reads_expressions (here follow : Expect) :
    Reads s Formed (expressions nested here follow) :=
  fun _ => leads_map (reads_expressionItems hnested here follow) fun _ _ => lays_asExpressionList

theorem reads_yieldExpression (here follow : Expect) :
    Reads s Formed (yieldExpression nested here follow) := by
  refine fun c => leads_bind (reads_word here "yield" c) fun head d hhead => ?_
  refine leads_peek fun x hx => ?_
  split
  · refine leads_bind (reads_mark hx "from") fun from_ e hfrom => ?_
    refine leads_bind (hnested _ _ _ e) fun value _ hvalue => leads_pure ?_
    exact (((hhead.under .yield).append hfrom.child).append hvalue.child).node rfl trivial rfl
  · split
    · refine leads_bind (reads_expressions hnested _ _ d) fun value _ hvalue => leads_pure ?_
      exact (hhead.wrapped .yield hvalue rfl (fun _ => trivial) rfl).formed
    · exact leads_pure ((hhead.under .yield).node rfl trivial rfl)

/-! ### Strings -/

omit hnested in
theorem reads_stringPart {tag : Tag} {stop : Nat} (hstop : c.place ≤ stop) :
    Leads s c (stringPart tag stop) (Reaches s (fun _ => True) (c.row s)) :=
  leads_cursor (reads_accept ⟨Nat.le_refl _, hstop⟩ fun _ => trivial)

omit hnested in
theorem leads_source {α : Type} {f : Source → Reader α} {R : α → Cursor → Prop}
    (hf : Leads s c (f s) R) : Leads s c (source >>= f) R := by
  intro b d h
  obtain ⟨a, d', ha, hb⟩ := bind_eq_ok h
  obtain ⟨rfl, rfl⟩ := Prod.mk.inj (Except.ok.inj ha)
  exact hf b d hb

omit hnested in
theorem reads_conversion? : Leads s c conversion? (MayReach s (fun _ => True) (c.row s)) := by
  refine leads_peek fun x hx => leads_source ?_
  dsimp only
  split
  · have hlonger : Lexeme.Ahead { x with stop := x.stop + 1 } c :=
      ⟨hx.1, Nat.le_succ_of_le hx.2⟩
    exact leads_map (reads_accept hlonger fun _ => trivial) fun _ _ h => h
  · exact leads_pure .none

omit hnested in
theorem lies_inRole {t : Cst} {r : Role} (h : Lies s lo [t] hi) : Lies s lo [t.inRole r] hi :=
  h.one_of Cst.Laid.inRole trivial

omit hnested in
theorem lies_toList_inRole {found : Option Cst} {r : Role} (h : Lies s lo found.toList hi) :
    Lies s lo (found.map (Cst.inRole r)).toList hi := by
  cases found with
  | none => exact h
  | some t => exact lies_inRole h

/-- Interpolations and formats hold one another. -/
theorem reads_interpolation_format (n : Nat) :
    (∀ tag x c, (∀ cs, tag.orders cs = true) → x.Ahead c →
      Leads s c (interpolation nested tag n x) (Reaches s (fun _ => True) (c.row s)))
    ∧ ∀ x c, x.Ahead c →
      Leads s c (formatSpecifier nested n x) (Reaches s (fun _ => True) (c.row s)) := by
  -- Both at once: an interpolation may end with a format, and a format is made of interpolations.
  induction n with
  | zero => exact ⟨fun _ _ _ _ _ => leads_refuse, fun _ _ _ => leads_refuse⟩
  | succ n ih =>
    obtain ⟨hinterpolation, hformat⟩ := ih
    refine ⟨fun tag x c horders hx => ?_, fun x c hx => ?_⟩
    · refine leads_bind (reads_mark hx _) fun open_ d hopen => leads_peek fun y hy => ?_
      extract_lets rest
      have hrest : ∀ value d', Lays s Formed (d.row s) [value] (d'.row s) →
          Leads s d' (rest value) (Reaches s (fun _ => True) (c.row s)) := by
        intro value d' hvalue
        have hstart : Lies s (c.row s) [open_, value.inRole .expression] (d'.row s) :=
          hopen.lies.append (lies_inRole hvalue.lies)
        refine leads_bind (reads_sign? closing "=") fun equals d hequals => ?_
        refine leads_bind reads_conversion? fun conversion d hconversion => ?_
        refine leads_peek fun z hz => ?_
        extract_lets rest
        have hrest : ∀ format d', Lies s (d.row s) format.toList (d'.row s) →
            Leads s d' (rest format) (Reaches s (fun _ => True) (c.row s)) := by
          intro format d' hformat
          refine leads_bind (reads_sign closing "\x7d" d') fun close e hclose => leads_pure ?_
          exact ((((hstart.append hequals.lies).append (lies_toList_inRole hconversion)).append
            (lies_toList_inRole hformat)).append hclose.lies).join (by simp) (horders _) trivial
        split
        · have hz : Lexeme.Ahead { z with token := .sign ":", stop := z.start + 1 } d :=
            ⟨hz.1, Nat.le_succ _⟩
          exact leads_bind (leads_map (hformat _ d hz) fun _ _ h => h) hrest
        · exact hrest none d .none
      split
      · exact leads_bind (reads_yieldExpression hnested _ _ d) hrest
      · exact leads_bind (reads_expressions hnested _ _ d) hrest
    · refine leads_bind (reads_mark hx _) fun colon d hcolon => ?_
      refine leads_iterate (fun read e => read ≠ [] ∧ Lies s (c.row s) read (e.row s))
        ⟨by simp, hcolon.lies⟩ fun read d ⟨hne, hread⟩ => ?_
      refine leads_cursor (leads_source ?_)
      dsimp only
      split
      · exact leads_refuseHere
      split
      · exact leads_pure (hread.join hne rfl trivial)
      split
      · have hy : (stretch d (.sign "\x7b") d.place (d.place + 1)).Ahead d :=
          ⟨Nat.le_refl _, Nat.le_succ _⟩
        exact leads_bind (hinterpolation _ _ d (fun _ => rfl) hy) fun inner e hinner =>
          leads_pure ⟨by simp, hread.append hinner⟩
      split
      · exact leads_skipTo (Nat.le_succ d.place) fun hrow =>
          leads_pure ⟨hne, hread.to_le hrow⟩
      · exact leads_bind (reads_stringPart (Lexeme.le_spanEnd s _ d.place)) fun text e htext =>
          leads_pure ⟨by simp, hread.append htext⟩

theorem reads_simpleString (hx : x.Ahead c) :
    Leads s c (simpleString nested x) (Reaches s (FormedAs .stringLiteral) (c.row s)) := by
  refine leads_bind (reads_accept (P := fun _ => True) hx fun _ => trivial) fun start d hstart => ?_
  refine leads_iterate (fun read e => Lies s (c.row s) read (e.row s)) hstart fun read d hread => ?_
  have hpart : ∀ {tag stop}, d.place ≤ stop → Leads s d (stringPart tag stop)
      fun part e => Lies s (c.row s) (read ++ [part]) (e.row s) := fun hstop =>
    leads_mono (reads_stringPart hstop) fun _ _ hpart => hread.append hpart
  refine leads_cursor (leads_source ?_)
  split
  · exact leads_refuseHere
  · split
    · next stop hpiece =>
      exact leads_bind (hpart (Layout.le_piece (by rw [hpiece]; rfl))) fun _ _ h => leads_pure h
    · next stop hpiece =>
      exact leads_bind (hpart (Layout.le_piece (by rw [hpiece]; rfl))) fun _ _ h => leads_pure h
    · next stop hpiece =>
      refine leads_bind (hpart (Layout.le_piece (by rw [hpiece]; rfl))) fun part e hpart => ?_
      refine leads_cursor (leads_goTo (leads_pure ?_))
      exact hpart.join (by simp) rfl (Cst.formed_of_string Cst.tag_join Cst.role_join)
    · split
      · exact leads_bind (hpart (le_escapeEnd s d.place)) fun _ _ h => leads_pure h
      · have hblank := Lexeme.le_spanEnd s Lexeme.isBlank d.place
        dsimp only
        split
        · have hy : (stretch d (.sign "\x7b") (Lexeme.spanEnd s Lexeme.isBlank d.place)
              (Lexeme.spanEnd s Lexeme.isBlank d.place + 1)).Ahead d := ⟨hblank, Nat.le_succ _⟩
          exact leads_bind ((reads_interpolation_format hnested s.size).1 _ _ d (fun _ => rfl) hy)
            fun inner e hinner => leads_pure (hread.append hinner)
        · split
          · exact leads_skipTo (Nat.le_trans hblank (Layout.le_remarkEnd s _)) fun hrow =>
              leads_pure (hread.to_le hrow)
          · split
            · next stop hstop =>
              exact leads_skipTo (Nat.le_trans hblank (Lexeme.le_continuedLine? hstop)) fun hrow =>
                leads_pure (hread.to_le hrow)
            · exact leads_refuseHere

theorem reads_strings (hx : x.Ahead c) (follow : Expect) :
    Leads s c (strings nested x follow) (Reaches s Formed (c.row s)) := by
  let several (read : List Cst) (e : Cursor) : Prop :=
    read ≠ [] ∧ Lays s (FormedAs .stringLiteral) (c.row s) read (e.row s)
  refine leads_bind (reads_simpleString hnested hx) fun first d hfirst => ?_
  refine leads_bind (R := several) (leads_iterate several ⟨by simp, hfirst⟩ ?_) ?_
  · rintro read d ⟨hne, hread⟩
    refine leads_peek fun y hy => ?_
    split
    · exact leads_bind (reads_simpleString hnested hy) fun next e hnext =>
        leads_pure ⟨by simp, hread.append hnext⟩
    · exact leads_pure ⟨hne, hread⟩
  · rintro all d ⟨hne, hall⟩
    split
    · exact leads_pure hall.formed
    · have hkinds : Tag.Fits .concatenatedString all := fun t ht =>
        (hall.all t (List.mem_filter.mp ht).1).kind
      exact leads_pure (hall.child.made_of_ne hne rfl hkinds rfl).formed

end

end Gatehouse.Grammar
