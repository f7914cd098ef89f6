import Gatehouse.Grammar.Case
import Gatehouse.Proofs.Grammar.Expression

/-!
Patterns of case clauses. A choice by patterns is refused in any case, so of what is inside of it
only is said where it stands.
-/
namespace Gatehouse.Grammar

open Reader
open Cst (Lays Lies)

abbrev Located (s : Source) (r : Reader Cst) : Prop := Reads s (fun _ => True) r

section

variable {s : Source} {c : Cursor} {x : Lexeme} {lo : Nat} {nested : Nested}

theorem Reads.located {P : Cst → Prop} {r : Reader Cst} (h : Reads s P r) : Located s r :=
  h.mono fun _ _ => trivial

theorem located_accept {tag : Tag} (hx : x.Ahead c) :
    Leads s c (accept x tag) (Reaches s (fun _ => True) (c.row s)) :=
  reads_accept hx fun _ => trivial

theorem located_dottedName (here follow : Expect) : Located s (dottedName here follow) := by
  refine fun c => leads_bind ((reads_name here).located c) fun first d hfirst => ?_
  refine leads_map (reads_separated hfirst looks_always (fun _ _ => trivial)
    (reads_name plain).located) ?_
  rintro _ e ⟨⟨rest, rfl⟩, h⟩
  exact h.joined rfl

theorem located_caseNumber (here follow : Expect) : Located s (caseNumber here follow) := by
  intro c
  unfold caseNumber
  extract_lets number
  have hnumber : ∀ e, Located s (number e) := by
    refine fun e c => leads_peek fun x hx => ?_
    split
    · exact located_accept hx
    · exact located_accept hx
    · exact leads_refuse
  refine leads_bind (reads_sign? here "-") fun minus d hminus => ?_
  refine leads_bind (hnumber _ d) fun first e hfirst => leads_peek fun x hx => ?_
  have hcomplex : ∀ tag, Leads s e (do
      let op ← accept x tag
      let second ← number plain
      return Cst.join .complexPattern (minus.toList ++ [first, op, second]))
      (Reaches s (fun _ => True) (c.row s)) := by
    intro tag
    refine leads_bind (located_accept hx) fun op f hop => ?_
    refine leads_bind (hnumber plain f) fun second g hsecond => leads_pure ?_
    exact (hminus.lies.append ((hfirst.append hop).append hsecond)).join (by simp) rfl trivial
  split
  · exact hcomplex _
  · exact hcomplex _
  · split
    · exact leads_pure ((hminus.lies.append hfirst).joined rfl)
    · exact leads_pure (hfirst.from_le hminus.le)

theorem located_splatPattern (hx : x.Ahead c) (t : String) :
    Leads s c (splatPattern x t) (Reaches s (fun _ => True) (c.row s)) := by
  refine leads_bind (located_accept hx) fun star d hstar => ?_
  refine leads_bind ((reads_name plain).located d) fun base e hbase => leads_pure ?_
  exact (hstar.append hbase).joined rfl

theorem located_patternGroup {pattern : Expect → Expect → Reader Cst}
    (hpattern : ∀ e f, Located s (pattern e f)) {before : List Cst}
    (hbefore : Lies s lo before (c.row s)) (hx : x.Ahead c) (close : String) {tag : Tag}
    (horders : ∀ cs, tag.orders cs = true) (t : String) :
    Leads s c (patternGroup pattern close tag before x t) (Reaches s (fun _ => True) lo) := by
  refine leads_bind (located_accept hx) fun head d hhead => ?_
  refine leads_bind (reads_sign? operandOrClose close) fun found e hfound => ?_
  split
  · exact leads_pure
      ((hbefore.append (hhead.append hfound.lies)).join (by simp) (horders _) trivial)
  · have hhead := hhead.to_le hfound.le
    refine leads_bind (hpattern _ _ e) fun first f hfirst => ?_
    refine leads_bind (reads_separated hfirst (looks_before _) (fun _ _ => trivial)
      (hpattern _ _)) fun items g ⟨_, hitems⟩ => ?_
    refine leads_bind (reads_sign closing close g) fun last h hlast => leads_pure ?_
    exact (((hbefore.append hhead).append hitems).append hlast.lies).join (by simp) (horders _)
      trivial

theorem located_alternatives {one : Expect → Expect → Reader Cst}
    (hone : ∀ e f, Located s (one e f)) (here follow : Expect) :
    Located s (alternatives one here follow) := by
  refine fun c => leads_bind (hone _ _ c) fun first d hfirst => ?_
  refine leads_bind (reads_separated hfirst looks_always (fun _ _ => trivial) (hone _ _)) ?_
  rintro _ e ⟨⟨rest, rfl⟩, hitems⟩
  split
  · next heq =>
    rw [heq] at hitems
    exact leads_pure hitems
  · exact leads_pure (hitems.joined rfl)

theorem located_fullPattern {simple : Expect → Expect → Reader Cst}
    (hsimple : ∀ e f, Located s (simple e f)) (here follow : Expect) :
    Located s (fullPattern simple here follow) := by
  refine fun c => leads_peek fun x hx => leads_peekPast fun y _ => ?_
  extract_lets rest
  have hrest : ∀ (base : Cst) (d : Cursor), Lies s (c.row s) [base] (d.row s) →
      Leads s d (rest base) (Reaches s (fun _ => True) (c.row s)) := by
    intro base d hbase
    refine leads_iterate (Reaches s (fun _ => True) (c.row s))
      (hbase.joined rfl) fun left d hleft => ?_
    refine leads_bind (reads_word? follow "as") fun found e hfound => ?_
    split
    · exact leads_pure (hleft.to_le hfound.le)
    · refine leads_bind ((reads_name plain).located e) fun last f hlast => leads_pure ?_
      exact (((hleft.append hfound.lies).append hlast).joined rfl).joined rfl
  split
  · split
    · refine leads_bind (located_accept hx) fun key d hkey => ?_
      refine leads_bind (reads_sign follow "=" d) fun equals e hequals => ?_
      refine leads_bind (hsimple _ _ e) fun value f hvalue => hrest _ f ?_
      exact ((hkey.append hequals.lies).append hvalue).joined rfl
    · exact leads_bind leads_refuse hrest
  · exact leads_bind (hsimple _ _ c) hrest

section

variable (hnested : Sound s nested)

include hnested

theorem located_patternOperand {pattern simple : Expect → Expect → Reader Cst}
    (hpattern : ∀ e f, Located s (pattern e f)) (hsimple : ∀ e f, Located s (simple e f))
    (here follow : Expect) : Located s (patternOperand nested pattern simple here follow) := by
  refine fun c => leads_peek fun x hx => ?_
  have hentry : ∀ e, Located s (do
      let y ← Reader.peek e
      if y.token == .sign "*" then splatPattern y "*"
      else if y.token == .sign "**" then splatPattern y "**"
      else
        let key ← simple e plain
        let colon ← sign plain ":"
        let value ← pattern operand closing
        return Cst.join .pair [key.inRole .key, colon, value.inRole .value]) := by
    refine fun e c => leads_peek fun y hy => ?_
    split
    · exact located_splatPattern hy "*"
    split
    · exact located_splatPattern hy "**"
    · refine leads_bind (hsimple _ _ c) fun key d hkey => ?_
      refine leads_bind (reads_sign plain ":" d) fun colon e hcolon => ?_
      refine leads_bind (hpattern _ _ e) fun value f hvalue => leads_pure ?_
      exact (((lies_inRole hkey).append hcolon.lies).append (lies_inRole hvalue)).joined rfl
  split
  case h_5 =>
    split
    · refine leads_bind (located_dottedName here follow c) fun called d hcalled => ?_
      refine leads_peek fun y hy => ?_
      split
      · exact located_patternGroup hpattern hcalled hy _ (fun _ => rfl) _
      · exact leads_pure hcalled
    · exact leads_refuse
  case h_6 | h_7 | h_8 => exact located_caseNumber here follow c
  case h_9 => exact leads_mono (reads_strings hnested hx follow) fun _ _ => Lays.lies
  case h_10 => exact located_splatPattern hx "*"
  case h_11 => exact located_splatPattern hx "**"
  case h_12 => exact located_patternGroup hpattern .none hx _ (fun _ => rfl) _
  case h_13 => exact located_patternGroup hpattern .none hx _ (fun _ => rfl) _
  case h_14 => exact located_patternGroup (fun e _ => hentry e) .none hx _ (fun _ => rfl) _
  case h_15 => exact leads_refuse
  all_goals exact located_accept hx

theorem located_patternAt (n : Nat) (simple : Bool) (here follow : Expect) :
    Located s (patternAt nested n simple here follow) := by
  induction n generalizing simple here follow with
  | zero => exact fun _ => leads_refuseHere
  | succ n ih =>
    have halternative :=
      located_alternatives (located_patternOperand hnested (ih false) (ih true))
    rw [patternAt]
    split
    · exact halternative here follow
    · exact located_fullPattern halternative here follow

theorem located_casePattern (here follow : Expect) : Located s (casePattern nested here follow) :=
  fun c t d h => located_patternAt hnested (s.size + 2) false here follow c t d h

end

end

end Gatehouse.Grammar
