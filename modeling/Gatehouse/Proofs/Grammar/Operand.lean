import Gatehouse.Grammar.Expression
import Gatehouse.Proofs.Grammar.Literal
import Gatehouse.Proofs.Grammar.Pattern

/-!
Operands, given that the phrases in them are read as nodes of the right shape where they stand:
brackets and what is in them, what follows an operand closely, targets of loops, and parameters. A
reader that goes back to read again answers only what it has read last.
-/
namespace Gatehouse.Grammar

open Reader
open Cst (Laid Lays Filled Loose Formed FormedAs Mark Child Occupies)

section

variable {s : Source} {c d : Cursor} {x : Lexeme} {lo mid hi : Nat} {nested : Nested}
  {target : Expect → Reader Cst}

/-! ### Entries -/

theorem lays_looseParentheses {t : Cst} (h : Lays s Formed lo [t] hi) :
    Lays s Formed lo [looseParentheses t] hi := by
  unfold looseParentheses
  split
  · next r sp before inner after =>
    have hbelow : ∀ d ∈ [before, inner, after], d.Shaped := h.one.shaped.inside (Or.inl rfl)
    split
    · exact h
    next hmarks =>
      simp only [Bool.or_eq_true, not_or, Bool.not_eq_true] at hmarks
      have hwraps : ∀ d, Cst.Wrapping [before, d, after] := fun _ =>
        Cst.wrapping_between hmarks.1 hmarks.2
      split
      · have hretag : Cst.Shaped (.node .parenthesizedListSplat r sp [before, inner, after]) :=
          h.one.shaped.retag (Or.inl rfl) (hwraps inner)
        exact h.one_of (fun hlaid => hlaid.retag rfl) (hretag.formed h.one.free rfl rfl)
      · split
        · next htag =>
          have htag : inner.tag = .parenthesizedListSplat := beq_iff_eq.mp htag
          have hshaped : inner.Shaped := hbelow inner (by simp)
          have hinner : (inner.retag .parenthesizedExpression).Shaped :=
            hshaped.retag (Or.inr htag) (hshaped.wrapping htag)
          have hall : ∀ d ∈ [before, inner.retag .parenthesizedExpression, after], d.Shaped := by
            simp [hinner, hbelow]
          refine h.one_of (fun hlaid => ?_)
            (Cst.Shaped.formed (.intro (hwraps _) fun d hd _ _ _ => hall d hd) h.one.free rfl rfl)
          obtain ⟨hrow, -, hunder⟩ := Cst.laid_node.mp hlaid
          obtain ⟨mid, hbefore, hrest⟩ := Cst.laid_cons.mp hunder
          obtain ⟨stop, hinner, hafter⟩ := Cst.laid_cons.mp hrest
          exact Cst.laid_node.mpr ⟨hrow, rfl, hbefore.append ((hinner.retag rfl).append hafter)⟩
        · exact h
  · exact h

section

variable (hnested : Sound s nested)

include hnested

theorem reads_entry (here follow : Expect) : Reads s Formed (entry nested here follow) := by
  refine fun c => leads_peek fun x hx => ?_
  split
  · exact reads_yieldExpression hnested here follow c
  · split
    · refine leads_bind (reads_mark hx "*") fun star d hstar => ?_
      refine leads_bind (hnested _ _ _ d) fun value _ hvalue => leads_pure ?_
      exact (hstar.wrapped .listSplat hvalue rfl id rfl).formed
    · exact leads_map (hnested _ _ _ c) fun _ _ => lays_looseParentheses

theorem reads_moreEntries (close : String) {first : Cst}
    (hfirst : Lays s Formed lo [first] (c.row s)) :
    Leads s c (moreEntries nested close first)
      fun items d => (∃ rest, items = first :: rest) ∧ Items s lo items (d.row s) :=
  reads_itemsAfter hfirst (looks_before close) (reads_entry hnested _ _)

theorem reads_settle {first : Cst} (hfirst : Lays s Formed (c.row s) [first] (d.row s))
    (colon : Bool) :
    Leads s d (settle nested c first colon) (Reaches s Formed (c.row s)) := by
  refine leads_peek fun x _ => ?_
  split
  · exact leads_goTo (hnested _ _ _ c)
  · exact leads_pure hfirst

end

/-! ### Targets -/

def ReadsTrailer (s : Source) (trailer : Cst → Lexeme → Reader (Option Cst)) : Prop :=
  ∀ lo value x c, Lays s Formed lo [value] (c.row s) → x.Ahead c →
    Leads s c (trailer value x) fun found d => Reaches s Formed lo (found.getD value) d

/-- The best target found so far ends where it ended when it was found. -/
theorem reads_splatTarget {atom : Expect → Expect → Reader Cst}
    {trailer : Cst → Lexeme → Reader (Option Cst)} (hatom : ∀ e f, Reads s Formed (atom e f))
    (htrailer : ReadsTrailer s trailer) (follow : Expect) :
    Reads s Formed (splatTarget atom trailer follow) := by
  refine fun c => leads_bind (hatom _ _ c) fun first d hfirst => leads_cursor ?_
  have hbest : ∀ {value : Cst} {e : Cursor}, Reaches s Formed (c.row s) value e →
      ∀ {best : Option (Cst × Cursor)}, (∀ b ∈ best, Reaches s Formed (c.row s) b.1 b.2) →
      ∀ b ∈ (if isSplatTarget value then some (value, e) else best),
        Reaches s Formed (c.row s) b.1 b.2 := by
    intro value e hvalue best hbest b hb
    split at hb
    · obtain rfl := Option.some.inj hb
      exact hvalue
    · exact hbest b hb
  refine leads_bind (R := fun best _ => ∀ b ∈ best, Reaches s Formed (c.row s) b.1 b.2)
    (leads_iterate (fun (v : Cst × Option (Cst × Cursor)) e => Reaches s Formed (c.row s) v.1 e
      ∧ ∀ b ∈ v.2, Reaches s Formed (c.row s) b.1 b.2) ⟨hfirst, hbest hfirst (by simp)⟩ ?_) ?_
  · rintro ⟨value, best⟩ e ⟨hvalue, hall⟩
    refine leads_peek fun x hx => leads_bind (htrailer _ _ x e hvalue hx) fun found e hfound => ?_
    split
    · exact leads_pure hall
    · exact leads_cursor (leads_pure ⟨hfound, hbest hfound hall⟩)
  · intro best e hall
    split
    · exact leads_refuseHere
    · exact leads_goTo (leads_pure (hall _ rfl))

theorem reads_leftSide (htarget : ∀ e, Reads s Formed (target e)) :
    Reads s Formed (leftSide target) := by
  refine fun c => leads_bind (htarget _ c) fun first d hfirst => ?_
  have hmore : Looks (return (← Reader.peek operand).token != .word "in") :=
    looks_bind looks_peek fun _ => looks_pure
  refine leads_bind (reads_items hfirst hmore (htarget _)) fun items e hitems => ?_
  split
  · exact leads_pure hitems.formed
  · exact leads_pure (hitems.made rfl trivial rfl)

/-! ### Clauses -/

section

variable (hnested : Sound s nested) (htarget : ∀ e, Reads s Formed (target e))

include hnested htarget

theorem reads_clause (hx : x.Ahead c) :
    Leads s c (clause nested target x) (Reaches s Formed (c.row s)) := by
  unfold clause
  split
  · refine leads_bind (reads_mark hx "if") fun head d hhead => ?_
    refine leads_bind (hnested _ _ _ d) fun condition e hcondition => leads_pure ?_
    exact (hhead.wrapped .ifClause hcondition rfl id rfl).formed
  · refine leads_bind (reads_word? closing "async") fun async_ d hasync => ?_
    refine leads_bind (reads_word _ "for" d) fun head d hhead => ?_
    refine leads_bind (reads_leftSide htarget d) fun left d hleft => ?_
    refine leads_bind (reads_word plain "in" d) fun in_ d hin => ?_
    refine leads_bind (hnested _ _ _ d) fun first e hfirst => ?_
    -- A comma between sources is in the role of a source, too.
    let sources (read : List Cst) (e : Cursor) : Prop :=
      Lays s (Occupies .forInClause (.several .right)) (d.row s) read (e.row s)
    refine leads_bind (R := sources) (leads_iterate sources (hfirst.occupies rfl rfl) ?_) ?_
    · intro read d hread
      refine leads_bind (reads_sign? closing ",") fun found e hfound => ?_
      split
      · exact leads_pure (hread.to_le hfound.le)
      · next comma =>
        have hcomma : Lays s Mark (d.row s) [comma] (e.row s) := hfound
        refine leads_peek fun y _ => ?_
        split
        · refine leads_bind (hnested _ _ _ e) fun next f hnext => leads_pure ?_
          exact hread.append ((hcomma.occupies rfl rfl).append (hnext.occupies rfl rfl))
        · exact leads_pure (hread.append (hcomma.mono fun _ => Mark.occupies))
    · intro read e hread
      have hfilled : Filled s .forInClause [.single .left, .several .right] (c.row s)
          (async_.toList ++ (head :: left.inRole .left :: in_ :: (read ++ []))) (e.row s) :=
        .tokens hasync (.token hhead (.part hleft rfl rfl (.token hin (.parts rfl hread .nil))))
      have hmade := hfilled.made (by simp) (by decide) id rfl rfl
      exact leads_pure (by simpa using hmade.formed)

theorem reads_clauses : Leads s c (clauses nested target) (ReachAll s Formed (c.row s)) := by
  refine leads_iterate (ReachAll s Formed (c.row s)) .none fun read d hread => ?_
  refine leads_peek fun x hx => ?_
  split
  · exact leads_bind (reads_clause hnested htarget hx) fun t e ht => leads_pure (hread.append ht)
  · exact leads_pure hread

/-- A comprehension from its element on. The element comes first and is the only one in its role. -/
theorem reads_comprehension {open_ first : Cst} {tag : Tag} {close : String}
    (hopen : Lays s Mark lo [open_] (c.row s))
    (hfirst : Lays s Formed (c.row s) [first] (d.row s))
    (hproper : (tag.isNamed && !tag.isExtra) = true) (hmay : tag.mayAssign = false)
    (hfits : ∀ cs, Cst.Headed .body cs → tag.Fits cs) (horders : ∀ cs, tag.orders cs = true) :
    Leads s d (do
      let rest ← clauses nested target
      let close ← sign closing close
      return Cst.join tag ([open_, first.inRole .body] ++ rest ++ [close]))
      (Reaches s (FormedAs tag) lo) := by
  refine leads_bind (reads_clauses hnested htarget) fun rest e hrest => ?_
  refine leads_bind (reads_sign closing close e) fun last f hlast => leads_pure ?_
  have hbody : Lays s (Child tag) (c.row s) [first.inRole .body] (d.row s) :=
    hfirst.inRole (Tag.holds_of_mayAssign hmay)
  have hall := (((hopen.under tag).append hbody).append hrest.child).append hlast.child
  refine hall.made_of_ne (by simp) hproper (hfits _ ⟨?_, ?_⟩) (horders _)
  · have hnone : rest.countP (fun d => d.role == some .body) = 0 := by
      rw [List.countP_eq_zero]
      intro t ht
      simp [(hrest.all t ht).free]
    simp [Cst.countIn, hopen.one.free, hlast.one.free, hnone]
  · intro t ts heq
    have hhead : (first.inRole .body).isProper = true := by simpa using hfirst.one.proper
    simp only [List.cons_append, List.nil_append, List.filter_cons,
      hopen.one.improper, hhead] at heq
    obtain ⟨rfl, -⟩ := List.cons.inj heq
    exact Cst.role_inRole _ _

/-! ### Displays -/

theorem reads_parentheses (hx : x.Ahead c) :
    Leads s c (parentheses nested target x) (Reaches s Formed (c.row s)) := by
  refine leads_bind (reads_mark hx "(") fun open_ d hopen => ?_
  refine leads_bind (reads_sign? operandOrClose ")") fun found e hfound => ?_
  split
  · exact leads_pure (((hopen.under .tuple).append hfound.child).node rfl trivial rfl)
  · have hopen := hopen.to_le hfound.le
    refine leads_cursor (leads_bind (reads_entry hnested _ _ e) fun first f hfirst => ?_)
    refine leads_bind (reads_settle hnested hfirst false) fun first f hfirst => ?_
    refine leads_peek fun y _ => ?_
    split
    · exact leads_mono (reads_comprehension hnested htarget hopen hfirst rfl rfl
        (fun _ _ => trivial) fun _ => rfl) fun _ _ => Lays.formed
    · refine leads_bind (reads_moreEntries hnested ")" hfirst) ?_
      rintro _ g ⟨⟨rest, rfl⟩, hitems⟩
      refine leads_bind (reads_sign closing ")" g) fun close h hclose => ?_
      have hall : ∀ tag, Lays s (Child tag) (c.row s) ([open_] ++ (first :: rest) ++ [close])
          (h.row s) := fun tag => ((hopen.under tag).append hitems.child).append hclose.child
      split
      · next heq =>
        obtain ⟨-, rfl⟩ := List.cons.inj heq
        refine leads_pure ?_
        split
        · exact (hall _).node rfl trivial rfl
        · exact (hall _).node rfl
            (Cst.wrapping_between hopen.one.improper hclose.one.improper) rfl
      · exact leads_pure ((hall _).node rfl trivial rfl)

theorem reads_brackets (hx : x.Ahead c) :
    Leads s c (brackets nested target x) (Reaches s Formed (c.row s)) := by
  refine leads_bind (reads_mark hx "[") fun open_ d hopen => ?_
  refine leads_bind (reads_sign? operandOrClose "]") fun found e hfound => ?_
  split
  · exact leads_pure (((hopen.under .listDisplay).append hfound.child).node rfl trivial rfl)
  · have hopen := hopen.to_le hfound.le
    refine leads_cursor (leads_bind (reads_entry hnested _ _ e) fun first f hfirst => ?_)
    refine leads_bind (reads_settle hnested hfirst false) fun first f hfirst => ?_
    refine leads_peek fun y _ => ?_
    split
    · exact leads_mono (reads_comprehension hnested htarget hopen hfirst rfl rfl
        (fun _ h => h) fun _ => rfl) fun _ _ => Lays.formed
    · refine leads_bind (reads_moreEntries hnested "]" hfirst) fun items g ⟨_, hitems⟩ => ?_
      refine leads_bind (reads_sign closing "]" g) fun close h hclose => leads_pure ?_
      exact (((hopen.under .listDisplay).append hitems.child).append hclose.child).node
        rfl trivial rfl

omit htarget in
theorem reads_pairAfter {key : Cst} (hkey : Lays s Formed lo [key] (c.row s)) (follow : Expect) :
    Leads s c (pairAfter nested key follow) (Reaches s Formed lo) := by
  refine leads_bind (reads_sign follow ":" c) fun colon d hcolon => ?_
  refine leads_bind (hnested _ _ _ d) fun value e hvalue => leads_pure ?_
  have hfilled : Filled s .pair [.single .key, .single .value] lo
      [key.inRole .key, colon, value.inRole .value] (e.row s) :=
    .part hkey rfl rfl (.token hcolon (.part hvalue rfl rfl .nil))
  exact (hfilled.made (by simp) (by decide) id rfl rfl).formed

omit htarget in
theorem reads_dictionaryEntry (here : Expect) : Reads s Formed (dictionaryEntry nested here) := by
  refine fun c => leads_bind (reads_sign? here "**") fun found d hfound => ?_
  split
  · refine leads_bind (hnested _ _ _ d) fun value e hvalue => leads_pure ?_
    exact (Lays.wrapped hfound .dictionarySplat hvalue rfl id rfl).formed
  · refine leads_bind (hnested _ _ _ d) fun key e hkey => ?_
    exact reads_pairAfter hnested (hkey.from_le hfound.le) _

omit htarget in
theorem reads_dictionaryAfter {open_ first : Cst} (hopen : Lays s Mark lo [open_] mid)
    (hfirst : Lays s Formed mid [first] (c.row s)) :
    Leads s c (dictionaryAfter nested open_ first) (Reaches s Formed lo) := by
  refine leads_bind (reads_items hfirst (looks_before _) (reads_dictionaryEntry hnested _))
    fun items d hitems => ?_
  refine leads_bind (reads_sign closing "\x7d" d) fun close e hclose => leads_pure ?_
  exact (((hopen.under .dictionary).append hitems.child).append hclose.child).node rfl trivial rfl

theorem reads_braces (hx : x.Ahead c) :
    Leads s c (braces nested target x) (Reaches s Formed (c.row s)) := by
  refine leads_bind (reads_mark hx _) fun open_ d hopen => leads_peek fun y hy => ?_
  split
  · refine leads_bind (reads_mark hy _) fun close e hclose => leads_pure ?_
    exact ((hopen.under .dictionary).append hclose.child).node rfl trivial rfl
  · refine leads_bind (reads_mark hy _) fun comma e hcomma => ?_
    refine leads_bind (reads_sign closing _ e) fun close f hclose => leads_pure ?_
    exact (((hopen.under .dictionary).append hcomma.child).append hclose.child).node rfl trivial rfl
  · exact leads_bind (reads_dictionaryEntry hnested _ d) fun first e hfirst =>
      reads_dictionaryAfter hnested hopen hfirst
  · refine leads_cursor (leads_bind (reads_entry hnested _ _ d) fun first e hfirst => ?_)
    refine leads_bind (reads_settle hnested hfirst true) fun first e hfirst => ?_
    refine leads_peek fun z _ => ?_
    split
    · refine leads_bind (reads_pairAfter hnested hfirst _) fun pair f hpair => ?_
      refine leads_peek fun w _ => ?_
      split
      · exact leads_mono (reads_comprehension hnested htarget hopen hpair rfl rfl
          (fun _ _ => trivial) fun _ => rfl) fun _ _ => Lays.formed
      · exact reads_dictionaryAfter hnested hopen hpair
    · split
      · exact leads_mono (reads_comprehension hnested htarget hopen hfirst rfl rfl
          (fun _ _ => trivial) fun _ => rfl) fun _ _ => Lays.formed
      · refine leads_bind (reads_moreEntries hnested _ hfirst) fun items f ⟨_, hitems⟩ => ?_
        refine leads_bind (reads_sign closing _ f) fun close g hclose => leads_pure ?_
        exact (((hopen.under .setDisplay).append hitems.child).append hclose.child).node
          rfl trivial rfl

/-! ### Calls, subscripts and attributes -/

omit htarget in
theorem reads_argument (here : Expect) : Reads s Formed (argument nested here) := by
  refine fun c => leads_peek fun x hx => leads_peekPast fun y _ => ?_
  split
  · refine leads_bind (reads_mark hx "**") fun stars d hstars => ?_
    refine leads_bind (hnested _ _ _ d) fun value e hvalue => leads_pure ?_
    exact (hstars.wrapped .dictionarySplat hvalue rfl id rfl).formed
  · split
    · refine leads_bind (reads_identifier hx) fun key d hkey => ?_
      refine leads_bind (reads_sign closing "=" d) fun equals e hequals => ?_
      refine leads_bind (hnested _ _ _ e) fun value f hvalue => leads_pure ?_
      have hfilled : Filled s .keywordArgument [.only .name .identifier, .single .value] (c.row s)
          [key.inRole .name, equals, value.inRole .value] (f.row s) :=
        .only hkey rfl (.token hequals (.part hvalue rfl rfl .nil))
      exact (hfilled.made (by simp) (by decide) id rfl rfl).formed
    · exact leads_refuse
  · exact leads_refuse
  · refine leads_bind (reads_entry hnested _ _ c) fun t d ht => leads_pure ?_
    split
    · next htag =>
      have htag : t.tag = .parenthesizedListSplat := beq_iff_eq.mp htag
      have hshaped : (t.retag .parenthesizedExpression).Shaped :=
        ht.one.shaped.retag (Or.inr htag) (ht.one.shaped.wrapping htag)
      exact ht.one_of (fun hlaid => hlaid.retag rfl)
        (hshaped.formed (by simpa using ht.one.free) (by simp [Cst.isProper, Tag.isNamed,
          Tag.isExtra]) (by simp [Tag.mayAssign]))
    · exact ht

/-- What is given to a call is a list of arguments or a generator. -/
theorem reads_arguments (generator : Bool) (hx : x.Ahead c) :
    Leads s c (arguments nested target generator x) (Reaches s (fun t => t.Formed
      ∧ (t.tag == .argumentList || t.tag == .generatorExpression) = true) (c.row s)) := by
  have hlist : ∀ t, FormedAs .argumentList t → t.Formed
      ∧ (t.tag == .argumentList || t.tag == .generatorExpression) = true := fun t ht =>
    ⟨ht.toFormed, by simp [ht.kind]⟩
  refine leads_bind (reads_mark hx "(") fun open_ d hopen => leads_peek fun y hy => ?_
  split
  · refine leads_bind (reads_mark hy ")") fun close e hclose => leads_pure ?_
    exact (((hopen.under .argumentList).append hclose.child).made rfl trivial rfl).mono hlist
  · refine leads_bind (reads_mark hy ",") fun comma e hcomma => ?_
    refine leads_bind (reads_sign closing ")" e) fun close f hclose => leads_pure ?_
    exact ((((hopen.under .argumentList).append hcomma.child).append hclose.child).made
      rfl trivial rfl).mono hlist
  · refine leads_cursor (leads_bind (reads_argument hnested _ d) fun first e hfirst => ?_)
    refine leads_bind (reads_settle hnested hfirst false) fun first e hfirst => ?_
    dsimp only
    refine leads_peek fun z _ => ?_
    split
    · refine leads_mono (reads_comprehension hnested htarget hopen hfirst rfl rfl
        (fun _ _ => trivial) fun _ => rfl) fun _ _ h => h.mono fun t ht => ?_
      exact ⟨ht.toFormed, by simp [ht.kind]⟩
    · refine leads_bind (reads_items hfirst (looks_before _) (reads_argument hnested _))
        fun items f hitems => ?_
      refine leads_bind (reads_sign closing ")" f) fun close g hclose => leads_pure ?_
      exact ((((hopen.under .argumentList).append hitems.child).append hclose.child).made
        rfl trivial rfl).mono hlist

omit htarget in
theorem reads_subscriptPart (here : Expect) : Reads s Formed (subscriptPart nested here) := by
  refine fun c => leads_peek fun x _ => ?_
  extract_lets rest
  have hrest : ∀ (start : List Cst) (d : Cursor), Lays s Formed (c.row s) start (d.row s) →
      Leads s d (rest start) (Reaches s Formed (c.row s)) := by
    intro start d hstart
    refine leads_bind (reads_sign? _ ":") fun found e hfound => ?_
    split
    · exact leads_pure (hstart.to_le hfound.le)
    · exact leads_refuse
    · next colon =>
      have hcolon : Lays s Loose (c.row s) (start ++ [colon]) (e.row s) :=
        hstart.loose.append hfound.loose
      refine leads_peek fun y _ => ?_
      extract_lets rest
      have hrest : ∀ (stop : List Cst) (f : Cursor), Lays s Formed (e.row s) stop (f.row s) →
          Leads s f (rest stop) (Reaches s Formed (c.row s)) := by
        intro stop f hstop
        have hbounds := hcolon.append hstop.loose
        refine leads_bind (reads_sign? _ ":") fun found g hfound => ?_
        split
        · exact leads_pure
            (((hbounds.to_le hfound.le).under .slice).made_of_ne (by simp) rfl trivial rfl).formed
        · refine leads_peek fun z _ => ?_
          extract_lets rest
          have hrest : ∀ (step : List Cst) (h : Cursor), Lays s Formed (g.row s) step (h.row s) →
              Leads s h (rest step) (Reaches s Formed (c.row s)) := fun step h hstep =>
            leads_pure ((((hbounds.append hfound.loose).append hstep.loose).under .slice).made_of_ne
              (by simp) rfl trivial rfl).formed
          split
          · exact leads_bind (hnested _ _ _ g) fun step h hstep => hrest [step] h hstep
          · exact hrest [] g .none
      split
      · exact leads_bind (hnested _ _ _ e) fun stop f hstop => hrest [stop] f hstop
      · exact hrest [] e .none
  split
  · exact hrest [] c .none
  · exact leads_bind (hnested _ _ _ c) fun start d hstart => hrest [start] d hstart

theorem reads_trailer : ReadsTrailer s (trailer nested target) := by
  intro lo value x c hvalue hx
  unfold trailer
  split
  · refine leads_bind (reads_mark hx ".") fun dot d hdot => ?_
    refine leads_bind (reads_name plain d) fun last e hlast => leads_pure ?_
    have hfilled : Filled s .attributeAccess [.single .object, .only .attributeName .identifier] lo
        [value.inRole .object, dot, last.inRole .attributeName] (e.row s) :=
      .part hvalue rfl rfl (.token hdot (.only hlast rfl .nil))
    exact (hfilled.made (by simp) (by decide) id rfl rfl).formed
  · refine leads_bind (reads_mark hx "[") fun open_ d hopen => ?_
    refine leads_bind (reads_subscriptPart hnested _ d) fun first e hfirst => ?_
    have hpart : Reads s (Occupies .subscript (.several .subscript))
        (Cst.inRole .subscript <$> subscriptPart nested operandOrClose) := fun c =>
      leads_map (reads_subscriptPart hnested _ c) fun _ _ ht => ht.occupies rfl rfl
    refine leads_bind (reads_separated (hfirst.occupies rfl rfl) (looks_before _)
      (fun _ => Mark.occupies) hpart) fun items f ⟨_, hitems⟩ => ?_
    refine leads_bind (reads_sign closing "]" f) fun close g hclose => leads_pure ?_
    have hfilled : Filled s .subscript [.single .value, .several .subscript] lo
        (value.inRole .value :: open_ :: (items ++ [close])) (g.row s) :=
      .part hvalue rfl rfl (.token hopen (.parts rfl hitems (.token hclose .nil)))
    have hmade := hfilled.made (by simp) (by decide) id rfl rfl
    simpa using hmade.formed
  · refine leads_bind (reads_arguments hnested htarget true hx) fun args d hargs => leads_pure ?_
    have hfilled : Filled s .call [.single .function, ⟨.arguments,
          fun t => t == .argumentList || t == .generatorExpression, false⟩] lo
        [value.inRole .function, args.inRole .arguments] (d.row s) :=
      .part hvalue rfl rfl (.part (hargs.mono fun _ => And.left) hargs.one.2 rfl .nil)
    exact (hfilled.made (by simp) (by decide) id rfl rfl).formed
  · exact leads_pure hvalue

theorem reads_trailers (follow : Expect) {value : Cst}
    (hvalue : Lays s Formed lo [value] (c.row s)) :
    Leads s c (trailers nested target follow value) (Reaches s Formed lo) := by
  refine leads_iterate (Reaches s Formed lo) hvalue fun value d hvalue => leads_peek fun x hx => ?_
  refine leads_bind (reads_trailer hnested htarget _ _ x d hvalue hx) fun found e hfound => ?_
  split
  · exact leads_pure hfound
  · exact leads_pure hfound

/-! ### Operands alone -/

theorem reads_atom (here follow : Expect) : Reads s Formed (atom nested target here follow) := by
  have hleaf : ∀ {x : Lexeme} {c : Cursor} {tag : Tag}, x.Ahead c → tag.Fits [] →
      (tag.isNamed && !tag.isExtra) = true →
      Leads s c (accept x tag) (Reaches s Formed (c.row s)) := fun hx hfits hproper =>
    leads_mono (reads_leaf hx hfits hproper) fun _ _ => Lays.formed
  refine fun c => leads_peek fun x hx => ?_
  split
  case h_4 =>
    split
    · exact hleaf hx Cst.bare_nil rfl
    · exact leads_refuse
  case h_7 => exact reads_strings hnested hx follow
  case h_9 => exact reads_parentheses hnested htarget hx
  case h_10 => exact reads_brackets hnested htarget hx
  case h_11 => exact reads_braces hnested htarget hx
  case h_12 => exact leads_refuse
  all_goals exact hleaf hx Cst.bare_nil rfl

omit htarget

/-- Targets of loops, by induction on how deep they nest. -/
theorem reads_loopTarget (depth : Nat) (here : Expect) :
    Reads s Formed (loopTarget nested depth here) := by
  induction depth generalizing here with
  | zero => exact fun _ => leads_refuseHere
  | succ depth ih =>
    refine fun c => leads_peek fun x hx => ?_
    split
    · refine leads_bind (reads_mark hx "*") fun star d hstar => ?_
      refine leads_bind (reads_splatTarget (reads_atom hnested ih) (reads_trailer hnested ih)
        plain d) fun value e hvalue => leads_pure ?_
      exact (hstar.wrapped .listSplatPattern hvalue rfl id rfl).formed
    · refine leads_bind (reads_atom hnested ih here plain c) fun first d hfirst => ?_
      refine leads_bind (reads_trailers hnested ih plain hfirst) fun value e hvalue => ?_
      split
      · next p hp =>
        exact leads_pure ((lays_of_toPattern? hp hvalue).mono fun _ => Cst.Aimed.toFormed)
      · exact leads_refuseHere

theorem reads_target (here : Expect) : Reads s Formed (Grammar.target nested here) :=
  fun c t d h => reads_loopTarget hnested (s.size + 1) here c t d h

theorem reads_splatted (follow : Expect) : Reads s Formed (splatted nested follow) :=
  reads_splatTarget (reads_atom hnested (reads_target hnested))
    (reads_trailer hnested (reads_target hnested)) follow

theorem reads_bracketedTarget (here : Expect) : Reads s Formed (do
    match toPattern? (← parentheses nested (Grammar.target nested) (← Reader.peek here)) with
    | some p => return p
    | none => Reader.refuseHere) := by
  refine fun c => leads_peek fun x hx => ?_
  refine leads_bind (reads_parentheses hnested (reads_target hnested) hx) fun t d ht => ?_
  split
  · next p hp => exact leads_pure ((lays_of_toPattern? hp ht).mono fun _ => Cst.Aimed.toFormed)
  · exact leads_refuseHere

end
end
end Gatehouse.Grammar
