import Gatehouse.Proofs.Grammar.Operand

/-!
Whatever the grammar reads as an expression, a parameter or an annotation is a node of the right
shape where it stands, given that the phrases in it are; so phrases are, however deep they nest.
-/
namespace Gatehouse.Grammar

open Reader
open Cst (Lays Filled Loose Formed FormedAs Mark Child)

section

variable {s : Source} {c d : Cursor} {x : Lexeme} {lo mid stop hi : Nat} {nested : Nested}

/-! ### Parameters -/

/-- A parameter, or with a value to fall back on what it makes with that value. -/
theorem reads_defaulted (hnested : Sound s nested) {follow : Expect} {tag : Tag} {t : Cst}
    {parts : List Cst} (ht : Lays s Formed lo [t] (c.row s))
    (hmade : ∀ {mid hi : Nat} {equals value : Cst}, Lays s Mark (c.row s) [equals] mid →
      Lays s Formed mid [value] hi →
      Lays s (FormedAs tag) lo [Cst.join tag (parts ++ [equals, value.inRole .value])] hi) :
    Leads s c (do
      match ← sign? follow "=" with
      | some equals =>
        let value ← nested (.expression 0) operand follow
        return Cst.join tag (parts ++ [equals, value.inRole .value])
      | none => return t) (Reaches s Formed lo) := by
  refine leads_bind (reads_sign? follow "=") fun found d hfound => ?_
  split
  · exact leads_bind (hnested _ _ _ d) fun value e hvalue =>
      leads_pure (hmade hfound hvalue).formed
  · exact leads_pure (ht.to_le hfound.le)

theorem lays_defaultParameter {t equals value : Cst} (ht : Lays s Formed lo [t] mid)
    (hequals : Lays s Mark mid [equals] stop) (hvalue : Lays s Formed stop [value] hi) :
    Lays s (FormedAs .defaultParameter) lo
      [Cst.join .defaultParameter ([t.inRole .name] ++ [equals, value.inRole .value])] hi := by
  have hfilled : Filled s .defaultParameter [.single .name, .single .value] lo
      [t.inRole .name, equals, value.inRole .value] hi :=
    .part ht rfl rfl (.token hequals (.part hvalue rfl rfl .nil))
  exact hfilled.made (by simp) (by decide) id rfl (by simp [Tag.orders])

/-- A name or splat, with its annotation after it if it has one. -/
inductive MayBeTyped (s : Source) (lo : Nat) (t : Cst) : Cst → Nat → Prop
  | alone {hi : Nat} (ht : Lays s Formed lo [t] hi) : MayBeTyped s lo t t hi
  | typed {mid stop hi : Nat} {colon kind : Cst} (ht : Lays s Formed lo [t] mid)
      (hcolon : Lays s Mark mid [colon] stop) (hkind : Lays s Formed stop [kind] hi) :
      MayBeTyped s lo t (Cst.join .typedParameter [t, colon, kind.inRole .typeHint]) hi

theorem MayBeTyped.formed {t u : Cst} (h : MayBeTyped s lo t u hi) : Lays s Formed lo [u] hi := by
  cases h with
  | alone ht => exact ht
  | @typed mid stop _ colon kind ht hcolon hkind =>
    have hproper := ht.one.proper
    have hfree := ht.one.free
    have hkindChild : Lays s (Child .typedParameter) stop [kind.inRole .typeHint] hi :=
      hkind.inRole rfl
    have hall := (ht.child.append hcolon.child).append hkindChild
    refine hall.node rfl ⟨fun first rest heq d hd => ?_, ?_⟩ (by simp [Tag.orders, hproper, hfree])
    · obtain ⟨-, rfl⟩ : t = first ∧ [kind.inRole .typeHint] = rest := by
        simpa [List.filter_cons, hproper, hcolon.one.improper, hkind.one.proper] using heq
      rw [List.mem_singleton.mp hd, Cst.role_inRole]
    · simp [Cst.countIn, hfree, hcolon.one.free]

theorem lays_typedDefaultParameter {t colon kind equals value : Cst} {first second third : Nat}
    (ht : Lays s Formed lo [t] first) (hcolon : Lays s Mark first [colon] second)
    (hkind : Lays s Formed second [kind] third) (hequals : Lays s Mark third [equals] stop)
    (hvalue : Lays s Formed stop [value] hi) :
    Lays s (FormedAs .typedDefaultParameter) lo [Cst.join .typedDefaultParameter
      ([t.inRole .name, colon, kind.inRole .typeHint] ++ [equals, value.inRole .value])] hi := by
  have hfilled : Filled s .typedDefaultParameter [.single .name, .single .typeHint, .single .value]
      lo [t.inRole .name, colon, kind.inRole .typeHint, equals, value.inRole .value] hi :=
    .part ht rfl rfl (.token hcolon (.part hkind rfl rfl
      (.token hequals (.part hvalue rfl rfl .nil))))
  exact hfilled.made (by simp) (by decide) id rfl (by simp [Tag.orders])

theorem reads_parameter (hnested : Sound s nested) {splat tuple : Expect → Reader Cst}
    (hsplat : ∀ e, Reads s Formed (splat e)) (htuple : ∀ e, Reads s Formed (tuple e))
    (typed : Bool) (here follow : Expect) :
    Reads s Formed (parameter nested splat tuple typed here follow) := by
  intro c
  unfold parameter
  refine leads_peek fun x hx => ?_
  extract_lets annotated defaulted
  have hannotated : ∀ {d : Cursor} {t : Cst}, Reaches s Formed (c.row s) t d →
      Leads s d (annotated t .typedParameter) fun u e =>
        MayBeTyped s (c.row s) t u (e.row s) := by
    intro d t ht
    dsimp only [annotated]
    split
    · refine leads_bind (reads_sign? follow ":") fun found d hfound => ?_
      split
      · exact leads_bind (hnested _ _ _ d) fun kind e hkind => leads_pure (.typed ht hfound hkind)
      · exact leads_pure (.alone (ht.to_le hfound.le))
    · exact leads_pure (.alone ht)
  have hsplatted : ∀ {tag : Tag} {d e : Cursor} {star value : Cst},
      Reaches s Mark (c.row s) star d → Lays s Formed (d.row s) [value] (e.row s) →
      (tag.isNamed && !tag.isExtra) = true → (Cst.Wrapping [star, value] → tag.Fits [star, value]) →
      tag.orders [star, value] = true →
      Leads s e (annotated (Cst.join tag [star, value]) .typedParameter)
        (Reaches s Formed (c.row s)) := by
    intro tag d e star value hstar hvalue hproper hfits horders
    exact leads_mono (hannotated (hstar.wrapped tag hvalue hproper hfits horders).formed)
      fun _ _ => MayBeTyped.formed
  split
  · refine leads_bind (reads_mark hx "*") fun star d hstar => leads_peek fun y _ => ?_
    split
    · exact leads_pure ((hstar.under .keywordSeparator).node rfl hstar.one.bare rfl)
    · exact leads_bind (hsplat _ d) fun value e hvalue => hsplatted hstar hvalue rfl id rfl
  · refine leads_bind (reads_mark hx "**") fun stars d hstars => ?_
    exact leads_bind (hsplat _ d) fun value e hvalue => hsplatted hstars hvalue rfl id rfl
  · refine leads_bind (reads_mark hx "/") fun slash d hslash => leads_pure ?_
    exact (hslash.under .positionalSeparator).node rfl hslash.one.bare rfl
  · exact leads_bind (htuple _ c) fun t d ht =>
      reads_defaulted hnested ht (lays_defaultParameter ht)
  · refine leads_bind (reads_name _ c) fun t d ht => ?_
    refine leads_bind (hannotated ht.formed) fun u e hu => ?_
    have hwhole := hu.formed
    cases hu with
    | alone ht' =>
      split
      · cases ht.one.kind
      · exact reads_defaulted hnested ht' (lays_defaultParameter ht')
    | typed ht hcolon hkind =>
      exact reads_defaulted hnested hwhole (lays_typedDefaultParameter ht hcolon hkind)

theorem reads_parameterList {one : Expect → Expect → Reader Cst}
    (hone : ∀ e f, Reads s Formed (one e f)) (here follow : Expect) :
    Leads s c (parameterList one here follow) fun cs d => Items s (c.row s) cs (d.row s) :=
  leads_bind (hone _ _ c) fun _ _ hfirst =>
    reads_items hfirst (looks_map looks_peek) (hone _ _)

/-! ### Operations -/

theorem reads_comparison? (follow : Expect) :
    Leads s c (comparison? follow) (MayReach s Mark (c.row s)) := by
  refine leads_peek fun x hx => ?_
  split
  · split
    · exact leads_map (reads_mark hx _) fun _ _ h => h
    · exact leads_pure .none
  · exact leads_map (reads_mark hx _) fun _ _ h => h
  · refine leads_bind (reads_mark hx _) fun is_ d his => ?_
    refine leads_bind (reads_word? operand "not") fun found e hfound => ?_
    split
    · exact leads_pure ((his.append hfound).token (List.cons_ne_nil _ _))
    · exact leads_pure (his.to_le hfound.le)
  · refine leads_bind (reads_mark hx _) fun not_ d hnot => ?_
    refine leads_bind (reads_word plain "in" d) fun in_ e hin => leads_pure ?_
    exact (hnot.append hin).token (List.cons_ne_nil _ _)
  · exact leads_pure .none

theorem lays_operation (tag : Tag) {left op right : Cst}
    (hleft : Lays s Formed lo [left] mid) (hop : Lays s Mark mid [op] stop)
    (hright : Lays s Formed stop [right] hi) (hmay : tag.mayAssign = false)
    (hfits : ∀ cs, Cst.Slotted [.single .left, .single .right] cs → tag.Fits cs)
    (hproper : (tag.isNamed && !tag.isExtra) = true) (horders : ∀ cs, tag.orders cs = true) :
    Lays s Formed lo
      [Cst.join tag [left.inRole .left, op.inRole .operator, right.inRole .right]] hi := by
  have hholds : ∀ {r child}, tag.holds r child = true := Tag.holds_of_mayAssign hmay
  have hfilled : Filled s tag [.single .left, .single .right] lo
      [left.inRole .left, op.inRole .operator, right.inRole .right] hi :=
    .part hleft rfl hholds
      (.sign hop (by simp [Slot.single]) hholds (.part hright rfl hholds .nil))
  exact (hfilled.made (by simp) (by decide) (hfits _) hproper (horders _)).formed

section

variable (hnested : Sound s nested)

include hnested

theorem reads_unary (here follow : Expect) : Reads s Formed (unary nested here follow) := by
  have hoperator : ∀ {x : Lexeme} {c : Cursor} (t : String), x.Ahead c → Leads s c (do
      let op ← accept x (.token t)
      let value ← nested (.primary 21) operand follow
      return Cst.join .unaryOperator [op.inRole .operator, value.inRole .argument])
      (Reaches s Formed (c.row s)) := by
    intro x c t hx
    refine leads_bind (reads_mark hx t) fun op d hop => ?_
    refine leads_bind (hnested _ _ _ d) fun value e hvalue => leads_pure ?_
    have hfilled : Filled s .unaryOperator [.single .argument] (c.row s)
        [op.inRole .operator, value.inRole .argument] (e.row s) :=
      .sign hop (by simp [Slot.single]) rfl (.part hvalue rfl rfl .nil)
    exact (hfilled.made (by simp) (by decide) id rfl rfl).formed
  refine fun c => leads_peek fun x hx => ?_
  split
  · next heq => rw [heq]; exact hoperator _ hx
  · next heq => rw [heq]; exact hoperator _ hx
  · next heq => rw [heq]; exact hoperator _ hx
  · refine leads_bind (reads_mark hx "*") fun star d hstar => ?_
    refine leads_bind (reads_splatted hnested follow d) fun value e hvalue => ?_
    exact reads_trailers hnested (reads_target hnested) follow
      (hstar.wrapped .listSplat hvalue rfl id rfl).formed
  · have hname : ∀ sp, Mark (.node (.token "await") none sp [])
        ∧ Formed (.node .identifier none sp []) := fun sp =>
      ⟨Cst.mark_token _ sp, (Cst.formed_leaf .identifier Cst.bare_nil sp rfl).toFormed⟩
    refine leads_bind (reads_accept (P := fun t => t.Mark ∧ (t.retag .identifier).Formed) hx hname)
      fun head d hhead => leads_peek fun y _ => ?_
    split
    · refine leads_bind (hnested _ _ _ d) fun value e hvalue => leads_pure ?_
      exact ((hhead.mono fun _ => And.left).wrapped .await hvalue rfl (fun _ => trivial) rfl).formed
    · exact reads_trailers hnested (reads_target hnested) follow
        (hhead.one_of (fun hlaid => hlaid.retag rfl) hhead.one.2)
  · exact leads_bind (reads_atom hnested (reads_target hnested) _ _ c) fun first d hfirst =>
      reads_trailers hnested (reads_target hnested) follow hfirst

theorem reads_primary (power : Nat) (here follow : Expect) :
    Reads s Formed (primary nested power here follow) := by
  refine fun c => leads_bind (reads_unary hnested here follow c) fun first d hfirst => ?_
  refine leads_iterate (Reaches s Formed (c.row s)) hfirst fun left d hleft =>
    leads_peek fun x hx => ?_
  split
  · split
    · refine leads_bind (reads_mark hx _) fun op e hop => ?_
      refine leads_bind (hnested _ _ _ e) fun right f hright => leads_pure ?_
      exact lays_operation .binaryOperator hleft hop hright rfl (fun _ h => h) rfl fun _ => rfl
    · exact leads_pure hleft
  · exact leads_pure hleft

theorem reads_comparison (here follow : Expect) :
    Reads s Formed (comparison nested here follow) := by
  refine fun c => leads_bind (reads_primary hnested 0 here follow c) fun first d hfirst => ?_
  -- An operand alone stays what it is; only where an operator follows is it a child.
  let parts (cs : List Cst) (e : Cursor) : Prop :=
    cs ≠ [] ∧ Lays s (Child .comparisonOperator) (c.row s) cs (e.row s)
      ∧ (Lays s Formed (c.row s) cs (e.row s) ∨ 1 < cs.length)
  refine leads_bind (R := parts)
    (leads_iterate parts ⟨by simp, hfirst.child, Or.inl hfirst⟩ ?_) ?_
  · rintro read d ⟨hne, hread, hone⟩
    refine leads_bind (reads_comparison? follow) fun found e hfound => ?_
    split
    · exact leads_pure
        ⟨hne, hread.to_le hfound.le, hone.imp_left fun hread => hread.to_le hfound.le⟩
    · next op =>
      have hop : Lays s Mark (d.row s) [op] (e.row s) := hfound
      refine leads_bind (reads_primary hnested 0 operand follow e) fun right f hright => ?_
      exact leads_pure
        ⟨by simp, hread.append ((hop.inRole rfl).append hright.child), Or.inr (by simp)⟩
  · rintro cs d ⟨hne, hall, hone⟩
    split
    · rcases hone with hone | hone
      · exact leads_pure hone
      · simp at hone
    · exact leads_pure (hall.made_of_ne hne rfl trivial rfl).formed

/-! ### Expressions -/

theorem reads_lambda {body : Reader Cst} (hbody : Reads s Formed body) (hx : x.Ahead c) :
    Leads s c (lambda nested body x) (Reaches s Formed (c.row s)) := by
  refine leads_bind (reads_mark hx "lambda") fun head d hhead => ?_
  extract_lets tuple rest
  have hrest : ∀ (parameters : List Cst) (e : Cursor),
      Lays s (Child .lambda) (d.row s) parameters (e.row s) →
      Leads s e (rest parameters) (Reaches s Formed (c.row s)) := by
    intro parameters e hparameters
    refine leads_bind (reads_sign plain ":" e) fun colon f hcolon => ?_
    refine leads_bind (hbody f) fun value g hvalue => leads_pure ?_
    exact (((hhead.child.append hparameters).append
      (hcolon.child.append (hvalue.inRole rfl)))).node rfl trivial rfl
  refine leads_peek fun y _ => ?_
  split
  · refine leads_bind (reads_parameterList (reads_parameter hnested (reads_splatted hnested)
      (reads_bracketedTarget hnested) false) plain plain) fun cs e hcs => ?_
    have hparameters : Lays s Formed (d.row s) [Cst.join .lambdaParameters cs] (e.row s) :=
      hcs.made rfl trivial rfl
    exact hrest _ e (hparameters.inRole rfl)
  · exact hrest [] d .none

theorem reads_truthOperand (here follow : Expect) :
    Reads s Formed (truthOperand nested here follow) := by
  refine fun c => leads_peek fun x hx => ?_
  split
  · refine leads_bind (reads_mark hx "not") fun head d hhead => ?_
    refine leads_bind (hnested _ _ _ d) fun value e hvalue => leads_pure ?_
    have hfilled : Filled s .notOperator [.single .argument] (c.row s)
        [head, value.inRole .argument] (e.row s) := .token hhead (.part hvalue rfl rfl .nil)
    exact (hfilled.made (by simp) (by decide) id rfl rfl).formed
  · exact reads_lambda hnested (hnested _ _ _) hx
  · refine leads_peekPast fun y hy => ?_
    split
    · refine leads_bind (leads_accept hx fun sp =>
        Cst.formed_leaf .identifier Cst.bare_nil sp rfl) ?_
      rintro key d ⟨hkey, hplace⟩
      have hy : y.Ahead d := ⟨hplace ▸ hy.1, hy.2⟩
      refine leads_bind (reads_mark hy ":=") fun becomes e hbecomes => ?_
      refine leads_bind (hnested _ _ _ e) fun value f hvalue => leads_pure ?_
      have hkey : Lays s (Child .namedExpression) (c.row s) [key.inRole .name] (d.row s) :=
        hkey.inRole rfl
      exact ((hkey.append hbecomes.child).append (hvalue.inRole rfl)).node rfl trivial rfl
    · exact reads_comparison hnested here follow c
  · exact reads_comparison hnested here follow c

omit hnested in
theorem lays_asPattern {left mark value : Cst} (hleft : Lays s Formed lo [left] mid)
    (hmark : Lays s Mark mid [mark] stop) (hvalue : Lays s Formed stop [value] hi) :
    Lays s Formed lo [Cst.join .asPattern
      [left, mark, (Cst.join .asPatternTarget [value]).inRole .alias]] hi := by
  have htarget := (hvalue.under .asPatternTarget).node rfl (List.countP_le_length : _ ≤ 1) rfl
  have halias : Lays s (Child .asPattern) stop
      [(Cst.join .asPatternTarget [value]).inRole .alias] hi := htarget.inRole rfl
  have hall := (hleft.child.append hmark.child).append halias
  refine hall.node rfl (fun first rest heq d hd => ?_) rfl
  obtain ⟨-, rfl⟩ : left = first ∧ [(Cst.join .asPatternTarget [value]).inRole .alias] = rest := by
    simpa [List.filter_cons, hleft.one.proper, hmark.one.improper, htarget.one.proper] using heq
  rw [List.mem_singleton.mp hd, Cst.role_inRole]

theorem reads_expression (tier : Nat) (here follow : Expect) :
    Reads s Formed (expression nested tier here follow) := by
  refine fun c => leads_bind (reads_truthOperand hnested here follow c) fun first d hfirst => ?_
  extract_lets joined
  have hjoined : ∀ {x : Lexeme} {left : Cst} {d : Cursor}, Reaches s Formed (c.row s) left d →
      x.Ahead d → ∀ w right, Leads s d (joined x left w right) (Reaches s Formed (c.row s)) := by
    intro x left d hleft hx w right
    refine leads_bind (reads_mark hx w) fun op e hop => ?_
    refine leads_bind (hnested _ _ _ e) fun value f hvalue => leads_pure ?_
    exact lays_operation .booleanOperator hleft hop hvalue rfl (fun _ h => h) rfl fun _ => rfl
  refine leads_iterate (Reaches s Formed (c.row s)) hfirst fun left d hleft =>
    leads_peek fun x hx => ?_
  split
  · split
    · exact leads_map (hjoined hleft hx _ _) fun _ _ h => h
    · exact leads_pure hleft
  · split
    · exact leads_map (hjoined hleft hx _ _) fun _ _ h => h
    · exact leads_pure hleft
  · split
    · refine leads_bind (reads_mark hx "as") fun as_ e has => ?_
      exact leads_bind (hnested _ _ _ e) fun value f hvalue =>
        leads_pure (lays_asPattern hleft has hvalue)
    · exact leads_pure hleft
  · split
    · refine leads_bind (reads_mark hx "if") fun if_ e hif => ?_
      refine leads_bind (hnested _ _ _ e) fun condition f hcondition => ?_
      refine leads_bind (reads_word plain "else" f) fun else_ g helse => ?_
      refine leads_bind (hnested _ _ _ g) fun other h hother => leads_pure ?_
      exact (((((hleft.under .conditionalExpression).append hif.child).append
        hcondition.child).append helse.child).append hother.child).node rfl trivial rfl
    · exact leads_pure hleft
  · exact leads_pure hleft

theorem reads_iterable (here follow : Expect) : Reads s Formed (iterable nested here follow) := by
  refine fun c => leads_peek fun x hx => ?_
  split
  · exact reads_lambda hnested (hnested _ _ _) hx
  · exact reads_expression hnested 1 here follow c

/-! ### Annotations -/

omit hnested in
theorem reads_splatType (hx : x.Ahead c) (t : String) :
    Leads s c (do
      let star ← accept x (.token t)
      let base ← name plain
      return Cst.join .splatType [star, base]) (Reaches s Formed (c.row s)) := by
  refine leads_bind (reads_mark hx t) fun star d hstar => ?_
  refine leads_bind (reads_name plain d) fun base e hbase => leads_pure ?_
  exact (hstar.wrapped .splatType hbase.formed rfl (fun _ => trivial) rfl).formed

theorem reads_annotationBase (here follow : Expect) :
    Reads s Formed (annotationBase nested here follow) := by
  refine fun c => leads_peek fun x hx => leads_peekPast fun y _ => ?_
  split
  · exact reads_splatType hx _
  · refine leads_peekPast fun z _ => ?_
    split
    · exact reads_splatType hx _
    · exact hnested _ _ _ c
  · split
    · refine leads_bind (reads_identifier hx) fun base d hbase => ?_
      refine leads_bind (reads_sign follow "[" d) fun open_ e hopen => ?_
      refine leads_bind (hnested _ _ _ e) fun first f hfirst => ?_
      refine leads_bind (reads_items hfirst (looks_before _) (hnested _ _ _))
        fun items g hitems => ?_
      refine leads_bind (reads_sign closing "]" g) fun close h hclose => leads_pure ?_
      have hparameter := (((hopen.under .typeParameter).append hitems.child).append
        hclose.child).node rfl trivial rfl
      exact ((hbase.under .genericType).append hparameter.child).node rfl trivial rfl
    · exact hnested _ _ _ c
  · exact hnested _ _ _ c

theorem reads_annotationWith (constrained : Bool) (here follow : Expect) :
    Reads s Formed (annotationWith nested constrained here follow) := by
  intro c
  unfold annotationWith
  extract_lets wrap
  have hwrap : ∀ {lo hi t}, Lays s Formed lo [t] hi → Lays s Formed lo [wrap t] hi := fun h =>
    (h.under .typeExpression).node rfl (List.countP_le_length : _ ≤ 1) rfl
  refine leads_bind (reads_annotationBase hnested here follow c) fun first d hfirst => ?_
  refine leads_iterate (Reaches s Formed (c.row s)) hfirst fun left d hleft =>
    leads_peek fun x hx => ?_
  have hwrapped := hwrap hleft
  split
  · split
    · refine leads_bind (reads_mark hx ".") fun dot e hdot => ?_
      refine leads_bind (reads_name plain e) fun last f hlast => leads_pure ?_
      exact (((hwrapped.under .memberType).append hdot.child).append hlast.child).node
        rfl trivial rfl
    · exact leads_pure hwrapped
  · split
    · refine leads_bind (reads_mark hx "|") fun bar e hbar => ?_
      refine leads_bind (reads_annotationBase hnested _ _ e) fun right f hright => leads_pure ?_
      exact (((hwrapped.under .unionType).append hbar.child).append (hwrap hright).child).node
        rfl trivial rfl
    · exact leads_pure hwrapped
  · split
    · refine leads_bind (reads_mark hx ":") fun colon e hcolon => ?_
      refine leads_bind (hnested _ _ _ e) fun right f hright => leads_pure ?_
      exact (((hwrapped.under .constrainedType).append hcolon.child).append hright.child).node
        rfl trivial rfl
    · exact leads_pure hwrapped
  · exact leads_pure hwrapped

end

theorem sound_phrase (s : Source) (n : Nat) : Sound s (phrase n) := by
  induction n with
  | zero => exact fun p here follow c => leads_refuseHere
  | succ n ih =>
    intro p here follow
    cases p with
    | expression tier => exact reads_expression ih tier here follow
    | primary power => exact reads_primary ih power here follow
    | iterable => exact reads_iterable ih here follow
    | typeHint => exact reads_annotationWith ih true here follow

theorem sound_nested (s : Source) : Sound s Grammar.nested :=
  fun p here follow c t d h => sound_phrase s (s.size + 2) p here follow c t d h

end

end Gatehouse.Grammar
