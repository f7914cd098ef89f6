import Gatehouse.Grammar.Block
import Gatehouse.Proofs.Grammar.Case
import Gatehouse.Proofs.Grammar.Statement

/-!
Whatever the grammar reads as a statement is a node of the right shape where it stands, and so is
the tree of a whole text without a fault. Left of every assignment in it is something that can be
assigned to, and decorators come before what they decorate.
-/
namespace Gatehouse.Grammar

open Reader
open Cst (Laid Lays Lies Filling Filled Loose Formed FormedAs Mark Child Occupies)

section

variable {s : Source} {c d : Cursor} {x : Lexeme} {lo mid hi : Nat} {nested : Nested}
  {block : Reader (List Cst)} {P Q : Cst → Prop} {tag : Tag} {role : Role} {cs : List Cst}

/-! ### Blocks -/

theorem reads_asBlock (h : Lays s P lo cs (c.row s)) (hempty : ∀ sp, Q (.node .block none sp []))
    (hjoin : cs ≠ [] → Lays s Q lo [Cst.join .block cs] (c.row s)) :
    Leads s c (asBlock cs) (Reaches s Q lo) := by
  unfold asBlock
  split
  · exact leads_mono (leads_empty hempty) fun _ _ hempty => hempty.from_le h.le
  · next hne => exact leads_pure (hjoin hne)

theorem reads_emptyBlock : Leads s c (empty .block) (Reaches s (FormedAs .block) (c.row s)) :=
  leads_empty fun sp => Cst.formed_leaf .block trivial sp rfl

theorem reads_block (h : Lays s Loose lo cs (c.row s)) :
    Leads s c (asBlock cs) (Reaches s (FormedAs .block) lo) :=
  reads_asBlock h (fun sp => Cst.formed_leaf .block trivial sp rfl) fun hne =>
    h.child.made_of_ne hne rfl trivial rfl

inductive Suite (s : Source) (role : Role) (lo : Nat) : List Cst → Nat → Prop
  | intro {mid hi : Nat} {colon body : Cst} (hcolon : Lays s Mark lo [colon] mid)
      (hbody : Lays s (FormedAs .block) mid [body] hi) :
      Suite s role lo [colon, body.inRole role] hi

theorem Suite.child (h : Suite s role lo cs hi) (hr : tag.holds role .block = true) :
    Lays s (Child tag) lo cs hi := by
  cases h with
  | intro hcolon hbody => exact hcolon.child.append (hbody.inRole (by rwa [hbody.one.kind]))

theorem Suite.filling {whole slots : List Slot} {ds : List Cst}
    (h : Suite s role lo cs mid) (hr : tag.holds role .block = true)
    (hds : Filling s tag whole slots mid ds hi) :
    Filling s tag whole (.only role .block :: slots) lo (cs ++ ds) hi := by
  cases h with
  | intro hcolon hbody => exact .token hcolon (.only hbody hr hds)

section

variable (hnested : Sound s nested) (hblock : ReadsAll s Loose block)

include hnested hblock

theorem reads_suite : Reads s (FormedAs .block) (suite nested block) := by
  refine fun c => leads_peek fun x hx => ?_
  split
  · refine leads_bind (leads_pass hx) fun _ d hpass => leads_bind (hblock d) fun cs e hcs => ?_
    exact reads_block (hcs.from_le hpass)
  · refine leads_bind (leads_pass hx) fun _ d hpass => ?_
    exact leads_mono reads_emptyBlock fun _ _ hempty => hempty.from_le hpass
  · exact leads_bind (reads_simpleStatements hnested _ c) fun cs d hcs => reads_block hcs

theorem reads_colonSuite (role : Role) :
    Leads s c (colonSuite nested block role) fun cs d => Suite s role (c.row s) cs (d.row s) := by
  refine leads_bind (reads_sign plain ":" c) fun colon d hcolon => ?_
  exact leads_bind (reads_suite hnested hblock d) fun body e hbody =>
    leads_pure (.intro hcolon hbody)

theorem reads_elseClause (inBlock : Bool) :
    Leads s c (elseClause nested block inBlock) fun cs d => ∃ found : Option Cst,
      cs = found.toList ∧ MayReach s (FormedAs .elseClause) (c.row s) found d := by
  refine leads_bind (reads_word? _ "else") fun found d hfound => ?_
  split
  · exact leads_pure ⟨none, rfl, .nil hfound.le⟩
  · next head =>
    refine leads_bind (reads_colonSuite hnested hblock .body) fun body e hbody => ?_
    have hfilled : Filled s .elseClause [.only .body .block] (c.row s)
        (head :: (body ++ [])) (e.row s) := .token hfound (hbody.filling rfl .nil)
    have hmade := hfilled.made (by simp) (by decide) id rfl rfl
    rw [List.append_nil] at hmade
    exact leads_pure ⟨some _, rfl, hmade⟩

omit hnested hblock in
/-- A choice: its branches are further conditions, and an `else` comes last. -/
theorem lays_ifStatement {head condition : Cst} {body branches : List Cst} {found : Option Cst}
    {first second third fourth : Nat} (hhead : Lays s Mark lo [head] first)
    (hcondition : Lays s Formed first [condition] second)
    (hbody : Suite s .consequence second body third)
    (hbranches : Lays s (FormedAs .elifClause) third branches fourth)
    (hfound : Lays s (FormedAs .elseClause) fourth found.toList hi) :
    Lays s Formed lo [Cst.join .ifStatement ([head, condition.inRole .condition] ++ body
      ++ branches.map (Cst.inRole .alternative) ++ found.toList.map (Cst.inRole .alternative))]
      hi := by
  let slots : List Slot := [.single .condition, .only .consequence .block,
    ⟨.alternative, fun t => t == .elifClause || t == .elseClause, true⟩]
  have hfilled : Filled s .ifStatement slots lo (head :: condition.inRole .condition :: (body
      ++ (branches.map (Cst.inRole .alternative)
        ++ (found.toList.map (Cst.inRole .alternative) ++ [])))) hi :=
    .token hhead (.part hcondition rfl rfl (hbody.filling rfl
      (.parts rfl (hbranches.occupyAll rfl rfl) (.parts rfl (hfound.occupyAll rfl rfl) .nil))))
  have hmade := hfilled.made (by simp) (by decide) (fun h => ⟨h, fun d hd => ?_⟩) rfl rfl
  · simpa using hmade.formed
  · have hkinds : ∀ t ∈ branches.map (Cst.inRole .alternative),
        t.role = some .alternative ∧ t.tag = .elifClause :=
      List.forall_mem_map.mpr fun t ht => ⟨Cst.role_inRole _ _, by simp [(hbranches.all t ht).kind]⟩
    generalize branches.map (Cst.inRole .alternative) = clauses at hd hkinds
    have hkept : clauses.filter (fun d => d.role == some .alternative && !d.tag.isExtra)
        = clauses := by
      refine List.filter_eq_self.mpr fun t ht => ?_
      simp [(hkinds t ht).1, (hkinds t ht).2, Tag.isExtra]
    -- The `else` is the last alternative and dropped; without one, a further condition is.
    have hmem : d ∈ clauses := by
      cases hbody with
      | intro hcolon _ =>
        cases found with
        | none =>
          simp [hhead.one.free, hcolon.one.free, hkept] at hd
          exact (List.dropLast_sublist _).subset hd
        | some t =>
          simp [hhead.one.free, hcolon.one.free, hfound.one.kind, Tag.isExtra] at hd
          exact hd.1
    exact (hkinds d hmem).2

theorem reads_ifStatement (inBlock : Bool) (hx : x.Ahead c) :
    Leads s c (ifStatement nested block inBlock x) (Reaches s Formed (c.row s)) := by
  refine leads_bind (reads_mark hx "if") fun head d hhead => ?_
  refine leads_bind (hnested _ _ _ d) fun condition e hcondition => ?_
  refine leads_bind (reads_colonSuite hnested hblock .consequence) fun body f hbody => ?_
  let branches (read : List Cst) (g : Cursor) : Prop := ∃ clauses,
    read = clauses.map (Cst.inRole .alternative)
      ∧ ReachAll s (FormedAs .elifClause) (f.row s) clauses g
  refine leads_bind (R := branches) (leads_iterate branches ⟨[], rfl, .none⟩ ?_) ?_
  · rintro _ g ⟨clauses, rfl, hclauses⟩
    refine leads_bind (reads_word? _ "elif") fun found h hfound => ?_
    split
    · exact leads_pure ⟨clauses, rfl, hclauses.to_le hfound.le⟩
    · next head =>
      refine leads_bind (hnested _ _ _ h) fun condition i hcondition => ?_
      refine leads_bind (reads_colonSuite hnested hblock .consequence) fun body j hbody => ?_
      have hfilled : Filled s .elifClause [.single .condition, .only .consequence .block]
          (g.row s) (head :: condition.inRole .condition :: (body ++ [])) (j.row s) :=
        .token hfound (.part hcondition rfl rfl (hbody.filling rfl .nil))
      have hmade := hfilled.made (by simp) (by decide) id rfl rfl
      rw [List.append_nil] at hmade
      exact leads_pure ⟨clauses ++ [_], by simp, hclauses.append hmade⟩
  · rintro _ g ⟨clauses, rfl, hclauses⟩
    refine leads_bind (reads_elseClause hnested hblock inBlock) ?_
    rintro _ h ⟨found, rfl, hfound⟩
    exact leads_pure (lays_ifStatement hhead hcondition hbody hclauses hfound)

/-! ### Loops -/

omit hnested hblock in
theorem filling_otherwise {whole : List Slot} {found : Option Cst}
    (h : Lays s (FormedAs .elseClause) lo found.toList hi)
    (hr : tag.holds .alternative .elseClause = true) :
    Filling s tag whole [.only .alternative .elseClause] lo
      (found.toList.map (Cst.inRole .alternative) ++ []) hi := by
  have hkind : ∀ t ∈ found, t.tag = .elseClause := fun t ht =>
    (h.all t (Option.mem_toList.mpr ht)).kind
  exact .optional h (fun t ht => by simp [Slot.only, hkind t ht])
    (fun t ht => by rwa [hkind t ht]) .nil

theorem reads_forStatement (inBlock : Bool) {before : List Cst}
    (hbefore : Lays s Mark lo before (c.row s)) (here : Expect) :
    Leads s c (forStatement nested block inBlock before here) (Reaches s Formed lo) := by
  refine leads_bind (reads_word here "for" c) fun head d hhead => ?_
  refine leads_bind (reads_leftSide (reads_target hnested) d) fun left d hleft => ?_
  refine leads_bind (reads_word plain "in" d) fun in_ d hin => ?_
  refine leads_bind (reads_expressions hnested _ _ d) fun right d hright => ?_
  refine leads_bind (reads_colonSuite hnested hblock .body) fun body d hbody => ?_
  refine leads_bind (reads_elseClause hnested hblock inBlock) ?_
  rintro _ e ⟨found, rfl, hfound⟩
  have hfilled : Filled s .forStatement [.single .left, .single .right, .only .body .block,
      .only .alternative .elseClause] lo (before ++ (head :: left.inRole .left :: in_
      :: right.inRole .right :: (body ++ (found.toList.map (Cst.inRole .alternative) ++ []))))
      (e.row s) :=
    .tokens hbefore (.token hhead (.part hleft rfl rfl (.token hin (.part hright rfl rfl
      (hbody.filling rfl (filling_otherwise hfound rfl))))))
  have hmade := hfilled.made (by simp) (by decide) id rfl rfl
  exact leads_pure (by simpa using hmade.formed)

theorem reads_whileStatement (inBlock : Bool) (hx : x.Ahead c) :
    Leads s c (whileStatement nested block inBlock x) (Reaches s Formed (c.row s)) := by
  refine leads_bind (reads_mark hx "while") fun head d hhead => ?_
  refine leads_bind (hnested _ _ _ d) fun condition e hcondition => ?_
  refine leads_bind (reads_colonSuite hnested hblock .body) fun body f hbody => ?_
  refine leads_bind (reads_elseClause hnested hblock inBlock) ?_
  rintro _ g ⟨found, rfl, hfound⟩
  have hfilled : Filled s .whileStatement [.single .condition, .only .body .block,
      .only .alternative .elseClause] (c.row s) (head :: condition.inRole .condition
      :: (body ++ (found.toList.map (Cst.inRole .alternative) ++ []))) (g.row s) :=
    .token hhead (.part hcondition rfl rfl (hbody.filling rfl (filling_otherwise hfound rfl)))
  have hmade := hfilled.made (by simp) (by decide) id rfl rfl
  exact leads_pure (by simpa using hmade.formed)

/-! ### Handlers and contexts -/

theorem reads_exceptClause {head : Cst} (hhead : Lays s Mark lo [head] (c.row s)) :
    Leads s c (exceptClause nested block head) (Reaches s Formed lo) := by
  refine leads_bind (reads_sign? operand "*") fun star d hstar => leads_peek fun x _ => ?_
  extract_lets rest
  have hrest : ∀ (values : List Cst) (e : Cursor),
      Lays s (Child .exceptClause) (d.row s) values (e.row s) →
      Leads s e (rest values) (Reaches s Formed lo) := by
    intro values e hvalues
    refine leads_bind (reads_sign plain ":" e) fun colon f hcolon => ?_
    refine leads_bind (reads_suite hnested hblock f) fun body g hbody => leads_pure ?_
    exact (((hhead.child.append hstar.child).append hvalues).append
      (hcolon.child.append hbody.child)).node rfl trivial rfl
  split
  · exact hrest [] d .none
  · have hvalue : Reads s (Child .exceptClause)
        (Cst.inRole .value <$> nested (.expression 0) operand plain) := fun c =>
      leads_map (hnested _ _ _ c) fun _ _ ht => ht.inRole rfl
    refine leads_bind (hnested _ _ _ d) fun first e hfirst => ?_
    refine leads_bind (reads_separated (hfirst.inRole rfl) looks_always
      (fun _ ht => ht.child) hvalue) fun values f ⟨_, hvalues⟩ => ?_
    exact hrest values f hvalues

theorem reads_tryStatement (inBlock : Bool) (hx : x.Ahead c) :
    Leads s c (tryStatement nested block inBlock x) (Reaches s Formed (c.row s)) := by
  refine leads_bind (reads_mark hx "try") fun head d hhead => ?_
  refine leads_bind (reads_colonSuite hnested hblock .body) fun body e hbody => ?_
  refine leads_bind (R := ReachAll s Formed (e.row s)) (leads_iterate (ReachAll s Formed (e.row s))
    .none ?_) ?_
  · intro read f hread
    refine leads_bind (reads_word? _ "except") fun found f hfound => ?_
    split
    · exact leads_pure (hread.to_le hfound.le)
    · exact leads_bind (reads_exceptClause hnested hblock hfound) fun handler g hhandler =>
        leads_pure (hread.append hhandler)
  · intro handlers f hhandlers
    refine leads_bind (reads_elseClause hnested hblock inBlock) ?_
    rintro _ g ⟨found, rfl, hfound⟩
    extract_lets rest
    have hstart := ((hhead.under .tryStatement).append (hbody.child rfl)).append hhandlers.child
      |>.append hfound.child
    have hrest : ∀ (last : List Cst) (h : Cursor), Lays s Formed (g.row s) last (h.row s) →
        Leads s h (rest last) (Reaches s Formed (c.row s)) := fun last h hlast =>
      leads_pure ((hstart.append hlast.child).node rfl trivial rfl)
    refine leads_bind (reads_word? _ "finally") fun found h hfound => ?_
    split
    · exact hrest [] h (.nil hfound.le)
    · refine leads_bind (reads_sign plain ":" h) fun colon h hcolon => ?_
      refine leads_bind (reads_suite hnested hblock h) fun body h hbody => hrest _ h ?_
      exact (((Lays.under .finallyClause hfound).append hcolon.child).append hbody.child).node
        rfl trivial rfl

omit hnested hblock in
theorem laid_withItem {t : Cst} (h : Laid lo [t] hi) : Laid lo [withItem t] hi :=
  h.inRole.join rfl (List.cons_ne_nil _ _)

omit hnested hblock in
/-- The entries of a tuple are laid out as the tuple is. -/
theorem laid_withClause {items : List Cst} (h : Laid lo items hi) (hne : items ≠ []) :
    Laid lo [withClause items] hi := by
  have heach : Laid lo [Cst.join .withClause
      (items.map fun t => if t.tag == .token "," then t else withItem t)] hi := by
    refine (h.map fun lo hi t ht => ?_).join rfl (by simpa using hne)
    split
    · exact ht
    · exact laid_withItem ht
  unfold withClause
  extract_lets each
  split
  · next t =>
    extract_lets entries
    split
    · next hplain =>
      obtain ⟨tag, role, span, under⟩ := t
      obtain ⟨hrow, -, hunder⟩ := Cst.laid_node.mp h
      have hunderNe : under ≠ [] := by
        rintro rfl
        simp [entries, Cst.proper, Cst.children] at hplain
      refine ((hunder.from_le hrow).map fun lo hi t ht => ?_).join rfl (by simpa using hunderNe)
      split
      · exact laid_withItem ht
      · exact ht
    · exact heach
  · exact heach

omit hnested hblock in
theorem withClause_eq_join (items : List Cst) :
    ∃ cs, withClause items = Cst.join .withClause cs := by
  unfold withClause
  extract_lets each
  split
  · extract_lets entries
    split <;> exact ⟨_, rfl⟩
  · exact ⟨_, rfl⟩

omit hnested hblock in
theorem lays_withClause {items : List Cst} (h : Items s lo items hi) :
    Lays s (Child .withStatement) lo [withClause items] hi := by
  refine ⟨List.forall_mem_singleton.mpr ?_, fun hs => laid_withClause (h.laid hs) h.ne⟩
  obtain ⟨cs, heq⟩ := withClause_eq_join items
  rw [heq]
  exact Cst.child_of_hopeless rfl (Or.inr ⟨Cst.role_join, by rw [Cst.tag_join]; rfl⟩)

theorem reads_withStatement {before : List Cst} (hbefore : Lays s Mark lo before (c.row s))
    (here : Expect) : Leads s c (withStatement nested block before here) (Reaches s Formed lo) := by
  refine leads_bind (reads_word here "with" c) fun head d hhead => ?_
  refine leads_bind (reads_expressionItems hnested _ _) fun items e hitems => ?_
  refine leads_bind (reads_colonSuite hnested hblock .body) fun body f hbody => leads_pure ?_
  exact ((hbefore.child.append (hhead.child.append (lays_withClause hitems))).append
    (hbody.child rfl)).made_of_ne (by simp) rfl trivial rfl |>.formed

/-! ### Definitions -/

omit hblock in
theorem reads_typeParameters : Leads s c (typeParameters nested) fun cs d => ∃ found : Option Cst,
    cs = found.toList.map (Cst.inRole .typeParameters)
      ∧ MayReach s Formed (c.row s) found d := by
  refine leads_bind (reads_sign? plain "[") fun found d hfound => ?_
  split
  · exact leads_pure ⟨none, rfl, .nil hfound.le⟩
  · refine leads_bind (hnested _ _ _ d) fun first e hfirst => ?_
    refine leads_bind (reads_items hfirst (looks_before _) (hnested _ _ _))
      fun items f hitems => ?_
    refine leads_bind (reads_sign closing "]" f) fun close g hclose => leads_pure ?_
    exact ⟨some _, rfl, (((Lays.under .typeParameter hfound).append hitems.child).append
      hclose.child).node rfl trivial rfl⟩

omit hnested hblock in
/-- A function up to its parameters, and what comes after them: with a type of what is returned, or
without. -/
theorem lays_functionDefinition {before ds : List Cst} {head called parameters : Cst}
    {types : Option Cst} {start named typed ended : Nat} (hbefore : Lays s Mark lo before start)
    (hhead : Lays s Mark start [head] mid) (hcalled : Lays s (FormedAs .identifier) mid [called] named)
    (htypes : Lays s Formed named types.toList typed)
    (hparameters : Lays s (FormedAs .parameters) typed [parameters] ended)
    (hds : Filling s .functionDefinition
      [.only .name .identifier, .single .typeParameters, .only .parameters .parameters,
        .single .returnType, .only .body .block]
      [.single .returnType, .only .body .block] ended ds hi) :
    Lays s (FormedAs .functionDefinition) lo [Cst.join .functionDefinition
      (before ++ [head, called.inRole .name] ++ types.toList.map (Cst.inRole .typeParameters)
        ++ [parameters.inRole .parameters] ++ ds)] hi := by
  have hfilled : Filled s .functionDefinition [.only .name .identifier,
      .single .typeParameters, .only .parameters .parameters, .single .returnType,
      .only .body .block] lo (before ++ (head :: called.inRole .name
        :: (types.toList.map (Cst.inRole .typeParameters)
          ++ (parameters.inRole .parameters :: ds)))) hi :=
    .tokens hbefore (.token hhead (.only hcalled rfl (.optional htypes (fun _ _ => rfl)
      (fun _ _ => rfl) (.only hparameters rfl hds))))
  simpa using hfilled.made (by simp) (by decide) id rfl rfl

theorem reads_functionDefinition {before : List Cst} (hbefore : Lays s Mark lo before (c.row s))
    (here : Expect) : Leads s c (functionDefinition nested block before here)
      (Reaches s (FormedAs .functionDefinition) lo) := by
  refine leads_bind (reads_word here "def" c) fun head d hhead => ?_
  refine leads_bind (reads_name plain d) fun called d hcalled => ?_
  refine leads_bind (reads_typeParameters hnested) ?_
  rintro _ e ⟨types, rfl, htypes⟩
  refine leads_bind (reads_sign plain "(" e) fun open_ f hopen => ?_
  extract_lets tuple rest
  have hrest : ∀ (given : List Cst) (g : Cursor), Lays s Loose (f.row s) given (g.row s) →
      Leads s g (rest given) (Reaches s (FormedAs .functionDefinition) lo) := by
    intro given g hgiven
    refine leads_bind (reads_sign closing ")" g) fun close g hclose => ?_
    extract_lets parameters start
    have hparameters : Lays s (FormedAs .parameters) (e.row s)
        [Cst.join .parameters ([open_] ++ given ++ [close])] (g.row s) :=
      (((hopen.under .parameters).append hgiven.child).append hclose.child).made rfl trivial rfl
    refine leads_bind (reads_sign? plain "->") fun found h hfound => ?_
    split
    · refine leads_bind (reads_colonSuite hnested hblock .body) fun body i hbody => leads_pure ?_
      simpa [start, parameters] using
        lays_functionDefinition hbefore hhead hcalled htypes hparameters
          ((hbody.filling rfl .nil).from_le hfound.le).skip
    · next arrow =>
      have hreturning : ∀ constrained, Leads s h (do
          let kind ← annotationWith nested constrained operand plain
          let body ← colonSuite nested block .body
          return Cst.join .functionDefinition (start ++ [arrow, kind.inRole .returnType] ++ body))
          (Reaches s (FormedAs .functionDefinition) lo) := by
        intro constrained
        refine leads_bind (reads_annotationWith hnested constrained _ _ h) fun kind i hkind => ?_
        refine leads_bind (reads_colonSuite hnested hblock .body) fun body j hbody => leads_pure ?_
        simpa [start, parameters, Slot.single] using
          lays_functionDefinition hbefore hhead hcalled htypes hparameters
            (.token hfound (.part hkind rfl rfl (hbody.filling rfl .nil)))
      exact leads_orElse (hreturning false) (hreturning true)
  refine leads_look (looks_atSign _ _) fun closed => ?_
  split
  · exact hrest [] f .none
  · exact leads_bind (reads_parameterList (reads_parameter hnested (reads_splatted hnested)
      (reads_bracketedTarget hnested) true) closing closing) fun given g hgiven =>
        hrest given g hgiven.toLays

theorem reads_classDefinition (here : Expect) : Leads s c (classDefinition nested block here)
    (Reaches s (FormedAs .classDefinition) (c.row s)) := by
  refine leads_bind (reads_word here "class" c) fun head d hhead => ?_
  refine leads_bind (reads_name plain d) fun called d hcalled => ?_
  refine leads_bind (reads_typeParameters hnested) ?_
  rintro _ e ⟨types, rfl, htypes⟩
  refine leads_peek fun x hx => ?_
  extract_lets rest
  have htypes : Lays s (Child .classDefinition) (d.row s)
      (types.toList.map (Cst.inRole .typeParameters)) (e.row s) :=
    htypes.map (fun _ ht => ht.inRole rfl) fun _ _ _ => Laid.inRole
  have hstart : Lays s (Child .classDefinition) (c.row s) ([head, called.inRole .name]
      ++ types.toList.map (Cst.inRole .typeParameters)) (e.row s) :=
    (hhead.child.append (hcalled.inRole rfl)).append htypes
  have hrest : ∀ (bases : List Cst) (f : Cursor),
      Lays s (Child .classDefinition) (e.row s) bases (f.row s) →
      Leads s f (rest bases) (Reaches s (FormedAs .classDefinition) (c.row s)) := by
    intro bases f hbases
    refine leads_bind (reads_colonSuite hnested hblock .body) fun body g hbody => leads_pure ?_
    exact ((hstart.append hbases).append (hbody.child rfl)).made rfl trivial rfl
  split
  · exact leads_bind (reads_arguments hnested (reads_target hnested) false hx) fun given f hgiven =>
      hrest _ f (Lays.inRole (hgiven.mono fun _ => And.left) rfl)
  · exact hrest [] e .none

omit hnested hblock in
/-- Decorators come before what they decorate. -/
theorem lays_decorated {decorators : List Cst} {definition : Cst}
    (hdecorators : Lays s (FormedAs .decorator) lo decorators mid)
    (hdefinition : Lays s (FormedAs tag) mid [definition] hi) (htag : tag ≠ .decorator)
    (hr : Tag.holds .decoratedDefinition .definition tag = true) :
    Lays s Formed lo
      [Cst.join .decoratedDefinition (decorators ++ [definition.inRole .definition])] hi := by
  have hfree : ∀ t ∈ decorators, (t.role == some .definition) = false := fun t ht => by
    simp [(hdecorators.all t ht).free]
  have hchildren : Lays s (Child .decoratedDefinition) lo _ hi :=
    hdecorators.child.append (hdefinition.inRole (by rwa [hdefinition.one.kind]))
  refine (hchildren.made_of_ne (by simp) rfl ⟨?_, fun t ht => ?_⟩ ?_).formed
  · have hnone : decorators.countP (fun t => t.role == some .definition) = 0 :=
      List.countP_eq_zero.mpr fun t ht => by simp [hfree t ht]
    simp [Cst.countIn, hnone]
  · rcases List.mem_append.mp (List.mem_filter.mp ht).1 with ht | ht
    · exact Or.inl (hdecorators.all t ht).kind
    · obtain rfl := List.mem_singleton.mp ht
      exact Or.inr (Cst.role_inRole _ _)
  · have hbefore : ∀ t ∈ decorators, (t.role != some .definition) = true := fun t ht => by
      simp [bne, hfree t ht]
    rw [Tag.orders, List.dropWhile_append_of_pos hbefore, List.dropWhile_cons_of_neg (by simp)]
    simpa [hdefinition.one.kind] using htag

theorem reads_decoratedDefinition (here : Expect) :
    Reads s Formed (decoratedDefinition nested block here) := by
  refine fun c => leads_bind (R := ReachAll s (FormedAs .decorator) (c.row s)) (leads_iterate
    (fun (read : List Cst × Expect) d => ReachAll s (FormedAs .decorator) (c.row s) read.1 d)
    .none ?_) ?_
  · rintro ⟨read, here⟩ d hread
    refine leads_bind (reads_sign? here "@") fun found e hfound => ?_
    split
    · exact leads_pure (hread.to_le hfound.le)
    · refine leads_bind (hnested _ _ _ e) fun value f hvalue => leads_peek fun x hx => ?_
      split
      · refine leads_bind (leads_passWithin hx) fun _ g hpass => leads_pure ?_
        have hone := Lays.wrapped hfound .decorator hvalue rfl id rfl
        exact hread.append (hone.to_le hpass)
      · exact leads_refuse
  · intro decorators d hdecorators
    refine leads_peek fun x hx => ?_
    extract_lets rest
    have hrest : ∀ tag, tag ≠ .decorator → Tag.holds .decoratedDefinition .definition tag = true →
        ∀ (definition : Cst) (e : Cursor), Lays s (FormedAs tag) (d.row s) [definition] (e.row s) →
        Leads s e (rest definition) (Reaches s Formed (c.row s)) :=
      fun tag htag hr definition e hdefinition =>
        leads_pure (lays_decorated hdecorators hdefinition htag hr)
    split
    · exact leads_bind (reads_classDefinition hnested hblock plain) (hrest _ (by decide) rfl)
    · refine leads_bind (reads_mark hx "async") fun async_ e hasync => ?_
      exact leads_bind (reads_functionDefinition hnested hblock hasync plain)
        (hrest _ (by decide) rfl)
    · exact leads_bind (reads_functionDefinition hnested hblock .none plain)
        (hrest _ (by decide) rfl)

/-! ### Choices by patterns -/

theorem located_caseClause {head : Cst} (hhead : Lies s lo [head] (c.row s)) :
    Leads s c (caseClause nested block head) (Reaches s (fun _ => True) lo) := by
  refine leads_bind (located_casePattern hnested operand plain c) fun first d hfirst => ?_
  have hmore : Looks (do
      let x ← Reader.peek operand
      return x.token != .sign ":" && x.token != .word "if") :=
    looks_bind looks_peek fun _ => looks_pure
  refine leads_bind (reads_separated hfirst hmore (fun _ _ => trivial)
    (located_casePattern hnested operand plain)) fun patterns e ⟨_, hpatterns⟩ => ?_
  extract_lets rest
  have hrest : ∀ (guard : List Cst) (f : Cursor), Lies s (e.row s) guard (f.row s) →
      Leads s f (rest guard) (Reaches s (fun _ => True) lo) := by
    intro guard f hguard
    refine leads_bind (reads_colonSuite hnested hblock .consequence) fun body g hbody => ?_
    have hbody : Lays s (Child .caseClause) (f.row s) body (g.row s) := hbody.child rfl
    exact leads_pure ((((hhead.append hpatterns).append hguard).append hbody.lies).joined rfl)
  refine leads_bind (reads_word? plain "if") fun found f hfound => ?_
  split
  · exact hrest [] f (.nil hfound.le)
  · refine leads_bind (hnested _ _ _ f) fun condition g hcondition => hrest _ g ?_
    exact lies_inRole ((hfound.lies.append hcondition.lies).joined rfl)

theorem reads_matchStatement (here : Expect) :
    Reads s Formed (matchStatement nested block here) := by
  refine fun c => leads_bind (reads_word here "match" c) fun head d hhead => ?_
  extract_lets follow
  have hsubject : Reads s (Child .matchStatement)
      (Cst.inRole .subject <$> nested (.expression 0) operand plain) := fun c =>
    leads_map (hnested _ _ _ c) fun _ _ ht => ht.inRole rfl
  refine leads_bind (hnested _ _ _ d) fun first e hfirst => ?_
  refine leads_bind (reads_separated (hfirst.inRole rfl) (looks_map looks_peek)
    (fun _ ht => ht.child) hsubject) fun subjects f ⟨_, hsubjects⟩ => ?_
  refine leads_bind (reads_sign plain ":" f) fun colon g hcolon => leads_peek fun x hx => ?_
  extract_lets rest
  have hrest : ∀ (cases : List Cst) (h : Cursor), Lies s (g.row s) cases (h.row s) →
      Leads s h (rest cases) (Reaches s Formed (c.row s)) := by
    intro cases h hcases
    refine leads_bind (reads_asBlock (Q := fun _ => True) hcases (fun _ => trivial)
      fun hne => hcases.join hne rfl trivial) fun body i hbody => leads_pure ?_
    have hbody : Lays s (Child .matchStatement) (g.row s) [body.inRole .body] (i.row s) :=
      (lies_inRole hbody).anyChild rfl rfl
    exact ((hhead.child.append hsubjects).append (hcolon.child.append hbody)).node rfl trivial rfl
  split
  · refine leads_bind (leads_pass hx) fun _ h hpass => ?_
    let cases (read : List Cst) (i : Cursor) : Prop := Lies s (g.row s) read (i.row s)
    refine leads_bind (R := cases) (leads_iterate cases (.nil hpass) fun read i hread =>
      leads_peek fun y hy => ?_) hrest
    split
    · exact leads_bind (leads_pass hy) fun _ j hpass => leads_pure (hread.to_le hpass)
    · refine leads_bind (reads_mark hy "case") fun head j hhead => ?_
      exact leads_bind (located_caseClause hnested hblock hhead.lies) fun t k ht =>
        leads_pure (hread.append (lies_inRole ht))
    · exact leads_refuse
  · exact leads_bind (leads_pass hx) fun _ h hpass => hrest [] h (.nil hpass)
  · exact leads_bind leads_refuse hrest

/-! ### Whole texts -/

theorem reads_statement (inBlock : Bool) (here : Expect) :
    ReadsAll s Loose (statement nested block inBlock here) := by
  refine fun c => leads_peek fun x hx => ?_
  extract_lets one
  have hone : ∀ {P : Cst → Prop} [Cst.PlaysNoPart P] {r : Reader Cst} {d : Cursor},
      Leads s d r (Reaches s P (c.row s)) → Leads s d (one r) (ReachAll s Loose (c.row s)) :=
    fun h => leads_bind h fun _ _ ht => leads_pure ht.loose
  have hsimple := reads_simpleStatements hnested here c
  split
  · exact hone (reads_ifStatement hnested hblock inBlock hx)
  · exact hone (reads_forStatement hnested hblock inBlock .none here)
  · exact hone (reads_whileStatement hnested hblock inBlock hx)
  · exact hone (reads_tryStatement hnested hblock inBlock hx)
  · exact hone (reads_withStatement hnested hblock .none here)
  · exact hone (reads_functionDefinition hnested hblock .none here)
  · exact hone (reads_classDefinition hnested hblock here)
  · exact hone (reads_decoratedDefinition hnested hblock here c)
  · exact leads_orElse hsimple (hone (reads_matchStatement hnested hblock here c))
  · refine leads_peekPast fun y _ => ?_
    split
    · exact leads_bind (reads_mark hx "async") fun async_ d hasync =>
        hone (reads_functionDefinition hnested hblock hasync lineEnd)
    · exact leads_bind (reads_mark hx "async") fun async_ d hasync =>
        hone (reads_forStatement hnested hblock inBlock hasync lineEnd)
    · exact leads_bind (reads_mark hx "async") fun async_ d hasync =>
        hone (reads_withStatement hnested hblock hasync lineEnd)
    · exact hsimple
  · exact hsimple

end

theorem reads_statements (s : Source) (n : Nat) (inBlock : Bool) :
    ReadsAll s Loose (statements n inBlock) := by
  induction n generalizing inBlock with
  | zero => exact fun _ => leads_refuseHere
  | succ n ih =>
    refine fun c => leads_iterate (ReachAll s Loose (c.row s)) .none fun read d hread => ?_
    extract_lets here
    refine leads_peek fun x hx => ?_
    split
    · exact leads_bind (leads_pass hx) fun _ e hpass => leads_pure (hread.to_le hpass)
    · exact leads_pure hread
    · exact leads_bind (reads_statement (sound_nested s) (ih true) _ here d) fun next e hnext =>
        leads_pure (hread.append hnext)

end

theorem reads_wholeText (s : Source) : ReadsAll s Loose wholeText :=
  fun c cs d h => reads_statements s (s.size + 2) false c cs d h

/-- The tree of a text is of the right shape. Where it has a fault nothing else is in it. -/
theorem tree_shaped (s : Source) : (tree s).Shaped := by
  unfold tree
  split
  · next cs d heq =>
    have hcs := reads_wholeText s (beginning s) cs d heq
    exact .intro trivial fun t ht _ _ _ => (hcs.all t ht).shaped
  · refine .intro trivial fun t ht _ _ _ => ?_
    obtain rfl := List.mem_singleton.mp ht
    exact (Cst.formed_leaf .error trivial _ rfl).shaped

theorem tag_tree (s : Source) : (tree s).tag = .module := by
  unfold tree
  split <;> rfl

theorem tree_aims (s : Source) : (tree s).aims = true := by
  unfold tree
  split
  · next cs d heq =>
    have hcs := reads_wholeText s (beginning s) cs d heq
    exact Cst.aims_iff.mpr fun hmay t ht => (hcs.all t ht).child.part hmay
  · refine Cst.aims_iff.mpr fun hmay t ht => ?_
    obtain rfl := List.mem_singleton.mp ht
    exact (Cst.formed_leaf .error trivial _ rfl).child.part hmay

theorem laid_spanOf {cs : List Cst} {bytes : ByteArray} {hi : Nat} (h : Laid 0 cs hi)
    (hhi : hi ≤ (Source.ofBytes bytes).lastRow) :
    ∃ hi, Laid (spanOf (Source.ofBytes bytes) cs).row cs hi
      ∧ hi ≤ (Source.ofBytes bytes).lastRow := by
  cases cs with
  | nil => exact ⟨_, .nil (Nat.le_refl _), Source.row_le_lastRow bytes _⟩
  | cons t cs => exact ⟨_, h.raise (Nat.min_le_right _ _), hhi⟩

/-- The tree of a text is laid out in the order of the text. If it has no fault, it ends with it. -/
theorem tree_laid (bytes : ByteArray) : ∃ hi, Laid 0 [tree (Source.ofBytes bytes)] hi
    ∧ ((tree (Source.ofBytes bytes)).hasFault = false → hi ≤ (Source.ofBytes bytes).lastRow) := by
  unfold tree
  split
  · next cs d heq =>
    have hcs := (reads_wholeText _ (beginning _) cs d heq).laid (Source.row_mono bytes)
    obtain ⟨hi, hlaid, hlast⟩ := laid_spanOf (hcs.from_le (Nat.zero_le _))
      (Source.row_le_lastRow bytes _)
    exact ⟨hi, Cst.laid_node.mpr ⟨Nat.zero_le _, rfl, hlaid⟩, fun _ => hlast⟩
  · refine ⟨_, Cst.laid_node.mpr ⟨Nat.le_refl _, rfl, Cst.laid_node.mpr
      ⟨Nat.zero_le _, rfl, .nil (Nat.le_refl _)⟩⟩, fun hfault => ?_⟩
    cases hfault

end Gatehouse.Grammar
