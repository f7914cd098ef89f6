import Gatehouse.Grammar.Statement
import Gatehouse.Proofs.Grammar.Expression

/-!
Whatever the grammar reads as a statement of a line is a node of the right shape where it stands,
with a left side on the left of every assignment in it.
-/
namespace Gatehouse.Grammar

open Reader
open Cst (Lays Lies Filled Loose Formed FormedAs Mark Child Occupies Aimed)

section

variable {s : Source} {c d : Cursor} {x : Lexeme} {lo hi : Nat} {nested : Nested}

/-! ### Assignments -/

/-- Expressions stay as they are where no sign of an assignment follows them. -/
theorem reads_assignment (hnested : Sound s nested) {right : Reader Cst}
    (hright : Reads s Formed right) {items : List Cst} (hitems : Items s lo items (c.row s)) :
    Leads s c (rightSide.assignment nested right items)
      fun found d => found.elim (Items s lo items (d.row s)) (Reaches s Formed lo · d) := by
  refine leads_peek fun x hx => ?_
  extract_lets left
  have hleft : Leads s c left fun t d => d = c ∧ ∃ p : Cst, t = p.inRole .left
      ∧ Lays s Aimed lo [p] (c.row s) := by
    dsimp only [left]
    split
    · next p hp => exact leads_pure ⟨rfl, p, rfl, lays_of_targetOf? hp hitems⟩
    · exact leads_refuse
  have hmade : ∀ {cs : List Cst} {hi : Nat},
      Filled s .assignment [.single .left, .single .typeHint, .single .right] lo cs hi → cs ≠ [] →
      Lays s Formed lo [Cst.join .assignment cs] hi := fun h hne =>
    (h.made hne (by decide) id rfl rfl).formed
  split
  · refine leads_bind hleft ?_
    rintro _ _ ⟨rfl, p, rfl, hp⟩
    refine leads_bind (reads_mark hx "=") fun equals e hequals => ?_
    refine leads_bind (hright e) fun value f hvalue => leads_pure (hmade ?_ (by simp))
    exact .one hp.onLeft (Cst.role_inRole _ _) rfl
      (.token hequals (.skip (.part hvalue rfl rfl .nil)))
  · refine leads_bind hleft ?_
    rintro _ _ ⟨rfl, p, rfl, hp⟩
    refine leads_bind (reads_mark hx ":") fun colon e hcolon => ?_
    refine leads_bind (hnested _ _ _ e) fun kind f hkind => ?_
    refine leads_bind (reads_sign? lineEnd "=") fun found g hfound => ?_
    split
    · refine leads_pure (hmade ?_ (by simp))
      exact .one hp.onLeft (Cst.role_inRole _ _) rfl
        (.token hcolon (.part (hkind.to_le hfound.le) rfl rfl .nil))
    · refine leads_bind (hright g) fun value h hvalue => leads_pure (hmade ?_ (by simp))
      exact .one hp.onLeft (Cst.role_inRole _ _) rfl
        (.token hcolon (.part hkind rfl rfl (.token hfound (.part hvalue rfl rfl .nil))))
  · split
    · refine leads_bind hleft ?_
      rintro _ _ ⟨rfl, p, rfl, hp⟩
      refine leads_bind (reads_mark hx _) fun op e hop => ?_
      refine leads_bind (hright e) fun value f hvalue => leads_pure ?_
      exact lays_operation .augmentedAssignment (hp.mono fun _ => Aimed.toFormed) hop hvalue rfl
        (fun _ h => h) rfl fun _ => rfl
    · exact leads_pure hitems
  · exact leads_pure hitems

section

variable (hnested : Sound s nested)

include hnested

theorem reads_rightSide (n : Nat) : Reads s Formed (rightSide nested n) := by
  -- On how deep assignments nest on the right: each is read with the reader of a level less.
  induction n with
  | zero => exact fun _ => leads_refuseHere
  | succ n ih =>
    refine fun c => leads_peek fun x _ => ?_
    split
    · exact reads_yieldExpression hnested operand lineEnd c
    · refine leads_bind (reads_expressionItems hnested _ _) fun items d hitems => ?_
      refine leads_bind (reads_assignment hnested ih hitems) fun found e hfound => ?_
      split
      · exact leads_pure hfound
      · exact leads_pure (lays_asExpressionList hfound)

theorem reads_expressionStatement (here : Expect) :
    Reads s Formed (expressionStatement nested here) := by
  refine fun c => leads_peek fun x _ => ?_
  split
  · exact leads_bind (reads_yieldExpression hnested here lineEnd c) fun value d hvalue =>
      leads_pure ((hvalue.under .expressionStatement).node rfl trivial rfl)
  · refine leads_bind (reads_expressionItems hnested _ _) fun items d hitems => leads_source ?_
    refine leads_bind (reads_assignment hnested (reads_rightSide hnested _) hitems)
      fun found e hfound => ?_
    split
    · exact leads_pure ((Lays.under .expressionStatement hfound).node rfl trivial rfl)
    · exact leads_pure (Items.made hfound rfl trivial rfl)

end

theorem reads_whole {r : Reader Cst} (h : Reads s Formed r) : Reads s Formed (whole r) := by
  refine fun c => leads_bind (h c) fun t d ht => leads_look ?_ fun _ => leads_pure ht
  refine looks_bind looks_peek fun x => ?_
  split
  · exact looks_pure
  · exact fun _ _ _ _ h => by cases h

/-! ### Imports -/

/-- A module's path: names with points between them. -/
theorem reads_dotted {first : Cst} (hfirst : Lays s (FormedAs .identifier) lo [first] (c.row s))
    (follow : Expect) :
    Leads s c (Cst.join .dottedName <$> separated "." follow (pure true) (name plain) [first])
      (Reaches s (FormedAs .dottedName) lo) := by
  refine leads_map (reads_separated (hfirst.mono fun _ => Or.inl) looks_always (fun _ => Or.inr)
    ((reads_name plain).mono fun _ => Or.inl)) ?_
  rintro _ d ⟨⟨rest, rfl⟩, hitems⟩
  have hloose : Lays s Loose lo ([first] ++ rest) (d.row s) :=
    hitems.mono fun t ht => ht.elim (·.toLoose) (·.toLoose)
  refine (hloose.under .dottedName).made rfl (fun t ht => ?_) rfl
  obtain ⟨hmem, hproper⟩ := List.mem_filter.mp ht
  rcases hitems.all t hmem with hname | hmark
  · exact hname.kind
  · rw [hmark.improper] at hproper
    cases hproper

/-- What stands in the list of an import: marks, and modules in the role of a name. -/
abbrev IsImported : Cst → Prop := Occupies .importStatement (.several .name)

theorem reads_imported (follow : Expect) : Reads s IsImported (imported follow) := by
  refine fun c => leads_bind (reads_name plain c) fun first d hfirst => ?_
  refine leads_bind (reads_dotted hfirst follow) fun called e hcalled => ?_
  refine leads_bind (reads_word? follow "as") fun found f hfound => ?_
  split
  · exact leads_pure ((hcalled.occupies rfl rfl).to_le hfound.le)
  · next as_ =>
    refine leads_bind (reads_name plain f) fun other g hother => leads_pure ?_
    have hfilled : Filled s .aliasedImport [.only .name .dottedName, .single .alias] (c.row s)
        [called.inRole .name, as_, other.inRole .alias] (g.row s) :=
      .only hcalled rfl (.token hfound (.part hother rfl rfl .nil))
    exact (hfilled.made (by simp) (by decide) id rfl rfl).occupies rfl rfl

theorem reads_importList (follow : Expect) :
    Leads s c (importList follow)
      fun cs d => cs ≠ [] ∧ ReachAll s IsImported (c.row s) cs d := by
  refine leads_bind (reads_imported follow c) fun first d hfirst => ?_
  refine leads_mono (reads_separated hfirst (looks_bind looks_peek fun x => ?_)
    (fun _ => Mark.occupies) (reads_imported follow)) ?_
  · split <;> exact looks_pure
  · rintro _ e ⟨⟨rest, rfl⟩, hitems⟩
    exact ⟨by simp, hitems⟩

theorem reads_importPoints : Leads s c importPoints (ReachAll s Mark (c.row s)) := by
  refine leads_iterate (ReachAll s Mark (c.row s)) .none fun read d hread => ?_
  refine leads_peek fun x hx => ?_
  split
  · have hpoint : Lexeme.Ahead { x with token := .sign ".", stop := x.start + 1 } d :=
      ⟨hx.1, Nat.le_succ _⟩
    exact leads_bind (reads_mark hpoint ".") fun point e hpoint => leads_pure (hread.append hpoint)
  · exact leads_pure hread

theorem reads_importTail (all : Bool) :
    Leads s c (importTail all) fun cs d => Lies s (c.row s) cs (d.row s) := by
  refine leads_peek fun x hx => ?_
  split
  · split
    · exact leads_bind (reads_mark hx "*") fun star d hstar =>
        leads_pure (hstar.lies.joined rfl)
    · exact leads_refuse
  · refine leads_bind (reads_mark hx "(") fun open_ d hopen => ?_
    refine leads_bind (reads_importList closing) fun items e ⟨_, hitems⟩ => ?_
    refine leads_bind (reads_sign closing ")" e) fun close f hclose => leads_pure ?_
    exact (hopen.lies.append hitems.lies).append hclose.lies
  · exact leads_mono (reads_importList lineEnd) fun _ _ h => h.2.lies

theorem reads_importFrom (hx : x.Ahead c) :
    Leads s c (importFrom x) (Reaches s Formed (c.row s)) := by
  refine leads_bind (reads_mark hx "from") fun head d hhead => leads_peek fun y hy => ?_
  split
  · refine leads_bind (reads_mark hy "__future__") fun future e hfuture => ?_
    refine leads_bind (reads_word plain "import" e) fun import_ f himport => ?_
    refine leads_bind (reads_importTail false) fun items g hitems => leads_pure ?_
    have hchildren : Lays s (Child .futureImportStatement) (d.row s)
        ([future, import_] ++ items) (g.row s) :=
      ((hfuture.lies.append himport.lies).append hitems).anyChild rfl rfl
    exact (hhead.child.append hchildren).node rfl trivial rfl
  · refine leads_bind reads_importPoints fun points e hpoints => ?_
    extract_lets rest
    have hrest : ∀ (base : Cst) (f : Cursor), Lies s (d.row s) [base] (f.row s) →
        Leads s f (rest base) (Reaches s Formed (c.row s)) := by
      intro base f hbase
      refine leads_bind (reads_word plain "import" f) fun import_ g himport => ?_
      refine leads_bind (reads_importTail true) fun items h hitems => leads_pure ?_
      have hchildren : Lays s (Child .importFromStatement) (d.row s)
          ([base.inRole .moduleName, import_] ++ items) (h.row s) :=
        (((lies_inRole hbase).append himport.lies).append hitems).anyChild rfl rfl
      exact (hhead.child.append hchildren).node rfl trivial rfl
    split
    · refine leads_bind (reads_name plain e) fun first f hfirst => ?_
      exact leads_bind (reads_dotted (hfirst.from_le hpoints.le) plain) fun base g hbase =>
        hrest base g hbase.lies
    · next hne =>
      have hpoint : Lies s (d.row s) [Cst.join .importPrefix points] (e.row s) :=
        hpoints.lies.join (fun heq => hne (by simp [heq])) rfl trivial
      refine leads_peek fun z _ => ?_
      split
      · split
        · refine leads_bind (reads_name plain e) fun first f hfirst => ?_
          refine leads_bind (reads_dotted hfirst plain) fun called g hcalled => ?_
          exact hrest _ g ((hpoint.append hcalled.lies).joined rfl)
        · exact hrest _ e (hpoint.joined rfl)
      · exact hrest _ e (hpoint.joined rfl)

/-! ### Statements of one word and more -/

theorem reads_nameList (hx : x.Ahead c) (w : String) {tag : Tag} (hfits : ∀ cs, tag.Fits cs)
    (hproper : (tag.isNamed && !tag.isExtra) = true) (horders : ∀ cs, tag.orders cs = true) :
    Leads s c (nameList x w tag) (Reaches s Formed (c.row s)) := by
  refine leads_bind (reads_mark hx w) fun head d hhead => ?_
  refine leads_bind (reads_name plain d) fun first e hfirst => ?_
  refine leads_bind (reads_items hfirst.formed looks_always
    ((reads_name plain).mono fun _ => FormedAs.toFormed)) fun items f hitems => ?_
  exact leads_pure ((hhead.child.append hitems.child).node hproper (hfits _) (horders _))

section

variable (hnested : Sound s nested)

include hnested

theorem reads_printStatement (here : Expect) : Reads s Formed (printStatement nested here) := by
  refine fun c => leads_bind (reads_word here "print" c) fun head d hhead => ?_
  extract_lets argument more
  have hargument : ∀ e, Reads s (Child .printStatement) (argument e) := fun e c =>
    leads_map (hnested _ _ _ c) fun _ _ ht => ht.inRole rfl
  have hmark : ∀ t, Mark t → Child .printStatement t := fun _ ht => ht.child
  have hmore : Looks more := looks_map looks_peek
  refine leads_peek fun x hx => ?_
  split
  · refine leads_bind (reads_mark hx ">>") fun into e hinto => ?_
    refine leads_bind (hnested _ _ _ e) fun file f hfile => ?_
    refine leads_bind (reads_separated .none hmore hmark (hargument _)) fun rest g ⟨_, hrest⟩ => ?_
    have hchevron := ((hinto.under .chevron).append hfile.child).node rfl trivial rfl
    exact leads_pure ((hhead.child.append hchevron.child |>.append hrest).node rfl trivial rfl)
  · refine leads_bind (hargument _ d) fun first e hfirst => ?_
    refine leads_bind (reads_separated hfirst hmore hmark (hargument _))
      fun items f ⟨_, hitems⟩ => ?_
    exact leads_pure ((hhead.child.append hitems).node rfl trivial rfl)

theorem reads_execStatement (hx : x.Ahead c) :
    Leads s c (execStatement nested x) (Reaches s Formed (c.row s)) := by
  refine leads_bind (reads_mark hx "exec") fun head d hhead => leads_peek fun y hy => ?_
  extract_lets rest
  have hrest : ∀ (code : Cst) (e : Cursor), Lays s Formed (d.row s) [code] (e.row s) →
      Leads s e (rest code) (Reaches s Formed (c.row s)) := by
    intro code e hcode
    have hstart : Lays s (Child .execStatement) (c.row s) [head, code.inRole .code] (e.row s) :=
      hhead.child.append (hcode.inRole rfl)
    refine leads_bind (reads_word? lineEnd "in") fun found f hfound => ?_
    split
    · exact leads_pure ((hstart.to_le hfound.le).node rfl trivial rfl)
    · refine leads_bind (hnested _ _ _ f) fun first g hfirst => ?_
      refine leads_bind (reads_items hfirst looks_always (hnested _ _ _))
        fun items h hitems => leads_pure ?_
      exact ((hstart.append hfound.child).append hitems.child).node rfl trivial rfl
  split
  · exact leads_bind (reads_simpleString hnested hy) fun code e hcode => hrest code e hcode.formed
  · exact leads_bind (reads_name _ d) fun code e hcode => hrest code e hcode.formed

theorem reads_typeAlias (here : Expect) : Reads s Formed (typeAlias nested here) := by
  refine fun c => leads_bind (reads_word here "type" c) fun head d hhead => ?_
  refine leads_bind (hnested _ _ _ d) fun left e hleft => ?_
  refine leads_bind (reads_sign plain "=" e) fun equals f hequals => ?_
  refine leads_bind (hnested _ _ _ f) fun right g hright => leads_pure ?_
  exact ((((hhead.under .typeAliasStatement).append (hleft.inRole rfl)).append
    hequals.child).append (hright.inRole rfl)).node rfl trivial rfl

theorem reads_optionalExpressions :
    Leads s c (optionalExpressions nested) (ReachAll s Formed (c.row s)) := by
  refine leads_peek fun x _ => ?_
  split
  · exact leads_bind (reads_expressions hnested _ _ c) fun value d hvalue => leads_pure hvalue
  · exact leads_pure .none

theorem reads_simpleStatement (here : Expect) : Reads s Formed (simpleStatement nested here) := by
  refine fun c => leads_peek fun x hx => ?_
  have hexpression := reads_expressionStatement hnested here
  split
  · refine leads_bind (reads_mark hx "import") fun head d hhead => ?_
    refine leads_bind (reads_importList lineEnd) fun items e ⟨_, hitems⟩ => leads_pure ?_
    have hfilled : Filled s .importStatement [.several .name] (c.row s)
        (head :: (items ++ [])) (e.row s) := .token hhead (.parts rfl hitems .nil)
    simpa using (hfilled.made (by simp) (by decide) id rfl rfl).formed
  · exact reads_importFrom hx
  · exact leads_orElse (reads_whole hexpression c) (reads_printStatement hnested here c)
  · refine leads_peekPast fun y _ => ?_
    split
    · exact reads_execStatement hnested hx
    · split
      · exact reads_execStatement hnested hx
      · exact hexpression c
    · exact hexpression c
  · exact leads_orElse (reads_whole (reads_typeAlias hnested here) c) (hexpression c)
  · refine leads_bind (reads_mark hx "assert") fun head d hhead => ?_
    refine leads_bind (hnested _ _ _ d) fun first e hfirst => ?_
    refine leads_bind (reads_items hfirst looks_always (hnested _ _ _)) fun items f hitems => ?_
    exact leads_pure (((hhead.under .assertStatement).append hitems.child).node rfl trivial rfl)
  · refine leads_bind (reads_mark hx "return") fun head d hhead => ?_
    refine leads_bind (reads_optionalExpressions hnested) fun values e hvalues => leads_pure ?_
    exact ((hhead.under .returnStatement).append hvalues.child).node rfl trivial rfl
  · refine leads_bind (reads_mark hx "del") fun head d hhead => ?_
    refine leads_bind (reads_expressions hnested _ _ d) fun value e hvalue => leads_pure ?_
    exact ((hhead.under .deleteStatement).append hvalue.child).node rfl trivial rfl
  · refine leads_bind (reads_mark hx "raise") fun head d hhead => ?_
    refine leads_bind (reads_optionalExpressions hnested) fun values e hvalues => ?_
    have hstart := (hhead.under .raiseStatement).append hvalues.child
    refine leads_bind (reads_word? lineEnd "from") fun found f hfound => ?_
    split
    · exact leads_pure ((hstart.to_le hfound.le).node rfl trivial rfl)
    · refine leads_bind (hnested _ _ _ f) fun cause g hcause => leads_pure ?_
      exact (hstart.append (hfound.child.append (hcause.inRole rfl))).node rfl trivial rfl
  · exact leads_bind (reads_mark hx "pass") fun head d hhead =>
      leads_pure ((hhead.under .passStatement).node rfl hhead.one.bare rfl)
  · exact leads_bind (reads_mark hx "break") fun head d hhead =>
      leads_pure ((hhead.under .breakStatement).node rfl trivial rfl)
  · exact leads_bind (reads_mark hx "continue") fun head d hhead =>
      leads_pure ((hhead.under .continueStatement).node rfl trivial rfl)
  · exact reads_nameList hx _ (fun _ => trivial) rfl fun _ => rfl
  · exact reads_nameList hx _ (fun _ => trivial) rfl fun _ => rfl
  · exact hexpression c

theorem reads_simpleStatements (here : Expect) :
    ReadsAll s Loose (simpleStatements nested here) := by
  refine fun c => leads_bind (reads_simpleStatement hnested here c) fun first d hfirst => ?_
  refine leads_iterate (ReachAll s Loose (c.row s)) hfirst.loose fun read d hread => ?_
  refine leads_peek fun x hx => ?_
  split
  · exact leads_bind (leads_pass hx) fun _ e hpass => leads_pure (hread.to_le hpass)
  · refine leads_bind (reads_mark hx ";") fun mark e hmark => leads_peek fun y hy => ?_
    have hread := hread.append hmark.loose
    split
    · exact leads_bind (leads_pass hy) fun _ f hpass => leads_pure (hread.to_le hpass)
    · refine leads_bind (reads_simpleStatement hnested _ e) fun next f hnext => leads_pure ?_
      simpa using hread.append hnext.loose
  · exact leads_refuse

end

end

end Gatehouse.Grammar
