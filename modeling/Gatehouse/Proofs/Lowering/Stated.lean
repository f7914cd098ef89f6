import Gatehouse.Proofs.Lowering.Expressed

/-!
What a statement is lowered to, kind by kind: the node, what its parts are lowered to, and what is made
of its blocks and branches. Whatever holds of all lowered statements is shown of these kinds.
-/
namespace Gatehouse.Lowering

open Gatehouse.Tree

section

variable (s : Source) (lower : Cst → Kind → Result Tree) (block : Cst → Result (List Tree))

/-- What an import names: a path, or a path with the name that it is bound to. -/
inductive Aliased (c : Cst) : Tree → Prop
  | path {name : String} (htag : c.tag = .dottedName) (hname : text s c = .ok name) :
      Aliased c (.named .alias c.line name [])
  | renamed {path : Cst} {name : String} {bound : Tree} (htag : c.tag = .aliasedImport)
      (hpath : c.child? .name = some path) (hname : text s path = .ok name)
      (hbound : LowersIn lower .alias .store c bound) :
      Aliased c (.named .alias c.line name [bound])

inductive Assigned (c : Cst) (line : Nat) : Tree → Prop
  | declared {target note : Tree} {value : List Tree} (hannotated : c.isAnnotated = true)
      (htarget : LowersIn lower .left .store c target)
      (hnote : LowersIn lower .typeHint .load c note)
      (hvalue : List.Forall₂ (fun d u => lower d .load = .ok u) (c.child? .right).toList value) :
      Assigned c line (.branch .annAssign line (target :: note :: value))
  | chained {targets : List Tree} {value : Tree} (hannotated : c.isAnnotated = false)
      (h : Chained lower c targets value) :
      Assigned c line (.branch .assign line (targets ++ [value]))

/-- One context of a `with`, which may be bound to a target. -/
inductive IsContextOf (c : Cst) : Tree → Prop
  | bound {value : Cst} {contexts targets : List Tree} (hvalue : c.child? .value = some value)
      (htag : value.tag = .asPattern)
      (hcontexts : lowerAll lower .load (value.proper.take 1) = .ok contexts)
      (htargets : lowerAll lower .store (value.child? .alias).toList = .ok targets) :
      IsContextOf c (.branch .withItem c.line (contexts ++ targets))
  | plain {value : Cst} {t : Tree} (hvalue : c.child? .value = some value)
      (htag : value.tag ≠ .asPattern) (ht : lower value .load = .ok t) :
      IsContextOf c (.branch .withItem c.line [t])

/-- What a handler has under it: the statements of a block, or a value. -/
inductive IsHandlerPart (c : Cst) : List Tree → Prop
  | block {ts : List Tree} (htag : c.tag = .block) (hts : block c = .ok ts) : IsHandlerPart c ts
  | value {t : Tree} (htag : c.tag ≠ .block) (ht : lower c .load = .ok t) : IsHandlerPart c [t]

/-- What a child of a `try` adds to it: a handler, the statements of its blocks, or nothing. -/
inductive IsTryClause (c : Cst) : List Tree → Prop
  | handler {rows : List (List Tree)} (htag : c.tag = .exceptClause)
      (hrows : List.Forall₂ (IsHandlerPart lower block) c.proper rows) :
      IsTryClause c [.branch .exceptHandler c.line rows.flatten]
  | blocks {rows : List (List Tree)} (htag : c.tag = .elseClause ∨ c.tag = .finallyClause)
      (hrows : List.Forall₂ (fun b ts => block b = .ok ts) (c.proper.filter (·.tag == .block)) rows) :
      IsTryClause c rows.flatten
  | other (htag : c.tag ≠ .exceptClause ∧ c.tag ≠ .elseClause ∧ c.tag ≠ .finallyClause) :
      IsTryClause c []

def AreBases (list : Option Cst) (ts : List Tree) : Prop :=
  match list with
  | some c => AreArguments s lower c ts
  | none => ts = []

/-- A function or a class with the decorators given. -/
inductive Defined (c : Cst) (ds : List Tree) : Tree → Prop
  | function {called : Cst} {name : String} {given : Tree} {statements returned : List Tree}
      (htag : c.tag = .functionDefinition) (hcalled : c.child? .name = some called)
      (hname : text s called = .ok name)
      (hgiven : parameters s lower (c.child? .parameters) c.line = .ok given)
      (hstatements : body block c .body = .ok statements)
      (hreturned : lowerAll lower .load (c.child? .returnType).toList = .ok returned) :
      Defined c ds (.node (if c.hasToken "async" then .asyncFunctionDef else .functionDef) c.line
        (some name) ds ([given] ++ statements ++ returned))
  | classNode {called : Cst} {name : String} {bases statements : List Tree}
      (htag : c.tag = .classDefinition) (hcalled : c.child? .name = some called)
      (hname : text s called = .ok name) (hbases : AreBases s lower (c.child? .superclasses) bases)
      (hstatements : body block c .body = .ok statements) :
      Defined c ds (.node .classDef c.line (some name) ds (bases ++ statements))

variable (branches : List Cst → Result (List Tree))

inductive Stated (c : Cst) : Tree → Prop
  | assigned {d : Cst} {t : Tree} (htag : c.tag = .expressionStatement) (hproper : c.proper = [d])
      (hd : d.tag = .assignment) (h : Assigned lower d c.line t) : Stated c t
  | combined {d op : Cst} {kind : Kind} {target value : Tree} (htag : c.tag = .expressionStatement)
      (hproper : c.proper = [d]) (hd : d.tag = .augmentedAssignment)
      (hop : d.child? .operator = some op)
      (hkind : binaryKind? (augmentedSign op.tag.name) = some kind)
      (htarget : LowersIn lower .left .store d target)
      (hvalue : LowersIn lower .right .load d value) :
      Stated c (.branch .augAssign c.line [target, .leaf kind c.line, value])
  | value {d : Cst} {t : Tree} (htag : c.tag = .expressionStatement) (hproper : c.proper = [d])
      (hd : d.tag ≠ .assignment ∧ d.tag ≠ .augmentedAssignment) (ht : lower d .load = .ok t) :
      Stated c (.branch .expr c.line [t])
  | values {ts : List Tree} (htag : c.tag = .expressionStatement) (hproper : c.proper.length ≠ 1)
      (hts : lowerAll lower .load c.proper = .ok ts) :
      Stated c (.branch .expr c.line [inContext .tuple c.line ts .load])
  | printed {d : Cst} {ts : List Tree} (htag : c.tag = .printStatement) (hproper : c.proper = [d])
      (hd : d.tag = .parenthesizedExpression ∨ d.tag = .tuple)
      (hts : lowerAll lower .load d.proper = .ok ts) :
      Stated c (.branch .expr c.line
        [.branch .call c.line (.named .name c.line "print" [.leaf .load c.line] :: ts)])
  | returned {ts : List Tree} (htag : c.tag = .returnStatement)
      (hts : lowerAll lower .load c.proper = .ok ts) : Stated c (.branch .returnValue c.line ts)
  | asserted {ts : List Tree} (htag : c.tag = .assertStatement)
      (hts : lowerAll lower .load c.proper = .ok ts) : Stated c (.branch .assert c.line ts)
  | raised {ts : List Tree} (htag : c.tag = .raiseStatement)
      (hts : lowerAll lower .load c.proper = .ok ts) : Stated c (.branch .raise c.line ts)
  | globals {ts : List Tree} (htag : c.tag = .globalStatement)
      (hts : lowerAll lower .store c.proper = .ok ts) : Stated c (.branch .globalNames c.line ts)
  | nonlocals {ts : List Tree} (htag : c.tag = .nonlocalStatement)
      (hts : lowerAll lower .store c.proper = .ok ts) : Stated c (.branch .nonlocalNames c.line ts)
  | deletion {rows : List (List Tree)} (htag : c.tag = .deleteStatement)
      (hrows : List.Forall₂ (fun d ts => deleted lower d = .ok ts) c.proper rows) :
      Stated c (.branch .delete c.line rows.flatten)
  | selection {ts : List Tree} (htag : c.tag = .matchStatement)
      (hts : lowerAll lower .load (c.childrenIn .subject) = .ok ts) :
      Stated c (.branch .matchCases c.line ts)
  | pass (htag : c.tag = .passStatement) : Stated c (.leaf .pass c.line)
  | breakLoop (htag : c.tag = .breakStatement) : Stated c (.leaf .breakLoop c.line)
  | continueLoop (htag : c.tag = .continueStatement) : Stated c (.leaf .continueLoop c.line)
  | typeAlias (htag : c.tag = .typeAliasStatement) : Stated c (.leaf .typeAlias c.line)
  | imports {names : List Tree} (htag : c.tag = .importStatement)
      (hnames : List.Forall₂ (Aliased s lower) (c.childrenIn .name) names) :
      Stated c (.branch .importModule c.line names)
  | importsFrom {path : Cst} {base : String} {names : List Tree} (htag : c.tag = .importFromStatement)
      (hpath : c.child? .moduleName = some path) (hbase : text s path = .ok base)
      (hnames : List.Forall₂ (Aliased s lower) (c.childrenIn .name) names) :
      Stated c (.named .importFrom c.line base (names
        ++ if c.proper.any (·.tag == .wildcardImport) then [.named .alias c.line "*" []] else []))
  | futureImports {names : List Tree} (htag : c.tag = .futureImportStatement)
      (hnames : List.Forall₂ (Aliased s lower) (c.childrenIn .name) names) :
      Stated c (.named .importFrom c.line "__future__" names)
  | choice {condition : Tree} {statements others : List Tree} (htag : c.tag = .ifStatement)
      (hcondition : LowersIn lower .condition .load c condition)
      (hstatements : body block c .consequence = .ok statements)
      (hothers : branches (c.childrenIn .alternative) = .ok others) :
      Stated c (.branch .ifElse c.line (condition :: statements ++ others))
  | forLoop {target values : Tree} {statements others : List Tree} (htag : c.tag = .forStatement)
      (htarget : LowersIn lower .left .store c target)
      (hvalues : LowersIn lower .right .load c values)
      (hstatements : body block c .body = .ok statements) (hothers : otherwise block c = .ok others) :
      Stated c (.branch (if c.hasToken "async" then .asyncForEach else .forEach) c.line
        ([target, values] ++ statements ++ others))
  | whileLoop {condition : Tree} {statements others : List Tree} (htag : c.tag = .whileStatement)
      (hcondition : LowersIn lower .condition .load c condition)
      (hstatements : body block c .body = .ok statements) (hothers : otherwise block c = .ok others) :
      Stated c (.branch .whileLoop c.line ([condition] ++ statements ++ others))
  | defined {t : Tree} (h : Defined s lower block c [] t) : Stated c t
  | decorated {d : Cst} {ds : List Tree} {t : Tree} (htag : c.tag = .decoratedDefinition)
      (hds : List.Forall₂ (LowersFirst lower .load) (c.proper.filter (·.tag == .decorator)) ds)
      (hd : c.child? .definition = some d) (h : Defined s lower block d ds t) : Stated c t
  | attempt {statements : List Tree} {rows : List (List Tree)} (htag : c.tag = .tryStatement)
      (hstatements : body block c .body = .ok statements)
      (hrows : List.Forall₂ (IsTryClause lower block) c.proper rows) :
      Stated c (.branch .tryExcept c.line (statements ++ rows.flatten))
  | withBlock {items statements : List Tree} (htag : c.tag = .withStatement)
      (hitems : List.Forall₂ (IsContextOf lower)
        ((c.proper.filter (·.tag == .withClause)).flatMap Cst.proper) items)
      (hstatements : body block c .body = .ok statements) :
      Stated c (.branch (if c.hasToken "async" then .asyncWithBlock else .withBlock) c.line
        (items ++ statements))

end

section

variable {s : Source} {lower : Cst → Kind → Result Tree} {block : Cst → Result (List Tree)}
  {branches : List Cst → Result (List Tree)} {c : Cst} {t : Tree} {ts ds : List Tree} {line : Nat}

/-! ### Parts of statements -/

theorem aliased_of_importAlias (h : importAlias s lower c = .ok t) : Aliased s lower c t := by
  unfold importAlias at h
  split at h
  · next htag =>
    simp only [bind_eq_ok, pure_eq_ok] at h
    obtain ⟨name, hname, rfl⟩ := h
    exact .path htag hname
  · next htag =>
    simp only [bind_eq_ok, pure_eq_ok, required_eq_ok] at h
    obtain ⟨path, hpath, name, hname, other, hother, bound, hbound, rfl⟩ := h
    exact .renamed htag hpath hname ⟨other, hother, hbound⟩
  · cases h

theorem aliased_of_mapM {cs : List Cst} (h : cs.mapM (importAlias s lower) = .ok ts) :
    List.Forall₂ (Aliased s lower) cs ts :=
  (forall₂_of_mapM h).imp fun _ _ => aliased_of_importAlias

theorem assigned_of_assignment (htag : c.tag = .assignment) (h : assignment lower c line = .ok t) :
    Assigned lower c line t := by
  cases hannotated : c.isAnnotated with
  | true =>
    obtain ⟨target, note, value, rfl, htarget, hnote, hvalue⟩ := declared_of_assignment hannotated h
    exact .declared hannotated htarget hnote hvalue
  | false =>
    obtain ⟨targets, value, rfl, hchained⟩ := chained_of_assignment htag hannotated h
    exact .chained hannotated hchained

theorem isContextOf_of_withItem (h : withItem lower c = .ok t) : IsContextOf lower c t := by
  unfold withItem at h
  obtain ⟨value, hvalue, h⟩ := bind_eq_ok.mp h
  rw [required_eq_ok] at hvalue
  split at h
  · next htag =>
    simp only [bind_eq_ok, pure_eq_ok] at h
    obtain ⟨contexts, hcontexts, targets, htargets, rfl⟩ := h
    exact .bound hvalue htag hcontexts htargets
  · next htag =>
    simp only [bind_eq_ok, pure_eq_ok] at h
    obtain ⟨u, hu, rfl⟩ := h
    exact .plain hvalue htag hu

theorem isHandlerPart_of_handlerPart (h : handlerPart lower block c = .ok ts) :
    IsHandlerPart lower block c ts := by
  unfold handlerPart at h
  split at h
  · next htag => exact .block htag h
  · next htag =>
    simp only [bind_eq_ok, pure_eq_ok] at h
    obtain ⟨u, hu, rfl⟩ := h
    exact .value htag hu

theorem isTryClause_of_tryClause (h : tryClause lower block c = .ok ts) :
    IsTryClause lower block c ts := by
  unfold tryClause at h
  split at h
  case h_1 htag =>
    simp only [bind_eq_ok, pure_eq_ok] at h
    obtain ⟨rows, hrows, rfl⟩ := h
    exact .handler htag ((forall₂_of_mapM hrows).imp fun _ _ => isHandlerPart_of_handlerPart)
  case h_2 htag | h_3 htag =>
    simp only [bind_eq_ok, pure_eq_ok] at h
    obtain ⟨rows, hrows, rfl⟩ := h
    exact .blocks (by simp [htag]) (forall₂_of_mapM hrows)
  case h_4 hexcept helse hfinally =>
    obtain rfl := Except.ok.inj h
    exact .other ⟨hexcept, helse, hfinally⟩

theorem defined_of_function (htag : c.tag = .functionDefinition)
    (h : function s lower block c ds = .ok t) : Defined s lower block c ds t := by
  simp only [function, bind_eq_ok, pure_eq_ok, required_eq_ok] at h
  obtain ⟨called, hcalled, name, hname, given, hgiven, statements, hstatements, returned, hreturned,
    rfl⟩ := h
  exact .function htag hcalled hname hgiven hstatements hreturned

theorem defined_of_classNode (htag : c.tag = .classDefinition)
    (h : classNode s lower block c ds = .ok t) : Defined s lower block c ds t := by
  unfold classNode at h
  simp only [bind_eq_ok, required_eq_ok] at h
  obtain ⟨called, hcalled, name, hname, h⟩ := h
  split at h
  · next given hgiven =>
    simp only [bind_eq_ok, pure_eq_ok] at h
    obtain ⟨bases, hbases, statements, hstatements, rfl⟩ := h
    have hall : AreBases s lower (c.child? .superclasses) bases := by
      rw [hgiven]
      exact areArguments_of_arguments hbases
    exact .classNode htag hcalled hname hall hstatements
  · next hnone =>
    simp only [bind_eq_ok, pure_eq_ok] at h
    obtain ⟨_, rfl, statements, hstatements, rfl⟩ := h
    have hall : AreBases s lower (c.child? .superclasses) [] := by
      rw [hnone]
      rfl
    exact .classNode htag hcalled hname hall hstatements

theorem stated_of_expressionStatement (htag : c.tag = .expressionStatement)
    (h : expressionStatement lower c = .ok t) : Stated s lower block branches c t := by
  unfold expressionStatement at h
  dsimp only at h
  split at h
  · next d hproper =>
    split at h
    · next hd => exact .assigned htag hproper hd (assigned_of_assignment hd h)
    · next hassignment =>
      split at h
      · next hd =>
        simp only [augmentedAssignment, bind_eq_ok, pure_eq_ok, required_eq_ok] at h
        obtain ⟨op, hop, kind, hkind, left, hleft, target, htarget, right, hright, value, hvalue,
          rfl⟩ := h
        exact .combined htag hproper hd hop (operatorOf_eq_ok hkind) ⟨left, hleft, htarget⟩
          ⟨right, hright, hvalue⟩
      · next hcombined =>
        simp only [bind_eq_ok, pure_eq_ok] at h
        obtain ⟨value, hvalue, rfl⟩ := h
        exact .value htag hproper ⟨hassignment, hcombined⟩ hvalue
  · next hmany =>
    simp only [bind_eq_ok, pure_eq_ok] at h
    obtain ⟨ts, hts, rfl⟩ := h
    refine .values htag (fun hone => ?_) hts
    obtain ⟨d, hd⟩ := List.length_eq_one_iff.mp hone
    exact hmany d hd

theorem stated_of_printStatement (htag : c.tag = .printStatement)
    (h : printStatement s lower c = .ok t) : Stated s lower block branches c t := by
  unfold printStatement at h
  split at h
  · next d hproper =>
    split at h
    · next hd =>
      obtain ⟨spelling, -, h⟩ := bind_eq_ok.mp h
      split at h
      · simp only [bind_eq_ok, pure_eq_ok] at h
        obtain ⟨ts, hts, rfl⟩ := h
        exact .printed htag hproper hd hts
      · cases h
    · cases h
  · cases h

/-! ### All statements -/

theorem stated (h : statementNode s lower block branches c = .ok t) :
    Stated s lower block branches c t := by
  cases htag : c.tag
  case expressionStatement =>
    simp only [statementNode, htag] at h
    exact stated_of_expressionStatement htag h
  case printStatement =>
    simp only [statementNode, htag] at h
    exact stated_of_printStatement htag h
  case returnStatement =>
    simp only [statementNode, htag, bind_eq_ok, pure_eq_ok] at h
    obtain ⟨ts, hts, rfl⟩ := h
    exact .returned htag hts
  case assertStatement =>
    simp only [statementNode, htag, bind_eq_ok, pure_eq_ok] at h
    obtain ⟨ts, hts, rfl⟩ := h
    exact .asserted htag hts
  case raiseStatement =>
    simp only [statementNode, htag, bind_eq_ok, pure_eq_ok] at h
    obtain ⟨ts, hts, rfl⟩ := h
    exact .raised htag hts
  case globalStatement =>
    simp only [statementNode, htag, bind_eq_ok, pure_eq_ok] at h
    obtain ⟨ts, hts, rfl⟩ := h
    exact .globals htag hts
  case nonlocalStatement =>
    simp only [statementNode, htag, bind_eq_ok, pure_eq_ok] at h
    obtain ⟨ts, hts, rfl⟩ := h
    exact .nonlocals htag hts
  case deleteStatement =>
    simp only [statementNode, htag, bind_eq_ok, pure_eq_ok] at h
    obtain ⟨rows, hrows, rfl⟩ := h
    exact .deletion htag (forall₂_of_mapM hrows)
  case matchStatement =>
    simp only [statementNode, htag, bind_eq_ok, pure_eq_ok] at h
    obtain ⟨ts, hts, rfl⟩ := h
    exact .selection htag hts
  case passStatement =>
    simp only [statementNode, htag, pure_eq_ok] at h
    exact h ▸ .pass htag
  case breakStatement =>
    simp only [statementNode, htag, pure_eq_ok] at h
    exact h ▸ .breakLoop htag
  case continueStatement =>
    simp only [statementNode, htag, pure_eq_ok] at h
    exact h ▸ .continueLoop htag
  case typeAliasStatement =>
    simp only [statementNode, htag, pure_eq_ok] at h
    exact h ▸ .typeAlias htag
  case importStatement =>
    simp only [statementNode, htag, bind_eq_ok, pure_eq_ok] at h
    obtain ⟨names, hnames, rfl⟩ := h
    exact .imports htag (aliased_of_mapM hnames)
  case importFromStatement =>
    simp only [statementNode, htag, bind_eq_ok, pure_eq_ok, required_eq_ok] at h
    obtain ⟨path, hpath, base, hbase, names, hnames, rfl⟩ := h
    exact .importsFrom htag hpath hbase (aliased_of_mapM hnames)
  case futureImportStatement =>
    simp only [statementNode, htag, bind_eq_ok, pure_eq_ok] at h
    obtain ⟨names, hnames, rfl⟩ := h
    exact .futureImports htag (aliased_of_mapM hnames)
  case ifStatement =>
    simp only [statementNode, htag, bind_eq_ok, pure_eq_ok, required_eq_ok] at h
    obtain ⟨test, htest, condition, hcondition, statements, hstatements, others, hothers, rfl⟩ := h
    exact .choice htag ⟨test, htest, hcondition⟩ hstatements hothers
  case forStatement =>
    simp only [statementNode, htag, bind_eq_ok, pure_eq_ok, required_eq_ok] at h
    obtain ⟨left, hleft, target, htarget, right, hright, values, hvalues, statements, hstatements,
      others, hothers, rfl⟩ := h
    exact .forLoop htag ⟨left, hleft, htarget⟩ ⟨right, hright, hvalues⟩ hstatements hothers
  case whileStatement =>
    simp only [statementNode, htag, bind_eq_ok, pure_eq_ok, required_eq_ok] at h
    obtain ⟨test, htest, condition, hcondition, statements, hstatements, others, hothers, rfl⟩ := h
    exact .whileLoop htag ⟨test, htest, hcondition⟩ hstatements hothers
  case functionDefinition =>
    simp only [statementNode, htag] at h
    exact .defined (defined_of_function htag h)
  case classDefinition =>
    simp only [statementNode, htag] at h
    exact .defined (defined_of_classNode htag h)
  case decoratedDefinition =>
    simp only [statementNode, htag, bind_eq_ok, required_eq_ok] at h
    obtain ⟨ds, hds, d, hd, h⟩ := h
    have hfirsts := (forall₂_of_mapM hds).imp fun _ _ hu => bind_eq_ok.mp hu
    split at h
    · next hkind => exact .decorated htag hfirsts hd (defined_of_function hkind h)
    · next hkind => exact .decorated htag hfirsts hd (defined_of_classNode hkind h)
    · cases h
  case tryStatement =>
    simp only [statementNode, htag, bind_eq_ok, pure_eq_ok] at h
    obtain ⟨statements, hstatements, rows, hrows, rfl⟩ := h
    exact .attempt htag hstatements
      ((forall₂_of_mapM hrows).imp fun _ _ => isTryClause_of_tryClause)
  case withStatement =>
    simp only [statementNode, htag, bind_eq_ok, pure_eq_ok] at h
    obtain ⟨items, hitems, statements, hstatements, rfl⟩ := h
    exact .withBlock htag ((forall₂_of_mapM hitems).imp fun _ _ => isContextOf_of_withItem)
      hstatements
  all_goals simp [statementNode, htag, unsupported] at h

/-! ### What stands under a statement -/

/-- Some node of a tree, or the tree itself, is lowered to another in one of the contexts. -/
def LowersWithin (lower : Cst → Kind → Result Tree) (c : Cst) (t : Tree) : Prop :=
  ∃ context, context.isContext = true ∧ LowersUnder lower context c t

theorem LowersUnder.within {context : Kind} (h : LowersUnder lower context c t)
    (hcontext : context.isContext = true) : LowersWithin lower c t :=
  ⟨context, hcontext, h⟩

theorem Chained.under {targets : List Tree} {value : Tree} (h : Chained lower c targets value) :
    (∀ t ∈ targets, LowersUnder lower .store c t) ∧ LowersUnder lower .load c value := by
  obtain ⟨htargets, d, hd, hvalue⟩ := h
  exact ⟨forall_of_forall₂ htargets fun link hlink t ht =>
    ht.under.mono (Cst.mem_allNodes_of_mem_links hlink), d, Cst.mem_allNodes_of_chainEnd? hd, hvalue⟩

theorem Assigned.parts (h : Assigned lower c line t) : ∃ kind ts, t = .branch kind line ts
    ∧ (kind = .annAssign ∨ kind = .assign) ∧ ∀ u ∈ ts, LowersWithin lower c u := by
  cases h with
  | declared _ htarget hnote hvalue =>
    have hv := under_of_forall₂ hvalue fun _ hd => Cst.mem_allNodes_of_child? (Option.mem_toList.mp hd)
    exact ⟨_, _, rfl, Or.inl rfl, List.forall_mem_cons.mpr ⟨htarget.under.within rfl,
      List.forall_mem_cons.mpr ⟨hnote.under.within rfl, fun u hu => (hv u hu).within rfl⟩⟩⟩
  | chained _ h =>
    obtain ⟨htargets, hvalue⟩ := h.under
    exact ⟨_, _, rfl, Or.inr rfl, List.forall_mem_append.mpr
      ⟨fun u hu => (htargets u hu).within rfl, List.forall_mem_singleton.mpr (hvalue.within rfl)⟩⟩

theorem Aliased.parts (h : Aliased s lower c t) : ∃ name ts, t = .named .alias c.line name ts
    ∧ ∀ u ∈ ts, LowersWithin lower c u := by
  cases h with
  | path => exact ⟨_, [], rfl, fun u hu => by cases hu⟩
  | renamed _ _ _ hbound =>
    exact ⟨_, _, rfl, List.forall_mem_singleton.mpr (hbound.under.within rfl)⟩

theorem IsContextOf.parts (h : IsContextOf lower c t) : ∃ ts, t = .branch .withItem c.line ts
    ∧ ∀ u ∈ ts, LowersWithin lower c u := by
  cases h with
  | @bound value contexts targets hvalue _ hcontexts htargets =>
    have hmem := Cst.mem_allNodes_of_child? hvalue
    have hfirst : ∀ u ∈ contexts, LowersUnder lower .load value u := under_of_lowerAll hcontexts
      fun _ hd => Cst.mem_allNodes_of_mem_proper (List.mem_of_mem_take hd)
    have hsecond : ∀ u ∈ targets, LowersUnder lower .store value u := under_of_lowerAll htargets
      fun _ hd => Cst.mem_allNodes_of_child? (Option.mem_toList.mp hd)
    exact ⟨_, rfl, List.forall_mem_append.mpr ⟨fun u hu => ((hfirst u hu).mono hmem).within rfl,
      fun u hu => ((hsecond u hu).mono hmem).within rfl⟩⟩
  | plain hvalue _ ht =>
    exact ⟨_, rfl, List.forall_mem_singleton.mpr
      (LowersUnder.within ⟨_, Cst.mem_allNodes_of_child? hvalue, ht⟩ rfl)⟩

theorem Defined.mem_kinds (h : Defined s lower block c ds t) :
    t.kind ∈ [.functionDef, .asyncFunctionDef, .classDef] := by
  cases h with
  | function =>
    rw [kind]
    split <;> decide
  | classNode => simp [kind]

theorem AreBases.all {list : Option Cst} {p : Tree → Prop} (h : AreBases s lower list ts)
    (hp : ∀ d ∈ list, AreArguments s lower d ts → ∀ t ∈ ts, p t) : ∀ t ∈ ts, p t := by
  cases list with
  | none =>
    obtain rfl := h
    simp
  | some d => exact hp d rfl h

theorem under_of_deleted (h : deleted lower c = .ok ts) : ∀ t ∈ ts, LowersUnder lower .del c t := by
  unfold deleted at h
  split at h
  · exact under_of_proper h
  · simp only [bind_eq_ok, pure_eq_ok] at h
    obtain ⟨value, hvalue, rfl⟩ := h
    exact List.forall_mem_singleton.mpr ⟨c, Cst.self_mem_nodes, hvalue⟩

theorem under_of_deletion {rows : List (List Tree)}
    (h : List.Forall₂ (fun d ts => deleted lower d = .ok ts) c.proper rows) :
    ∀ t ∈ rows.flatten, LowersUnder lower .del c t :=
  List.forall_mem_flatten.mpr (forall_of_forall₂ h fun _ hd _ hts t ht =>
    (under_of_deleted hts t ht).mono (Cst.mem_allNodes_of_mem_proper hd))

end

/-! ### Levels -/

section

variable {s : Source}

/-- All statements have a property that are lowered with some number of levels left, and what follows
the block of a choice has another. -/
structure Throughout (s : Source) (n : Nat) (P : Cst → Tree → Prop)
    (Q : List Cst → List Tree → Prop) : Prop where
  statement : ∀ {c t}, statement s n c = .ok t → P c t
  branches : ∀ {cs ts}, branches s n cs = .ok ts → Q cs ts

/-- What statements have if all have it that are lowered a level down, and branches if it holds of the
statements on their level and of all a level down, holds on every level. -/
theorem throughout {P : Nat → Cst → Tree → Prop} {Q : Nat → List Cst → List Tree → Prop}
    (hstated : ∀ n, Throughout s n (P n) (Q n) → ∀ c t,
      Stated s (expression s n) (fun b => b.proper.mapM (statement s n)) (branches s n) c t →
      P (n + 1) c t)
    (hbranched : ∀ n, (∀ {c t}, statement s n c = .ok t → P n c t) →
      (∀ m, n = m + 1 → Throughout s m (P m) (Q m)) → ∀ cs ts, Branched s n cs ts → Q n cs ts)
    (n : Nat) : Throughout s n (P n) (Q n) := by
  induction n with
  | zero =>
    have hstatement : ∀ {c t}, statement s 0 c = .ok t → P 0 c t := fun h => by
      rw [statement] at h
      cases h
    refine ⟨hstatement, fun h => hbranched 0 hstatement (fun m hm => ?_) _ _ (branched h)⟩
    exact absurd hm (Nat.succ_ne_zero m).symm
  | succ n ih =>
    have hstatement : ∀ {c t}, statement s (n + 1) c = .ok t → P (n + 1) c t := fun h => by
      rw [statement] at h
      exact hstated n ih _ _ (stated h)
    refine ⟨hstatement, fun h => hbranched (n + 1) hstatement (fun m hm => ?_) _ _ (branched h)⟩
    obtain rfl := Nat.succ.inj hm
    exact ih

end

end Gatehouse.Lowering
