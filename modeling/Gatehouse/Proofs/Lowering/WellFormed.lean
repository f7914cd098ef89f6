import Gatehouse.Proofs.Lowering.Levels
import Gatehouse.Proofs.Lowering.Stated
import Gatehouse.Proofs.Lowering.Values

/-!
Statements are lowered to well-formed trees, and so is a whole text. Whatever is taken from a node
for granted is told by the grammar, or the node is refused.
-/
namespace Gatehouse.Lowering

open Gatehouse.Tree

def BlocksWell (block : Cst → Result (List Tree)) : Prop :=
  ∀ {c : Cst} {ts : List Tree}, block c = .ok ts → c.conforms = true → ∀ t ∈ ts, t.IsPart

def BranchesWell (branches : List Cst → Result (List Tree)) : Prop :=
  ∀ {cs : List Cst} {ts : List Tree}, branches cs = .ok ts → (∀ c ∈ cs, c.conforms = true) →
    ∀ t ∈ ts, t.IsPart

section

variable {s : Source} {lower : Cst → Kind → Result Tree} {c d : Cst} {t : Tree} {ts : List Tree}

theorem isPart_branch {kind : Kind} {line : Nat} (hinner : kind.isInner = true)
    (hcontext : kind.takesContext = false) (hparts : kind.Parts none ts)
    (hts : ∀ t ∈ ts, t.IsPart) : (branch kind line ts).IsPart :=
  ⟨wellFormed_branch hcontext hparts hts, hinner⟩

theorem isPart_of_values (hts : ∀ t ∈ ts, t.IsValue) : ∀ t ∈ ts, t.IsPart :=
  fun t ht => (hts t ht).isPart

section

variable (hlower : LowersWell lower) (hc : c.conforms = true)

include hlower hc

theorem isPart_of_within (h : LowersWithin lower c t) : t.IsPart := by
  obtain ⟨context, hcontext, h⟩ := h
  exact (isValue_of_under hlower hc h hcontext).isPart

/-! ### Statements of a line -/

theorem Aliased.isPart (h : Aliased s lower c t) : t.IsPart ∧ t.kind = .alias := by
  cases h with
  | path => exact ⟨⟨wellFormed_named rfl ⟨rfl, Or.inl rfl⟩ (by simp), rfl⟩, rfl⟩
  | renamed htag _ _ hbound =>
    have hv := isValue_of_lowersIn hlower hc hbound rfl
    obtain ⟨other, hother, hbound⟩ := hbound
    obtain ⟨name, rfl⟩ := hlower.name hbound (Cst.identifier_of_alias hc htag hother)
    exact ⟨⟨wellFormed_named rfl ⟨rfl, Or.inr ⟨_, name, rfl⟩⟩
      (List.forall_mem_singleton.mpr hv.isPart), rfl⟩, rfl⟩

theorem isPart_imports (h : List.Forall₂ (Aliased s lower) (c.childrenIn .name) ts) :
    ∀ t ∈ ts, t.IsPart ∧ t.kind = .alias :=
  forall_of_forall₂ h fun _ hd _ ht =>
    ht.isPart hlower (Cst.conforms_of_mem_allNodes hc (Cst.mem_allNodes_of_mem_childrenIn hd))

omit hlower hc in
theorem isPart_importFrom {line : Nat} (base : String)
    (hts : ∀ t ∈ ts, t.IsPart ∧ t.kind = .alias) : (named .importFrom line base ts).IsPart :=
  ⟨wellFormed_named rfl ⟨rfl, fun t ht => (hts t ht).2⟩ fun t ht => (hts t ht).1, rfl⟩

/-- An assignment has a target at least, that of its first link. -/
theorem Assigned.isPart {line : Nat} (htag : c.tag = .assignment) (h : Assigned lower c line t) :
    t.IsPart := by
  have hparts : ∀ u ∈ t.children, u.IsPart := by
    obtain ⟨kind, ts, rfl, -, hts⟩ := h.parts
    exact fun u hu => isPart_of_within hlower hc (hts u hu)
  cases h with
  | declared => exact isPart_branch rfl rfl trivial hparts
  | @chained targets value _ h =>
    obtain ⟨htargets, hvalue⟩ := h.under
    have hne : targets ≠ [] := by
      rintro rfl
      have hlinks := h.targets
      rw [Cst.links_of_assignment htag] at hlinks
      cases hlinks
    exact isPart_branch rfl rfl ⟨targets, value, rfl, hne,
      fun u hu => (isValue_of_under hlower hc (htargets u hu) rfl).expression,
      (isValue_of_under hlower hc hvalue rfl).expression⟩ hparts

theorem IsContextOf.isPart (h : IsContextOf lower c t) : t.IsPart := by
  obtain ⟨ts, rfl, hts⟩ := h.parts
  exact isPart_branch rfl rfl trivial fun u hu => isPart_of_within hlower hc (hts u hu)

theorem isPart_decorators {ds : List Tree}
    (h : List.Forall₂ (LowersFirst lower .load) (c.proper.filter (·.tag == .decorator)) ds) :
    ∀ d ∈ ds, d.IsPart :=
  forall_of_forall₂ h fun _ hd _ hu => isPart_of_under hlower hc
    (hu.under.mono (Cst.mem_allNodes_of_mem_proper (List.mem_filter.mp hd).1))

/-! ### Statements with blocks -/

variable {block : Cst → Result (List Tree)} (hblock : BlocksWell block)

include hblock

omit hlower in
theorem isPart_body {r : Role} (h : body block c r = .ok ts) : ∀ t ∈ ts, t.IsPart := by
  obtain ⟨b, hb, h⟩ := bind_eq_ok.mp h
  exact hblock h (Cst.conforms_child? hc (required_eq_ok.mp hb))

omit hlower in
theorem isPart_otherwise (h : otherwise block c = .ok ts) : ∀ t ∈ ts, t.IsPart := by
  unfold otherwise at h
  split at h
  · next clause hclause => exact isPart_body (Cst.conforms_child? hc hclause) hblock h
  · obtain rfl := Except.ok.inj h
    simp

theorem IsHandlerPart.isPart (h : IsHandlerPart lower block c ts) : ∀ t ∈ ts, t.IsPart := by
  cases h with
  | block _ hts => exact hblock hts hc
  | value _ ht => exact List.forall_mem_singleton.mpr (hlower.value ht hc rfl).isPart

theorem IsTryClause.isPart (h : IsTryClause lower block c ts) : ∀ t ∈ ts, t.IsPart := by
  have hproper := Cst.conforms_proper hc
  cases h with
  | handler _ hrows =>
    have hall := forall_of_forall₂ hrows fun d hd _ hrow =>
      hrow.isPart hlower (hproper d hd) hblock
    exact List.forall_mem_singleton.mpr (isPart_branch rfl rfl trivial
      (List.forall_mem_flatten.mpr hall))
  | blocks _ hrows =>
    exact List.forall_mem_flatten.mpr (forall_of_forall₂ hrows fun d hd _ hrow =>
      hblock hrow (hproper d (List.mem_filter.mp hd).1))
  | other => simp

/-- A function begins with its parameters. -/
theorem Defined.isPart {ds : List Tree} (h : Defined s lower block c ds t)
    (hds : ∀ d ∈ ds, d.IsPart) : t.IsPart := by
  cases h with
  | @function called name given statements returned _ _ _ hgiven hstatements hreturned =>
    obtain ⟨hg, hkind⟩ := (areParameters_of_parameters hgiven).isPart hlower fun d hd =>
      Cst.conforms_child? hc hd
    have hr : ∀ u ∈ returned, u.IsPart := fun u hu => isPart_of_under hlower hc
      (under_of_lowerAll hreturned
        (fun d hd => Cst.mem_allNodes_of_child? (Option.mem_toList.mp hd)) u hu)
    have hcs : ∀ u ∈ [given] ++ statements ++ returned, u.IsPart :=
      List.forall_mem_append.mpr ⟨List.forall_mem_append.mpr
        ⟨List.forall_mem_singleton.mpr hg, isPart_body hc hblock hstatements⟩, hr⟩
    split
    all_goals exact ⟨wellFormed_node rfl ⟨rfl, given, statements ++ returned, rfl, hkind⟩
      (fun _ => rfl) hds hcs, rfl⟩
  | @classNode called name bases statements _ _ _ hbases hstatements =>
    have hb : ∀ u ∈ bases, u.IsPart := hbases.all fun _ hd hgiven =>
      hgiven.isPart hlower (Cst.conforms_child? hc hd)
    exact ⟨wellFormed_node rfl rfl (fun _ => rfl) hds
      (List.forall_mem_append.mpr ⟨hb, isPart_body hc hblock hstatements⟩), rfl⟩

/-- A statement whose parts are lowered to well-formed trees is lowered to one. -/
theorem Stated.isPart {branches : List Cst → Result (List Tree)} (hbranches : BranchesWell branches)
    (h : Stated s lower block branches c t) : t.IsPart := by
  have honly : ∀ {d : Cst}, c.proper = [d] → d.conforms = true := fun hproper =>
    Cst.conforms_proper hc _ (hproper ▸ List.mem_singleton_self _)
  cases h with
  | assigned _ hproper hd h => exact h.isPart hlower (honly hproper) hd
  | combined _ hproper _ _ hkind htarget hvalue =>
    have hbinary := isBinary_of_binaryKind? hkind
    have hd := honly hproper
    have ht := isValue_of_lowersIn hlower hd htarget rfl
    have hv := isValue_of_lowersIn hlower hd hvalue rfl
    refine isPart_branch rfl rfl ⟨_, _, _, rfl, ht.expression, hbinary, hv.expression⟩ ?_
    simp [ht.isPart, hv.isPart, isPart_operator (Kind.isOperator_of_isBinary hbinary)]
  | value _ hproper _ ht =>
    exact isPart_branch rfl rfl trivial (List.forall_mem_singleton.mpr
      (hlower.value ht (honly hproper) rfl).isPart)
  | @values ts _ _ hts =>
    have htuple : (inContext .tuple c.line ts .load).IsValue :=
      isValue_tuple_of_values rfl (isValue_of_proper hlower hc hts rfl)
    exact isPart_branch rfl rfl trivial (List.forall_mem_singleton.mpr htuple.isPart)
  | printed _ hproper _ hts =>
    have hvalues := isValue_of_proper hlower (honly hproper) hts rfl
    have hcallee : (named .name c.line "print" [.leaf .load c.line]).IsValue :=
      isValue_name rfl c.line "print"
    have hcall : (branch .call c.line (_ :: _)).IsValue :=
      isValue_callOf hcallee (isPart_of_values hvalues)
    exact isPart_branch rfl rfl trivial (List.forall_mem_singleton.mpr hcall.isPart)
  | returned _ hts | asserted _ hts | raised _ hts | globals _ hts | nonlocals _ hts =>
    exact isPart_branch rfl rfl trivial (isPart_of_values (isValue_of_proper hlower hc hts rfl))
  | deletion _ hrows =>
    exact isPart_branch rfl rfl trivial fun u hu =>
      (isValue_of_under hlower hc (under_of_deletion hrows u hu) rfl).isPart
  | selection _ hts =>
    exact isPart_branch rfl rfl trivial fun u hu => isPart_of_under hlower hc
      (under_of_lowerAll hts (fun _ => Cst.mem_allNodes_of_mem_childrenIn) u hu)
  | pass | breakLoop | continueLoop | typeAlias => exact isPart_branch rfl rfl trivial (by simp)
  | imports _ hnames =>
    have hall := isPart_imports hlower hc hnames
    exact isPart_branch rfl rfl (fun a ha => (hall a ha).2) fun a ha => (hall a ha).1
  | importsFrom _ _ _ hnames =>
    refine isPart_importFrom _ (List.forall_mem_append.mpr ⟨isPart_imports hlower hc hnames, ?_⟩)
    split
    · exact List.forall_mem_singleton.mpr
        ⟨⟨wellFormed_named rfl ⟨rfl, Or.inl rfl⟩ (by simp), rfl⟩, rfl⟩
    · simp
  | futureImports _ hnames => exact isPart_importFrom "__future__" (isPart_imports hlower hc hnames)
  | choice _ hcondition hstatements hothers =>
    have ho := hbranches hothers fun d hd =>
      Cst.conforms_of_mem_allNodes hc (Cst.mem_allNodes_of_mem_childrenIn hd)
    exact isPart_branch rfl rfl trivial (List.forall_mem_append.mpr ⟨List.forall_mem_cons.mpr
      ⟨isPart_of_under hlower hc hcondition.under, isPart_body hc hblock hstatements⟩, ho⟩)
  | @forLoop target values statements others _ htarget hvalues hstatements hothers =>
    have ht := isValue_of_lowersIn hlower hc htarget rfl
    have hv := isValue_of_lowersIn hlower hc hvalues rfl
    have hcs : ∀ u ∈ [target, values] ++ statements ++ others, u.IsPart :=
      List.forall_mem_append.mpr ⟨List.forall_mem_append.mpr
        ⟨by simp [ht.isPart, hv.isPart], isPart_body hc hblock hstatements⟩,
        isPart_otherwise hc hblock hothers⟩
    split <;> exact isPart_branch rfl rfl trivial hcs
  | whileLoop _ hcondition hstatements hothers =>
    exact isPart_branch rfl rfl trivial (List.forall_mem_append.mpr ⟨List.forall_mem_cons.mpr
      ⟨isPart_of_under hlower hc hcondition.under, isPart_body hc hblock hstatements⟩,
      isPart_otherwise hc hblock hothers⟩)
  | defined h => exact h.isPart hlower hc hblock (by simp)
  | decorated _ hds hd h =>
    exact h.isPart hlower (Cst.conforms_child? hc hd) hblock
      (isPart_decorators hlower hc hds)
  | attempt _ hstatements hrows =>
    have hall := forall_of_forall₂ hrows fun d hd _ hrow =>
      hrow.isPart hlower (Cst.conforms_proper hc d hd) hblock
    exact isPart_branch rfl rfl trivial (List.forall_mem_append.mpr
      ⟨isPart_body hc hblock hstatements, List.forall_mem_flatten.mpr hall⟩)
  | @withBlock items statements _ hitems hstatements =>
    have hall : ∀ u ∈ items, u.IsPart := forall_of_forall₂ hitems fun d hd _ hitem => by
      obtain ⟨clause, hclause, hd⟩ := List.mem_flatMap.mp hd
      have hclause := Cst.conforms_proper hc clause (List.mem_filter.mp hclause).1
      exact hitem.isPart hlower (Cst.conforms_proper hclause d hd)
    have hcs : ∀ u ∈ items ++ statements, u.IsPart :=
      List.forall_mem_append.mpr ⟨hall, isPart_body hc hblock hstatements⟩
    split <;> exact isPart_branch rfl rfl trivial hcs

end

end

/-! ### Levels -/

variable {s : Source}

/-- Statements that conform are lowered to parts, with the given number of levels left. -/
def StatementsWell (s : Source) (levels : Nat) : Prop :=
  ∀ {c : Cst} {t : Tree}, statement s levels c = .ok t → c.conforms = true → t.IsPart

theorem blocksWell_of_statements {levels : Nat} (h : StatementsWell s levels) :
    BlocksWell (fun b => b.proper.mapM (statement s levels)) := by
  intro c ts hts hc
  exact forall_of_mapM hts fun d hd _ ht => h ht (Cst.conforms_proper hc d hd)

/-- Statements and branches are lowered to well-formed trees on every level. -/
theorem wellFormed_levels (s : Source) (levels : Nat) :
    Throughout s levels (fun c t => c.conforms = true → t.IsPart)
      fun cs ts => (∀ c ∈ cs, c.conforms = true) → ∀ t ∈ ts, t.IsPart := by
  apply throughout
  · intro n hbelow c t h hc
    exact h.isPart (lowersWell_expression s n) hc (blocksWell_of_statements hbelow.statement)
      hbelow.branches
  · intro n hhere hbelow cs ts h hcs
    cases h with
    | nil => simp
    | otherwise _ hts =>
      exact isPart_body (hcs _ List.mem_cons_self) (blocksWell_of_statements hhere) hts
    | @further n _ _ _ _ _ _ _ htest hcondition hstatements hothers =>
      obtain ⟨hc, hrests⟩ := List.forall_mem_cons.mp hcs
      have hv := isValue_of_lowersIn (lowersWell_expression s n) hc
        ⟨_, required_eq_ok.mp htest, hcondition⟩ rfl
      have hs := isPart_body hc (blocksWell_of_statements (hbelow n rfl).statement) hstatements
      exact List.forall_mem_singleton.mpr (isPart_branch rfl rfl trivial (List.forall_mem_append.mpr
        ⟨List.forall_mem_cons.mpr ⟨hv.isPart, hs⟩, (hbelow n rfl).branches hothers hrests⟩))

/-- A whole text is lowered to a well-formed module, if its concrete tree conforms to the grammar; so
every assignment in it has its targets and its value. -/
theorem module_wellFormed {c : Cst} {t : Tree} (h : module s c = .ok t) (hc : c.conforms = true) :
    t.kind = .module ∧ t.WellFormed ∧ ∀ o ∈ t.occurrences, o.tree.kind = .assign →
      ∃ targets value, o.tree.assignParts = some (targets, value) ∧ targets ≠ [] := by
  simp only [module, bind_eq_ok, pure_eq_ok] at h
  obtain ⟨statements, hstatements, rfl⟩ := h
  have hall := forall_of_mapM hstatements fun d hd _ ht =>
    (wellFormed_levels s maxNesting).1 ht (Cst.conforms_proper hc d hd)
  have hwhole : (branch .module 1 statements).WellFormed := wellFormed_branch rfl trivial hall
  exact ⟨rfl, hwhole, fun o ho => (hwhole.of_mem_occurrencesFrom ho).assignParts⟩

/-- An import under another name, and a comparison of three values. -/
def sample : Source := Source.ofBytes "import a as b\nb<a not in b".toUTF8

theorem lower_sample :
    ((Grammar.tree sample).conforms, module sample (Grammar.tree sample))
      = (true, .ok (.branch .module 1 [
          .branch .importModule 1 [.named .alias 1 "a" [.named .name 1 "b" [.leaf .store 1]]],
          .branch .expr 2 [.branch .compare 2 [.named .name 2 "b" [.leaf .load 2], .leaf .lt 2,
            .leaf .isNotIn 2, .named .name 2 "a" [.leaf .load 2],
            .named .name 2 "b" [.leaf .load 2]]]])) := by
  rw [module_eq]
  decide +kernel

/-- So what it is lowered to is well-formed. -/
theorem sample_wellFormed :
    ∃ t, module sample (Grammar.tree sample) = .ok t ∧ t.kind = .module ∧ t.WellFormed := by
  obtain ⟨hconforms, hlowered⟩ := Prod.mk.inj lower_sample
  obtain ⟨hkind, hwhole, -⟩ := module_wellFormed hlowered hconforms
  exact ⟨_, hlowered, hkind, hwhole⟩

end Gatehouse.Lowering
