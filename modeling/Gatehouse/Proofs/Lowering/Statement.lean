import Gatehouse.Proofs.Lowering.Expression
import Gatehouse.Proofs.Lowering.Stated

/-!
Statements are clear, and so is a whole text. What is never seen are the parameters of a function's
types and the annotations inside of a chain of assignments.
-/
namespace Gatehouse.Lowering

section

variable {s : Source} {lower : Cst → Kind → Result Tree} {c : Cst} {t : Tree}

/-! ### Parameters -/

mutual
/-- The one name under a splat is clear. -/
theorem splatName_clear : {c : Cst} → {t : Tree} → parameterName.splatName s c = .ok t → t.Safe →
    c.Shaped → Clear s c
  | .node tag r sp cs, t, h, hsafe, hc => by
    cases tag
    case identifier =>
      simp only [parameterName.splatName, bind_eq_ok, pure_eq_ok] at h
      obtain ⟨name, hname, rfl⟩ := h
      exact clear_of_name hc rfl hname (hsafe.name (by simp))
    case listSplatPattern | dictionarySplatPattern =>
      rw [parameterName.splatName] at h
      have hwraps : Cst.Wrapping cs := fits_of_shaped hc rfl
      exact clear_of_proper hc (plain_of_tag rfl rfl) fun d hd _ hshaped =>
        splatNames_clear cs h hsafe hwraps d (List.mem_filter.mp hd).1 (List.mem_filter.mp hd).2
          hshaped
    all_goals simp [parameterName.splatName, unsupported] at h

theorem splatNames_clear {whole : Cst} {t : Tree} : (cs : List Cst) →
    parameterName.splatNames s whole cs = .ok t → t.Safe → Cst.Wrapping cs →
    ∀ d ∈ cs, d.isProper = true → d.Shaped → Clear s d
  | [], _, _, _ => fun d hd => by cases hd
  | c :: cs, h, hsafe, hone => by
    rw [parameterName.splatNames] at h
    rw [Cst.Wrapping, List.countP_cons] at hone
    split at h
    · next hproper =>
      refine List.forall_mem_cons.mpr ⟨fun _ => splatName_clear h hsafe, fun d hd hd' => ?_⟩
      -- The first node of a kind of its own is the only one.
      have hpos := List.countP_pos_iff.mpr ⟨d, hd, hd'⟩
      simp only [hproper, if_true] at hone
      omega
    · next hproper =>
      refine List.forall_mem_cons.mpr ⟨fun h => absurd h hproper, ?_⟩
      exact splatNames_clear cs h hsafe (Nat.le_of_add_right_le hone)
end

theorem parameterName_clear (h : parameterName s c = .ok t) (hsafe : t.Safe) (hc : c.Shaped) :
    Clear s c := by
  unfold parameterName at h
  split at h
  · next htag =>
    simp only [bind_eq_ok, pure_eq_ok] at h
    obtain ⟨name, hname, rfl⟩ := h
    exact clear_of_name hc htag hname (hsafe.name (by simp))
  all_goals first
    | simp only [unsupported, reduceCtorEq] at h
    | next htag =>
      obtain ⟨inner, hinner, h⟩ := bind_eq_ok.mp h
      have hwraps : Cst.Wrapping c.children := fits_of_shaped hc htag
      exact clear_of_wrapping hc (plain_of_tag htag rfl) hwraps hinner
        fun _ => splatName_clear h hsafe

/-- The name and the annotation of a parameter are clear. -/
theorem annotatedParameter_clear (hlower : Covers s lower) {target : Cst}
    (h : annotatedParameter s lower c target = .ok t) (hsafe : t.Safe) :
    (target.Shaped → Clear s target)
      ∧ ∀ d, c.child? .typeHint = some d → d.Shaped → Clear s d := by
  unfold annotatedParameter at h
  obtain ⟨arg, harg, h⟩ := bind_eq_ok.mp h
  split at h
  · next hnone =>
    obtain rfl := pure_eq_ok.mp h
    exact ⟨parameterName_clear harg hsafe, fun d hd => by rw [hnone] at hd; cases hd⟩
  · next hint hhint =>
    simp only [bind_eq_ok, pure_eq_ok] at h
    obtain ⟨kind, hkind, rfl⟩ := h
    cases arg with
    | node k line ident ds cs =>
      have hargSafe : (Tree.node k line ident ds cs).Safe :=
        hsafe.of_subset fun e he => List.mem_append_left _ he
      refine ⟨parameterName_clear harg hargSafe, fun d hd => ?_⟩
      obtain rfl := Option.some.inj (hhint.symm.trans hd)
      exact hlower hkind (hsafe.children kind (by simp))

/-- A parameter that is only a name with an annotation. -/
theorem typedParameter_clear (hlower : Covers s lower) (htag : c.tag = .typedParameter)
    {target : Cst} (htarget : firstProper c = .ok target)
    (h : annotatedParameter s lower c target = .ok t) (hsafe : t.Safe) (hc : c.Shaped) :
    Clear s c := by
  have hfits : Cst.Led .typeHint c.children ∧ Cst.countIn .typeHint c.children ≤ 1 :=
    fits_of_shaped hc htag
  obtain ⟨hclear, hhint⟩ := annotatedParameter_clear hlower h hsafe
  refine clear_of_proper hc (plain_of_tag htag rfl)
    fun d hd _ hshaped => ?_
  unfold firstProper at htarget
  split at htarget
  · next first rest heq =>
    obtain rfl := Except.ok.inj htarget
    have hmem : d ∈ c.children := (List.mem_filter.mp hd).1
    rw [heq] at hd
    rcases List.mem_cons.mp hd with rfl | hd
    · exact hclear hshaped
    · have hrole := hfits.1 _ _ heq d hd
      exact hhint d (Cst.child?_eq_of_count hfits.2 hmem hrole) hshaped
  · simp [unsupported] at htarget

/-- A parameter with a default value, with or without an annotation. -/
theorem defaultParameter_clear (hlower : Covers s lower)
    (htag : c.tag = .defaultParameter ∨ c.tag = .typedDefaultParameter) {target given : Cst}
    {value : Tree} (htarget : required c .name = .ok target)
    (h : annotatedParameter s lower c target = .ok t) (hgiven : required c .value = .ok given)
    (hvalue : lower given .load = .ok value) (hsafe : t.Safe) (hvalueSafe : value.Safe)
    (hc : c.Shaped) : Clear s c := by
  obtain ⟨hclear, hhint⟩ := annotatedParameter_clear hlower h hsafe
  rcases htag with htag | htag
  · have hslots : Cst.Slotted [.single .name, .single .value] c.children :=
      fits_of_shaped hc htag
    exact clear_of_two_parts hc (plain_of_tag htag rfl) hslots htarget
      hgiven hclear (hlower hvalue hvalueSafe)
  · have hslots : Cst.Slotted [.single .name, .single .typeHint, .single .value] c.children :=
      fits_of_shaped hc htag
    have hnameClear : ClearIn s c (.single .name) :=
      clearIn_of_required hslots (by simp) rfl htarget fun _ => hclear
    have hhintClear : ClearIn s c (.single .typeHint) :=
      clearIn_of_child hslots (by simp) rfl fun d hd _ => hhint d hd
    have hvalueClear : ClearIn s c (.single .value) :=
      clearIn_of_required hslots (by simp) rfl hgiven fun _ => hlower hvalue hvalueSafe
    exact clear_of_parts hc (plain_of_tag htag rfl) hslots
      (by simpa using ⟨hnameClear, hhintClear, hvalueClear⟩)

theorem parameter_clear (hlower : Covers s lower) {arg value : Option Tree}
    (h : parameter s lower c = .ok (arg, value)) (hsafe : ∀ t ∈ arg, t.Safe)
    (hvalueSafe : ∀ t ∈ value, t.Safe) (hc : c.Shaped) : Clear s c := by
  unfold parameter at h
  split at h
  · next htag =>
    simp only [bind_eq_ok, pure_eq_ok, Prod.mk.injEq] at h
    obtain ⟨name, hname, rfl, rfl⟩ := h
    exact clear_of_name hc htag hname ((hsafe _ rfl).name (by simp))
  · next htag =>
    simp only [bind_eq_ok, pure_eq_ok, Prod.mk.injEq] at h
    obtain ⟨target, htarget, t, ht, rfl, rfl⟩ := h
    exact typedParameter_clear hlower htag htarget ht (hsafe _ rfl) hc
  · next htag =>
    simp only [bind_eq_ok, pure_eq_ok, Prod.mk.injEq] at h
    obtain ⟨target, htarget, t, ht, given, hgiven, u, hu, rfl, rfl⟩ := h
    exact defaultParameter_clear hlower (Or.inl htag) htarget ht hgiven hu (hsafe _ rfl)
      (hvalueSafe _ rfl) hc
  · next htag =>
    simp only [bind_eq_ok, pure_eq_ok, Prod.mk.injEq] at h
    obtain ⟨target, htarget, t, ht, given, hgiven, u, hu, rfl, rfl⟩ := h
    exact defaultParameter_clear hlower (Or.inr htag) htarget ht hgiven hu (hsafe _ rfl)
      (hvalueSafe _ rfl) hc
  · simp only [bind_eq_ok, pure_eq_ok, Prod.mk.injEq] at h
    obtain ⟨t, ht, rfl, rfl⟩ := h
    exact parameterName_clear ht (hsafe _ rfl) hc
  · simp only [bind_eq_ok, pure_eq_ok, Prod.mk.injEq] at h
    obtain ⟨t, ht, rfl, rfl⟩ := h
    exact parameterName_clear ht (hsafe _ rfl) hc
  · next htag =>
    exact clear_of_bare hc (fits_of_shaped hc htag)
      (plain_of_tag htag rfl)
  · next htag =>
    exact clear_of_bare hc (fits_of_shaped hc htag)
      (plain_of_tag htag rfl)
  · simp [unsupported] at h

theorem parameters_clear (hlower : Covers s lower) {line : Nat} (htag : c.tag = .parameters)
    (h : parameters s lower (some c) line = .ok t) (hsafe : t.Safe) (hc : c.Shaped) :
    Clear s c := by
  simp only [parameters, bind_eq_ok, pure_eq_ok] at h
  obtain ⟨each, heach, rfl⟩ := h
  refine clear_of_proper hc (plain_of_tag htag rfl)
    fun d hd _ hshaped => ?_
  obtain ⟨⟨arg, value⟩, hmem, hread⟩ := exists_of_mapM heach d hd
  refine parameter_clear hlower hread (fun u hu => hsafe.children u ?_)
    (fun u hu => hsafe.children u ?_) hshaped
  · exact List.mem_append_left _ (List.mem_filterMap.mpr ⟨_, hmem, hu⟩)
  · exact List.mem_append_right _ (List.mem_filterMap.mpr ⟨_, hmem, hu⟩)

/-! ### Statements of a line -/

/-- A chain of assignments is clear with its targets and its value. Annotations further on in it are
not seen. -/
theorem chain_clear (hlower : Covers s lower) {ts : List Tree} {value : Tree}
    (h : Chained lower c ts value) (hts : ∀ t ∈ ts, t.Safe) (hvalue : value.Safe)
    (hhint : c.tag = .assignment → ClearIn s c (.single .typeHint)) (hc : c.Shaped) : Clear s c := by
  induction c using Cst.inductionOn generalizing ts with
  | step c ih =>
    by_cases htag : c.tag = .assignment
    · obtain ⟨right, target, rest, hright, rfl, htarget, hrest⟩ := h.uncons htag
      obtain ⟨hfirst, hts⟩ := List.forall_mem_cons.mp hts
      have hslots : Cst.Slotted [.single .left, .single .typeHint, .single .right] c.children :=
        fits_of_shaped hc htag
      have htargetClear : ClearIn s c (.single .left) :=
        clearIn_of_lowersIn hlower hslots (by simp) rfl htarget hfirst
      have hrightClear : ClearIn s c (.single .right) := by
        refine clearIn_of_required hslots (by simp) rfl (required_eq_ok.mpr hright) fun _ =>
          ih right (Cst.mem_children_of_child? hright) hrest hts fun hassign => ?_
        refine clearIn_of_not_seen fun d _ hd => ?_
        have hd : d.role = some .typeHint := hd
        simp [Cst.isSeen, Cst.isBlindSpot, hassign, Cst.role_of_child? hright, hd]
      exact clear_of_parts hc (plain_of_tag htag rfl) hslots
        (by simpa using ⟨htargetClear, hhint htag, hrightClear⟩)
    · exact hlower (h.lower_eq htag) hvalue hc

theorem Assigned.clear (hlower : Covers s lower) {line : Nat} (htag : c.tag = .assignment)
    (h : Assigned lower c line t) (hsafe : t.Safe) (hc : c.Shaped) : Clear s c := by
  cases h with
  | declared => exact (not_safe_of_kind hsafe rfl rfl).elim
  | chained hannotated h =>
    have hslots : Cst.Slotted [.single .left, .single .typeHint, .single .right] c.children :=
      fits_of_shaped hc htag
    have hhint : ClearIn s c (.single .typeHint) := clearIn_of_child hslots (by simp) rfl fun d hd => by
      rw [Cst.isAnnotated, show c.child? .typeHint = some d from hd] at hannotated
      cases hannotated
    exact chain_clear hlower h (fun u hu => hsafe.children u (List.mem_append_left _ hu))
      (hsafe.children _ (by simp)) (fun _ => hhint) hc

/-- The name that an import binds is clear. The path of a module is not entered. -/
theorem Aliased.clear (hlower : Covers s lower) {parent : Cst}
    (hparent : parent.tag = .importStatement) (h : Aliased s lower c t) (hsafe : t.Safe)
    (hseen : parent.isSeen c = true) (hc : c.Shaped) : Clear s c := by
  cases h with
  | path htag => simp [Cst.isSeen, Cst.isEntered, Cst.isPath, hparent, htag] at hseen
  | renamed htag _ _ hbound =>
    have hslots : Cst.Slotted [.only .name .dottedName, .single .alias] c.children :=
      fits_of_shaped hc htag
    have hpathClear : ClearIn s c (.only .name .dottedName) := clearIn_of_not_seen fun d _ hd => by
      have hd : d.role = some .name := hd
      simp [Cst.isSeen, Cst.isEntered, Cst.isPath, htag, hd]
    have hboundClear : ClearIn s c (.single .alias) :=
      clearIn_of_lowersIn hlower hslots (by simp) rfl hbound (hsafe.children _ (by simp))
    exact clear_of_parts hc (plain_of_tag htag rfl) hslots
      (by simpa using ⟨hpathClear, hboundClear⟩)

theorem import_clear (hlower : Covers s lower) (htag : c.tag = .importStatement) {ts : List Tree}
    (h : List.Forall₂ (Aliased s lower) (c.childrenIn .name) ts) (hsafe : ∀ t ∈ ts, t.Safe)
    (hc : c.Shaped) : Clear s c := by
  have hslots : Cst.Slotted [.several .name] c.children := fits_of_shaped hc htag
  have hnames : ClearIn s c (.several .name) := clearIn_of_childrenIn fun d hd hseen hshaped => by
    obtain ⟨t, ht, hread⟩ := exists_of_forall₂ h d hd
    exact hread.clear hlower htag (hsafe t ht) hseen hshaped
  exact clear_of_parts hc (plain_of_tag htag rfl) hslots (by simpa using hnames)

/-! ### Statements that hold others -/

variable {block : Cst → Result (List Tree)}

def CoversBlocks (s : Source) (block : Cst → Result (List Tree)) : Prop :=
  ∀ {c : Cst} {ts : List Tree}, block c = .ok ts → (∀ t ∈ ts, t.Safe) → c.tag = .block →
    c.Shaped → Clear s c

/-- Where a function lowers what follows the block of a choice to safe trees, that is clear. Only
the last may be an `else`. -/
def CoversBranches (s : Source) (branches : List Cst → Result (List Tree)) : Prop :=
  ∀ {cs : List Cst} {ts : List Tree}, branches cs = .ok ts → (∀ t ∈ ts, t.Safe) →
    (∀ c ∈ cs.dropLast, c.tag = .elifClause) → ∀ c ∈ cs, c.Shaped → Clear s c

theorem clearIn_of_body (hblock : CoversBlocks s block) {slots : List Slot} {r : Role}
    {ts : List Tree} (hslots : Cst.Slotted slots c.children) (hslot : Slot.only r .block ∈ slots)
    (h : body block c r = .ok ts) (hsafe : ∀ t ∈ ts, t.Safe) :
    ClearIn s c (.only r .block) := by
  obtain ⟨d, hd, h⟩ := bind_eq_ok.mp h
  refine clearIn_of_required hslots hslot rfl hd fun htag => ?_
  exact hblock h hsafe (beq_iff_eq.mp htag)

theorem elseClause_clear (hblock : CoversBlocks s block) (htag : c.tag = .elseClause)
    {ts : List Tree} (h : body block c .body = .ok ts) (hsafe : ∀ t ∈ ts, t.Safe)
    (hc : c.Shaped) : Clear s c := by
  have hslots : Cst.Slotted [.only .body .block] c.children := fits_of_shaped hc htag
  have hbody := clearIn_of_body hblock hslots (by simp) h hsafe
  exact clear_of_parts hc (plain_of_tag htag rfl) hslots
    (by simpa using hbody)

theorem clearIn_of_otherwise (hblock : CoversBlocks s block) {slots : List Slot} {ts : List Tree}
    (hslots : Cst.Slotted slots c.children) (hslot : Slot.only .alternative .elseClause ∈ slots)
    (h : otherwise block c = .ok ts) (hsafe : ∀ t ∈ ts, t.Safe) :
    ClearIn s c (.only .alternative .elseClause) := by
  refine clearIn_of_child hslots hslot rfl fun d hd htag => ?_
  have hd : c.child? .alternative = some d := hd
  unfold otherwise at h
  rw [hd] at h
  exact elseClause_clear hblock (beq_iff_eq.mp htag) h hsafe

theorem elifClause_clear (hlower : Covers s lower) (hblock : CoversBlocks s block)
    (htag : c.tag = .elifClause) {ts : List Tree} (hcondition : LowersIn lower .condition .load c t)
    (hconditionSafe : t.Safe) (h : body block c .consequence = .ok ts) (hsafe : ∀ t ∈ ts, t.Safe)
    (hc : c.Shaped) : Clear s c := by
  have hslots : Cst.Slotted [.single .condition, .only .consequence .block] c.children :=
    fits_of_shaped hc htag
  have hconditionClear : ClearIn s c (.single .condition) :=
    clearIn_of_lowersIn hlower hslots (by simp) rfl hcondition hconditionSafe
  have hbody := clearIn_of_body hblock hslots (by simp) h hsafe
  exact clear_of_parts hc (plain_of_tag htag rfl) hslots
    (by simpa using ⟨hconditionClear, hbody⟩)

theorem choice_clear (hlower : Covers s lower) (hblock : CoversBlocks s block)
    {branches : List Cst → Result (List Tree)} (hbranches : CoversBranches s branches)
    (htag : c.tag = .ifStatement) {statements others : List Tree}
    (hcondition : LowersIn lower .condition .load c t)
    (hstatements : body block c .consequence = .ok statements)
    (hothers : branches (c.childrenIn .alternative) = .ok others)
    (hsafe : ∀ u ∈ t :: statements ++ others, u.Safe) (hc : c.Shaped) : Clear s c := by
  obtain ⟨hslots, helif⟩ : Cst.Slotted [.single .condition, .only .consequence .block,
      ⟨.alternative, fun t => t == .elifClause || t == .elseClause, true⟩] c.children
      ∧ ∀ d ∈ (c.childrenIn .alternative).dropLast, d.tag = .elifClause :=
    fits_of_shaped hc htag
  have hconditionClear : ClearIn s c (.single .condition) :=
    clearIn_of_lowersIn hlower hslots (by simp) rfl hcondition (hsafe t (by simp))
  have hbody : ClearIn s c (.only .consequence .block) :=
    clearIn_of_body hblock hslots (by simp) hstatements fun u hu => hsafe u (by simp [hu])
  have hothersClear : ClearIn s c ⟨.alternative, fun t => t == .elifClause || t == .elseClause,
      true⟩ :=
    clearIn_of_childrenIn fun d hd _ =>
      hbranches hothers (fun u hu => hsafe u (by simp [hu])) helif d hd
  exact clear_of_parts hc (plain_of_tag htag rfl) hslots
    (by simpa using ⟨hconditionClear, hbody, hothersClear⟩)

theorem prompt_of_safe {asynchronous prompt : Kind} {line : Nat} {ident : Option String}
    {ds cs : List Tree} (hrefused : Policy.admitted asynchronous = false)
    (hsafe : (Tree.node (if c.hasToken "async" then asynchronous else prompt) line ident ds
      cs).Safe) : c.hasToken "async" = false := by
  cases hasync : c.hasToken "async" with
  | false => rfl
  | true =>
    rw [if_pos hasync] at hsafe
    exact (not_safe_of_kind hsafe rfl hrefused).elim

theorem forLoop_clear (hlower : Covers s lower) (hblock : CoversBlocks s block)
    (htag : c.tag = .forStatement) (hprompt : c.hasToken "async" = false) {target values : Tree}
    {statements others : List Tree} (htarget : LowersIn lower .left .store c target)
    (hvalues : LowersIn lower .right .load c values)
    (hstatements : body block c .body = .ok statements) (hothers : otherwise block c = .ok others)
    (hsafe : ∀ u ∈ [target, values] ++ statements ++ others, u.Safe) (hc : c.Shaped) :
    Clear s c := by
  have hslots : Cst.Slotted [.single .left, .single .right, .only .body .block,
      .only .alternative .elseClause] c.children :=
    fits_of_shaped hc htag
  have htargetClear : ClearIn s c (.single .left) :=
    clearIn_of_lowersIn hlower hslots (by simp) rfl htarget (hsafe target (by simp))
  have hvaluesClear : ClearIn s c (.single .right) :=
    clearIn_of_lowersIn hlower hslots (by simp) rfl hvalues (hsafe values (by simp))
  have hbody : ClearIn s c (.only .body .block) :=
    clearIn_of_body hblock hslots (by simp) hstatements fun u hu => hsafe u (by simp [hu])
  have hothersClear : ClearIn s c (.only .alternative .elseClause) :=
    clearIn_of_otherwise hblock hslots (by simp) hothers fun u hu => hsafe u (by simp [hu])
  exact clear_of_parts hc (plain_of_prompt (Or.inr htag) hprompt) hslots
    (by simpa using ⟨htargetClear, hvaluesClear, hbody, hothersClear⟩)

theorem whileLoop_clear (hlower : Covers s lower) (hblock : CoversBlocks s block)
    (htag : c.tag = .whileStatement) {statements others : List Tree}
    (hcondition : LowersIn lower .condition .load c t)
    (hstatements : body block c .body = .ok statements) (hothers : otherwise block c = .ok others)
    (hsafe : ∀ u ∈ [t] ++ statements ++ others, u.Safe) (hc : c.Shaped) : Clear s c := by
  have hslots : Cst.Slotted [.single .condition, .only .body .block,
      .only .alternative .elseClause] c.children :=
    fits_of_shaped hc htag
  have hconditionClear : ClearIn s c (.single .condition) :=
    clearIn_of_lowersIn hlower hslots (by simp) rfl hcondition (hsafe t (by simp))
  have hbody : ClearIn s c (.only .body .block) :=
    clearIn_of_body hblock hslots (by simp) hstatements fun u hu => hsafe u (by simp [hu])
  have hothersClear : ClearIn s c (.only .alternative .elseClause) :=
    clearIn_of_otherwise hblock hslots (by simp) hothers fun u hu => hsafe u (by simp [hu])
  exact clear_of_parts hc (plain_of_tag htag rfl) hslots
    (by simpa using ⟨hconditionClear, hbody, hothersClear⟩)

/-- A function is clear with its name, its parameters, its block and what it returns. The parameters
of its types are not seen. A class is never admitted. -/
theorem Defined.clear (hlower : Covers s lower) (hblock : CoversBlocks s block) {ds : List Tree}
    (h : Defined s lower block c ds t) (hsafe : t.Safe) (hc : c.Shaped) : Clear s c := by
  cases h with
  | classNode => exact (not_safe_of_kind hsafe rfl rfl).elim
  | function htag hcalled hname hgiven hstatements hreturned =>
    have hslots : Cst.Slotted [.only .name .identifier, .single .typeParameters,
        .only .parameters .parameters, .single .returnType, .only .body .block] c.children :=
      fits_of_shaped hc htag
    have hprompt := prompt_of_safe rfl hsafe
    rw [if_neg (Bool.eq_false_iff.mp hprompt)] at hsafe
    have hnameClear : ClearIn s c (.only .name .identifier) :=
      clearIn_of_name hslots (by simp) hcalled hname (hsafe.name (by simp))
    have htypes : ClearIn s c (.single .typeParameters) := clearIn_of_not_seen fun d _ hd => by
      have hd : d.role = some .typeParameters := hd
      simp [Cst.isSeen, Cst.isBlindSpot, htag, hd]
    have hparameters : ClearIn s c (.only .parameters .parameters) :=
      clearIn_of_child hslots (by simp) rfl fun d hd hparameters => by
        rw [show c.child? .parameters = some d from hd] at hgiven
        exact parameters_clear hlower (beq_iff_eq.mp hparameters) hgiven
          (hsafe.children _ (by simp))
    have hreturnedClear : ClearIn s c (.single .returnType) :=
      clearIn_of_child hslots (by simp) rfl fun d hd _ => by
        rw [show c.child? .returnType = some d from hd] at hreturned
        exact clear_of_lowerAll hlower hreturned (fun u hu => hsafe.children u (by simp [hu])) d
          (by simp)
    have hbody : ClearIn s c (.only .body .block) :=
      clearIn_of_body hblock hslots (by simp) hstatements fun u hu => hsafe.children u (by simp [hu])
    exact clear_of_parts hc (plain_of_prompt (Or.inl htag) hprompt) hslots
      (by simpa using ⟨hnameClear, htypes, hparameters, hreturnedClear, hbody⟩)

theorem Defined.safe_decorators {ds : List Tree} (h : Defined s lower block c ds t)
    (hsafe : t.Safe) : ∀ d ∈ ds, d.Safe := by
  cases h <;> exact hsafe.decorators

theorem decorated_clear (hlower : Covers s lower) (hblock : CoversBlocks s block) {d : Cst}
    {ds : List Tree} (htag : c.tag = .decoratedDefinition)
    (hds : List.Forall₂ (LowersFirst lower .load) (c.proper.filter (·.tag == .decorator)) ds)
    (hd : c.child? .definition = some d) (h : Defined s lower block d ds t) (hsafe : t.Safe)
    (hc : c.Shaped) : Clear s c := by
  obtain ⟨hcount, hparts⟩ : Cst.countIn .definition c.children ≤ 1
      ∧ ∀ d ∈ c.proper, d.tag = .decorator ∨ d.role = some .definition :=
    fits_of_shaped hc htag
  refine clear_of_proper hc (plain_of_tag htag rfl) fun e he _ hshaped => ?_
  by_cases hdecorator : e.tag = .decorator
  · obtain ⟨u, hu, hread⟩ :=
      exists_of_forall₂ hds e (List.mem_filter.mpr ⟨he, beq_iff_eq.mpr hdecorator⟩)
    exact clear_of_lowersFirst hlower hshaped (plain_of_tag hdecorator rfl)
      (fits_of_shaped hshaped hdecorator) hread (h.safe_decorators hsafe u hu)
  · have hrole := (hparts e he).resolve_left hdecorator
    have hmem : e ∈ c.children := (List.mem_filter.mp he).1
    obtain rfl := eq_of_required hcount (required_eq_ok.mpr hd) hmem hrole
    exact h.clear hlower hblock hsafe hshaped

/-- A statement is clear where its parts are. -/
theorem Stated.clear (hlower : Covers s lower) (hblock : CoversBlocks s block)
    {branches : List Cst → Result (List Tree)} (hbranches : CoversBranches s branches)
    (h : Stated s lower block branches c t) (hsafe : t.Safe) (hc : c.Shaped) : Clear s c := by
  cases h with
  | assigned htag hproper hd h =>
    exact clear_of_only hc (plain_of_tag htag rfl) hproper (h.clear hlower hd hsafe)
  | combined htag hproper hd _ _ htarget hvalue =>
    refine clear_of_only hc (plain_of_tag htag rfl) hproper fun hshaped => ?_
    have hslots : Cst.Slotted [.single .left, .single .right] (Cst.children _) :=
      fits_of_shaped hshaped hd
    exact clear_of_lowersIn_two hlower hshaped (plain_of_tag hd rfl) hslots htarget hvalue
      (hsafe.children _ (by simp)) (hsafe.children _ (by simp))
  | value htag hproper _ ht =>
    exact clear_of_only hc (plain_of_tag htag rfl) hproper
      (hlower ht (hsafe.children _ (by simp)))
  | values htag _ hts =>
    have htuple := hsafe.children _ (List.mem_singleton.mpr rfl)
    exact clear_of_lowerAll_proper hlower hts (fun u hu => htuple.children u (by simp [hu])) hc
      (plain_of_tag htag rfl)
  | @printed d ts htag hproper hd hts =>
    have hcall := hsafe.children _ (List.mem_singleton.mpr rfl)
    have hplain : Plain s d := by
      rcases hd with hd | hd <;> exact plain_of_tag hd rfl
    exact clear_of_only hc (plain_of_tag htag rfl) hproper fun hshaped =>
      clear_of_lowerAll_proper hlower hts (fun u hu => hcall.children u (by simp [hu])) hshaped hplain
  | returned htag hts | asserted htag hts | globals htag hts =>
    exact clear_of_lowerAll_proper hlower hts hsafe.children hc (plain_of_tag htag rfl)
  | pass htag => exact clear_of_bare hc (fits_of_shaped hc htag) (plain_of_tag htag rfl)
  | imports htag hnames => exact import_clear hlower htag hnames hsafe.children hc
  | importsFrom | futureImports => exact absurd rfl hsafe.allowed.2
  | choice htag hcondition hstatements hothers =>
    exact choice_clear hlower hblock hbranches htag hcondition hstatements hothers hsafe.children hc
  | forLoop htag htarget hvalues hstatements hothers =>
    exact forLoop_clear hlower hblock htag (prompt_of_safe rfl hsafe) htarget hvalues hstatements
      hothers hsafe.children hc
  | whileLoop htag hcondition hstatements hothers =>
    exact whileLoop_clear hlower hblock htag hcondition hstatements hothers hsafe.children hc
  | defined h => exact h.clear hlower hblock hsafe hc
  | decorated htag hds hd h => exact decorated_clear hlower hblock htag hds hd h hsafe hc
  | raised | nonlocals | deletion | selection | breakLoop | continueLoop | typeAlias | attempt =>
    exact (not_safe_of_kind hsafe rfl rfl).elim
  | withBlock =>
    refine (not_safe_of_kind hsafe rfl ?_).elim
    split <;> rfl

end

/-! ### Levels -/

variable {s : Source}

/-- A statement that is lowered to a safe tree with some number of levels left is clear. -/
def CoversStatements (s : Source) (levels : Nat) : Prop :=
  ∀ {c : Cst} {t : Tree}, statement s levels c = .ok t → t.Safe → c.Shaped → Clear s c

theorem coversBlocks_of_statements {levels : Nat} (h : CoversStatements s levels) :
    CoversBlocks s (fun b => b.proper.mapM (statement s levels)) := by
  intro c ts hts hsafe htag hc
  refine clear_of_proper hc (plain_of_tag htag rfl)
    fun d hd _ hshaped => ?_
  obtain ⟨t, ht, hread⟩ := exists_of_mapM hts d hd
  exact h hread (hsafe t ht) hshaped

theorem lastElse_clear {block : Cst → Result (List Tree)} (hblock : CoversBlocks s block) {c : Cst}
    {rest : List Cst} {ts : List Tree} (htag : c.tag = .elseClause)
    (helif : ∀ d ∈ (c :: rest).dropLast, d.tag = .elifClause) (h : body block c .body = .ok ts)
    (hsafe : ∀ t ∈ ts, t.Safe) : ∀ d ∈ c :: rest, d.Shaped → Clear s d := by
  cases rest with
  | nil => exact List.forall_mem_singleton.mpr (elseClause_clear hblock htag h hsafe)
  | cons d rest =>
    have hc := helif c (by simp)
    rw [htag] at hc
    cases hc

/-- A further condition is clear with its block, and so are the branches after it. -/
theorem further_clear {levels : Nat} {c test : Cst} {rest : List Cst} {condition : Tree}
    {statements others : List Tree} (hbelow : CoversStatements s levels)
    (hrest : CoversBranches s (branches s levels)) (htag : c.tag = .elifClause)
    (htest : required c .condition = .ok test)
    (hcondition : expression s levels test .load = .ok condition)
    (hstatements : body (fun b => b.proper.mapM (statement s levels)) c .consequence
      = .ok statements)
    (hothers : branches s levels rest = .ok others)
    (hsafe : ∀ u ∈ condition :: statements ++ others, u.Safe)
    (helif : ∀ d ∈ (c :: rest).dropLast, d.tag = .elifClause) :
    ∀ d ∈ c :: rest, d.Shaped → Clear s d := by
  have hc : c.Shaped → Clear s c :=
    elifClause_clear (covers_expression s levels) (coversBlocks_of_statements hbelow) htag
      ⟨test, required_eq_ok.mp htest, hcondition⟩ (hsafe condition (by simp)) hstatements
      fun u hu => hsafe u (by simp [hu])
  have hrests : ∀ d ∈ rest.dropLast, d.tag = .elifClause := fun d hd => helif d (by
    cases rest with
    | nil => cases hd
    | cons e rest => exact List.mem_cons_of_mem _ hd)
  exact List.forall_mem_cons.mpr ⟨hc, hrest hothers (fun u hu => hsafe u (by simp [hu])) hrests⟩

/-- Statements and branches are clear on every level. -/
theorem covers_levels (s : Source) (levels : Nat) :
    CoversStatements s levels ∧ CoversBranches s (branches s levels) := by
  have hall : Throughout s levels (fun c t => t.Safe → c.Shaped → Clear s c)
      fun cs ts => (∀ t ∈ ts, t.Safe) → (∀ c ∈ cs.dropLast, c.tag = .elifClause) →
        ∀ c ∈ cs, c.Shaped → Clear s c := by
    apply throughout
    · intro n hbelow c t h
      exact h.clear (covers_expression s n) (coversBlocks_of_statements hbelow.statement)
        hbelow.branches
    · intro n hhere hbelow cs ts h hsafe helif
      cases h with
      | nil => intro c hc; cases hc
      | otherwise htag hts =>
        exact lastElse_clear (coversBlocks_of_statements hhere) htag helif hts hsafe
      | @further n _ _ _ _ _ _ htag htest hcondition hstatements hothers =>
        have hchoice := hsafe _ (List.mem_singleton.mpr rfl)
        exact further_clear (hbelow n rfl).statement (hbelow n rfl).branches htag htest hcondition
          hstatements hothers hchoice.children helif
  exact ⟨hall.statement, hall.branches⟩

theorem module_clear {c : Cst} {t : Tree} (htag : c.tag = .module) (h : module s c = .ok t)
    (hsafe : t.Safe) (hc : c.Shaped) : Clear s c := by
  simp only [module, bind_eq_ok, pure_eq_ok] at h
  obtain ⟨statements, hstatements, rfl⟩ := h
  refine clear_of_proper hc (plain_of_tag htag rfl)
    fun d hd _ hshaped => ?_
  obtain ⟨t, ht, hread⟩ := exists_of_mapM hstatements d hd
  exact (covers_levels s maxNesting).1 hread (hsafe.children t ht) hshaped

theorem module_shown {c : Cst} {t : Tree} (htag : c.tag = .module) (h : module s c = .ok t)
    (hsafe : t.Safe) (hc : c.Shaped) : Shown s c :=
  shown_of_clear (module_clear htag h hsafe hc)

end Gatehouse.Lowering
