import Gatehouse.Proofs.Linter.Safe
import Gatehouse.Proofs.Lowering.Expressed
import Gatehouse.Proofs.Lowering.Shown

/-!
Expressions are clear: where an expression is lowered to a safe tree, every node that is seen in it
is plain. Each part of a production is taken by itself, with what is in it lowered by any function
that clears what it lowers.
-/
namespace Gatehouse.Lowering

def Covers (s : Source) (lower : Cst → Kind → Result Tree) : Prop :=
  ∀ {c : Cst} {context : Kind} {t : Tree}, lower c context = .ok t → t.Safe → c.Shaped → Clear s c

section

variable {s : Source} {lower : Cst → Kind → Result Tree} {c : Cst} {context : Kind} {t : Tree}

theorem clear_of_lowerAll (hlower : Covers s lower) {cs : List Cst} {ts : List Tree}
    (h : lowerAll lower context cs = .ok ts) (hsafe : ∀ t ∈ ts, t.Safe) :
    ∀ c ∈ cs, c.Shaped → Clear s c := by
  intro c hc hshaped
  obtain ⟨t, ht, hct⟩ := exists_of_mapM h c hc
  exact hlower hct (hsafe t ht) hshaped

theorem clear_of_lowerAll_proper (hlower : Covers s lower) {ts : List Tree}
    (h : lowerAll lower context c.proper = .ok ts) (hsafe : ∀ t ∈ ts, t.Safe) (hc : c.Shaped)
    (hplain : Plain s c) : Clear s c :=
  clear_of_proper hc hplain fun d hd _ hshaped => clear_of_lowerAll hlower h hsafe d hd hshaped

theorem clearIn_of_lowersIn (hlower : Covers s lower) {slots : List Slot} {slot : Slot}
    (hslots : Cst.Slotted slots c.children) (hslot : slot ∈ slots) (hone : slot.many = false)
    (h : LowersIn lower slot.role context c t) (hsafe : t.Safe) : ClearIn s c slot := by
  obtain ⟨d, hd, h⟩ := h
  exact clearIn_of_required hslots hslot hone (required_eq_ok.mpr hd) fun _ => hlower h hsafe

theorem clearIn_of_name {slots : List Slot} {r : Role} {d : Cst} {name : String}
    (hslots : Cst.Slotted slots c.children) (hslot : Slot.only r .identifier ∈ slots)
    (hd : c.child? r = some d) (hname : text s d = .ok name) (hshown : Linter.isHidden name = false) :
    ClearIn s c (.only r .identifier) :=
  clearIn_of_required hslots hslot rfl (required_eq_ok.mpr hd) fun hid hshaped =>
    clear_of_name hshaped (beq_iff_eq.mp hid) hname hshown

theorem clear_of_two_parts {a b : Role} {d e : Cst} (hc : c.Shaped)
    (hplain : Plain s c)
    (hslots : Cst.Slotted [.single a, .single b] c.children) (hd : required c a = .ok d)
    (he : required c b = .ok e) (hdclear : d.Shaped → Clear s d) (heclear : e.Shaped → Clear s e) :
    Clear s c := by
  have ha : ClearIn s c (.single a) :=
    clearIn_of_required hslots (by simp) rfl hd fun _ => hdclear
  have hb : ClearIn s c (.single b) :=
    clearIn_of_required hslots (by simp) rfl he fun _ => heclear
  exact clear_of_parts hc hplain hslots (by simpa using ⟨ha, hb⟩)

theorem clear_of_lowersIn_two (hlower : Covers s lower) {a b : Role} {context' : Kind} {u : Tree}
    (hc : c.Shaped) (hplain : Plain s c)
    (hslots : Cst.Slotted [.single a, .single b] c.children) (ht : LowersIn lower a context c t)
    (hu : LowersIn lower b context' c u) (hsafe : t.Safe) (hsafe' : u.Safe) : Clear s c := by
  obtain ⟨d, hd, ht⟩ := ht
  obtain ⟨e, he, hu⟩ := hu
  exact clear_of_two_parts hc hplain hslots (required_eq_ok.mpr hd) (required_eq_ok.mpr he)
    (hlower ht hsafe) (hlower hu hsafe')

theorem clear_of_lowersFirst (hlower : Covers s lower) (hc : c.Shaped) (hplain : Plain s c)
    (hwraps : Cst.Wrapping c.children) (h : LowersFirst lower context c t) (hsafe : t.Safe) :
    Clear s c := by
  obtain ⟨d, hd, h⟩ := h
  exact clear_of_wrapping hc hplain hwraps hd fun _ => hlower h hsafe

theorem clear_of_bare (hc : c.Shaped) (hbare : Cst.Bare c.children)
    (hplain : Plain s c) : Clear s c := by
  refine clear_of_proper hc hplain fun d hd _ _ => ?_
  obtain ⟨hmem, hproper⟩ := List.mem_filter.mp hd
  rw [hbare d hmem] at hproper
  cases hproper

/-! ### Subscripts -/

theorem slice_clear (hlower : Covers s lower) (htag : c.tag = .slice) {ts : List Tree}
    (h : lowerAll lower .load c.proper = .ok ts) (hsafe : ∀ t ∈ ts, t.Safe) (hc : c.Shaped) :
    Clear s c :=
  clear_of_lowerAll_proper hlower h hsafe hc (plain_of_tag htag rfl)

theorem IsSubscript.clear (hlower : Covers s lower) (h : IsSubscript lower c t) (hsafe : t.Safe)
    (hc : c.Shaped) : Clear s c := by
  cases h with
  | slice htag hbounds => exact slice_clear hlower htag hbounds hsafe.children hc
  | value h => exact hlower h hsafe hc

theorem AreSubscripts.clear (hlower : Covers s lower) {line : Nat} {cs : List Cst}
    (h : AreSubscripts lower line cs t) (hsafe : t.Safe) : ∀ c ∈ cs, c.Shaped → Clear s c := by
  cases h with
  | slice htag hbounds =>
    exact List.forall_mem_singleton.mpr (slice_clear hlower htag hbounds hsafe.children)
  | index hvalue =>
    exact List.forall_mem_singleton.mpr (hlower hvalue (hsafe.children _ (by simp)))
  | several hparts =>
    have htuple := hsafe.children _ (List.mem_singleton.mpr rfl)
    intro c hmem hc
    obtain ⟨part, hpart, hread⟩ := exists_of_forall₂ hparts c hmem
    exact hread.clear hlower (htuple.children part (by simp [hpart])) hc

/-! ### Arguments -/

theorem KeywordOf.clear (hlower : Covers s lower) (h : KeywordOf s lower c t) (hsafe : t.Safe)
    (hc : c.Shaped) : Clear s c := by
  cases h with
  | named htag hname hkey hvalue =>
    have hslots : Cst.Slotted [.only .name .identifier, .single .value] c.children :=
      fits_of_shaped hc htag
    have hnameClear : ClearIn s c (.only .name .identifier) :=
      clearIn_of_name hslots (by simp) hname hkey (hsafe.name (by simp))
    have hvalueClear : ClearIn s c (.single .value) :=
      clearIn_of_lowersIn hlower hslots (by simp) rfl hvalue (hsafe.children _ (by simp))
    exact clear_of_parts hc (plain_of_tag htag rfl) hslots
      (by simpa using ⟨hnameClear, hvalueClear⟩)
  | splat htag hproper hvalue =>
    exact clear_of_wrapping hc (plain_of_tag htag rfl) (fits_of_shaped hc htag)
      (firstProper_eq_ok.mpr ⟨_, hproper⟩) fun _ => hlower hvalue (hsafe.children _ (by simp))

theorem AreArguments.clear (hlower : Covers s lower) {ts : List Tree}
    (h : AreArguments s lower c ts) (hsafe : ∀ t ∈ ts, t.Safe) (hc : c.Shaped)
    (hplain : Plain s c) : Clear s c := by
  obtain ⟨positional, keywords, rfl, hpositional, hkeywords⟩ := h
  refine clear_of_proper hc hplain fun d hd _ hshaped => ?_
  cases hkeyword : d.isKeyword with
  | false =>
    obtain ⟨t, ht, hread⟩ :=
      exists_of_forall₂ hpositional d (List.mem_filter.mpr ⟨hd, by simp [hkeyword]⟩)
    exact hlower hread (hsafe t (List.mem_append_left _ ht)) hshaped
  | true =>
    obtain ⟨t, ht, hread⟩ := exists_of_forall₂ hkeywords d (List.mem_filter.mpr ⟨hd, hkeyword⟩)
    exact hread.clear hlower (hsafe t (List.mem_append_right _ ht)) hshaped

theorem IsCall.clear (hlower : Covers s lower) (htag : c.tag = .call) (h : IsCall s lower c t)
    (hsafe : t.Safe) (hc : c.Shaped) : Clear s c := by
  obtain ⟨callee, given, ts, rfl, hcallee, hgiven, hts⟩ := h
  have hall : ∀ u ∈ ts, u.Safe := fun u hu => hsafe.children u (List.mem_cons_of_mem _ hu)
  have hslots : Cst.Slotted [.single .function, ⟨.arguments,
      fun t => t == .argumentList || t == .generatorExpression, false⟩] c.children :=
    fits_of_shaped hc htag
  have hcalleeClear : ClearIn s c (.single .function) :=
    clearIn_of_lowersIn hlower hslots (by simp) rfl hcallee (hsafe.children _ List.mem_cons_self)
  have hgivenClear : ClearIn s c ⟨.arguments,
      fun t => t == .argumentList || t == .generatorExpression, false⟩ := by
    refine clearIn_of_required hslots (by simp) rfl (required_eq_ok.mpr hgiven)
      fun hkind hshaped => ?_
    split at hts
    · obtain ⟨u, rfl, hu⟩ := hts
      exact hlower hu (hall u (List.mem_singleton.mpr rfl)) hshaped
    · next hlist =>
      have hgivenTag : given.tag = .argumentList := by simpa [hlist] using hkind
      exact hts.clear hlower hall hshaped (plain_of_tag hgivenTag rfl)
  exact clear_of_parts hc (plain_of_tag htag rfl) hslots
    (by simpa using ⟨hcalleeClear, hgivenClear⟩)

/-! ### Chains of operations -/

/-- A chain is clear if each of its operands is lowered to a safe tree. -/
theorem chainOperands_clear (hlower : Covers s lower) {operator : String} {cs : List Cst}
    {ts : List Tree}
    (h : (chainOperands operator cs).mapM (fun r => do lower (← r) .load) = .ok ts)
    (hsafe : ∀ t ∈ ts, t.Safe) : ∀ c ∈ cs, c.Shaped → Clear s c := by
  induction cs using chainOperands.induct operator generalizing ts with
  | case1 => intro c hc; cases hc
  | case2 c pending hlink hr =>
    obtain ⟨l, r, -, hright, -⟩ := operands_of_link hlink h
    exact absurd (hr.symm.trans hright) (by simp)
  | case3 c pending hlink r hr hl =>
    obtain ⟨l, r, hleft, -⟩ := operands_of_link hlink h
    exact absurd (hl.symm.trans hleft) (by simp)
  | case4 c pending hlink r hr l hl ih =>
    obtain ⟨left, right, hleft, hright, h⟩ := operands_of_link hlink h
    obtain rfl := Option.some.inj (hl.symm.trans hleft)
    obtain rfl := Option.some.inj (hr.symm.trans hright)
    have hrest := ih h hsafe
    refine List.forall_mem_cons.mpr ⟨fun hc => ?_, fun d hd => hrest d (by simp [hd])⟩
    have htag : c.tag = .booleanOperator := by
      simp only [isLink, Bool.and_eq_true, beq_iff_eq] at hlink
      exact hlink.1
    have hslots : Cst.Slotted [.single .left, .single .right] c.children :=
      fits_of_shaped hc htag
    exact clear_of_two_parts hc (plain_of_tag htag rfl) hslots
      (required_eq_ok.mpr hl) (required_eq_ok.mpr hr) (hrest l (by simp)) (hrest r (by simp))
  | case5 c pending hlink ih =>
    rw [chainOperands, if_neg hlink] at h
    simp only [List.mapM_cons, bind_eq_ok, pure_eq_ok, Except.ok.injEq] at h
    obtain ⟨t, ⟨d, rfl, ht⟩, us, hus, rfl⟩ := h
    exact List.forall_mem_cons.mpr ⟨hlower ht (hsafe t List.mem_cons_self),
      ih hus fun u hu => hsafe u (List.mem_cons_of_mem _ hu)⟩

theorem IsComparison.clear (hlower : Covers s lower) (htag : c.tag = .comparisonOperator)
    (h : IsComparison lower c t) (hsafe : t.Safe) (hc : c.Shaped) : Clear s c := by
  obtain ⟨first, rest, left, kinds, right, hproper, rfl, hleft, -, hright⟩ := h
  refine clear_of_proper hc (plain_of_tag htag rfl) fun d hd _ => ?_
  rw [hproper] at hd
  rcases List.mem_cons.mp hd with rfl | hd
  · exact hlower hleft (hsafe.children left (by simp))
  · obtain ⟨u, hu, hread⟩ := exists_of_forall₂ hright d hd
    exact hlower hread (hsafe.children u (by simp [hu]))

/-! ### Strings -/

theorem eq_str_of_admitted {kind : Kind} (h : kind ∈ textKinds)
    (hadmitted : Policy.admitted kind = true) : kind = .str := by
  simp only [textKinds, List.mem_cons, List.not_mem_nil, or_false] at h
  rcases h with rfl | rfl | rfl
  · rfl
  · cases hadmitted
  · cases hadmitted

/-- Strings side by side are plain text only if each of them is. -/
theorem str_of_joinedKind {cs : List Cst} {kind : Kind} (h : joinedKind s cs kind = .ok .str) :
    kind = .str ∧ ∀ d ∈ cs, stringKind s d = .ok .str := by
  induction cs generalizing kind with
  | nil => exact ⟨Except.ok.inj h, fun d hd => by cases hd⟩
  | cons c cs ih =>
    obtain ⟨next, hnext, h⟩ := bind_eq_ok.mp h
    obtain ⟨hjoined, hrest⟩ := ih h
    have htext := mem_textKinds_of_stringKind hnext
    simp only [textKinds, List.mem_cons, List.not_mem_nil, or_false] at htext
    -- An interpolated string or bytes would have made the whole one of these.
    rcases htext with rfl | rfl | rfl
    · have hkind : kind = .str := by simpa [joinKinds] using hjoined
      exact ⟨hkind, List.forall_mem_cons.mpr ⟨hnext, hrest⟩⟩
    · by_cases hkind : kind = .str <;> simp [joinKinds, hkind] at hjoined
    · simp [joinKinds] at hjoined

/-! ### Dictionaries and comprehensions -/

theorem dictionaryEntry_clear (hlower : Covers s lower) {entry : List Tree × List Tree}
    (h : dictionaryEntry lower c = .ok entry) (hsafe : ∀ t ∈ entry.1 ++ entry.2, t.Safe)
    (hc : c.Shaped) : Clear s c := by
  rcases dictionaryEntry_eq_ok h with ⟨htag, ⟨key, hkeys, hkey⟩, value, hvalues, hvalue⟩
    | ⟨htag, -, hvalues⟩
  · exact clear_of_lowersIn_two hlower hc (plain_of_tag htag rfl) (fits_of_shaped hc htag) hkey
      hvalue (hsafe key (by simp [hkeys])) (hsafe value (by simp [hvalues]))
  · refine clear_of_proper hc (plain_of_tag htag rfl) fun d hd _ hshaped => ?_
    obtain ⟨u, hu, hread⟩ := exists_of_forall₂ hvalues d hd
    exact hlower hread (hsafe u (List.mem_append_right _ hu)) hshaped

theorem entries_clear (hlower : Covers s lower) {each : List (List Tree × List Tree)} {cs : List Cst}
    (h : cs.mapM (dictionaryEntry lower) = .ok each)
    (hsafe : ∀ u ∈ each.flatMap (·.1) ++ each.flatMap (·.2), u.Safe) :
    ∀ c ∈ cs, c.Shaped → Clear s c := by
  intro d hd hshaped
  obtain ⟨entry, hentry, hread⟩ := exists_of_mapM h d hd
  refine dictionaryEntry_clear hlower hread (fun u hu => hsafe u ?_) hshaped
  rcases List.mem_append.mp hu with hu | hu
  · exact List.mem_append_left _ (List.mem_flatMap.mpr ⟨_, hentry, hu⟩)
  · exact List.mem_append_right _ (List.mem_flatMap.mpr ⟨_, hentry, hu⟩)

theorem IsElement.clear (hlower : Covers s lower) {ts : List Tree} (h : IsElement lower c ts)
    (hsafe : ∀ t ∈ ts, t.Safe) (hc : c.Shaped) : Clear s c := by
  rcases h with ⟨htag, key, value, rfl, hkey, hvalue⟩ | ⟨-, value, rfl, hvalue⟩
  · exact clear_of_lowersIn_two hlower hc (plain_of_tag htag rfl) (fits_of_shaped hc htag) hkey
      hvalue (hsafe key (by simp)) (hsafe value (by simp))
  · exact hlower hvalue (hsafe value (by simp)) hc

theorem IsSource.clear (hlower : Covers s lower) (h : IsSource lower c t) (hsafe : t.Safe) :
    ∀ d ∈ c.childrenIn .right, d.Shaped → Clear s d := by
  rcases h with ⟨d, hd, h⟩ | ⟨-, ts, rfl, hts⟩
  · rw [hd]
    exact List.forall_mem_singleton.mpr (hlower h hsafe)
  · intro d hd
    obtain ⟨u, hu, hread⟩ := exists_of_forall₂ hts d hd
    exact hlower hread (hsafe.children u (by simp [hu]))

theorem IsCondition.clear (hlower : Covers s lower) (h : IsCondition lower c t) (hsafe : t.Safe)
    (hc : c.Shaped) : Clear s c := by
  obtain ⟨htag, d, rest, hproper, h⟩ := h
  exact clear_of_wrapping hc (plain_of_tag htag rfl) (fits_of_shaped hc htag)
    (firstProper_eq_ok.mpr ⟨rest, hproper⟩) fun _ => hlower h hsafe

/-- The loop of a round is clear, and so are its conditions. -/
theorem IsRound.clear (hlower : Covers s lower) {r : Round} (h : IsRound lower r t)
    (hsafe : t.Safe) : ∀ d ∈ r.clauses, d.Shaped → Clear s d := by
  obtain ⟨target, values, tests, rfl, ⟨htag, htarget, hvalues⟩, htests⟩ := h
  refine List.forall_mem_cons.mpr ⟨fun hc => ?_, fun d hd => ?_⟩
  · have hslots : Cst.Slotted [.single .left, .several .right] r.loop.children :=
      fits_of_shaped hc htag
    have htargetClear : ClearIn s r.loop (.single .left) :=
      clearIn_of_lowersIn hlower hslots (by simp) rfl htarget (hsafe.children target (by simp))
    have hvaluesClear : ClearIn s r.loop (.several .right) :=
      clearIn_of_childrenIn fun d hd _ =>
        hvalues.clear hlower (hsafe.children values (by simp)) d hd
    exact clear_of_parts hc (plain_of_tag htag rfl) hslots
      (by simpa using ⟨htargetClear, hvaluesClear⟩)
  · obtain ⟨test, htest, hread⟩ := exists_of_forall₂ htests d hd
    exact hread.clear hlower (hsafe.children test (by simp [htest]))

theorem listComprehension_of_admitted {tag : Tag} {kind : Kind}
    (h : tag.comprehensionKind? = some kind) (hadmitted : Policy.admitted kind = true) :
    tag = .listComprehension := by
  unfold Tag.comprehensionKind? at h
  split at h <;> cases h
  · rfl
  all_goals cases hadmitted

theorem listComprehension_clear (hlower : Covers s lower) (htag : c.tag = .listComprehension)
    {body : Cst} {element loops : List Tree} (hbody : c.child? .body = some body)
    (helement : IsElement lower body element)
    (hloops : List.Forall₂ (IsRound lower) (rounds (c.proper.drop 1)) loops)
    (hclauses : (rounds (c.proper.drop 1)).flatMap Round.clauses = c.proper.drop 1)
    (hsafe : ∀ t ∈ element ++ loops, t.Safe) (hc : c.Shaped) : Clear s c := by
  have hheaded : Cst.Headed .body c.children := fits_of_shaped hc htag
  refine clear_of_proper hc (plain_of_tag htag rfl) fun d hd _ hshaped => ?_
  cases hparts : c.proper with
  | nil => rw [hparts] at hd; cases hd
  | cons first rest =>
    rw [hparts] at hd hclauses hloops
    rcases List.mem_cons.mp hd with rfl | hd
    · have hmem : d ∈ c.children := (List.mem_filter.mp (hparts ▸ List.mem_cons_self)).1
      obtain rfl := eq_of_required hheaded.1 (required_eq_ok.mpr hbody) hmem
        (hheaded.2 _ _ hparts)
      exact helement.clear hlower (fun u hu => hsafe u (List.mem_append_left _ hu)) hshaped
    · rw [List.drop_one, List.tail_cons] at hclauses hloops
      rw [← hclauses] at hd
      obtain ⟨round, hround, hd⟩ := List.mem_flatMap.mp hd
      obtain ⟨loop, hloop, hread⟩ := exists_of_forall₂ hloops round hround
      exact hread.clear hlower (hsafe loop (List.mem_append_right _ hloop)) d hd hshaped

/-! ### Wrappers -/

/-- What is lowered to the tree of the one node in it is clear if that node is. The other name of an
expression is not seen. -/
theorem wrapped_clear (hlower : Covers s lower) (hwrapper : c.tag.isWrapper = true)
    (h : LowersFirst lower context c t) (hsafe : t.Safe) (hc : c.Shaped) : Clear s c := by
  unfold Tag.isWrapper at hwrapper
  split at hwrapper
  case h_1 htag | h_2 htag | h_4 htag =>
    exact clear_of_lowersFirst hlower hc (plain_of_tag htag rfl) (fits_of_shaped hc htag) h hsafe
  case h_3 htag =>
    obtain ⟨first, hfirst, h⟩ := h
    obtain ⟨rest, hproper⟩ := firstProper_eq_ok.mp hfirst
    have hled : Cst.Led .alias c.children := fits_of_shaped hc htag
    refine clear_of_proper hc (plain_of_tag htag rfl) fun d hd hseen hshaped => ?_
    rw [hproper] at hd
    rcases List.mem_cons.mp hd with rfl | hd
    · exact hlower h hsafe hshaped
    · have halias := hled _ _ hproper d hd
      simp [Cst.isSeen, Cst.isBlindSpot, htag, halias] at hseen
  case h_5 => cases hwrapper

theorem not_safe_of_kind {kind : Kind} (hsafe : t.Safe) (hkind : t.kind = kind)
    (hrefused : Policy.admitted kind = false) : False := by
  rw [← hkind, hsafe.allowed.1] at hrefused
  cases hrefused

/-- An expression is clear where its parts are. -/
theorem Expressed.clear (hlower : Covers s lower) (h : Expressed s lower c context t)
    (hsafe : t.Safe) (hc : c.Shaped) : Clear s c := by
  cases h with
  | name htag hname => exact clear_of_name hc htag hname (hsafe.name (by simp))
  | access htag hvalue hlast hname =>
    have hslots : Cst.Slotted [.single .object, .only .attributeName .identifier] c.children :=
      fits_of_shaped hc htag
    have hvalueClear : ClearIn s c (.single .object) :=
      clearIn_of_lowersIn hlower hslots (by simp) rfl hvalue (hsafe.children _ (by simp))
    have hlastClear : ClearIn s c (.only .attributeName .identifier) :=
      clearIn_of_name hslots (by simp) hlast hname (hsafe.name (by simp))
    exact clear_of_parts hc (plain_of_tag htag rfl) hslots
      (by simpa using ⟨hvalueClear, hlastClear⟩)
  | subscript htag hvalue hpart =>
    have hslots : Cst.Slotted [.single .value, .several .subscript] c.children :=
      fits_of_shaped hc htag
    have hvalueClear : ClearIn s c (.single .value) :=
      clearIn_of_lowersIn hlower hslots (by simp) rfl hvalue (hsafe.children _ (by simp))
    have hpartsClear : ClearIn s c (.several .subscript) :=
      clearIn_of_childrenIn fun d hd _ => hpart.clear hlower (hsafe.children _ (by simp)) d hd
    exact clear_of_parts hc (plain_of_tag htag rfl) hslots
      (by simpa using ⟨hvalueClear, hpartsClear⟩)
  | call htag h => exact h.clear hlower htag hsafe hc
  | binary htag _ _ hleft hright =>
    exact clear_of_lowersIn_two hlower hc (plain_of_tag htag rfl) (fits_of_shaped hc htag) hleft
      hright (hsafe.children _ (by simp)) (hsafe.children _ (by simp))
  | unary htag _ _ hvalue | negation htag hvalue =>
    have hslots : Cst.Slotted [.single .argument] c.children := fits_of_shaped hc htag
    have hpart : ClearIn s c (.single .argument) :=
      clearIn_of_lowersIn hlower hslots (by simp) rfl hvalue (hsafe.children _ (by simp))
    exact clear_of_parts hc (plain_of_tag htag rfl) hslots (by simpa using hpart)
  | chain htag _ hoperands =>
    exact chainOperands_clear hlower hoperands
      (fun u hu => hsafe.children u (List.mem_cons_of_mem _ hu)) c (List.mem_singleton_self c) hc
  | comparison htag h => exact h.clear hlower htag hsafe hc
  | number htag =>
    rcases htag with htag | htag <;>
      exact clear_of_bare hc (fits_of_shaped hc htag) (plain_of_tag htag rfl)
  | string htag hkind =>
    obtain rfl := eq_str_of_admitted (mem_textKinds_of_stringKind hkind) hsafe.allowed.1
    exact clear_of_stringLiteral htag hkind
  | strings htag hkind =>
    obtain rfl := eq_str_of_admitted (mem_textKinds_of_joinedKind hkind (by decide))
      hsafe.allowed.1
    have hparts : ∀ d ∈ c.proper, d.tag = .stringLiteral := fits_of_shaped hc htag
    exact clear_of_proper hc (plain_of_tag htag rfl) fun d hd _ _ =>
      clear_of_stringLiteral (hparts d hd) ((str_of_joinedKind hkind).2 d hd)
  | constant hname =>
    unfold Tag.constant? at hname
    split at hname
    case h_1 htag | h_2 htag | h_3 htag =>
      exact clear_of_bare hc (fits_of_shaped hc htag) (plain_of_tag htag rfl)
    case h_4 => cases hname
  | ellipsis htag => exact clear_of_bare hc (fits_of_shaped hc htag) (plain_of_tag htag rfl)
  | listDisplay htag hts =>
    refine clear_of_lowerAll_proper hlower hts (fun u hu => hsafe.children u (by simp [hu])) hc ?_
    rcases htag with htag | htag <;> exact plain_of_tag htag rfl
  | tuple htag hts =>
    refine clear_of_lowerAll_proper hlower hts (fun u hu => hsafe.children u (by simp [hu])) hc ?_
    rcases htag with htag | htag | htag | htag <;> exact plain_of_tag htag rfl
  | setDisplay htag hts =>
    exact clear_of_lowerAll_proper hlower hts hsafe.children hc (plain_of_tag htag rfl)
  | dictionary htag heach =>
    exact clear_of_proper hc (plain_of_tag htag rfl) fun d hd _ =>
      entries_clear hlower heach hsafe.children d hd
  | comprehension hkind hbody helement hloops hclauses =>
    exact listComprehension_clear hlower (listComprehension_of_admitted hkind hsafe.allowed.1) hbody
      helement hloops hclauses hsafe.children hc
  | wrapped htag h => exact wrapped_clear hlower htag h hsafe hc
  | starred htag hvalue =>
    rcases htag with htag | htag <;>
      exact clear_of_lowersFirst hlower hc (plain_of_tag htag rfl) (fits_of_shaped hc htag) hvalue
        (hsafe.children _ (by simp))
  | choice | lambda | naming | await => exact (not_safe_of_kind hsafe rfl rfl).elim
  | yield =>
    refine (not_safe_of_kind hsafe rfl ?_).elim
    split <;> rfl

theorem covers_expression (s : Source) (levels : Nat) : Covers s (expression s levels) := by
  induction levels with
  | zero => intro c context t h; cases h
  | succ levels ih => exact fun h => (expressed h).clear ih

end

end Gatehouse.Lowering
