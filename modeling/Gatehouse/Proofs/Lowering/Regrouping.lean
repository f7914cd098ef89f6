import Gatehouse.Proofs.Cst.Statements
import Gatehouse.Proofs.Lowering.Assignment

/-!
Lists that lowering regroups: arguments by position come before those by keyword, parameters before
default values, the keys of a dictionary before its values, and the operators of a comparison before
all operands but the first. Each group keeps the order of the text, and all that was listed is in one
of them.
-/
namespace Gatehouse

open Gatehouse.Tree

namespace Cst

def isKeyword (c : Cst) : Bool := c.tag == .keywordArgument || c.tag == .dictionarySplat

def isSeparator (c : Cst) : Bool := c.tag == .keywordSeparator || c.tag == .positionalSeparator

def isDefaulted (c : Cst) : Bool := c.tag == .defaultParameter || c.tag == .typedDefaultParameter

/-- The identifier that a parameter is named by, under its type, its default value and splats. -/
inductive NamedBy : Cst → Cst → Prop
  | identifier {c : Cst} (htag : c.tag = .identifier) : NamedBy c c
  | first {c d leaf : Cst} {rest : List Cst} (htag : c.tag = .typedParameter
      ∨ c.tag = .listSplatPattern ∨ c.tag = .dictionarySplatPattern)
      (hproper : c.proper = d :: rest) (h : NamedBy d leaf) : NamedBy c leaf
  | defaulted {c d leaf : Cst} (htag : c.isDefaulted = true) (hd : c.child? .name = some d)
      (h : NamedBy d leaf) : NamedBy c leaf

def hints (c : Cst) : List Cst :=
  match c.tag with
  | .typedParameter | .defaultParameter | .typedDefaultParameter => (c.child? .typeHint).toList
  | _ => []

theorem mem_allNodes_of_mem_hints {c d : Cst} (h : d ∈ c.hints) : d ∈ c.allNodes := by
  unfold hints at h
  split at h
  case h_4 => cases h
  all_goals exact mem_allNodes_of_child? (Option.mem_toList.mp h)

theorem length_hints_le (c : Cst) : c.hints.length ≤ 1 := by
  unfold hints
  split
  case h_4 => exact Nat.zero_le 1
  all_goals exact Option.length_toList_le

end Cst

namespace Lowering

section

variable (s : Source) (lower : Cst → Kind → Result Tree)

/-- The node of an argument that goes by keyword. -/
inductive KeywordOf (c : Cst) : Tree → Prop
  | named {name : Cst} {key : String} {value : Tree} (htag : c.tag = .keywordArgument)
      (hname : c.child? .name = some name) (hkey : text s name = .ok key)
      (hvalue : LowersIn lower .value .load c value) :
      KeywordOf c (.named .keyword c.line key [value])
  | splat {d : Cst} {rest : List Cst} {value : Tree} (htag : c.tag = .dictionarySplat)
      (hproper : c.proper = d :: rest) (hvalue : lower d .load = .ok value) :
      KeywordOf c (.branch .keyword c.line [value])

/-- The arguments of a list: those by position, then those by keyword. -/
def AreArguments (c : Cst) (ts : List Tree) : Prop :=
  ∃ positional keywords, ts = positional ++ keywords
    ∧ List.Forall₂ (fun d t => lower d .load = .ok t) (c.proper.filter (!·.isKeyword)) positional
    ∧ List.Forall₂ (KeywordOf s lower) (c.proper.filter Cst.isKeyword) keywords

/-- The node of a parameter: its name, on the line where that stands, and its type. -/
def ParameterOf (c : Cst) (t : Tree) : Prop :=
  ∃ leaf name types, t = .named .arg leaf.line name types
    ∧ c.NamedBy leaf ∧ text s leaf = .ok name
    ∧ List.Forall₂ (fun d u => lower d .load = .ok u) c.hints types

/-- The node of a list of parameters: a node for each but the separators, and then the default
values. Without a list it is on the line given. -/
def AreParameters (list : Option Cst) (line : Nat) (t : Tree) : Prop :=
  match list with
  | none => t = .leaf .arguments line
  | some c => ∃ names defaults, t = .branch .arguments c.line (names ++ defaults)
    ∧ List.Forall₂ (ParameterOf s lower) (c.proper.filter (!·.isSeparator)) names
    ∧ List.Forall₂ (LowersIn lower .value .load) (c.proper.filter Cst.isDefaulted) defaults

def ValueOf (c : Cst) (t : Tree) : Prop :=
  (c.tag = .pair ∧ LowersIn lower .value .load c t)
  ∨ c.tag = .dictionarySplat ∧ ∃ d, c.proper = [d] ∧ lower d .load = .ok t

/-- The node of a dictionary: the keys of its pairs, then the values of all its entries. -/
def IsDictionary (c : Cst) (t : Tree) : Prop :=
  ∃ keys values, t = .branch .dict c.line (keys ++ values)
    ∧ List.Forall₂ (LowersIn lower .key .load) (c.proper.filter (·.tag == .pair)) keys
    ∧ List.Forall₂ (ValueOf lower) c.proper values

/-- The node of a comparison: its first operand, its operators, and its other operands. -/
def IsComparison (c : Cst) (t : Tree) : Prop :=
  ∃ first rest left kinds right, c.proper = first :: rest
    ∧ t = .branch .compare c.line (left :: kinds.map (.leaf · c.line) ++ right)
    ∧ lower first .load = .ok left
    ∧ List.Forall₂ (fun op kind => comparisonKind? op.tag.name = some kind)
      (c.childrenIn .operators) kinds
    ∧ List.Forall₂ (fun d u => lower d .load = .ok u) rest right

/-- The node of a call: its callee, and its arguments. A generator without brackets of its own is the
only argument. -/
def IsCall (c : Cst) (t : Tree) : Prop :=
  ∃ callee given ts, t = .branch .call c.line (callee :: ts)
    ∧ LowersIn lower .function .load c callee ∧ c.child? .arguments = some given
    ∧ if given.tag = .generatorExpression then ∃ u, ts = [u] ∧ lower given .load = .ok u
      else AreArguments s lower given ts

/-- The node of a class: its bases, which are arguments, and its statements. -/
def IsClass (block : Cst → Result (List Tree)) (c : Cst) (t : Tree) : Prop :=
  ∃ bases statements, t.kind = .classDef ∧ t.children = bases ++ statements
    ∧ (match c.child? .superclasses with
      | some given => AreArguments s lower given bases
      | none => bases = [])
    ∧ body block c .body = .ok statements

/-- The first child of a node are the parameters of what it is lowered from. -/
def Takes (c : Cst) (t : Tree) : Prop :=
  ∃ given rest, t.children = given :: rest
    ∧ AreParameters s lower (c.child? .parameters) c.line given

end

section

variable {s : Source} {lower : Cst → Kind → Result Tree} {block : Cst → Result (List Tree)}
  {c : Cst} {t : Tree} {ts : List Tree} {context : Kind} {levels : Nat}

/-! ### Arguments -/

theorem argument_eq_ok {part : Tree ⊕ Tree} (h : argument s lower c = .ok part) :
    (c.isKeyword = false ∧ ∃ t, part = .inl t ∧ lower c .load = .ok t)
    ∨ c.isKeyword = true ∧ ∃ t, part = .inr t ∧ KeywordOf s lower c t := by
  unfold argument at h
  split at h
  · next htag =>
    simp only [bind_eq_ok, pure_eq_ok, required_eq_ok] at h
    obtain ⟨name, hname, key, hkey, d, hd, value, hvalue, rfl⟩ := h
    exact Or.inr ⟨by simp [Cst.isKeyword, htag], _, rfl, .named htag hname hkey ⟨d, hd, hvalue⟩⟩
  · next htag =>
    simp only [bind_eq_ok, pure_eq_ok] at h
    obtain ⟨d, hd, value, hvalue, rfl⟩ := h
    obtain ⟨rest, hproper⟩ := firstProper_eq_ok.mp hd
    exact Or.inr ⟨by simp [Cst.isKeyword, htag], _, rfl, .splat htag hproper hvalue⟩
  · next hkeyword hsplat =>
    obtain ⟨t, ht, rfl⟩ := map_eq_ok.mp h
    exact Or.inl ⟨by simpa [Cst.isKeyword] using ⟨hkeyword, hsplat⟩, t, rfl, ht⟩

theorem areArguments_of_arguments (h : arguments s lower c = .ok ts) : AreArguments s lower c ts := by
  simp only [arguments, bind_eq_ok, pure_eq_ok] at h
  obtain ⟨each, heach, rfl⟩ := h
  have hall := (forall₂_of_mapM heach).imp fun _ _ hpart => argument_eq_ok hpart
  refine ⟨_, _, rfl, ?_, ?_⟩ <;> rw [List.filterMap_eq_flatMap_toList]
  · refine forall₂_filter_flatMap hall (fun d part hpart hd => ?_) fun d part hpart hd => ?_
    · rcases hpart with ⟨-, t, rfl, ht⟩ | ⟨hkeyword, -⟩
      · exact ⟨t, rfl, ht⟩
      · simp [hkeyword] at hd
    · rcases hpart with ⟨hkeyword, -⟩ | ⟨-, t, rfl, -⟩
      · simp [hkeyword] at hd
      · rfl
  · refine forall₂_filter_flatMap hall (fun d part hpart hd => ?_) fun d part hpart hd => ?_
    · rcases hpart with ⟨hkeyword, -⟩ | ⟨-, t, rfl, ht⟩
      · simp [hkeyword] at hd
      · exact ⟨t, rfl, ht⟩
    · rcases hpart with ⟨-, t, rfl, -⟩ | ⟨hkeyword, -⟩
      · rfl
      · simp [hkeyword] at hd

theorem KeywordOf.value (h : KeywordOf s lower c t) : ∃ ident value,
    t = .node .keyword c.line ident [] [value] ∧ LowersUnder lower .load c value := by
  cases h with
  | named _ _ _ hvalue => exact ⟨_, _, rfl, hvalue.under⟩
  | splat _ hproper hvalue =>
    exact ⟨none, _, rfl, _, Cst.mem_allNodes_of_mem_proper (hproper ▸ List.mem_cons_self), hvalue⟩

theorem AreArguments.all {p : Tree → Prop} (h : AreArguments s lower c ts)
    (hposition : ∀ u, LowersUnder lower .load c u → p u)
    (hkeyword : ∀ d ∈ c.proper, ∀ ident u, LowersUnder lower .load d u →
      p (.node .keyword d.line ident [] [u])) : ∀ t ∈ ts, p t := by
  obtain ⟨positional, keywords, rfl, hpositional, hkeywords⟩ := h
  refine List.forall_mem_append.mpr ⟨forall_of_forall₂ hpositional fun d hd t ht => ?_,
    forall_of_forall₂ hkeywords fun d hd t ht => ?_⟩
  · exact hposition t ⟨d, Cst.mem_allNodes_of_mem_proper (List.mem_filter.mp hd).1, ht⟩
  · obtain ⟨ident, value, rfl, hvalue⟩ := ht.value
    exact hkeyword d (List.mem_filter.mp hd).1 ident value hvalue

theorem isCall_of_call (htag : c.tag = .call) (h : expressionNode s lower c context = .ok t) :
    IsCall s lower c t := by
  simp only [expressionNode, htag, bind_eq_ok, required_eq_ok] at h
  obtain ⟨called, hcalled, callee, hcallee, given, hgiven, h⟩ := h
  split at h
  · next hgenerator =>
    simp only [bind_eq_ok, pure_eq_ok] at h
    obtain ⟨u, hu, rfl⟩ := h
    refine ⟨callee, given, _, rfl, ⟨called, hcalled, hcallee⟩, hgiven, ?_⟩
    rw [if_pos hgenerator]
    exact ⟨u, rfl, hu⟩
  · next hgenerator =>
    simp only [bind_eq_ok, pure_eq_ok] at h
    obtain ⟨ts, hts, rfl⟩ := h
    refine ⟨callee, given, ts, rfl, ⟨called, hcalled, hcallee⟩, hgiven, ?_⟩
    rw [if_neg hgenerator]
    exact areArguments_of_arguments hts

theorem IsCall.all {p : Tree → Prop} (h : IsCall s lower c t)
    (hposition : ∀ u, LowersUnder lower .load c u → p u)
    (hkeyword : ∀ d ∈ c.allNodes, ∀ ident u, LowersUnder lower .load d u →
      p (.node .keyword d.line ident [] [u])) :
    ∃ callee ts, t = .branch .call c.line (callee :: ts) ∧ LowersUnder lower .load c callee
      ∧ ∀ u ∈ ts, p u := by
  obtain ⟨callee, given, ts, rfl, hcallee, hgiven, hts⟩ := h
  have hmem := Cst.mem_allNodes_of_child? hgiven
  refine ⟨callee, ts, rfl, hcallee.under, ?_⟩
  split at hts
  · obtain ⟨u, rfl, hu⟩ := hts
    exact List.forall_mem_singleton.mpr (hposition u ⟨given, hmem, hu⟩)
  · exact hts.all (fun u hu => hposition u (hu.mono hmem)) fun d hd => hkeyword d
      (Cst.mem_allNodes_trans (Cst.mem_allNodes_of_mem_proper hd) hmem)

/-! ### Parameters -/

mutual
theorem namedBy_of_splatName : {c : Cst} → {t : Tree} → parameterName.splatName s c = .ok t →
    ∃ leaf name, t = .named .arg leaf.line name [] ∧ c.NamedBy leaf ∧ text s leaf = .ok name
  | .node tag r sp cs, t, h => by
    cases tag
    case identifier =>
      simp only [parameterName.splatName, bind_eq_ok, pure_eq_ok] at h
      obtain ⟨name, hname, rfl⟩ := h
      exact ⟨_, name, rfl, .identifier rfl, hname⟩
    case listSplatPattern | dictionarySplatPattern =>
      rw [parameterName.splatName] at h
      obtain ⟨d, rest, hproper, leaf, name, rfl, hleaf, hname⟩ := namedBy_of_splatNames cs h
      exact ⟨leaf, name, rfl, .first (by simp [Cst.tag]) hproper hleaf, hname⟩
    all_goals simp [parameterName.splatName, unsupported] at h

theorem namedBy_of_splatNames {whole : Cst} {t : Tree} : (cs : List Cst) →
    parameterName.splatNames s whole cs = .ok t → ∃ d rest, cs.filter Cst.isProper = d :: rest
      ∧ ∃ leaf name, t = .named .arg leaf.line name [] ∧ d.NamedBy leaf ∧ text s leaf = .ok name
  | [], h => by cases h
  | c :: cs, h => by
    rw [parameterName.splatNames] at h
    split at h
    · next hproper =>
      exact ⟨c, cs.filter Cst.isProper, List.filter_cons_of_pos hproper, namedBy_of_splatName h⟩
    · next hproper =>
      rw [List.filter_cons_of_neg hproper]
      exact namedBy_of_splatNames cs h
end

theorem namedBy_of_parameterName (h : parameterName s c = .ok t) :
    ∃ leaf name, t = .named .arg leaf.line name [] ∧ c.NamedBy leaf ∧ text s leaf = .ok name := by
  unfold parameterName at h
  split at h
  case h_1 htag =>
    simp only [bind_eq_ok, pure_eq_ok] at h
    obtain ⟨name, hname, rfl⟩ := h
    exact ⟨c, name, rfl, .identifier htag, hname⟩
  case h_2 htag | h_3 htag =>
    obtain ⟨d, hd, h⟩ := bind_eq_ok.mp h
    obtain ⟨rest, hproper⟩ := firstProper_eq_ok.mp hd
    obtain ⟨leaf, name, rfl, hleaf, hname⟩ := namedBy_of_splatName h
    exact ⟨leaf, name, rfl, .first (by simp [htag]) hproper hleaf, hname⟩
  case h_4 => cases h

/-- The name of a parameter that may be annotated stands under the child that is looked at. -/
theorem parameterOf_of_annotatedParameter {target : Cst}
    (h : annotatedParameter s lower c target = .ok t) (hhints : c.hints = (c.child? .typeHint).toList)
    (hnamed : ∀ leaf, target.NamedBy leaf → c.NamedBy leaf) : ParameterOf s lower c t := by
  obtain ⟨arg, harg, h⟩ := bind_eq_ok.mp h
  obtain ⟨leaf, name, rfl, hleaf, hname⟩ := namedBy_of_parameterName harg
  split at h
  · next hnone =>
    refine ⟨leaf, name, [], (pure_eq_ok.mp h).symm, hnamed leaf hleaf, hname, ?_⟩
    rw [hhints, hnone]
    exact .nil
  · next hint hhint =>
    simp only [bind_eq_ok, pure_eq_ok] at h
    obtain ⟨kind, hkind, rfl⟩ := h
    refine ⟨leaf, name, [kind], rfl, hnamed leaf hleaf, hname, ?_⟩
    rw [hhints, hhint]
    exact .cons hkind .nil

theorem parameterOf_of_name {leaf : Cst} {name : String} (hhints : c.hints = [])
    (hleaf : c.NamedBy leaf) (hname : text s leaf = .ok name) :
    ParameterOf s lower c (.named .arg leaf.line name []) :=
  ⟨leaf, name, [], rfl, hleaf, hname, by rw [hhints]; exact .nil⟩

/-- A member of a list of parameters gives a node unless it is a separator, and a default value if it
has one. -/
theorem parameter_eq_ok {part : Option Tree × Option Tree} (h : parameter s lower c = .ok part) :
    (c.isSeparator = true → part.1 = none)
    ∧ (c.isSeparator = false → ∃ t, part.1 = some t ∧ ParameterOf s lower c t)
    ∧ (c.isDefaulted = true → ∃ t, part.2 = some t ∧ LowersIn lower .value .load c t)
    ∧ (c.isDefaulted = false → part.2 = none) := by
  unfold parameter at h
  split at h
  case h_1 htag =>
    simp only [bind_eq_ok, pure_eq_ok] at h
    obtain ⟨name, hname, rfl⟩ := h
    have harg : ParameterOf s lower c (.named .arg c.line name []) :=
      parameterOf_of_name (by simp [Cst.hints, htag]) (.identifier htag) hname
    simp [Cst.isSeparator, Cst.isDefaulted, htag, harg]
  case h_2 htag =>
    simp only [bind_eq_ok, pure_eq_ok] at h
    obtain ⟨target, htarget, t, ht, rfl⟩ := h
    obtain ⟨rest, hproper⟩ := firstProper_eq_ok.mp htarget
    have harg := parameterOf_of_annotatedParameter ht (by simp [Cst.hints, htag])
      fun leaf => .first (by simp [htag]) hproper
    simp [Cst.isSeparator, Cst.isDefaulted, htag, harg]
  case h_3 htag | h_4 htag =>
    simp only [bind_eq_ok, pure_eq_ok, required_eq_ok] at h
    obtain ⟨target, htarget, t, ht, d, hd, value, hvalue, rfl⟩ := h
    have hdefaulted : c.isDefaulted = true := by simp [Cst.isDefaulted, htag]
    have harg := parameterOf_of_annotatedParameter ht (by simp [Cst.hints, htag])
      fun leaf => .defaulted hdefaulted htarget
    have hdefault : LowersIn lower .value .load c value := ⟨d, hd, hvalue⟩
    simp [Cst.isSeparator, Cst.isDefaulted, htag, harg, hdefault]
  case h_5 htag | h_6 htag =>
    simp only [bind_eq_ok, pure_eq_ok] at h
    obtain ⟨t, ht, rfl⟩ := h
    obtain ⟨leaf, name, rfl, hleaf, hname⟩ := namedBy_of_parameterName ht
    have harg : ParameterOf s lower c (.named .arg leaf.line name []) :=
      parameterOf_of_name (by simp [Cst.hints, htag]) hleaf hname
    simp [Cst.isSeparator, Cst.isDefaulted, htag, harg]
  case h_7 htag | h_8 htag =>
    obtain rfl := Except.ok.inj h
    simp [Cst.isSeparator, Cst.isDefaulted, htag]
  case h_9 => cases h

theorem areParameters_of_parameters {list : Option Cst} {line : Nat}
    (h : parameters s lower list line = .ok t) : AreParameters s lower list line t := by
  cases list with
  | none => exact (pure_eq_ok.mp h).symm
  | some c =>
    simp only [parameters, bind_eq_ok, pure_eq_ok] at h
    obtain ⟨each, heach, rfl⟩ := h
    have hall := (forall₂_of_mapM heach).imp fun _ _ hpart => parameter_eq_ok hpart
    refine ⟨_, _, rfl, ?_, ?_⟩ <;> rw [List.filterMap_eq_flatMap_toList]
    · refine forall₂_filter_flatMap hall (fun d part hpart hd => ?_) fun d part hpart hd => ?_
      · obtain ⟨t, ht, harg⟩ := hpart.2.1 (by simpa using hd)
        exact ⟨t, by rw [ht]; rfl, harg⟩
      · rw [hpart.1 (by simpa using hd)]
        rfl
    · refine forall₂_filter_flatMap hall (fun d part hpart hd => ?_) fun d part hpart hd => ?_
      · obtain ⟨t, ht, hdefault⟩ := hpart.2.2.1 hd
        exact ⟨t, by rw [ht]; rfl, hdefault⟩
      · rw [hpart.2.2.2 hd]
        rfl

theorem ParameterOf.types (h : ParameterOf s lower c t) : ∃ line name types,
    t = .named .arg line name types ∧ types.length ≤ 1 ∧ ∀ u ∈ types, LowersUnder lower .load c u := by
  obtain ⟨leaf, name, types, rfl, -, -, htypes⟩ := h
  refine ⟨_, name, types, rfl, htypes.length_eq ▸ c.length_hints_le, ?_⟩
  exact under_of_forall₂ htypes fun _ => Cst.mem_allNodes_of_mem_hints

theorem AreParameters.parts {line : Nat} (h : AreParameters s lower (some c) line t) :
    ∃ names defaults, t = .branch .arguments c.line (names ++ defaults)
      ∧ (∀ u ∈ names, ∃ d ∈ c.proper, ParameterOf s lower d u)
      ∧ ∀ u ∈ defaults, LowersUnder lower .load c u := by
  obtain ⟨names, defaults, rfl, hnames, hdefaults⟩ := h
  refine ⟨names, defaults, rfl, forall_of_forall₂ hnames fun d hd _ hu => ?_,
    forall_of_forall₂ hdefaults fun d hd _ hu => ?_⟩
  · exact ⟨d, (List.mem_filter.mp hd).1, hu⟩
  · exact hu.under.mono (Cst.mem_allNodes_of_mem_proper (List.mem_filter.mp hd).1)

/-! ### Dictionaries and comparisons -/

theorem dictionaryEntry_eq_ok {entry : List Tree × List Tree}
    (h : dictionaryEntry lower c = .ok entry) :
    (c.tag = .pair ∧ (∃ key, entry.1 = [key] ∧ LowersIn lower .key .load c key)
      ∧ ∃ value, entry.2 = [value] ∧ LowersIn lower .value .load c value)
    ∨ c.tag = .dictionarySplat ∧ entry.1 = []
      ∧ List.Forall₂ (fun d u => lower d .load = .ok u) c.proper entry.2 := by
  unfold dictionaryEntry at h
  split at h
  · next htag =>
    simp only [bind_eq_ok, pure_eq_ok, required_eq_ok] at h
    obtain ⟨left, hleft, key, hkey, right, hright, value, hvalue, rfl⟩ := h
    exact Or.inl ⟨htag, ⟨key, rfl, left, hleft, hkey⟩, value, rfl, right, hright, hvalue⟩
  · next htag =>
    simp only [bind_eq_ok, pure_eq_ok] at h
    obtain ⟨values, hvalues, rfl⟩ := h
    exact Or.inr ⟨htag, rfl, forall₂_of_mapM hvalues⟩
  · cases h

/-- What holds of all that is lowered under a dictionary holds of its keys and values. -/
theorem all_of_entries {p : Tree → Prop} {each : List (List Tree × List Tree)}
    (h : c.proper.mapM (dictionaryEntry lower) = .ok each)
    (hp : ∀ u, LowersUnder lower .load c u → p u) :
    ∀ u ∈ each.flatMap (·.1) ++ each.flatMap (·.2), p u := by
  have hall : ∀ entry ∈ each, (∀ u ∈ entry.1, p u) ∧ ∀ u ∈ entry.2, p u := by
    refine forall_of_mapM h fun d hd entry hentry => ?_
    have hmem := Cst.mem_allNodes_of_mem_proper hd
    rcases dictionaryEntry_eq_ok hentry with ⟨-, ⟨key, hkeys, hkey⟩, value, hvalues, hvalue⟩
      | ⟨-, hkeys, hvalues⟩
    · rw [hkeys, hvalues]
      exact ⟨List.forall_mem_singleton.mpr (hp key (hkey.under.mono hmem)),
        List.forall_mem_singleton.mpr (hp value (hvalue.under.mono hmem))⟩
    · rw [hkeys]
      have hunder := under_of_forall₂ hvalues fun _ => Cst.mem_allNodes_of_mem_proper
      exact ⟨fun u hu => (by cases hu), fun u hu => hp u ((hunder u hu).mono hmem)⟩
  refine List.forall_mem_append.mpr ⟨fun u hu => ?_, fun u hu => ?_⟩
  · obtain ⟨entry, hentry, hu⟩ := List.mem_flatMap.mp hu
    exact (hall entry hentry).1 u hu
  · obtain ⟨entry, hentry, hu⟩ := List.mem_flatMap.mp hu
    exact (hall entry hentry).2 u hu

theorem isDictionary_of_dictionary (htag : c.tag = .dictionary)
    (hsplats : ∀ d ∈ c.proper, d.tag = .dictionarySplat → d.proper.length = 1)
    (h : expressionNode s lower c context = .ok t) : IsDictionary lower c t := by
  simp only [expressionNode, htag, bind_eq_ok, pure_eq_ok] at h
  obtain ⟨each, heach, rfl⟩ := h
  have hall := (forall₂_of_mapM heach).imp fun _ _ hentry => dictionaryEntry_eq_ok hentry
  refine ⟨_, _, rfl, ?_, ?_⟩
  · refine forall₂_filter_flatMap hall (fun d entry hentry hd => ?_) fun d entry hentry hd => ?_
    · rcases hentry with ⟨-, hkey, -⟩ | ⟨hsplat, -⟩
      · exact hkey
      · simp [hsplat] at hd
    · rcases hentry with ⟨hpair, -⟩ | ⟨-, hkey, -⟩
      · simp [hpair] at hd
      · exact hkey
  · rw [← List.filter_true c.proper]
    refine forall₂_filter_flatMap ((List.forall₂_and_left _ _).mpr ⟨hsplats, hall⟩)
      (fun d entry hentry _ => ?_) fun _ _ _ hd => (by cases hd)
    obtain ⟨hone, ⟨hpair, -, value, hvalue, hlowered⟩ | ⟨hsplat, -, hvalues⟩⟩ := hentry
    · exact ⟨value, hvalue, Or.inl ⟨hpair, hlowered⟩⟩
    · obtain ⟨inner, hinner⟩ := List.length_eq_one_iff.mp (hone hsplat)
      rw [hinner] at hvalues
      obtain ⟨value, rest, hvalue, hrest, hvalues⟩ := List.forall₂_cons_left_iff.mp hvalues
      obtain rfl := List.forall₂_nil_left_iff.mp hrest
      exact ⟨value, hvalues, Or.inr ⟨hsplat, inner, hinner, hvalue⟩⟩

theorem isComparison_of_comparison (htag : c.tag = .comparisonOperator)
    (h : expressionNode s lower c context = .ok t) : IsComparison lower c t := by
  simp only [expressionNode, htag, bind_eq_ok] at h
  obtain ⟨kinds, hkinds, h⟩ := h
  split at h
  · cases h
  · next first rest hproper =>
    simp only [bind_eq_ok, pure_eq_ok] at h
    obtain ⟨left, hleft, right, hright, rfl⟩ := h
    exact ⟨first, rest, left, kinds, right, hproper, rfl, hleft,
      (forall₂_of_mapM hkinds).imp fun _ _ => operatorOf_eq_ok, forall₂_of_mapM hright⟩

/-! ### Definitions -/

theorem takes_of_lambda (htag : c.tag = .lambda) (h : expressionNode s lower c context = .ok t) :
    Takes s lower c t := by
  simp only [expressionNode, htag, bind_eq_ok, pure_eq_ok] at h
  obtain ⟨given, hgiven, inner, -, value, -, rfl⟩ := h
  exact ⟨given, [value], rfl, areParameters_of_parameters hgiven⟩

theorem takes_of_function {decorators : List Tree}
    (h : function s lower block c decorators = .ok t) : Takes s lower c t := by
  simp only [function, bind_eq_ok, pure_eq_ok] at h
  obtain ⟨name, -, called, -, given, hgiven, statements, -, returned, -, rfl⟩ := h
  exact ⟨given, statements ++ returned, rfl, areParameters_of_parameters hgiven⟩

theorem isClass_of_classNode {decorators : List Tree}
    (h : classNode s lower block c decorators = .ok t) : IsClass s lower block c t := by
  unfold classNode at h
  simp only [bind_eq_ok] at h
  obtain ⟨name, -, called, -, h⟩ := h
  split at h
  · next given hgiven =>
    simp only [bind_eq_ok, pure_eq_ok] at h
    obtain ⟨bases, hbases, statements, hstatements, rfl⟩ := h
    refine ⟨bases, statements, rfl, rfl, ?_, hstatements⟩
    rw [hgiven]
    exact areArguments_of_arguments hbases
  · next hnone =>
    simp only [bind_eq_ok, pure_eq_ok] at h
    obtain ⟨_, rfl, statements, hstatements, rfl⟩ := h
    refine ⟨[], statements, rfl, rfl, ?_, hstatements⟩
    rw [hnone]

theorem definition_of_statementNode {branches : List Cst → Result (List Tree)}
    (h : statementNode s lower block branches c = .ok t) : ∃ decorators,
    (c.counted.tag = .functionDefinition → function s lower block c.counted decorators = .ok t)
    ∧ (c.counted.tag = .classDefinition → classNode s lower block c.counted decorators = .ok t) := by
  unfold Cst.counted
  split
  · next htag =>
    simp only [statementNode, htag, bind_eq_ok, required_eq_ok] at h
    obtain ⟨decorators, -, definition, hdefinition, h⟩ := h
    rw [hdefinition, Option.getD_some]
    exact ⟨decorators, fun hd => by simpa only [hd] using h, fun hd => by simpa only [hd] using h⟩
  · exact ⟨[], fun htag => by simpa only [statementNode, htag] using h,
      fun htag => by simpa only [statementNode, htag] using h⟩

end

/-- What is lowered to a node of several groups loses nothing and keeps the order in each of them: the
arguments of a call or a class, the parameters of a function, the entries of a dictionary, in which
each splat has one value, and the operands and operators of a comparison. -/
theorem lists_regrouped (s : Source) (levels : Nat) (c : Cst) (t : Tree) :
    (∀ context, expression s (levels + 1) c context = .ok t →
      (c.tag = .call → IsCall s (expression s levels) c t)
      ∧ (c.tag = .lambda → Takes s (expression s levels) c t)
      ∧ (c.tag = .dictionary →
        (∀ d ∈ c.proper, d.tag = .dictionarySplat → d.proper.length = 1) →
        IsDictionary (expression s levels) c t)
      ∧ (c.tag = .comparisonOperator → IsComparison (expression s levels) c t))
    ∧ (statement s (levels + 1) c = .ok t →
      (c.counted.tag = .functionDefinition → Takes s (expression s levels) c.counted t)
      ∧ (c.counted.tag = .classDefinition → IsClass s (expression s levels)
        (fun b => b.proper.mapM (statement s levels)) c.counted t)) := by
  refine ⟨fun context h => ?_, fun h => ?_⟩
  · rw [expression] at h
    exact ⟨fun htag => isCall_of_call htag h, fun htag => takes_of_lambda htag h,
      fun htag hsplats => isDictionary_of_dictionary htag hsplats h,
      fun htag => isComparison_of_comparison htag h⟩
  · rw [statement] at h
    obtain ⟨decorators, hfunction, hclass⟩ := definition_of_statementNode h
    exact ⟨fun htag => takes_of_function (hfunction htag),
      fun htag => isClass_of_classNode (hclass htag)⟩

/-- Lists in which what comes first is not what comes first in the tree. -/
def mixedLists : Source :=
  Source.ofBytes "f(a, k=b, *c)\n{**a, b: c}\na < b in c\nlambda a, b=c, *d: e".toUTF8

theorem lower_mixedLists : ∀ tag ∈ [Tag.call, .dictionary, .comparisonOperator, .lambda],
    ∃ c t, c.tag = tag ∧ expression mixedLists 199 c .load = .ok t
      ∧ ∀ d ∈ c.proper, d.tag = .dictionarySplat → d.proper.length = 1 := by
  have hread : ((Grammar.tree mixedLists).proper.flatMap Cst.proper).map (fun c : Cst =>
        (c.tag, (expression mixedLists 199 c .load).toOption.isSome
          && c.proper.all fun d => d.tag != .dictionarySplat || d.proper.length == 1))
      = [(.call, true), (.dictionary, true), (.comparisonOperator, true), (.lambda, true)] := by
    decide +kernel
  intro tag htag
  obtain ⟨c, -, hc⟩ : ∃ c ∈ (Grammar.tree mixedLists).proper.flatMap Cst.proper, _ = (tag, true) := by
    rw [← List.mem_map, hread]
    simpa using htag
  simp only [Prod.mk.injEq, Bool.and_eq_true, List.all_eq_true, Bool.or_eq_true, bne_iff_ne,
    beq_iff_eq, ne_eq, ← Decidable.imp_iff_not_or] at hc
  obtain ⟨rfl, hlowered, hsplats⟩ := hc
  obtain ⟨t, ht⟩ := exists_of_isSome hlowered
  exact ⟨c, t, rfl, ht, hsplats⟩

/-- Definitions of which the same is true. -/
def mixedDefinitions : Source :=
  Source.ofBytes "@a\nclass B(c, k=d, *e): pass\ndef f(a, /, b=c, *d): pass".toUTF8

theorem lower_mixedDefinitions : ∀ tag ∈ [Tag.classDefinition, .functionDefinition],
    ∃ c t, c.counted.tag = tag ∧ statement mixedDefinitions 199 c = .ok t := by
  have hread : (Grammar.tree mixedDefinitions).proper.map (fun c : Cst =>
        (c.counted.tag, ((level mixedDefinitions 199).statement c).toOption.isSome))
      = [(.classDefinition, true), (.functionDefinition, true)] := by
    decide +kernel
  rw [level_eq] at hread
  intro tag htag
  obtain ⟨c, -, hc⟩ : ∃ c ∈ (Grammar.tree mixedDefinitions).proper, _ = (tag, true) := by
    rw [← List.mem_map, hread]
    simpa using htag
  obtain ⟨rfl, hlowered⟩ := Prod.mk.inj hc
  obtain ⟨t, ht⟩ := exists_of_isSome hlowered
  exact ⟨c, t, rfl, ht⟩

theorem mixedLists_regrouped :
    (∃ c t, expression mixedLists 199 c .load = .ok t
      ∧ IsCall mixedLists (expression mixedLists 198) c t)
    ∧ (∃ c t, expression mixedLists 199 c .load = .ok t
      ∧ IsDictionary (expression mixedLists 198) c t)
    ∧ (∃ c t, expression mixedLists 199 c .load = .ok t
      ∧ IsComparison (expression mixedLists 198) c t)
    ∧ (∃ c t, expression mixedLists 199 c .load = .ok t
      ∧ Takes mixedLists (expression mixedLists 198) c t)
    ∧ (∃ c t, statement mixedDefinitions 199 c = .ok t
      ∧ IsClass mixedDefinitions (expression mixedDefinitions 198)
        (fun b => b.proper.mapM (statement mixedDefinitions 198)) c.counted t)
    ∧ ∃ c t, statement mixedDefinitions 199 c = .ok t
      ∧ Takes mixedDefinitions (expression mixedDefinitions 198) c.counted t := by
  refine ⟨?_, ?_, ?_, ?_, ?_, ?_⟩
  · obtain ⟨c, t, htag, h, -⟩ := lower_mixedLists .call (by decide)
    exact ⟨c, t, h, ((lists_regrouped mixedLists 198 c t).1 .load h).1 htag⟩
  · obtain ⟨c, t, htag, h, hsplats⟩ := lower_mixedLists .dictionary (by decide)
    exact ⟨c, t, h, ((lists_regrouped mixedLists 198 c t).1 .load h).2.2.1 htag hsplats⟩
  · obtain ⟨c, t, htag, h, -⟩ := lower_mixedLists .comparisonOperator (by decide)
    exact ⟨c, t, h, ((lists_regrouped mixedLists 198 c t).1 .load h).2.2.2 htag⟩
  · obtain ⟨c, t, htag, h, -⟩ := lower_mixedLists .lambda (by decide)
    exact ⟨c, t, h, ((lists_regrouped mixedLists 198 c t).1 .load h).2.1 htag⟩
  · obtain ⟨c, t, htag, h⟩ := lower_mixedDefinitions .classDefinition (by decide)
    exact ⟨c, t, h, ((lists_regrouped mixedDefinitions 198 c t).2 h).2 htag⟩
  · obtain ⟨c, t, htag, h⟩ := lower_mixedDefinitions .functionDefinition (by decide)
    exact ⟨c, t, h, ((lists_regrouped mixedDefinitions 198 c t).2 h).1 htag⟩

end Lowering
end Gatehouse
