import Gatehouse.Proofs.Lowering.Contexts

/-!
Names that assignments bind. A target is lowered to a tree that binds the identifiers which the
target binds in the text, one for one and in its order. Whatever else an assignment assigns to is
only read, and so are the names in it, but for those that a clause of a comprehension or an
assignment inside of it binds. A check so finds every storage cell that is bound anew.
-/
namespace Gatehouse

open Gatehouse.Tree

/-- The identifiers that a chain of assignments binds, in the order of the text. -/
def Cst.chainIdentifiers (c : Cst) : List Cst :=
  c.links.flatMap fun link => (link.child? .left).toList.flatMap boundIdentifiers

/-- Is what every link of a chain assigns to a target? -/
def Cst.isAimed (c : Cst) : Bool := c.links.all fun link => (link.child? .left).all isTarget

theorem Cst.isAimed_iff {c : Cst} : c.isAimed = true
    ↔ ∀ link ∈ c.links, ∀ left, link.child? .left = some left → left.isTarget = true := by
  simp only [isAimed, List.all_eq_true, Option.all_eq_true]

/-- A place other than a name, in which names are only read. -/
def Tree.IsAccess (t : Tree) : Prop :=
  (t.kind = .attributeOf ∨ t.kind = .subscript) ∧ ∀ part ∈ t.children, part.Shows .load

namespace Lowering

/-- An identifier is bound under its name. -/
def Binds (s : Source) (leaf : Cst) (t : Tree) : Prop :=
  ∃ name, text s leaf = .ok name ∧ t = .named .name leaf.line name [.leaf .store leaf.line]

/-- Places of lowered targets: the identifiers given are bound in them, and the others are read. -/
structure Placed (s : Source) (leaves : List Cst) (places : List Tree) : Prop where
  names : List.Forall₂ (Binds s) leaves (places.filter fun u => u.kind = .name)
  accesses : ∀ u ∈ places, u.kind ≠ .name → u.IsAccess

section

variable {s : Source} {levels line : Nat} {c d : Cst} {t : Tree} {ts places others : List Tree}
  {leaves more : List Cst}

theorem Placed.nil : Placed s [] [] := ⟨.nil, fun u hu => by cases hu⟩

theorem Placed.append (h : Placed s leaves places) (h' : Placed s more others) :
    Placed s (leaves ++ more) (places ++ others) where
  names := by
    rw [List.filter_append]
    exact List.rel_append h.names h'.names
  accesses := List.forall_mem_append.mpr ⟨h.accesses, h'.accesses⟩

theorem Placed.flatMap {α : Type} {as : List α} {f : α → List Cst}
    (h : List.Forall₂ (fun a u => Placed s (f a) u.places) as ts) :
    Placed s (as.flatMap f) (ts.flatMap Tree.places) := by
  induction h with
  | nil => exact .nil
  | cons h _ ih =>
    rw [List.flatMap_cons, List.flatMap_cons]
    exact h.append ih

theorem mapM_text_of_binds (h : List.Forall₂ (Binds s) leaves ts) :
    leaves.mapM (text s) = .ok (ts.filterMap Tree.ident) := by
  induction h with
  | nil => rfl
  | cons hbinds _ ih =>
    obtain ⟨name, htext, rfl⟩ := hbinds
    rw [List.mapM_cons, htext, ih]
    rfl

theorem Placed.mapM_text (h : Placed s leaves (ts.flatMap Tree.places)) :
    leaves.mapM (text s) = .ok (ts.flatMap Linter.boundNames) := by
  rw [flatMap_boundNames_eq]
  exact mapM_text_of_binds h.names

theorem placed_access (hkind : t.kind = .attributeOf ∨ t.kind = .subscript)
    (h : t.Shows .store) : Placed s [] t.places := by
  obtain ⟨kind, line, ident, ds, cs⟩ := t
  have hreader : kind.isReader = true := by
    rcases hkind with rfl | rfl <;> rfl
  have hone : (Tree.node kind line ident ds cs).places = [.node kind line ident ds cs] := by
    rcases hkind with rfl | rfl <;> rfl
  rw [hone]
  refine ⟨?_, List.forall_mem_singleton.mpr fun _ => ⟨hkind, (shows_reader_iff hreader).mp h⟩⟩
  rcases hkind with rfl | rfl <;> exact .nil

theorem placed_handsOn {kind context : Kind} {ident : Option String} {ds : List Tree}
    (hkind : kind.handsOn = true) (hcontext : context.isContext = true)
    (h : Placed s leaves (ts.flatMap Tree.places)) :
    Placed s leaves (Tree.node kind line ident ds (ts ++ [.leaf context line])).places := by
  have hleaf : (Tree.leaf context line).places = [] := by
    cases context <;> first
      | rfl
      | cases hcontext
  rwa [places_of_handsOn hkind, List.flatMap_append, List.flatMap_singleton, hleaf, List.append_nil]

/-- What a target is lowered to has the places of the target, with the identifiers bound that the
target binds. -/
theorem placed_expression (hc : c.isTarget = true) (h : expression s levels c .store = .ok t) :
    Placed s c.boundIdentifiers t.places := by
  induction c using Cst.inductionOn generalizing levels t with
  | step c ih =>
    have hshows : t.Shows .store := lowersShown_expression s levels h rfl
    cases levels with
    | zero => cases h
    | succ levels =>
      rw [expression] at h
      -- Displays: every child of a kind of its own is a target in its place.
      have hdisplay : ∀ {kind : Kind} {us : List Tree}, kind.handsOn = true →
          c.tag.isPattern = true → (∀ d ∈ c.proper, d.isTarget = true) →
          lowerAll (expression s levels) .store c.proper = .ok us →
          Placed s c.boundIdentifiers (inContext kind c.line us .store).places := by
        intro kind us hkind hpattern htargets hus
        rw [Cst.boundIdentifiers_of_isPattern hpattern]
        have hall : ∀ d ∈ c.proper, ∀ u, expression s levels d .store = .ok u →
            Placed s d.boundIdentifiers u.places := fun d hd u hu =>
          ih d (List.mem_filter.mp hd).1 (htargets d hd) hu
        refine placed_handsOn hkind rfl (.flatMap ?_)
        exact ((List.forall₂_and_left _ _).mpr ⟨hall, forall₂_of_mapM hus⟩).imp
          fun d u hu => hu.1 u hu.2
      rcases Cst.isTarget_iff.mp hc with hplace | ⟨hpattern, htargets, hsplat⟩
      · rcases (expressed h).place hplace with ⟨htag, name, hname, rfl⟩ | ⟨htag, hkind⟩
        · rw [Cst.boundIdentifiers_of_identifier htag]
          exact ⟨.cons ⟨name, hname, rfl⟩ .nil, fun u hu hkind =>
            absurd (List.mem_singleton.mp hu ▸ rfl) hkind⟩
        · rw [Cst.boundIdentifiers_of_isAccess htag]
          exact placed_access hkind hshows
      · obtain ⟨kind, us, rfl, ⟨hkind, hus⟩ | ⟨rfl, htag, u, rfl, hu⟩⟩ :=
          (expressed h).pattern hpattern
        · have hhands : kind.handsOn = true := by
            rcases hkind with rfl | rfl <;> rfl
          exact hdisplay hhands hpattern htargets hus
        · obtain ⟨d, hd⟩ := hsplat htag
          obtain ⟨first, hfirst, hu⟩ := hu
          rw [firstProper, hd] at hfirst
          obtain rfl := Except.ok.inj hfirst
          have hus : lowerAll (expression s levels) .store c.proper = .ok [u] := by
            rw [lowerAll, hd, List.mapM_cons, hu]
            rfl
          exact hdisplay rfl hpattern htargets hus

theorem placed_assignment (hd : d.tag = .assignment) (hannotated : d.isAnnotated = false)
    (haimed : d.isAimed = true) (h : assignment (expression s levels) d line = .ok t) :
    ∃ targets value, t = .branch .assign line (targets ++ [value])
      ∧ Placed s d.chainIdentifiers (targets.flatMap Tree.places) := by
  obtain ⟨targets, value, rfl, hchained⟩ := chained_of_assignment hd hannotated h
  refine ⟨targets, value, rfl, .flatMap ?_⟩
  refine ((List.forall₂_and_left _ _).mpr
    ⟨Cst.isAimed_iff.mp haimed, hchained.targets⟩).imp fun link u hu => ?_
  obtain ⟨htarget, left, hleft, hu⟩ := hu
  rw [hleft, Option.toList_some, List.flatMap_singleton]
  exact placed_expression (htarget left hleft) hu

end

/-! ### Storage cells -/

/-- The breaches of the call that makes a storage cell: several targets for it, or a reserved
keyword in it. -/
def IsCellBreach (p : Policy) (t : Tree) (v : Violation) : Prop :=
  (∃ cell, v = .statement .severalTargets t.line cell)
  ∨ ∃ value ∈ t.children.getLast?, ∃ k ∈ value.children, ∃ name, k.kind = .keyword
    ∧ k.ident = some name ∧ p.isReservedKeyword name = true
    ∧ v = .statement .keywordOverloading k.line name

theorem isCellBreach_of_keyword {p : Policy} {t value k : Tree} {v : Violation}
    (hvalue : t.children.getLast? = some value) (hk : k ∈ value.children)
    (hv : v ∈ Linter.cellKeywordViolations p k) : IsCellBreach p t v := by
  unfold Linter.cellKeywordViolations at hv
  split at hv
  · next name hkind hident =>
    split at hv
    · next hreserved =>
      exact Or.inr ⟨value, hvalue, k, hk, name, hkind, hident, hreserved, List.mem_singleton.mp hv⟩
    · cases hv
  · cases hv

/-- The breaches of an assignment are those of the call that it stores, and one for each name of a
storage cell that it binds. -/
theorem storageViolations_assign (p : Policy) (line : Nat) (targets : List Tree) (value : Tree) :
    let t := Tree.branch .assign line (targets ++ [value])
    ∃ others, Linter.storageViolations p t
        = others ++ ((targets.flatMap Linter.boundNames).filter p.isStorageCell).map
          (.statement .keywordOverloading line)
      ∧ ∀ v ∈ others, IsCellBreach p t v := by
  intro t
  have hvalue : t.children.getLast? = some value := List.getLast?_concat
  have hparts : t.assignParts = some (targets, value) := by
    simp [t, assignParts, branch, kind, children]
  refine ⟨_, by rw [Linter.storageViolations, hparts]; rfl, fun v hv => ?_⟩
  split at hv
  · cases hv
  · next cell hcell =>
    rcases List.mem_append.mp hv with hv | hv
    · split at hv
      · exact Or.inl ⟨cell, List.mem_singleton.mp hv⟩
      · cases hv
    · obtain ⟨k, hk, hv⟩ := List.mem_flatMap.mp hv
      exact isCellBreach_of_keyword hvalue hk hv

/-- A target binds, in the linter's eyes, the names of just the identifiers that it binds in the
text, in the order of the text. Each of them is lowered to a name that is bound, and whatever else
it assigns to is an attribute or a subscript in which names are read, but for those that a clause
of a comprehension or an assignment inside of an expression binds. So an assignment is reported
once for each name of a storage cell among the identifiers that its chain binds, and for no other
name: what is reported besides is about the call that it stores. -/
theorem bound_names (s : Source) :
    (∀ {levels : Nat} {c : Cst} {t : Tree}, c.isTarget = true →
      expression s levels c .store = .ok t →
      c.boundIdentifiers.mapM (text s) = .ok (Linter.boundNames t)
      ∧ List.Forall₂ (Binds s) c.boundIdentifiers (t.places.filter fun u => u.kind = .name)
      ∧ ∀ u ∈ t.places, u.kind ≠ .name → u.IsAccess)
    ∧ ∀ {levels line : Nat} {d : Cst} {t : Tree} (p : Policy), d.tag = .assignment →
      d.isAnnotated = false → d.isAimed = true → assignment (expression s levels) d line = .ok t →
      ∃ names others, d.chainIdentifiers.mapM (text s) = .ok names
        ∧ Linter.storageViolations p t = others
          ++ (names.filter p.isStorageCell).map (.statement .keywordOverloading line)
        ∧ ∀ v ∈ others, IsCellBreach p t v := by
  refine ⟨fun {levels c t} hc h => ?_, fun {levels line d t} p hd hannotated haimed h => ?_⟩
  · have hplaced := placed_expression hc h
    have hone : [t].flatMap Tree.places = t.places := List.flatMap_singleton ..
    refine ⟨?_, hplaced.names, hplaced.accesses⟩
    simpa using (hone ▸ hplaced : Placed s c.boundIdentifiers ([t].flatMap _)).mapM_text
  · obtain ⟨targets, value, rfl, hplaced⟩ := placed_assignment hd hannotated haimed h
    obtain ⟨others, hviolations, hothers⟩ := storageViolations_assign p line targets value
    exact ⟨_, others, hplaced.mapM_text, hviolations, hothers⟩

/-- A chain with a tuple of targets and an attribute of what a comprehension is passed to. -/
def aimedChain : Source := Source.ofBytes "(Hash,*a)=f([i for i in y]).b=x".toUTF8

/-- The attribute as it is lowered, with the object that it is taken of. -/
def comprehended : Tree :=
  .branch .call 1 [.named .name 1 "f" [.leaf .load 1], .branch .listComp 1
    [.named .name 1 "i" [.leaf .load 1], .branch .comprehension 1
      [.named .name 1 "i" [.leaf .store 1], .named .name 1 "y" [.leaf .load 1]]]]

theorem lower_aimedChain : ∃ d link left, d.tag = .assignment ∧ d.isAnnotated = false
    ∧ d.isAimed = true ∧ d.chainIdentifiers.mapM (text aimedChain) = .ok ["Hash", "a"]
    ∧ (assignment (expression aimedChain maxNesting) d 1).toOption.isSome = true
    ∧ link ∈ d.links ∧ link.child? .left = some left
    ∧ expression aimedChain maxNesting left .store
      = .ok (.named .attributeOf 1 "b" [comprehended, .leaf .store 1]) := by
  have hread : ((Grammar.tree aimedChain).proper.flatMap Cst.proper).map (fun d : Cst =>
        (decide (d.tag = .assignment ∧ d.isAnnotated = false ∧ d.isAimed = true
          ∧ (assignment (expression aimedChain maxNesting) d 1).toOption.isSome = true),
        d.chainIdentifiers.mapM (text aimedChain),
        (d.links.drop 1).map fun link : Cst => (link.child? .left).map fun left : Cst =>
          expression aimedChain maxNesting left .store))
      = [(true, .ok ["Hash", "a"],
        [some (.ok (.named .attributeOf 1 "b" [comprehended, .leaf .store 1]))])] := by
    decide +kernel
  obtain ⟨d, -, hread⟩ := List.map_eq_singleton_iff.mp hread
  simp only [Prod.mk.injEq, decide_eq_true_eq] at hread
  obtain ⟨⟨htag, hannotated, haimed, hlowered⟩, hnames, hlinks⟩ := hread
  obtain ⟨link, hlink, hleft⟩ := List.map_eq_singleton_iff.mp hlinks
  obtain ⟨left, hleft, hexpression⟩ := Option.map_eq_some_iff.mp hleft
  have hmem : link ∈ d.links.drop 1 := hlink ▸ List.mem_singleton_self link
  exact ⟨d, link, left, htag, hannotated, haimed, hnames, hlowered, List.mem_of_mem_drop hmem,
    hleft, hexpression⟩

/-- A name in the object of an attribute is not always read: a clause of a comprehension binds its
target there. -/
theorem comprehension_binds_in_object : ∃ left, left.isTarget = true
    ∧ expression aimedChain maxNesting left .store
      = .ok (.named .attributeOf 1 "b" [comprehended, .leaf .store 1])
    ∧ .named .name 1 "i" [.leaf .store 1] ∈ (comprehended.namesIn .load).map Prod.snd := by
  obtain ⟨d, link, left, -, -, haimed, -, -, hlink, hleft, hlowered⟩ := lower_aimedChain
  exact ⟨left, Cst.isAimed_iff.mp haimed link hlink left hleft, hlowered, by decide⟩

/-- In the chain the name of one storage cell is bound, and nothing else of it is reported. -/
theorem bound_names_aimedChain : ∃ d t others,
    assignment (expression aimedChain maxNesting) d 1 = .ok t
    ∧ d.chainIdentifiers.mapM (text aimedChain) = .ok ["Hash", "a"]
    ∧ Linter.storageViolations .standard t
      = others ++ [.statement .keywordOverloading 1 "Hash"]
    ∧ (∀ v ∈ others, IsCellBreach .standard t v)
    ∧ comprehended.Shows .load := by
  obtain ⟨d, link, left, htag, hannotated, haimed, hnames, hlowered, hlink, hleft, hexpression⟩ :=
    lower_aimedChain
  cases ht : assignment (expression aimedChain maxNesting) d 1 with
  | error e =>
    rw [ht] at hlowered
    cases hlowered
  | ok t =>
    obtain ⟨names, others, hmapM, hviolations, hothers⟩ :=
      (bound_names aimedChain).2 .standard htag hannotated haimed ht
    obtain rfl := Except.ok.inj (hnames.symm.trans hmapM)
    obtain ⟨-, -, haccess⟩ :=
      (bound_names aimedChain).1 (Cst.isAimed_iff.mp haimed link hlink left hleft) hexpression
    exact ⟨d, t, others, ht, hnames, hviolations, hothers,
      (haccess _ List.mem_cons_self (by decide)).2 _ List.mem_cons_self⟩

end Lowering
end Gatehouse
