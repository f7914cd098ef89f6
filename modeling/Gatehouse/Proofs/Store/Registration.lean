import Mathlib.Data.List.TakeWhile
import Gatehouse.Proofs.Linter.Report
import Gatehouse.Proofs.Store.SortedMap

/-!
Registration. A request is refused for its root, or else for its name, and leaves the store alone;
or its entry is put in the store, over the one of its name. So every name that comes into a store
is one that an import can bind, and a check against the store has nothing against such an import.
-/
namespace Gatehouse

open Gatehouse.Tree

/-! ### Names -/

namespace Entry

/-- Is the name an ASCII letter with ASCII letters, digits and low lines after it? -/
def IsImportable (name : String) : Prop :=
  ∃ c cs, name.toList = c :: cs ∧ c.isAlpha = true ∧ ∀ d ∈ cs, d.isAlphanum = true ∨ d = '_'

theorem isLetter_eq_isAlpha (c : Char) : isLetter c = c.isAlpha := by
  have hupper : c.isUpper = (decide ('A' ≤ c) && decide (c ≤ 'Z')) := Bool.decide_and _ _
  rw [isLetter, Bool.or_comm, ← hupper]
  rfl

theorem isNameChar_iff {c : Char} : isNameChar c = true ↔ c.isAlphanum = true ∨ c = '_' := by
  have hdigit : (decide ('0' ≤ c) && decide (c ≤ '9')) = c.isDigit := rfl
  rw [isNameChar, isLetter_eq_isAlpha, hdigit, Char.isAlphanum, Bool.or_eq_true, beq_iff_eq]

theorem isName_iff {name : String} : isName name = true ↔ IsImportable name := by
  unfold isName IsImportable
  cases name.toList with
  | nil => simp
  | cons c cs =>
    rw [Bool.and_eq_true, isLetter_eq_isAlpha, List.all_eq_true]
    constructor
    · rintro ⟨hc, hcs⟩
      exact ⟨c, cs, rfl, hc, fun d hd => isNameChar_iff.mp (hcs d hd)⟩
    · rintro ⟨_, _, hsplit, hc, hcs⟩
      obtain ⟨rfl, rfl⟩ := List.cons.inj hsplit
      exact ⟨hc, fun d hd => isNameChar_iff.mpr (hcs d hd)⟩

theorem IsImportable.firstPart_eq {name : String} (h : IsImportable name) :
    Linter.firstPart name = name := by
  obtain ⟨c, cs, hname, hc, hcs⟩ := h
  have hall : ∀ d ∈ name.toList, (d != '.') = true := by
    rw [hname]
    refine List.forall_mem_cons.mpr ⟨?_, fun d hd => ?_⟩
    · rw [bne_iff_ne]
      rintro rfl
      exact absurd hc (by decide)
    · rw [bne_iff_ne]
      rintro rfl
      exact absurd (hcs _ hd) (by decide)
  rw [Linter.firstPart, List.takeWhile_eq_self_iff.mpr hall, String.ofList_toList]

theorem IsImportable.isHidden_eq {name : String} (h : IsImportable name) :
    Linter.isHidden name = false := by
  obtain ⟨c, cs, hname, hc, -⟩ := h
  rw [Linter.isHidden, hname, List.head?_cons, beq_eq_false_iff_ne]
  intro heq
  obtain rfl := Option.some.inj heq
  exact absurd hc (by decide)

end Entry

/-! ### Requests -/

/-- A request to register a contract under a root, at a time and under a policy. -/
structure Request where
  policy : Policy
  name : String
  root : String
  source : ByteArray
  now : UInt64

namespace Request

/-- The entry that is asked for. -/
def entry (q : Request) : Entry := ⟨q.name, q.root, Digest.ofBytes q.source, q.now⟩

/-- Does the policy permit the root? -/
def IsRooted (q : Request) : Prop := q.root ∈ q.policy.importRoots.map (·.path)

instance (q : Request) : Decidable q.IsRooted :=
  inferInstanceAs (Decidable (q.root ∈ q.policy.importRoots.map (·.path)))

/-- The answer to a request, and the store after it. A refusal leaves the store behind. -/
def run (q : Request) (s : Store) : Except RegistryError Entry × Store :=
  match s.register q.policy q.name q.root q.source q.now with
  | .ok (s', e) => (.ok e, s')
  | .error e => (.error e, s)

variable {q : Request} {s : Store}

theorem importRoot_of_not_isRooted (h : ¬ q.IsRooted) :
    q.policy.importRoot q.root = .error ⟨q.root⟩ := by
  have hnone : q.policy.importRoots.find? (fun r => r.path == q.root) = none := by
    refine List.find?_eq_none.mpr fun r hr hpath => h ?_
    exact List.mem_map.mpr ⟨r, hr, beq_iff_eq.mp hpath⟩
  rw [Policy.importRoot, hnone]

theorem importRoot_of_isRooted (h : q.IsRooted) :
    ∃ r, q.policy.importRoot q.root = .ok r ∧ r.path = q.root := by
  obtain ⟨r, hr, hpath⟩ := List.mem_map.mp h
  unfold Policy.importRoot
  split
  next found hfound => exact ⟨found, rfl, by simpa using List.find?_some hfound⟩
  next hnone => exact absurd (beq_iff_eq.mpr hpath) (List.find?_eq_none.mp hnone r hr)

theorem run_of_not_isRooted (s : Store) (h : ¬ q.IsRooted) :
    q.run s = (.error (.unknownRoot ⟨q.root⟩), s) := by
  simp only [run, Store.register, importRoot_of_not_isRooted h]

theorem run_of_not_isImportable (s : Store) (h : q.IsRooted) (hname : ¬ Entry.IsImportable q.name) :
    q.run s = (.error (.invalidName q.name), s) := by
  obtain ⟨r, hr, -⟩ := importRoot_of_isRooted h
  simp only [run, Store.register, hr, if_neg fun hn => hname (Entry.isName_iff.mp hn)]

theorem run_of_isImportable (s : Store) (h : q.IsRooted) (hname : Entry.IsImportable q.name) :
    q.run s = (.ok q.entry, (s.insert q.entry).1) := by
  obtain ⟨r, hr, hpath⟩ := importRoot_of_isRooted h
  simp only [run, Store.register, hr, if_pos (Entry.isName_iff.mpr hname), hpath, entry]

end Request

namespace Store

/-- An entry that is put in a store, whatever the order in it, takes the place of the one that is
found under its name, or stands between the others if none is. -/
theorem exists_insert_split (s : Store) (e : Entry) : ∃ before after,
    s.entries = before ++ (s.get? e.name).toList ++ after
    ∧ (s.insert e).1.entries = before ++ e :: after := by
  unfold insert get?
  cases hsearch : s.search e.name with
  | found i =>
    have hlen : i < s.entries.length := (Search.run_eq_found hsearch).1
    refine ⟨s.entries.take i, s.entries.drop (i + 1), ?_, ?_⟩
    · simp [Place.found?, hlen]
    · simp [List.set_eq_take_append_cons_drop, hlen]
  | missing i =>
    have hlen : i ≤ s.entries.length := Search.le_of_run_eq_missing hsearch
    refine ⟨s.entries.take i, s.entries.drop i, by simp [Place.found?], ?_⟩
    have hput := insertIdx_length_append (s.entries.take i) (s.entries.drop i) e
    rwa [List.take_append_drop, List.length_take, Nat.min_eq_left hlen] at hput

/-- The store after requests, the first of them made to the empty one. -/
def afterAll (qs : List Request) : Store := qs.foldl (fun s q => (q.run s).2) .empty

/--
A store that has come about by registering alone: it is in order, and its names are importable.
-/
structure IsRegistered (s : Store) : Prop where
  sorted : s.Sorted
  importable : ∀ e ∈ s.entries, Entry.IsImportable e.name

theorem IsRegistered.run {s : Store} (h : s.IsRegistered) (q : Request) :
    (q.run s).2.IsRegistered := by
  by_cases hroot : q.IsRooted
  · by_cases hname : Entry.IsImportable q.name
    · rw [Request.run_of_isImportable s hroot hname]
      refine ⟨h.sorted.insert _, fun x hx => ?_⟩
      rcases h.sorted.mem_insert_iff.mp hx with rfl | ⟨hold, -⟩
      · exact hname
      · exact h.importable x hold
    · rwa [Request.run_of_not_isImportable s hroot hname]
  · rwa [Request.run_of_not_isRooted s hroot]

theorem isRegistered_afterAll (qs : List Request) : (afterAll qs).IsRegistered := by
  have hempty : empty.IsRegistered := ⟨List.Pairwise.nil, fun e he => by cases he⟩
  have hall : ∀ s : Store, s.IsRegistered →
      (qs.foldl (fun s q => (q.run s).2) s).IsRegistered := by
    induction qs with
    | nil => exact fun s h => h
    | cons q qs ih => exact fun s h => ih _ (h.run q)
  exact hall empty hempty

end Store

/-! ### Imports of what is registered -/

/-- A name of an import, bound as it is. -/
def bareAlias (line : Nat) (name : String) : Tree := .named .alias line name []

namespace Linter

section

variable {p : Policy} {r : Registry} {name : String} {before after as bs cs cs' ds : List Tree}

theorem visit_bareAlias (line : Nat) (hallowed : p.allows .alias = true)
    (hname : Entry.IsImportable name) (f : Findings) :
    visit p r false f (bareAlias line name) = f := by
  have hadmitted : refusal? p (bareAlias line name) = none := by
    simp [refusal?, bareAlias, named, kind, hallowed]
  have hown : ownViolations p r false (bareAlias line name) = [] := by
    simp [ownViolations, bareAlias, named, kind, aliasViolations, children, ident,
      hname.firstPart_eq, hname.isHidden_eq]
  have hexamined : examine p r false (bareAlias line name) f = f := by
    rw [examine, hown, if_neg (by simp [bareAlias, named, kind])]
    rfl
  unfold bareAlias named at *
  simp only [visit, hadmitted, hexamined, visitAll]

/-- A name that the registry knows adds nothing to the import it stands in at the top level. -/
theorem visit_import_cons (line aliasLine : Nat) (hallowed : p.allows .alias = true)
    (hname : Entry.IsImportable name) (hknown : r.confirms name = true) (f : Findings) :
    visit p r true f (.branch .importModule line (as ++ bareAlias aliasLine name :: bs))
      = visit p r true f (.branch .importModule line (as ++ bs)) := by
  have himported : importedViolations r true line (bareAlias aliasLine name) = [] := by
    simp [importedViolations, bareAlias, named, ident, hknown]
  have hexamined : ∀ f, examine p r true
        (.branch .importModule line (as ++ bareAlias aliasLine name :: bs)) f
      = examine p r true (.branch .importModule line (as ++ bs)) f := by
    intro f
    simp [examine, ownViolations, branch, kind, children, Tree.line, himported]
  have hrefusal : refusal? p (.branch .importModule line (as ++ bareAlias aliasLine name :: bs))
      = refusal? p (.branch .importModule line (as ++ bs)) := rfl
  unfold branch at *
  simp only [visit, hrefusal, hexamined, visitAll_eq_foldl, List.foldl_append, List.foldl_cons,
    show (Kind.importModule == .module) = false from rfl, visit_bareAlias aliasLine hallowed hname]

theorem visit_import_nil (line : Nat) (hallowed : p.allows .importModule = true) (f : Findings) :
    visit p r true f (.branch .importModule line []) = f := by
  have hadmitted : refusal? p (.branch .importModule line []) = none := by
    simp [refusal?, branch, kind, hallowed]
  unfold branch at *
  simp only [visit, hadmitted, visitAll, examine, ownViolations, kind, children, Findings.addAll]
  rfl

theorem run_module_congr (line : Nat) (ident : Option String)
    (h : ∀ f, visitAll p r true f cs = visitAll p r true f cs') :
    run p r (.node .module line ident ds cs) = run p r (.node .module line ident ds cs') := by
  have hrefusal : refusal? p (.node .module line ident ds cs)
      = refusal? p (.node .module line ident ds cs') := rfl
  have hexamined : ∀ f, examine p r false (.node .module line ident ds cs) f
      = examine p r false (.node .module line ident ds cs') f := fun f => rfl
  have hvisit : visit p r false .empty (.node .module line ident ds cs)
      = visit p r false .empty (.node .module line ident ds cs') := by
    simp only [visit, hrefusal, hexamined, show (Kind.module == .module) = true from rfl, h]
  rw [run, run, hvisit]

end

end Linter

namespace Store

open Gatehouse.Linter

/-- A request is refused for its root if the policy does not permit that, whatever the name is, and
for its name if that is not importable; then the store is as it was. Every other request is granted:
its entry takes the place of the one of its name, or a place between the others, and is what is
found under its name from then on, while nothing else is found under any other name. Of what has
been registered from the empty store on, every name can be imported at the top level of a contract
without any breach: the check goes as if the name, and an import that has no other, were not
there. -/
theorem register_importable :
    (∀ (q : Request) (s : Store),
      (¬ q.IsRooted → q.run s = (.error (.unknownRoot ⟨q.root⟩), s))
      ∧ (q.IsRooted → ¬ Entry.IsImportable q.name →
        q.run s = (.error (.invalidName q.name), s))
      ∧ (q.IsRooted → Entry.IsImportable q.name → ∃ s', q.run s = (.ok q.entry, s')
        ∧ (∀ old ∈ s.get? q.name, old.name = q.name)
        ∧ (∃ before after, s.entries = before ++ (s.get? q.name).toList ++ after
          ∧ s'.entries = before ++ q.entry :: after)
        ∧ (s.Sorted → s'.Sorted
          ∧ ∀ name, s'.get? name = if name = q.name then some q.entry else s.get? name)))
    ∧ ∀ (qs : List Request), ∀ name ∈ (afterAll qs).entries.map (·.name), ∀ p : Policy,
      p.allows .module = true → p.allows .importModule = true → p.allows .alias = true →
      ∀ (root : Option String) (ds before after as bs : List Tree) (start line aliasLine : Nat),
      let walk (cs : List Tree) :=
        Linter.run p (afterAll qs).toRegistry (.node .module start root ds cs)
      walk (before ++ .branch .importModule line (as ++ bareAlias aliasLine name :: bs) :: after)
          = walk (before ++ .branch .importModule line (as ++ bs) :: after)
        ∧ walk (before ++ .branch .importModule line [bareAlias aliasLine name] :: after)
          = walk (before ++ after) := by
  refine ⟨fun q s => ⟨Request.run_of_not_isRooted s, Request.run_of_not_isImportable s,
    fun hroot hname => ⟨_, Request.run_of_isImportable s hroot hname,
      fun old hold => (get?_eq_some hold).2, exists_insert_split s q.entry, fun hs => ?_⟩⟩, ?_⟩
  · refine ⟨hs.insert _, fun name => ?_⟩
    rw [hs.get?_insert]
    simp only [Request.entry, eq_comm]
  · intro qs name hmem p hmodule himport halias root ds before after as bs start line aliasLine
    obtain ⟨e, he, rfl⟩ := List.mem_map.mp hmem
    have hregistered := isRegistered_afterAll qs
    have hname := hregistered.importable e he
    have hknown : (afterAll qs).toRegistry.confirms e.name = true :=
      hregistered.sorted.contains_iff.mpr ⟨e, he, rfl⟩
    have hsame : ∀ (as bs : List Tree) f,
        visit p (afterAll qs).toRegistry true f
          (.branch .importModule line (as ++ bareAlias aliasLine e.name :: bs))
        = visit p (afterAll qs).toRegistry true f (.branch .importModule line (as ++ bs)) :=
      fun as bs f => visit_import_cons line aliasLine halias hname hknown f
    constructor
    · refine run_module_congr start root fun f => ?_
      simp only [visitAll_eq_foldl, List.foldl_append, List.foldl_cons, hsame]
    · refine run_module_congr start root fun f => ?_
      have hone := fun f => (hsame [] [] f).trans (visit_import_nil line himport f)
      simp only [List.nil_append] at hone
      simp only [visitAll_eq_foldl, List.foldl_append, List.foldl_cons, hone]

/-- A request for one name, and two that are refused: for its root and for its name. -/
def tokenRequest : Request := ⟨.standard, "token", "test_contracts", .empty, 1⟩

def strayRequest : Request := ⟨.standard, "_bank", "os", .empty, 2⟩

def hiddenRequest : Request := ⟨.standard, "_bank", "test_contracts", .empty, 3⟩

/-- Only the first request is granted, and the name that came into the store by it is imported in a
contract that is admitted. -/
theorem register_token : ∃ s, tokenRequest.run .empty = (.ok tokenRequest.entry, s)
    ∧ s.get? "token" = some tokenRequest.entry
    ∧ strayRequest.run s = (.error (.unknownRoot ⟨"os"⟩), s)
    ∧ hiddenRequest.run s = (.error (.invalidName "_bank"), s)
    ∧ Linter.inspect .standard (afterAll [tokenRequest, strayRequest, hiddenRequest]).toRegistry
        (.branch .module 1 [.branch .importModule 1 [bareAlias 1 "token"],
          .node .functionDef 3 (some "f") [.named .name 2 "export" [.leaf .load 2]]
            [.leaf .arguments 3]]) = [] := by
  have hrooted : tokenRequest.IsRooted := by decide
  have hname : Entry.IsImportable "token" := Entry.isName_iff.mp (by decide)
  have hhidden : ¬ Entry.IsImportable "_bank" := fun h => absurd h.isHidden_eq (by decide)
  obtain ⟨s, hrun, -, -, hordered⟩ :=
    (register_importable.1 tokenRequest .empty).2.2 hrooted hname
  refine ⟨s, hrun, ?_, ?_, ?_, ?_⟩
  · exact ((hordered List.Pairwise.nil).2 "token").trans (if_pos rfl)
  · exact (register_importable.1 strayRequest s).1 (by decide)
  · exact (register_importable.1 hiddenRequest s).2.1 (by decide) hhidden
  · have hwalk := (register_importable.2 [tokenRequest, strayRequest, hiddenRequest] "token"
      (by decide +kernel) .standard rfl rfl rfl none [] [] [.node .functionDef 3 (some "f")
        [.named .name 2 "export" [.leaf .load 2]] [.leaf .arguments 3]] [] [] 1 1 1).2
    simp only [List.nil_append] at hwalk
    rw [Linter.inspect, Tree.branch, hwalk]
    decide +kernel

end Store
end Gatehouse
