import Gatehouse.Proofs.Command.Register
import Gatehouse.Proofs.Linter.Admission
import Gatehouse.Proofs.Lowering.Levels
import Gatehouse.Proofs.Store.Mapped

/-!
A registry over any number of runs. Names only ever come to it, so what a contract imports when it
is admitted stays registered; a run that fails changes nothing.
-/
namespace Gatehouse.Command

/-- The names under which sources were registered, each with its source, the latest first. -/
abbrev Log := List (String × ByteArray)

/-- A run on a disk. -/
def runOn (registry name path root : String) (d : Disk) : Report × Disk :=
  registerContract (m := Disk.Action) name path root registry d

/-- What happens to a disk between two looks at its registry: something elsewhere, a run that fails
for another cause than that its store cannot be saved, or a run that registers a source. -/
inductive Step (registry : String) : Disk → Log → Disk → Log → Prop
  | elsewhere {d d' : Disk} {log : Log} (hsame : d'.read registry = d.read registry) :
      Step registry d log d' log
  | failed {d : Disk} {log : Log} (name path root : String)
      (hcode : (runOn registry name path root d).1.code ≠ 0)
      (hsaved : ∀ e, (runOn registry name path root d).1 ≠ unsaved registry e) :
      Step registry d log (runOn registry name path root d).2 log
  | registered {d : Disk} {log : Log} {source : ByteArray} (name path root : String)
      (hread : d.read path = .ok source) (hcode : (runOn registry name path root d).1.code = 0)
      (hsize : ∀ bytes, (runOn registry name path root d).2.read registry = .ok bytes →
        bytes.size < 0x80000000) :
      Step registry d log (runOn registry name path root d).2 ((name, source) :: log)

/-- The disks that can be reached from one on which the registry is absent. -/
inductive History (registry : String) : Disk → Log → Prop
  | start {d : Disk} (habsent : d.read registry = .error .notFound) : History registry d []
  | step {d d' : Disk} {log log' : Log} (h : History registry d log)
      (hstep : Step registry d log d' log') : History registry d' log'

/-- A store that is as it should be after what was registered. -/
structure Sound (store : Store) (log : Log) : Prop where
  sorted : store.Sorted
  names : ∀ e ∈ store.entries, Entry.isName e.name = true
  roots : ∀ e ∈ store.entries, ∃ r ∈ Policy.standard.importRoots, r.path = e.root
  digests : ∀ e ∈ store.entries, ∃ source, log.lookup e.name = some source
    ∧ e.digest = Digest.ofBytes source
  registered : ∀ x ∈ log, store.contains x.1 = true
  imports : ∀ x ∈ log, ∃ module, Contract.parse x.2 = .ok module
    ∧ ∀ c ∈ module.children, c.kind = .importModule → ∀ a ∈ c.children, ∀ n ∈ a.ident,
      store.contains n = true

theorem sound_empty : Sound .empty [] where
  sorted := List.Pairwise.nil
  names := by simp [Store.empty]
  roots := by simp [Store.empty]
  digests := by simp [Store.empty]
  registered := by simp
  imports := by simp

section

variable {name path root registry : String} {d d' : Disk} {source : ByteArray} {module : Tree}
  {store : Store} {e : Entry} {log : Log}

theorem Registers.imports (h : Registers name path root registry d d' source module store e)
    {c a : Tree} {n : String} (hc : c ∈ module.children) (hk : c.kind = .importModule)
    (ha : a ∈ c.children) (hn : n ∈ a.ident) : store.contains n = true := by
  have hclean := (Linter.admissible_of_check_eq_pass h.admitted).clean _
    (Tree.mem_occurrences_of_mem_children hc)
  have hanswer := (hclean.imports hk a ha n hn).2
  simpa [Store.toRegistry] using hanswer

theorem contains_insert (hsorted : store.Sorted) {n : String} (h : store.contains n = true) :
    (store.insert e).1.contains n = true := by
  obtain ⟨x, hx, rfl⟩ := hsorted.contains_iff.mp h
  refine (hsorted.insert e).contains_iff.mpr ?_
  by_cases hname : x.name = e.name
  · exact ⟨e, hsorted.mem_insert_iff.mpr (Or.inl rfl), hname.symm⟩
  · exact ⟨x, hsorted.mem_insert_iff.mpr (Or.inr ⟨hx, hname⟩), rfl⟩

/-- A store stays sound when a contract is put in it. -/
theorem Sound.insert (hs : Sound store log)
    (h : Registers name path root registry d d' source module store e) :
    Sound (store.insert e).1 ((name, source) :: log) := by
  obtain ⟨-, hname, hvalid, hroot, hdigest⟩ := Store.register_eq_ok h.registered
  have hmem : ∀ {x}, x ∈ (store.insert e).1.entries ↔ x = e ∨ (x ∈ store.entries ∧ x.name ≠ e.name) :=
    hs.sorted.mem_insert_iff
  have hkept : ∀ {n}, store.contains n = true → (store.insert e).1.contains n = true :=
    contains_insert hs.sorted
  refine ⟨hs.sorted.insert e, ?_, ?_, ?_, ?_, ?_⟩
  · intro x hx
    rcases hmem.mp hx with rfl | ⟨hx, -⟩
    · rwa [hname]
    · exact hs.names x hx
  · intro x hx
    rcases hmem.mp hx with rfl | ⟨hx, -⟩
    · exact hroot
    · exact hs.roots x hx
  · intro x hx
    rcases hmem.mp hx with rfl | ⟨hx, hne⟩
    · exact ⟨source, by simp [hname], hdigest⟩
    · obtain ⟨old, hold, hsame⟩ := hs.digests x hx
      have hbeq : (x.name == name) = false := by simpa [hname] using hne
      exact ⟨old, by rwa [List.lookup_cons, hbeq], hsame⟩
  · intro x hx
    rcases List.mem_cons.mp hx with rfl | hx
    · exact (hs.sorted.insert e).contains_iff.mpr ⟨e, hmem.mpr (Or.inl rfl), hname⟩
    · exact hkept (hs.registered x hx)
  · intro x hx
    rcases List.mem_cons.mp hx with rfl | hx
    · exact ⟨module, h.parsed, fun c hc hk a ha n hn => hkept (h.imports hc hk ha hn)⟩
    · obtain ⟨old, hparsed, himports⟩ := hs.imports x hx
      exact ⟨old, hparsed, fun c hc hk a ha n hn => hkept (himports c hc hk a ha n hn)⟩

theorem runOn_of_failed (hcode : (runOn registry name path root d).1.code ≠ 0)
    (hsaved : ∀ e, (runOn registry name path root d).1 ≠ unsaved registry e) :
    (runOn registry name path root d).2 = d := by
  rcases registerContract_cases name path root registry d with ⟨-, hsame⟩ | ⟨e, hunsaved⟩ | ⟨hzero, -⟩
  · exact hsame
  · exact absurd hunsaved (hsaved e)
  · exact absurd hzero hcode

theorem registers_of_runOn (hread : d.read path = .ok source)
    (hcode : (runOn registry name path root d).1.code = 0) : ∃ module store e,
    Registers name path root registry d (runOn registry name path root d).2 source module store e := by
  rcases registerContract_cases name path root registry d with ⟨hone, -⟩ | ⟨e, hunsaved⟩ | ⟨-, hrun⟩
  · exact absurd (hcode.symm.trans hone) (by decide)
  · exact absurd (hcode.symm.trans (congrArg Report.code hunsaved)) (by simp [unsaved, Report.failed])
  · obtain ⟨source', module, store, e, h⟩ := hrun
    obtain rfl := Except.ok.inj (hread.symm.trans h.read)
    exact ⟨module, store, e, h⟩

theorem onDisk_congr (h : d'.read registry = d.read registry) :
    Store.onDisk registry d' = Store.onDisk registry d := by
  rw [Store.onDisk, h, Store.onDisk]

/-- One step keeps a registry sound, and no name leaves it. -/
theorem Step.sound {log' : Log} (hstep : Step registry d log d' log')
    (hload : Store.onDisk registry d = .ok store) (hs : Sound store log) :
    ∃ store', Store.onDisk registry d' = .ok store' ∧ Sound store' log'
      ∧ ∀ n, store.contains n = true → store'.contains n = true := by
  cases hstep with
  | elsewhere hsame => exact ⟨store, (onDisk_congr hsame).trans hload, hs, fun n hn => hn⟩
  | failed name path root hcode hsaved =>
    rw [runOn_of_failed hcode hsaved]
    exact ⟨store, hload, hs, fun n hn => hn⟩
  | registered name path root hread hcode hsize =>
    obtain ⟨module, store', e, h⟩ := registers_of_runOn hread hcode
    obtain rfl := Except.ok.inj (hload.symm.trans h.loaded)
    have hsorted := hs.sorted.insert e
    refine ⟨(store.insert e).1, ?_, hs.insert h, fun n hn => contains_insert hs.sorted hn⟩
    rw [Store.onDisk, h.saved]
    simp only [Store.ofBytes_toBytes h.tellable (hsize _ h.saved), hsorted.sorted_eq]

theorem History.sound (h : History registry d log) :
    ∃ store, Store.onDisk registry d = .ok store ∧ Sound store log := by
  induction h with
  | start habsent => exact ⟨.empty, by rw [Store.onDisk, habsent], sound_empty⟩
  | step _ hstep ih =>
    obtain ⟨store, hload, hs⟩ := ih
    obtain ⟨store', hload', hs', -⟩ := hstep.sound hload hs
    exact ⟨store', hload', hs'⟩

/-- After any history the registry loads as a sound store, in which every import of a registered
source is found; a further step keeps all names, and a further run that fails changes nothing. -/
theorem registry_closed_of_history (h : History registry d log) : ∃ store,
    Store.load (m := Disk.Action) registry d = (.ok store, d) ∧ Sound store log
    ∧ (∀ d' log', Step registry d log d' log' → ∃ store',
        Store.load (m := Disk.Action) registry d' = (.ok store', d') ∧ Sound store' log'
        ∧ ∀ n, store.contains n = true → store'.contains n = true)
    ∧ ∀ name path root, (runOn registry name path root d).1.code ≠ 0 →
        (∀ e, (runOn registry name path root d).1 ≠ unsaved registry e) →
        (runOn registry name path root d).2 = d := by
  obtain ⟨store, hload, hs⟩ := h.sound
  refine ⟨store, by rw [Store.load_eq, hload], hs, fun d' log' hstep => ?_,
    fun name path root hcode hsaved => runOn_of_failed hcode hsaved⟩
  obtain ⟨store', hload', hs', hkept⟩ := hstep.sound hload hs
  exact ⟨store', by rw [Store.load_eq, hload'], hs', hkept⟩

end

/-! ### Two contracts that import each other -/

theorem report_rejected_ne_unsaved (registry : String) {path message : String}
    {messages : List String} {e : RegistryError} :
    (Refusal.rejected (message :: messages)).report path registry ≠ unsaved registry e := by
  intro h
  -- Violations are printed set in, before the error itself.
  have hhead := congrArg (fun r : Report => r.err.toList.head?) h
  simp [Refusal.report, unsaved, Report.failed, unlines, failureLines, String.toList_join] at hhead

theorem step_of_rejected (log : Log) {d : Disk} {path registry message : String}
    {messages : List String} (name root : String)
    (h : admission path registry d = .error (.rejected (message :: messages))) :
    Step registry d log d log ∧ runOn registry name path root d
      = ((Refusal.rejected (message :: messages)).report path registry, d) := by
  have hrun : runOn registry name path root d
      = ((Refusal.rejected (message :: messages)).report path registry, d) := by
    rw [runOn, registerContract_eq, h]
  have hstep : Step registry d log (runOn registry name path root d).2 log :=
    .failed name path root (by rw [hrun]; exact Nat.one_ne_zero)
      fun e => by rw [hrun]; exact report_rejected_ne_unsaved registry
  exact ⟨by rwa [hrun] at hstep, hrun⟩

/-- A run that registers a contract in a store in order, and what it leaves of the store. -/
theorem step_of_saved {log : Log} {kept store : Store} {d d' : Disk} {source : ByteArray}
    {module : Tree} {name registry : String} (path root : String) (e : Entry) (store' : Store)
    (hs : store.Sorted)
    (hadmission : admission path registry d = .ok ⟨source, module, store⟩)
    (hregistered : store.register .standard name root source d.seconds
      = .ok ((store.insert e).1, e))
    (hinsert : (store.insert e).1 = store')
    (hsaved : store'.save (m := Disk.Action) registry d = ((kept, .ok ()), d'))
    (hsize : store'.toBytes.size < 0x80000000) :
    Step registry d log d' ((name, source) :: log) ∧ Store.onDisk registry d' = .ok store'
      ∧ store'.Sorted := by
  subst hinsert
  have hrun : runOn registry name path root d = (_, d') :=
    registerContract_eq_done hadmission hregistered hsaved
  obtain ⟨htell, -, hwritten⟩ := Store.save_eq_ok hsaved
  have hstep : Step registry d log (runOn registry name path root d).2 ((name, source) :: log) := by
    refine .registered name path root (admission_eq_ok_iff.mp hadmission).1 (by rw [hrun]; rfl)
      fun bytes hbytes => ?_
    rw [hrun, hwritten] at hbytes
    rwa [← Except.ok.inj hbytes]
  refine ⟨by rwa [hrun] at hstep, ?_, hs.insert e⟩
  rw [Store.onDisk, hwritten]
  simp only [Store.ofBytes_toBytes htell hsize, (hs.insert e).sorted_eq]

/-- Three contracts: a function, one that imports it, and one that imports that. -/
def sourceA : ByteArray := "@export\ndef f():\n    return 1\n".toUTF8

def sourceB : ByteArray := "import f\n@export\ndef g():\n    return 1\n".toUTF8

def sourceC : ByteArray := "import g\n@export\ndef f():\n    return 1\n".toUTF8

def functionTree (name : String) (line : Nat) : Tree :=
  .node .functionDef (line + 1) (some name) [.named .name line "export" [.leaf .load line]]
    [.leaf .arguments (line + 1), .branch .returnValue (line + 2) [.named .num (line + 2) "1" []]]

def importTree (name : String) : Tree := .branch .importModule 1 [.named .alias 1 name []]

def moduleA : Tree := .branch .module 1 [functionTree "f" 1]

def moduleB : Tree := .branch .module 1 [importTree "f", functionTree "g" 2]

def moduleC : Tree := .branch .module 1 [importTree "g", functionTree "f" 2]

theorem parse_sources : Contract.parse sourceA = .ok moduleA
    ∧ Contract.parse sourceB = .ok moduleB ∧ Contract.parse sourceC = .ok moduleC := by
  simp only [Contract.parse_eq_ok_iff, Contract.read_eq]
  decide +kernel

def entryA : Entry := ⟨"f", "test_contracts", Digest.ofBytes sourceA, 0⟩

def entryB : Entry := ⟨"g", "test_contracts", Digest.ofBytes sourceB, 0⟩

def entryC : Entry := ⟨"f", "test_contracts", Digest.ofBytes sourceC, 0⟩

def contractsDisk : Disk :=
  ⟨[(["a"], .file sourceA), (["b"], .file sourceB), (["c"], .file sourceC)], 0⟩

def registryDisk (es : List Entry) : Disk := contractsDisk.put ["r"] (.file (Store.mk es).toBytes)

theorem size_toBytes_lt {es : List Entry} (htexts : (Archive.textPart es).length ≤ 32)
    (hlength : es.length ≤ 2) : (Store.mk es).toBytes.size < 0x80000000 := by
  have hsize := Store.size_toBytes ⟨es⟩
  simp only [Store.size, Archive.entrySize, Archive.footSize] at hsize
  omega

theorem first_registered : Step "r" contractsDisk [] (registryDisk [entryA]) [("f", sourceA)]
    ∧ Store.onDisk "r" (registryDisk [entryA]) = .ok ⟨[entryA]⟩ ∧ (Store.mk [entryA]).Sorted :=
  step_of_saved "a" "test_contracts" entryA ⟨[entryA]⟩ List.Pairwise.nil
    (admission_eq_ok_iff.mpr ⟨rfl, parse_sources.1, rfl, by decide⟩) rfl rfl rfl
    (size_toBytes_lt (by decide) (by decide))

theorem third_refused : admission "c" "r" (registryDisk [entryA])
    = .error (.rejected ["Line 1: S5- Contract not found in lib: g"]) := by
  have hread : (registryDisk [entryA]).read "c" = .ok sourceC := rfl
  have hcheck : Linter.check .standard (Store.mk [entryA]).toRegistry moduleC
      = .fail ["Line 1: S5- Contract not found in lib: g"] := by decide +kernel
  simp only [admission, hread, parse_sources.2.2, first_registered.2.1, hcheck]

theorem second_registered :
    Step "r" (registryDisk [entryA]) [("f", sourceA)] (registryDisk [entryA, entryB])
      [("g", sourceB), ("f", sourceA)]
    ∧ Store.onDisk "r" (registryDisk [entryA, entryB]) = .ok ⟨[entryA, entryB]⟩
    ∧ (Store.mk [entryA, entryB]).Sorted := by
  obtain ⟨-, hloaded, hsorted⟩ := first_registered
  have hplace : (Store.mk [entryA]).search "g" = .missing 1 := by decide +kernel
  have hinsert : ((Store.mk [entryA]).insert entryB).1 = ⟨[entryA, entryB]⟩ := by
    rw [Store.insert, show entryB.name = "g" from rfl, hplace]
    rfl
  exact step_of_saved "b" "test_contracts" entryB ⟨[entryA, entryB]⟩ hsorted
    (admission_eq_ok_iff.mpr ⟨rfl, parse_sources.2.1, hloaded, by decide +kernel⟩) rfl hinsert rfl
    (size_toBytes_lt (by decide) (by decide))

theorem third_replaces_first :
    Step "r" (registryDisk [entryA, entryB]) [("g", sourceB), ("f", sourceA)]
      (registryDisk [entryC, entryB]) [("f", sourceC), ("g", sourceB), ("f", sourceA)] := by
  obtain ⟨-, hloaded, hsorted⟩ := second_registered
  have hplace : (Store.mk [entryA, entryB]).search "f" = .found 0 := by decide +kernel
  have hinsert : ((Store.mk [entryA, entryB]).insert entryC).1 = ⟨[entryC, entryB]⟩ := by
    rw [Store.insert, show entryC.name = "f" from rfl, hplace]
    rfl
  exact (step_of_saved "c" "test_contracts" entryC ⟨[entryC, entryB]⟩ hsorted
    (admission_eq_ok_iff.mpr ⟨rfl, parse_sources.2.2, hloaded, by decide +kernel⟩) rfl hinsert rfl
    (size_toBytes_lt (by decide) (by decide))).1

/-- The first contract is registered, the third one is refused since what it imports is not, the
second one is registered with its import of the first, and then the third one takes the place of
the first. The refusal leaves the disk as it is, and in the end the registry is sound. -/
theorem registry_closed_of_four_runs :
    runOn "r" "f" "c" "test_contracts" (registryDisk [entryA])
      = ((Refusal.rejected ["Line 1: S5- Contract not found in lib: g"]).report "c" "r",
        registryDisk [entryA])
    ∧ ∃ store, Store.load (m := Disk.Action) "r" (registryDisk [entryC, entryB])
        = (.ok store, registryDisk [entryC, entryB])
      ∧ Sound store [("f", sourceC), ("g", sourceB), ("f", sourceA)] := by
  obtain ⟨hrefused, hrefusal⟩ := step_of_rejected [("f", sourceA)] "f" "test_contracts" third_refused
  have hhistory : History "r" (registryDisk [entryC, entryB])
      [("f", sourceC), ("g", sourceB), ("f", sourceA)] :=
    (((History.start rfl).step first_registered.1).step hrefused).step second_registered.1
      |>.step third_replaces_first
  obtain ⟨store, hload, hs, -⟩ := registry_closed_of_history hhistory
  exact ⟨hrefusal, store, hload, hs⟩

end Gatehouse.Command
