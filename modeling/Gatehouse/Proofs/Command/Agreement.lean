import Gatehouse.Proofs.Command.Register
import Gatehouse.Proofs.Contract.Load
import Gatehouse.Proofs.Linter.Registries
import Gatehouse.Proofs.Store.Mapped

/-!
Two commands admit contracts. One looks at the store as an archive and reports breaches, the other
loads the store and registers what passes. They come to the same verdict on a file, as long as the
path of the store leads somewhere or to nothing; where it leads through a file, one of them takes
the store for absent and the other one fails.
-/
namespace Gatehouse

theorem Policy.importRoot_eq_error {p : Policy} {path : String} {e : UnknownRoot}
    (h : p.importRoot path = .error e) : ∀ r ∈ p.importRoots, r.path ≠ path := by
  unfold importRoot at h
  split at h
  · cases h
  · next hnone => simpa using hnone

namespace Command

namespace Candidate

theorem register_eq_ok_iff (c : Candidate) (name root : String) (now : UInt64) :
    (∃ result, c.store.register .standard name root c.source now = .ok result)
      ↔ (∃ r ∈ Policy.standard.importRoots, r.path = root) ∧ Entry.isName name = true := by
  unfold Store.register
  cases hroot : Policy.standard.importRoot root with
  | error e =>
    have hnone := Policy.importRoot_eq_error hroot
    simp only [reduceCtorEq, exists_false, false_iff, not_and]
    exact fun ⟨r, hr, hpath⟩ => absurd hpath (hnone r hr)
  | ok r =>
    have hfound := Policy.importRoot_eq_ok hroot
    cases Entry.isName name with
    | false => simp
    | true => simpa using ⟨r, hfound.1, hfound.2⟩

theorem register_eq (c : Candidate) {name root : String} {now : UInt64} {result : Store × Entry}
    (h : c.store.register .standard name root c.source now = .ok result) :
    result.1 = (c.store.insert (c.entry name root now)).1 := by
  unfold Store.register at h
  split at h
  · cases h
  · next r hroot =>
    split at h
    · rw [← Except.ok.inj h, (Policy.importRoot_eq_ok hroot).2]
      rfl
    · cases h

/-- A contract is registered if root and name allow it and its store can be saved. -/
theorem code_enroll (c : Candidate) (name root registry : String) (d : Disk) :
    (c.enroll name root registry d).1.code = 0
      ↔ (∃ r ∈ Policy.standard.importRoots, r.path = root) ∧ Entry.isName name = true
        ∧ c.saved name root registry d = .ok () := by
  rw [← and_assoc, ← c.register_eq_ok_iff name root d.seconds, enroll]
  cases hregistered : c.store.register .standard name root c.source d.seconds with
  | error e => simp [Report.failed]
  | ok result =>
    obtain ⟨store, entry⟩ := result
    obtain rfl : store = (c.store.insert (c.entry name root d.seconds)).1 :=
      c.register_eq hregistered
    rw [saved]
    simp only
    generalize (c.store.insert (c.entry name root d.seconds)).1.save (m := Disk.Action) registry d
      = s
    obtain ⟨⟨kept, e | _⟩, d'⟩ := s
    · simp [unsaved, Report.failed]
    · simp [Report.done]

end Candidate

/-! ### The check of one file -/

/-- The report of a check. -/
def checkReport (json : Bool) (reports : List FileReport) : Report :=
  let lines :=
    if json then [Text.Json.pretty 0 (.list (reports.map FileReport.json))] else summary reports
  { Report.done lines with code := if reports.all FileReport.isAdmitted then 0 else 1 }

def verdictOn (r : Registry) (source : ByteArray) : Verdict :=
  match Contract.parse source with
  | .error e => .unread e.message
  | .ok module => verdictOf .standard r module

section

variable {limits : Limits} {path registry : String} {d : Disk} {source : ByteArray} {json : Bool}

theorem charge_of_le {size : Nat} (h : size ≤ limits.memory.toNat) :
    ∃ charged, Ledger.empty.charge limits (UInt64.ofNat size) = .ok charged := by
  have hbound : size < UInt64.size := Nat.lt_of_le_of_lt h (UInt64.toNat_lt limits.memory)
  have hsum : (Word.cappedAdd Ledger.empty.used (UInt64.ofNat size)).toNat = size := by
    have hsize : (UInt64.ofNat size).toNat = size := Nat.mod_eq_of_lt hbound
    rw [Word.toNat_cappedAdd, hsize]
    simp only [Ledger.empty, UInt64.toNat_zero, Nat.zero_add]
    exact Nat.min_eq_left (Nat.le_pred_of_lt hbound)
  refine ⟨⟨Word.cappedAdd Ledger.empty.used (UInt64.ofNat size)⟩, if_neg ?_⟩
  rw [UInt64.lt_iff_toNat_lt, hsum]
  exact Nat.not_lt.mpr h

/-- A file that does not pass the memory limit is judged by its text alone. -/
theorem checkFile_eq (r : Registry) (hread : d.read path = .ok source)
    (hsize : source.size ≤ limits.memory.toNat) : ∃ account,
    checkFile (m := Disk.Action) limits r .empty path d
      = ((account, ⟨path, verdictOn r source⟩), d) := by
  obtain ⟨charged, hcharged⟩ := charge_of_le hsize
  refine ⟨charged.release (UInt64.ofNat source.size), ?_⟩
  rw [checkFile, Disk.bind_apply, Disk.machine_nanoseconds]
  simp only [Disk.bind_apply, Disk.machine_status, Disk.status_of_read hread, Status.size, hcharged,
    Contract.load_of_read hread, verdictOn]
  cases Contract.parse source with
  | error e => rfl
  | ok module =>
    -- No time has passed, so the budget is kept whatever it is.
    have hbudget : (Budget.mk 0 limits.nanos).check 0 = .ok () := by simp [Budget.check]
    simp only [Disk.pure_apply, Disk.bind_apply, Disk.machine_nanoseconds, hbudget]

theorem filesOfAll_singleton (hread : d.read path = .ok source) :
    filesOfAll (m := Disk.Action) [path] d = (.ok [path], d) := by
  rw [filesOfAll, Disk.bind_apply, filesOf, Disk.bind_apply, Disk.machine_status,
    Disk.status_of_read hread]
  rfl

/-- The check of one file opens the store and judges the text of the file by it. -/
theorem checkContracts_eq (hread : d.read path = .ok source)
    (hsize : source.size ≤ limits.memory.toNat)
    (hdisk : (knownNames (m := Disk.Action) registry [] d).2 = d) :
    (checkContracts (m := Disk.Action) limits registry [path] [] json d).1
      = match (knownNames (m := Disk.Action) registry [] d).1 with
        | .error chain => .failed chain [] []
        | .ok r => checkReport json [⟨path, verdictOn r source⟩] := by
  rw [checkContracts, Disk.bind_apply]
  cases hknown : knownNames (m := Disk.Action) registry [] d with
  | mk known d' =>
    obtain rfl : d' = d := by rw [← hdisk, hknown]
    cases known with
    | error chain => rfl
    | ok r =>
      obtain ⟨account, hfile⟩ := checkFile_eq r hread hsize
      simp only [Disk.bind_apply, filesOfAll_singleton hread, checkFiles, hfile]
      rfl

theorem archive_load_snd : (Archive.load (m := Disk.Action) registry d).2 = d := by
  rw [Archive.load, Disk.bind_apply, Disk.machine_view_snd]
  cases ((Machine.view registry : Disk.Action _) d).1 with
  | error e => rfl
  | ok bytes =>
    simp only
    cases Archive.ofBytes? bytes.data.toList <;> rfl

theorem archive_load_of_unread {e : FileError} (h : d.read registry = .error e) :
    ∃ e', (Archive.load (m := Disk.Action) registry d).1 = .error (.file e') := by
  rw [Archive.load, Disk.bind_apply]
  cases hviewed : ((Machine.view registry : Disk.Action _) d).1 with
  | error e' => exact ⟨e', rfl⟩
  | ok bytes =>
    rw [Disk.machine_view_eq_ok_iff, h] at hviewed
    cases hviewed

theorem knownNames_of_error {e : FileError} (h : d.status registry = .error e) :
    knownNames (m := Disk.Action) registry [] d = (.ok (.ofNames []), d) := by
  rw [knownNames, Disk.bind_apply, Machine.exists?, Disk.bind_apply, Disk.machine_status, h]
  rfl

theorem knownNames_of_status {status : Status} (h : d.status registry = .ok status) :
    knownNames (m := Disk.Action) registry [] d
      = match (Archive.load (m := Disk.Action) registry d).1 with
        | .ok a => (.ok ((Registry.ofNames []).orElse a.toRegistry), d)
        | .error e => (.error (("Failed to open contract store " ++ registry) :: e.chain), d) := by
  have hexists : (Machine.exists? registry : Disk.Action Bool) d = (true, d) := by
    rw [Machine.exists?, Disk.bind_apply, Disk.machine_status, h]
    rfl
  rw [knownNames, Disk.bind_apply, hexists, if_pos rfl, Disk.bind_apply, archive_load_snd]
  cases (Archive.load (m := Disk.Action) registry d).1 <;> rfl

/-- What the check has for a store agrees with the store that the other command loads: it confirms
the same names, or neither can be had. -/
theorem knownNames_cases (hfound : ∀ e, d.status registry = .error e → e = .notFound) :
    (∃ r store, knownNames (m := Disk.Action) registry [] d = (.ok r, d)
      ∧ Store.onDisk registry d = .ok store
      ∧ ∀ name, r.lookUp name = store.toRegistry.lookUp name)
    ∨ (∃ e e' : RegistryError, knownNames (m := Disk.Action) registry [] d
        = (.error (("Failed to open contract store " ++ registry) :: e.chain), d)
      ∧ Store.onDisk registry d = .error e') := by
  cases hread : d.read registry with
  | ok bytes =>
    rw [knownNames_of_status (Disk.status_of_read hread), Archive.load_of_read hread,
      Store.onDisk, hread]
    simp only [Store.ofBytes]
    cases hopened : Archive.ofBytes? bytes.data.toList with
    | none => exact Or.inr ⟨.malformed, .malformed, rfl, rfl⟩
    | some a =>
      obtain ⟨es, hshows⟩ := Archive.exists_shows hopened
      refine Or.inl ⟨_, ⟨a.toList⟩, rfl, rfl, fun name => ?_⟩
      rw [hshows.toList_eq, ← hshows.agrees.lookUp]
      rfl
  | error e =>
    cases hstatus : d.status registry with
    | error e' =>
      obtain rfl := hfound e' hstatus
      obtain rfl := Except.error.inj (hread.symm.trans (Disk.read_of_status_eq_error hstatus))
      exact Or.inl ⟨_, .empty, knownNames_of_error hstatus, by rw [Store.onDisk, hread],
        fun name => rfl⟩
    | ok status =>
      -- Something stands there that cannot be read, so it is not taken for an absent store.
      obtain ⟨e', hload⟩ := archive_load_of_unread hread
      have hpresent := Disk.read_ne_notFound hstatus
      refine Or.inr ⟨.file e', .file e, by rw [knownNames_of_status hstatus, hload], ?_⟩
      unfold Store.onDisk
      cases e with
      | notFound => exact absurd hread hpresent
      | _ => simp only [hread]

theorem code_checkReport (v : Verdict) : (checkReport json [⟨path, v⟩]).code = 0
    ↔ ∃ points, v = .admitted points := by
  cases v <;> simp [checkReport, FileReport.isAdmitted]

/-- Where both commands have a store, what one says of a file follows from what the other does. -/
theorem verdictOn_cases {r : Registry} {store : Store} (hread : d.read path = .ok source)
    (hloaded : Store.onDisk registry d = .ok store)
    (hsame : ∀ name, r.lookUp name = store.toRegistry.lookUp name) :
    (∃ c points, admission path registry d = .ok c ∧ verdictOn r source = .admitted points)
    ∨ (∃ vs, admission path registry d = .error (.rejected (vs.map Violation.message))
      ∧ verdictOn r source = .rejected vs)
    ∨ ∃ e, admission path registry d = .error (.unparsed e)
      ∧ verdictOn r source = .unread e.message := by
  unfold admission verdictOn
  simp only [hread, hloaded]
  cases Contract.parse source with
  | error e => exact Or.inr (Or.inr ⟨e, rfl, rfl⟩)
  | ok module =>
    have hinspect : Linter.inspect .standard r module
        = Linter.inspect .standard store.toRegistry module := by
      have hrun : Linter.run .standard r module = Linter.run .standard store.toRegistry module :=
        Linter.run_eq_of_askedNames fun name _ =>
          Registry.confirms_eq_of_iff (by rw [hsame name])
      rw [Linter.inspect, hrun, Linter.inspect]
    simp only [verdictOf, hinspect, Linter.check, Outcome.ofViolations]
    cases hvs : (Linter.inspect .standard store.toRegistry module).isEmpty with
    | true => exact Or.inl ⟨_, _, rfl, rfl⟩
    | false => exact Or.inr (Or.inl ⟨_, rfl, rfl⟩)

theorem admission_of_unloaded {e : RegistryError} (hread : d.read path = .ok source)
    (hloaded : Store.onDisk registry d = .error e) :
    admission path registry d = .error (.unloaded e)
      ∨ ∃ e, admission path registry d = .error (.unparsed e) := by
  unfold admission
  simp only [hread, hloaded]
  cases Contract.parse source with
  | error e => exact Or.inr ⟨e, rfl⟩
  | ok module => exact Or.inl rfl

end

/-! ### Agreement -/

/-- What it is for the commands to agree on a file. A check reports it as passed exactly if it gets
through the phases before registration; a refusal there ends the other command, and if the contract
was rejected, both show the same messages in the same order. A contract that gets through is
registered exactly if root and name allow it and its store can be saved. A store that one of the
commands cannot have is an error of both. -/
structure Agreement (limits : Limits) (json : Bool) (name path root registry : String) (d : Disk) :
    Prop where
  passed : (∃ points, (checkContracts (m := Disk.Action) limits registry [path] [] json d).1
      = checkReport json [⟨path, .admitted points⟩]) ↔ ∃ c, admission path registry d = .ok c
  refused : ∀ refusal, admission path registry d = .error refusal →
    registerContract (m := Disk.Action) name path root registry d
      = (refusal.report path registry, d)
  rejected : ∀ messages, admission path registry d = .error (.rejected messages) →
    ∃ vs, vs.map Violation.message = messages
      ∧ (checkContracts (m := Disk.Action) limits registry [path] [] json d).1
        = checkReport json [⟨path, .rejected vs⟩]
  registered : ∀ c, admission path registry d = .ok c →
    ((registerContract (m := Disk.Action) name path root registry d).1.code = 0
      ↔ (∃ r ∈ Policy.standard.importRoots, r.path = root) ∧ Entry.isName name = true
        ∧ c.saved name root registry d = .ok ())
  unopened : (∃ chain, (knownNames (m := Disk.Action) registry [] d).1 = .error chain)
    ↔ ∃ e, (Store.load (m := Disk.Action) registry d).1 = .error e
  failed : (∃ e, (Store.load (m := Disk.Action) registry d).1 = .error e) →
    (checkContracts (m := Disk.Action) limits registry [path] [] json d).1.code = 1
    ∧ (registerContract (m := Disk.Action) name path root registry d).1.code = 1

section

variable (limits : Limits) (json : Bool) (name path root registry : String) {d : Disk}
  {source : ByteArray}

theorem registerContract_of_refusal {refusal : Refusal}
    (h : admission path registry d = .error refusal) :
    registerContract (m := Disk.Action) name path root registry d
      = (refusal.report path registry, d) := by
  rw [registerContract_eq, h]

theorem code_registerContract {c : Candidate} (h : admission path registry d = .ok c) :
    (registerContract (m := Disk.Action) name path root registry d).1.code = 0
      ↔ (∃ r ∈ Policy.standard.importRoots, r.path = root) ∧ Entry.isName name = true
        ∧ c.saved name root registry d = .ok () := by
  rw [registerContract_eq, h]
  exact c.code_enroll name root registry d

theorem code_report (refusal : Refusal) : (refusal.report path registry).code = 1 := by
  cases refusal <;> rfl

theorem agreement_of_loaded {r : Registry} {store : Store} (hread : d.read path = .ok source)
    (hsize : source.size ≤ limits.memory.toNat)
    (hknown : knownNames (m := Disk.Action) registry [] d = (.ok r, d))
    (hloaded : Store.onDisk registry d = .ok store)
    (hsame : ∀ name, r.lookUp name = store.toRegistry.lookUp name) :
    Agreement limits json name path root registry d := by
  have hcheck : (checkContracts (m := Disk.Action) limits registry [path] [] json d).1
      = checkReport json [⟨path, verdictOn r source⟩] := by
    rw [checkContracts_eq hread hsize (by rw [hknown]), hknown]
  have hcases := verdictOn_cases hread hloaded hsame
  have hunloaded : ¬∃ e, (Store.load (m := Disk.Action) registry d).1 = .error e := by
    simp [Store.load_eq, hloaded]
  refine ⟨⟨fun ⟨points, h⟩ => ?_, fun ⟨c, hc⟩ => ?_⟩,
    fun _ => registerContract_of_refusal name path root registry, fun messages h => ?_,
    fun _ => code_registerContract name path root registry, iff_of_false ?_ hunloaded,
    fun h => absurd h hunloaded⟩
  · have hzero : (checkReport json [⟨path, verdictOn r source⟩]).code = 0 := by
      rw [← hcheck, h]
      exact (code_checkReport _).mpr ⟨points, rfl⟩
    obtain ⟨points, hpoints⟩ := (code_checkReport _).mp hzero
    rw [hpoints] at hcases
    obtain ⟨c, -, hc, -⟩ | ⟨vs, -, hvs⟩ | ⟨e, -, he⟩ := hcases
    · exact ⟨c, hc⟩
    · cases hvs
    · cases he
  · rw [hc] at hcases
    obtain ⟨_, points, -, hpoints⟩ | ⟨vs, hvs, -⟩ | ⟨e, he, -⟩ := hcases
    · exact ⟨points, by rw [hcheck, hpoints]⟩
    · cases hvs
    · cases he
  · rw [h] at hcases
    obtain ⟨c, -, hc, -⟩ | ⟨vs, hmessages, hvs⟩ | ⟨e, he, -⟩ := hcases
    · cases hc
    · exact ⟨vs, (Refusal.rejected.inj (Except.error.inj hmessages)).symm, by rw [hcheck, hvs]⟩
    · cases he
  · simp [hknown]

theorem agreement_of_unloaded {chain : List String} {e : RegistryError}
    (hread : d.read path = .ok source) (hsize : source.size ≤ limits.memory.toNat)
    (hknown : knownNames (m := Disk.Action) registry [] d = (.error chain, d))
    (hloaded : Store.onDisk registry d = .error e) :
    Agreement limits json name path root registry d := by
  have hcheck : (checkContracts (m := Disk.Action) limits registry [path] [] json d).1
      = .failed chain [] [] := by
    rw [checkContracts_eq hread hsize (by rw [hknown]), hknown]
  have hrefused : ∃ refusal, admission path registry d = .error refusal
      ∧ ∀ messages, refusal ≠ .rejected messages := by
    obtain h | ⟨e, h⟩ := admission_of_unloaded hread hloaded
    · exact ⟨_, h, fun _ => Refusal.noConfusion⟩
    · exact ⟨_, h, fun _ => Refusal.noConfusion⟩
  obtain ⟨refusal, hrefusal, hother⟩ := hrefused
  refine ⟨iff_of_false ?_ (by simp [hrefusal]),
    fun _ => registerContract_of_refusal name path root registry, fun messages h => ?_,
    fun _ => code_registerContract name path root registry,
    iff_of_true ⟨chain, by rw [hknown]⟩ ⟨e, by rw [Store.load_eq, hloaded]⟩, fun _ => ⟨?_, ?_⟩⟩
  · rintro ⟨points, h⟩
    have hzero : (checkReport json [⟨path, .admitted points⟩]).code = 0 :=
      (code_checkReport _).mpr ⟨points, rfl⟩
    rw [← h, hcheck] at hzero
    cases hzero
  · exact absurd (Except.error.inj (hrefusal.symm.trans h)) (hother messages)
  · rw [hcheck]
    rfl
  · rw [registerContract_of_refusal name path root registry hrefusal]
    exact code_report path registry refusal

/-- Both commands agree on every file that does not pass the memory limit, whatever it holds, if
the path of the store leads to something or to nothing. -/
theorem check_agrees_with_registerContract (hread : d.read path = .ok source)
    (hsize : source.size ≤ limits.memory.toNat)
    (hfound : ∀ e, d.status registry = .error e → e = .notFound) :
    Agreement limits json name path root registry d := by
  obtain ⟨r, store, hknown, hloaded, hsame⟩ | ⟨e, e', hknown, hloaded⟩ := knownNames_cases hfound
  · exact agreement_of_loaded limits json name path root registry hread hsize hknown hloaded hsame
  · exact agreement_of_unloaded limits json name path root registry hread hsize hknown hloaded

end

def oneFunction : ByteArray := "@export\ndef f():1".toUTF8

def oneFunctionTree : Tree :=
  .branch .module 1 [.node .functionDef 2 (some "f") [.named .name 1 "export" [.leaf .load 1]]
    [.leaf .arguments 2, .branch .expr 2 [.named .num 2 "1" []]]]

theorem parse_oneFunction : Contract.parse oneFunction = .ok oneFunctionTree := by
  have hread : Contract.read oneFunction = .ok oneFunctionTree := by
    rw [Contract.read_eq]
    decide +kernel
  exact Contract.parse_eq_ok_iff.mpr ⟨by decide, hread⟩

/-- A disk with nothing but that contract. -/
def functionDisk : Disk := ⟨[(["c"], .file oneFunction)], 0⟩

theorem admission_functionDisk {registry : String}
    (h : functionDisk.read registry = .error .notFound) :
    admission "c" registry functionDisk = .ok ⟨oneFunction, oneFunctionTree, .empty⟩ := by
  have hread : functionDisk.read "c" = .ok oneFunction := rfl
  have hpass : Linter.check .standard Store.empty.toRegistry oneFunctionTree = .pass := by decide
  simp only [admission, hread, parse_oneFunction, Store.onDisk, h, hpass]

theorem verdictOn_oneFunction :
    verdictOn (.ofNames []) oneFunction = .admitted ⟨["f"], none⟩ := by
  simp only [verdictOn, parse_oneFunction]
  decide

/-- Where the store is absent the contract passes and is registered. -/
theorem functionDisk_registered :
    (∃ points, (checkContracts (m := Disk.Action) .standard "r" ["c"] [] false functionDisk).1
      = checkReport false [⟨"c", .admitted points⟩])
    ∧ (registerContract (m := Disk.Action) "f" "c" "test_contracts" "r" functionDisk).1.code
      = 0 := by
  have hread : functionDisk.read "c" = .ok oneFunction := rfl
  have hstatus : functionDisk.status "r" = .error .notFound := rfl
  have habsent : functionDisk.read "r" = .error .notFound := rfl
  have hadmission := admission_functionDisk habsent
  have h := check_agrees_with_registerContract .standard false "f" "c" "test_contracts" "r" hread
    (by decide) (fun e he => Except.error.inj (he.symm.trans hstatus))
  exact ⟨h.passed.mpr ⟨_, hadmission⟩, (h.registered _ hadmission).mpr ⟨by decide, by decide, rfl⟩⟩

/-- Where the path of the store leads through a file, the check takes the store for absent and the
contract passes, but the other command cannot load the store. Where the path is one of a directory
that is absent, the contract gets through and has a root and a name that are permitted, but its
store cannot be saved. -/
theorem functionDisk_disagrees :
    (checkContracts (m := Disk.Action) .standard "c/r" ["c"] [] false functionDisk).1
        = checkReport false [⟨"c", .admitted ⟨["f"], none⟩⟩]
      ∧ registerContract (m := Disk.Action) "f" "c" "test_contracts" "c/r" functionDisk
        = ((Refusal.unloaded (.file .notDirectory)).report "c" "c/r", functionDisk)
      ∧ (checkContracts (m := Disk.Action) .standard "r/" ["c"] [] false functionDisk).1
        = checkReport false [⟨"c", .admitted ⟨["f"], none⟩⟩]
      ∧ (∃ c, admission "c" "r/" functionDisk = .ok c)
      ∧ (∃ r ∈ Policy.standard.importRoots, r.path = "test_contracts") ∧ Entry.isName "f" = true
      ∧ (registerContract (m := Disk.Action) "f" "c" "test_contracts" "r/" functionDisk).1
        = unsaved "r/" (.file .isDirectory) := by
  have hread : functionDisk.read "c" = .ok oneFunction := rfl
  have hchecked : ∀ {registry e}, functionDisk.status registry = .error e →
      (checkContracts (m := Disk.Action) .standard registry ["c"] [] false functionDisk).1
        = checkReport false [⟨"c", .admitted ⟨["f"], none⟩⟩] := by
    intro registry e he
    have hknown := knownNames_of_error he
    rw [checkContracts_eq hread (by decide) (by rw [hknown]), hknown]
    simp only [verdictOn_oneFunction]
  have hbehind : admission "c" "c/r" functionDisk = .error (.unloaded (.file .notDirectory)) := by
    have hstore : functionDisk.read "c/r" = .error .notDirectory := rfl
    simp only [admission, hread, parse_oneFunction, Store.onDisk, hstore]
  have habsent : functionDisk.read "r/" = .error .notFound := rfl
  have hadmission := admission_functionDisk habsent
  refine ⟨hchecked (e := .notDirectory) rfl,
    registerContract_of_refusal "f" "c" "test_contracts" "c/r" hbehind,
    hchecked (e := .notFound) rfl, ⟨_, hadmission⟩, by decide, by decide, ?_⟩
  rw [registerContract_eq, hadmission]
  rfl

end Command
end Gatehouse
