import Gatehouse.Proofs.Clock
import Gatehouse.Proofs.Command.Agreement

/-!
Files that are checked together are checked as they would be one by one. The account on which a file
stands is empty again once it has been checked, however that ends, so nothing is left of it for the
next one. What the clock shows matters to a file only if its own budget is passed.
-/
namespace Gatehouse

/-! ### Accounts -/

namespace Ledger

theorem charge_empty (limits : Limits) (bytes : UInt64) : empty.charge limits bytes
    = if limits.memory < bytes then .error (.tooLarge bytes limits.memory) else .ok ⟨bytes⟩ := by
  have hsum : Word.cappedAdd empty.used bytes = bytes := by
    have hbound := bytes.toNat_lt
    rw [← UInt64.toNat_inj, Word.toNat_cappedAdd, empty, UInt64.toNat_zero, UInt64.size]
    omega
  rw [charge, hsum]

theorem release_of_charge_empty {limits : Limits} {bytes : UInt64} {charged : Ledger}
    (h : empty.charge limits bytes = .ok charged) : charged.release bytes = empty := by
  rw [charge_empty] at h
  split at h
  · cases h
  · obtain rfl := Except.ok.inj h
    simp [release, Word.flooredSub, empty]

end Ledger

/-! ### Steps that only look -/

namespace Clocked.Looks

theorem loadContract (path : String) : Looks (Contract.load path) (Contract.load path) :=
  (opens path).bind fun result => by
    obtain e | status := result
    · exact .pure _
    · refine .ite (.pure _) (.ite (.pure _) ((mapped path status).bind fun result => ?_))
      cases result <;> exact .pure _

theorem loadArchive (path : String) : Looks (Archive.load path) (Archive.load path) := by
  refine (view path).bind fun result => ?_
  cases result with
  | error e => exact .pure _
  | ok bytes =>
    simp only
    cases Archive.ofBytes? bytes.data.toList <;> exact .pure _

theorem knownNames (registry : String) (allowed : List String) :
    Looks (Command.knownNames registry allowed) (Command.knownNames registry allowed) := by
  refine (exists? registry).bind fun found => ?_
  cases found with
  | false => exact .pure _
  | true => exact (loadArchive registry).bind fun result => by cases result <;> exact .pure _

theorem filesOf (path : String) : Looks (Command.filesOf path) (Command.filesOf path) := by
  refine (status path).bind fun result => ?_
  obtain e | (size | size) := result
  · exact .pure _
  · exact .pure _
  · exact (filesUnder path).bind fun _ => .pure _

theorem filesOfAll (paths : List String) :
    Looks (Command.filesOfAll paths) (Command.filesOfAll paths) := by
  induction paths with
  | nil => exact .pure _
  | cons path paths ih =>
    refine (filesOf path).bind fun result => ?_
    cases result with
    | error e => exact .pure _
    | ok files => exact ih.bind fun rest => by cases rest <;> exact .pure _

end Clocked.Looks

namespace Command

/-! ### One file -/

section

variable {m : Type → Type} [Monad m] [Machine m]

/-- The check of a file without the clock: a verdict, or a message that says why there is none. -/
def examine (limits : Limits) (r : Registry) (account : Ledger) (path : String) :
    m (Ledger × Except String Verdict) := do
  match ← Machine.status path with
  | .error e => return (account, .error e.message)
  | .ok status =>
    match account.charge limits status.size with
    | .error e => return (account, .error e.message)
    | .ok charged =>
      match ← Contract.load path with
      | .error e => return (charged.release status.size, .error e.message)
      | .ok module => return (charged.release status.size, .ok (verdictOf .standard r module))

/-- The report on a file, from what has been found. A verdict counts only if it comes in time. -/
def reportIn (budget : Budget) (path : String) : Ledger × Except String Verdict →
    m (Ledger × FileReport)
  | (account, .error message) => return (account, ⟨path, .unread message⟩)
  | (account, .ok verdict) => do
    match budget.check (← Machine.nanoseconds) with
    | .error e => return (account, ⟨path, .unread e.message⟩)
    | .ok () => return (account, ⟨path, verdict⟩)

/-- The clock is looked at before a file is examined, and after that only if there is a verdict. -/
theorem checkFile_eq_examine [LawfulMonad m] (limits : Limits) (r : Registry) (account : Ledger)
    (path : String) : checkFile (m := m) limits r account path = (do
      let started ← Machine.nanoseconds
      let found ← examine limits r account path
      reportIn ⟨started, limits.nanos⟩ path found) := by
  simp only [checkFile, examine, bind_assoc]
  refine bind_congr fun started => bind_congr fun status => ?_
  have hreport : ∀ found, reportIn (m := m) ⟨started, limits.nanos⟩ path found
      = pure found >>= reportIn ⟨started, limits.nanos⟩ path := fun found => (pure_bind found _).symm
  cases status with
  | error e => exact hreport (account, .error e.message)
  | ok status =>
    simp only
    cases account.charge limits status.size with
    | error e => exact hreport (account, .error e.message)
    | ok charged =>
      refine (bind_congr fun module => ?_).trans (bind_assoc _ _ _).symm
      cases module with
      | error e => exact hreport (charged.release status.size, .error e.message)
      | ok module => exact hreport (charged.release status.size, .ok (verdictOf .standard r module))

end

section

variable {limits : Limits} {r : Registry} {d : Disk} {path : String} {s : Clocked}

theorem examine_account (limits : Limits) (r : Registry) (path : String) (d : Disk) :
    (examine (m := Disk.Action) limits r .empty path d).1.1 = .empty := by
  rw [examine, Disk.bind_apply, Disk.machine_status]
  cases d.status path with
  | error e => rfl
  | ok status =>
    simp only
    cases hcharge : Ledger.empty.charge limits status.size with
    | error e => rfl
    | ok charged =>
      simp only [Ledger.release_of_charge_empty hcharge, Disk.bind_apply]
      cases (Contract.load (m := Disk.Action) path d).1 <;> rfl

/-- A file has a verdict if it can be read, stays within the memory limit and is well-formed. -/
theorem examine_eq_ok_iff {verdict : Verdict} :
    (examine (m := Disk.Action) limits r .empty path d).1.2 = .ok verdict
      ↔ ∃ source module, d.read path = .ok source ∧ (source.size : UInt64) ≤ limits.memory
        ∧ Contract.parse source = .ok module ∧ verdictOf .standard r module = verdict := by
  rw [examine, Disk.bind_apply, Disk.machine_status]
  cases hstatus : d.status path with
  | error e =>
    refine iff_of_false (by simp) fun ⟨source, _, hread, _⟩ => ?_
    simp [Disk.status_of_read hread] at hstatus
  | ok status =>
    have hsize : ∀ source, d.read path = .ok source →
        (source.size : UInt64) = status.size := by
      intro source hread
      obtain rfl := Except.ok.inj ((Disk.status_of_read hread).symm.trans hstatus)
      rfl
    simp only [Ledger.charge_empty]
    by_cases hlarge : limits.memory < status.size
    · rw [if_pos hlarge]
      refine iff_of_false (by simp) fun ⟨source, _, hread, hle, _⟩ => ?_
      rw [hsize source hread] at hle
      exact UInt64.not_lt.mpr hle hlarge
    · rw [if_neg hlarge]
      simp only [Disk.bind_apply]
      cases hload : (Contract.load (m := Disk.Action) path d).1 with
      | error e =>
        refine iff_of_false (by simp) fun ⟨source, module, hread, _, hmodule, _⟩ => ?_
        rw [Contract.load_eq_ok_iff.mpr ⟨source, hread, hmodule⟩] at hload
        cases hload
      | ok module =>
        obtain ⟨source, hread, hmodule⟩ := Contract.load_eq_ok_iff.mp hload
        simp only [Disk.pure_apply, Except.ok.injEq]
        constructor
        · rintro rfl
          rw [← hsize source hread] at hlarge
          exact ⟨source, module, hread, UInt64.not_lt.mp hlarge, hmodule, rfl⟩
        · rintro ⟨source', module', hread', -, hmodule', rfl⟩
          obtain rfl := Except.ok.inj (hread.symm.trans hread')
          rw [Except.ok.inj (hmodule.symm.trans hmodule')]

/-- A contract that passes: it can be read, it stays within the memory limit, it is well-formed and
there is nothing against it. -/
def Passes (limits : Limits) (r : Registry) (d : Disk) (path : String) : Prop :=
  ∃ source module, d.read path = .ok source ∧ (source.size : UInt64) ≤ limits.memory
    ∧ Contract.parse source = .ok module ∧ Linter.inspect .standard r module = []

theorem passes_iff : Passes limits r d path ↔ ∃ points,
    (examine (m := Disk.Action) limits r .empty path d).1.2 = .ok (.admitted points) := by
  have hadmitted : ∀ module, Linter.inspect .standard r module = []
      ↔ ∃ points, verdictOf .standard r module = .admitted points := by
    intro module
    simp only [verdictOf]
    cases Linter.inspect .standard r module <;> simp
  simp only [Passes, examine_eq_ok_iff, hadmitted]
  constructor
  · rintro ⟨source, module, hread, hsize, hmodule, points, hpoints⟩
    exact ⟨points, source, module, hread, hsize, hmodule, hpoints⟩
  · rintro ⟨points, source, module, hread, hsize, hmodule, hpoints⟩
    exact ⟨source, module, hread, hsize, hmodule, points, hpoints⟩

theorem looks_examine (limits : Limits) (r : Registry) (account : Ledger) (path : String) :
    Clocked.Looks (examine limits r account path) (examine limits r account path) := by
  refine (Clocked.Looks.status path).bind fun status => ?_
  cases status with
  | error e => exact .pure _
  | ok status =>
    simp only
    cases account.charge limits status.size with
    | error e => exact .pure _
    | ok charged =>
      exact (Clocked.Looks.loadContract path).bind fun module => by cases module <;> exact .pure _

/-- The report on a file that is checked alone, on an empty account, on a disk where no time
passes. -/
def alone (limits : Limits) (r : Registry) (d : Disk) (path : String) : FileReport :=
  (checkFile (m := Disk.Action) limits r .empty path d).1.2

def overdue (limits : Limits) (path : String) (elapsed : Nat) : FileReport :=
  ⟨path, .unread (Excess.tooLong elapsed limits.nanos).message⟩

/-- If there is a verdict on a file, the clock is looked at again before the budget is passed. -/
def InTime (limits : Limits) (r : Registry) (path : String) (s : Clocked) : Prop :=
  (∃ verdict, (examine (m := Disk.Action) limits r .empty path s.disk).1.2 = .ok verdict) →
    s.readings 1 - s.readings 0 ≤ limits.nanos

theorem alone_eq : alone limits r d path
    = match (examine (m := Disk.Action) limits r .empty path d).1.2 with
      | .error message => ⟨path, .unread message⟩
      | .ok verdict => ⟨path, verdict⟩ := by
  rw [alone, checkFile_eq_examine, Disk.bind_apply, Disk.machine_nanoseconds, Disk.bind_apply]
  generalize (examine (m := Disk.Action) limits r .empty path d) = found
  obtain ⟨⟨account, message | verdict⟩, d'⟩ := found
  · rfl
  · have hbudget : (Budget.mk 0 limits.nanos).check 0 = .ok () := by simp [Budget.check]
    simp only [reportIn, Disk.bind_apply, Disk.machine_nanoseconds, hbudget, Disk.pure_apply]

theorem isAdmitted_alone : (alone limits r d path).isAdmitted = true ↔ Passes limits r d path := by
  rw [passes_iff, alone_eq]
  obtain message | (points | vs | message) :=
    (examine (m := Disk.Action) limits r .empty path d).1.2 <;> simp [FileReport.isAdmitted]

theorem checkFile_clocked (limits : Limits) (r : Registry) (path : String) (s : Clocked) :
    checkFile (m := Clocked.Action) limits r .empty path s
      = reportIn (m := Clocked.Action) ⟨s.readings 0, limits.nanos⟩ path
        (.empty, (examine (m := Disk.Action) limits r .empty path s.disk).1.2)
        ⟨s.disk, fun i => s.readings (i + 1)⟩ := by
  have hfound : (examine (m := Disk.Action) limits r .empty path s.disk).1
      = (.empty, (examine (m := Disk.Action) limits r .empty path s.disk).1.2) :=
    Prod.ext (examine_account limits r path s.disk) rfl
  rw [checkFile_eq_examine, Clocked.bind_apply, Clocked.machine_nanoseconds, Clocked.bind_apply,
    (looks_examine limits r .empty path).clocked, ← hfound]

theorem checkFile_inTime (h : InTime limits r path s) :
    (checkFile (m := Clocked.Action) limits r .empty path s).1
      = (.empty, alone limits r s.disk path) := by
  rw [checkFile_clocked, alone_eq]
  cases hfound : (examine (m := Disk.Action) limits r .empty path s.disk).1.2 with
  | error message => rfl
  | ok verdict =>
    have hbudget : (Budget.mk (s.readings 0) limits.nanos).check (s.readings 1) = .ok () :=
      if_neg (Nat.not_lt.mpr (h ⟨verdict, hfound⟩))
    simp [reportIn, hbudget]

theorem checkFile_overdue (h : ¬InTime limits r path s) :
    ∃ elapsed, limits.nanos < elapsed ∧ (checkFile (m := Clocked.Action) limits r .empty path s).1
      = (.empty, overdue limits path elapsed) := by
  simp only [InTime, Classical.not_imp, Nat.not_le] at h
  obtain ⟨⟨verdict, hfound⟩, hlate⟩ := h
  have hbudget : (Budget.mk (s.readings 0) limits.nanos).check (s.readings 1)
      = .error (.tooLong (s.readings 1 - s.readings 0) limits.nanos) := if_pos hlate
  refine ⟨_, hlate, ?_⟩
  rw [checkFile_clocked, hfound]
  simp [reportIn, hbudget, overdue]

theorem checkFile_snd (limits : Limits) (r : Registry) (path : String) (s : Clocked) :
    ∃ n, (checkFile (m := Clocked.Action) limits r .empty path s).2
      = ⟨s.disk, fun i => s.readings (i + n)⟩ := by
  rw [checkFile_clocked]
  cases (examine (m := Disk.Action) limits r .empty path s.disk).1.2 with
  | error message => exact ⟨1, rfl⟩
  | ok verdict =>
    refine ⟨2, ?_⟩
    simp only [reportIn, Clocked.bind_apply, Clocked.machine_nanoseconds]
    cases (Budget.mk (s.readings 0) limits.nanos).check (s.readings (0 + 1)) <;> rfl

/-! ### Several files -/

def AllInTime (limits : Limits) (r : Registry) : List String → Clocked → Prop
  | [], _ => True
  | path :: paths, s => InTime limits r path s
    ∧ AllInTime limits r paths (checkFile (m := Clocked.Action) limits r .empty path s).2

theorem allInTime_of_readings {files : List String}
    (h : ∀ i, s.readings (i + 1) - s.readings i ≤ limits.nanos) : AllInTime limits r files s := by
  induction files generalizing s with
  | nil => trivial
  | cons path paths ih =>
    obtain ⟨n, hn⟩ := checkFile_snd limits r path s
    refine ⟨fun _ => h 0, ?_⟩
    rw [hn]
    refine ih fun i => ?_
    simpa only [Nat.add_right_comm] using h (i + n)

/-- Files are reported as they are alone, or as overdue. -/
theorem checkFiles_each (limits : Limits) (r : Registry) (files : List String) (s : Clocked) :
    List.Forall₂ (fun path report => report = alone limits r s.disk path
        ∨ ∃ elapsed, limits.nanos < elapsed ∧ report = overdue limits path elapsed)
      files (checkFiles (m := Clocked.Action) limits r .empty files s).1 := by
  induction files generalizing s with
  | nil => exact .nil
  | cons path paths ih =>
    obtain ⟨n, hn⟩ := checkFile_snd limits r path s
    rw [checkFiles, Clocked.bind_apply]
    by_cases htime : InTime limits r path s
    · rw [checkFile_inTime htime, hn]
      exact .cons (.inl rfl) (ih ⟨s.disk, fun i => s.readings (i + n)⟩)
    · obtain ⟨elapsed, hlate, hreport⟩ := checkFile_overdue htime
      rw [hreport, hn]
      exact .cons (.inr ⟨elapsed, hlate, rfl⟩) (ih ⟨s.disk, fun i => s.readings (i + n)⟩)

theorem checkFiles_eq_map {files : List String} (h : AllInTime limits r files s) :
    (checkFiles (m := Clocked.Action) limits r .empty files s).1
      = files.map (alone limits r s.disk) := by
  induction files generalizing s with
  | nil => rfl
  | cons path paths ih =>
    obtain ⟨n, hn⟩ := checkFile_snd limits r path s
    have htail := ih h.2
    rw [hn] at htail
    rw [checkFiles, Clocked.bind_apply, checkFile_inTime h.1, hn, List.map_cons, ← htail]
    rfl

/-- All files are admitted if all of them pass and are checked in time. -/
theorem all_isAdmitted_iff {files : List String} :
    (checkFiles (m := Clocked.Action) limits r .empty files s).1.all FileReport.isAdmitted = true
      ↔ (∀ path ∈ files, Passes limits r s.disk path) ∧ AllInTime limits r files s := by
  induction files generalizing s with
  | nil => exact iff_of_true rfl ⟨by simp, trivial⟩
  | cons path paths ih =>
    obtain ⟨n, hn⟩ := checkFile_snd limits r path s
    have htail := ih (s := ⟨s.disk, fun i => s.readings (i + n)⟩)
    rw [checkFiles, Clocked.bind_apply, AllInTime, List.forall_mem_cons, hn]
    by_cases htime : InTime limits r path s
    · rw [checkFile_inTime htime]
      simp only [Clocked.bind_apply, Clocked.pure_apply, List.all_cons, Bool.and_eq_true, htail,
        isAdmitted_alone, htime, true_and, and_assoc]
    · obtain ⟨elapsed, -, hreport⟩ := checkFile_overdue htime
      rw [hreport]
      exact iff_of_false (by simp [overdue, FileReport.isAdmitted]) fun h => htime h.2.1

/-- The command opens the store and lists the files, neither of which changes anything, and then
checks the files one after the other. -/
theorem checkContracts_clocked (limits : Limits) (registry : String) (paths allowed : List String)
    (json : Bool) (s : Clocked) :
    (checkContracts (m := Clocked.Action) limits registry paths allowed json s).1
      = match (knownNames (m := Disk.Action) registry allowed s.disk).1,
          (filesOfAll (m := Disk.Action) paths s.disk).1 with
        | .error chain, _ => .failed chain [] []
        | .ok _, .error chain => .failed chain [] []
        | .ok _, .ok [] => .done ["No contract files found."]
        | .ok known, .ok (path :: paths) =>
          checkReport json
            (checkFiles (m := Clocked.Action) limits known .empty (path :: paths) s).1 := by
  rw [checkContracts, Clocked.bind_apply, (Clocked.Looks.knownNames registry allowed).clocked]
  cases (knownNames (m := Disk.Action) registry allowed s.disk).1 with
  | error chain => rfl
  | ok known =>
    simp only
    rw [Clocked.bind_apply, (Clocked.Looks.filesOfAll paths).clocked]
    obtain chain | (_ | ⟨path, paths⟩) := (filesOfAll (m := Disk.Action) paths s.disk).1 <;> rfl

theorem code_checkReport_eq_zero_iff (json : Bool) (reports : List FileReport) :
    (checkReport json reports).code = 0 ↔ reports.all FileReport.isAdmitted = true := by
  simp [checkReport]

theorem code_checkContracts (limits : Limits) (registry : String) (paths allowed : List String)
    (json : Bool) (s : Clocked) :
    (checkContracts (m := Clocked.Action) limits registry paths allowed json s).1.code = 0
      ↔ ∃ known files, (knownNames (m := Disk.Action) registry allowed s.disk).1 = .ok known
        ∧ (filesOfAll (m := Disk.Action) paths s.disk).1 = .ok files
        ∧ (∀ path ∈ files, Passes limits known s.disk path) ∧ AllInTime limits known files s := by
  rw [checkContracts_clocked]
  cases (knownNames (m := Disk.Action) registry allowed s.disk).1 with
  | error chain => simp [Report.failed]
  | ok known =>
    cases (filesOfAll (m := Disk.Action) paths s.disk).1 with
    | error chain => simp [Report.failed]
    | ok files =>
      simp only [Except.ok.injEq, exists_eq_left', exists_and_left, ← all_isAdmitted_iff]
      cases files with
      | nil => exact iff_of_true rfl rfl
      | cons path paths => exact code_checkReport_eq_zero_iff json _

/-- What it is for files to be checked one by one. -/
structure OneByOne (limits : Limits) (s : Clocked) : Prop where
  emptied : ∀ r path, (checkFile (m := Clocked.Action) limits r .empty path s).1.1 = .empty
  each : ∀ r files, List.Forall₂ (fun path report => report = alone limits r s.disk path
      ∨ ∃ elapsed, limits.nanos < elapsed ∧ report = overdue limits path elapsed)
    files (checkFiles (m := Clocked.Action) limits r .empty files s).1
  together : ∀ r files, AllInTime limits r files s →
    (checkFiles (m := Clocked.Action) limits r .empty files s).1 = files.map (alone limits r s.disk)
  built : ∀ registry paths allowed json known files,
    (knownNames (m := Disk.Action) registry allowed s.disk).1 = .ok known →
    (filesOfAll (m := Disk.Action) paths s.disk).1 = .ok files → files ≠ [] →
    (checkContracts (m := Clocked.Action) limits registry paths allowed json s).1
      = checkReport json (checkFiles (m := Clocked.Action) limits known .empty files s).1
  succeeds : ∀ registry paths allowed json,
    (checkContracts (m := Clocked.Action) limits registry paths allowed json s).1.code = 0
      ↔ ∃ known files, (knownNames (m := Disk.Action) registry allowed s.disk).1 = .ok known
        ∧ (filesOfAll (m := Disk.Action) paths s.disk).1 = .ok files
        ∧ (∀ path ∈ files, Passes limits known s.disk path) ∧ AllInTime limits known files s

/-- The account is empty after each file, each report is the one on the file alone unless the file
itself is overdue, and the command succeeds exactly if every file passes in time. -/
theorem checked_one_by_one (limits : Limits) (s : Clocked) : OneByOne limits s where
  emptied r path := by
    by_cases htime : InTime limits r path s
    · rw [checkFile_inTime htime]
    · obtain ⟨elapsed, -, hreport⟩ := checkFile_overdue htime
      rw [hreport]
  each r files := checkFiles_each limits r files s
  together r files := checkFiles_eq_map
  built registry paths allowed json known files hknown hfiles hne := by
    obtain ⟨path, rest, rfl⟩ := List.exists_cons_of_ne_nil hne
    rw [checkContracts_clocked, hknown, hfiles]
  succeeds registry paths allowed json := code_checkContracts limits registry paths allowed json s

end

/-- A disk with one contract, and a clock that runs. -/
def tickingDisk : Clocked := ⟨functionDisk, fun i => i⟩

/-- A file that passes is admitted before and after one that is missing, and the command succeeds on
that file given twice. -/
theorem checked_tickingDisk :
    (checkFiles (m := Clocked.Action) .standard (.ofNames []) .empty ["c", "d", "c"] tickingDisk).1
      = [⟨"c", .admitted ⟨["f"], none⟩⟩, ⟨"d", .unread FileError.notFound.message⟩,
        ⟨"c", .admitted ⟨["f"], none⟩⟩]
    ∧ (checkContracts (m := Clocked.Action) .standard "r" ["c", "c"] [] false tickingDisk).1.code
      = 0 := by
  have hread : functionDisk.read "c" = .ok oneFunction := rfl
  have htime : ∀ files, AllInTime .standard (.ofNames []) files tickingDisk := fun files =>
    allInTime_of_readings fun i => by simp [tickingDisk, Limits.standard]
  have hpresent : alone .standard (.ofNames []) functionDisk "c"
      = ⟨"c", .admitted ⟨["f"], none⟩⟩ := by
    obtain ⟨account, hfile⟩ : ∃ account, checkFile (m := Disk.Action) .standard (.ofNames []) .empty
        "c" functionDisk = ((account, _), functionDisk) := checkFile_eq _ hread (by decide)
    rw [alone, hfile, verdictOn_oneFunction]
  have hmissing : alone .standard (.ofNames []) functionDisk "d"
      = ⟨"d", .unread FileError.notFound.message⟩ := by
    rw [alone_eq]
    rfl
  have hpass : Passes .standard (.ofNames []) functionDisk "c" :=
    isAdmitted_alone.mp (by rw [hpresent]; rfl)
  have h := checked_one_by_one .standard tickingDisk
  constructor
  · rw [h.together _ _ (htime _)]
    simp only [List.map_cons, List.map_nil, tickingDisk, hpresent, hmissing]
  · refine (h.succeeds "r" ["c", "c"] [] false).mpr
      ⟨.ofNames [], ["c", "c"], rfl, rfl, ?_, htime _⟩
    simpa [tickingDisk] using hpass

end Command
end Gatehouse
