import Gatehouse.Disk

/-!
A file that has been written is read back as it was written.
-/
namespace Gatehouse.Disk

variable {d d' : Disk} {path : String} {bytes : ByteArray}

section

variable {α β : Type}

@[simp] theorem bind_apply (x : Action α) (f : α → Action β) : (x >>= f) d = f (x d).1 (x d).2 :=
  rfl

@[simp] theorem pure_apply (a : α) : (pure a : Action α) d = (a, d) := rfl

@[simp] theorem machine_read : (Machine.read path : Action _) d = (d.read path, d) := rfl

@[simp] theorem machine_status : (Machine.status path : Action _) d = (d.status path, d) := rfl

@[simp] theorem machine_opens : (Machine.opens path : Action _) d = (d.opens path, d) := rfl

@[simp] theorem machine_seconds : (Machine.seconds : Action _) d = (d.seconds, d) := rfl

@[simp] theorem machine_nanoseconds : (Machine.nanoseconds : Action _) d = (0, d) := rfl

end

theorem read_eq_ok_iff : d.read path = .ok bytes ↔ d.content path = .ok (.file bytes) := by
  unfold read
  cases d.content path with
  | error e => simp [bind, Except.bind]
  | ok content => cases content <;> simp [bind, Except.bind, pure, Except.pure]

theorem status_of_read (h : d.read path = .ok bytes) : d.status path = .ok (.file bytes.size) := by
  rw [status, read_eq_ok_iff.mp h]
  rfl

theorem opens_of_read (h : d.read path = .ok bytes) : d.opens path = .ok (.file bytes.size) := by
  rw [opens, read_eq_ok_iff.mp h]
  rfl

theorem read_of_status_eq_error {e : FileError} (h : d.status path = .error e) :
    d.read path = .error e := by
  unfold status at h
  unfold read
  cases hcontent : d.content path with
  | error e' =>
    rw [hcontent] at h
    cases h
    rfl
  | ok content =>
    rw [hcontent] at h
    cases content <;> cases h

theorem read_ne_notFound {status : Status} (h : d.status path = .ok status) :
    d.read path ≠ .error .notFound := by
  intro hread
  unfold Disk.status at h
  unfold read at hread
  cases hcontent : d.content path with
  | error e =>
    rw [hcontent] at h
    cases h
  | ok content =>
    rw [hcontent] at hread
    cases content <;> cases hread

theorem exists_read_of_opens {size : Nat} (h : d.opens path = .ok (.file size)) :
    ∃ bytes, d.read path = .ok bytes ∧ bytes.size = size := by
  unfold opens at h
  cases hcontent : d.content path with
  | error e =>
    rw [hcontent] at h
    cases h
  | ok content =>
    rw [hcontent] at h
    cases content with
    | file bytes => exact ⟨bytes, read_eq_ok_iff.mpr hcontent, Status.file.inj (Except.ok.inj h)⟩
    | directory | locked | closed => cases h

theorem size_of_opens_directory {size : Nat} (h : d.opens path = .ok (.directory size)) :
    size = directorySize := by
  unfold opens at h
  cases hcontent : d.content path with
  | error e =>
    rw [hcontent] at h
    cases h
  | ok content =>
    rw [hcontent] at h
    cases content with
    | directory => exact (Status.directory.inj (Except.ok.inj h)).symm
    | file | locked | closed => cases h

theorem machine_write_eq_ok (h : (Machine.write path bytes : Action _) d = (.ok (), d')) :
    d.write path bytes = .ok d' := by
  change change (·.write path bytes) d = (.ok (), d') at h
  unfold change at h
  split at h
  next hwrite =>
    obtain ⟨-, rfl⟩ := Prod.mk.inj h
    exact hwrite
  next => cases (Prod.mk.inj h).1

/-- Where there is no directory, putting something leads no path astray. -/
theorem follow_put {place start stop : List String} {c : Content} {parts : List String}
    (hplace : d.at? place ≠ some .directory)
    (h : d.follow start parts = .ok stop) : (d.put place c).follow start parts = .ok stop := by
  induction parts generalizing start with
  | nil => exact h
  | cons part parts ih =>
    rw [follow] at h ⊢
    cases hstart : d.at? start with
    | none => simp [hstart] at h
    | some content =>
      cases content with
      | file | locked | closed => simp [hstart] at h
      | directory =>
        have hne : start ≠ place := fun heq => hplace (heq ▸ hstart)
        rw [at?_put_of_ne hne]
        simp only [hstart] at h ⊢
        exact ih h

/-- What has to hold of a path for a file to be written, and what is written then. -/
theorem write_eq_ok (h : d.write path bytes = .ok d') : ∃ place, d.place path = .ok place
    ∧ Path.namesDirectory path = false ∧ d.at? place ≠ some .directory
    ∧ d' = d.put place (.file bytes) := by
  unfold write at h
  cases hplace : d.place path with
  | error e =>
    rw [hplace] at h
    cases h
  | ok place =>
    rw [hplace] at h
    cases hnames : Path.namesDirectory path with
    | true =>
      simp only [hnames] at h
      cases h
    | false =>
      simp only [hnames, bind, Except.bind, pure, Except.pure, Bool.false_eq_true, if_false] at h
      refine ⟨place, rfl, rfl, ?_⟩
      split at h
      · cases h
      · cases h
      · cases h
      · next hother _ _ => exact ⟨hother, (Except.ok.inj h).symm⟩

/-- A file that has been written is read back. -/
theorem read_of_write (h : d.write path bytes = .ok d') : d'.read path = .ok bytes := by
  obtain ⟨place, hplace, hnames, hfree, rfl⟩ := write_eq_ok h
  have hne : place ≠ [] := by
    rintro rfl
    exact hfree rfl
  have hplace' : (d.put place (.file bytes)).place path = .ok place := by
    unfold Disk.place at hplace ⊢
    split
    next habsent => simp [habsent] at hplace
    next hpresent =>
      rw [if_neg hpresent] at hplace
      exact follow_put hfree hplace
  have hcontent : (d.put place (.file bytes)).content path = .ok (.file bytes) := by
    unfold content
    rw [hplace']
    simp [at?_put_self hne, hnames, bind, Except.bind, pure, Except.pure]
  rw [read, hcontent]
  rfl

end Gatehouse.Disk
