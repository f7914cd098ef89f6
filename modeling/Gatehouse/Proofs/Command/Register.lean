import Gatehouse.Command.Registry
import Gatehouse.Proofs.Store.File

/-!
One run of the command that puts a contract in the registry: the phases it is made of, and all that
can come of it.
-/
namespace Gatehouse

theorem Policy.importRoot_eq_ok {p : Policy} {path : String} {root : ImportRoot}
    (h : p.importRoot path = .ok root) : root ∈ p.importRoots ∧ root.path = path := by
  unfold importRoot at h
  split at h
  next found hfind =>
    obtain rfl := Except.ok.inj h
    exact ⟨List.mem_of_find?_eq_some hfind, by simpa using List.find?_some hfind⟩
  next => cases h

/-- What is registered: an entry of the given name under a permitted root, with the digest of the
source. -/
theorem Store.register_eq_ok {p : Policy} {s s' : Store} {name root : String} {source : ByteArray}
    {now : UInt64} {e : Entry} (h : s.register p name root source now = .ok (s', e)) :
    s' = (s.insert e).1 ∧ e.name = name ∧ Entry.isName name = true
    ∧ (∃ r ∈ p.importRoots, r.path = e.root) ∧ e.digest = Digest.ofBytes source := by
  unfold register at h
  split at h
  next => cases h
  next r hroot =>
    split at h
    next hname =>
      obtain ⟨rfl, rfl⟩ := Prod.mk.inj (Except.ok.inj h)
      exact ⟨rfl, rfl, hname, ⟨r, (Policy.importRoot_eq_ok hroot).1, rfl⟩, rfl⟩
    next => cases h

namespace Command

/-- Why a contract does not get as far as being registered. -/
inductive Refusal where
  | unread (cause : FileError)
  | unparsed (cause : ContractError)
  | unloaded (cause : RegistryError)
  | rejected (messages : List String)

/-- What the command that registers contracts says of a refusal. -/
def Refusal.report (path registry : String) : Refusal → Report
  | .unread e => .failed ["Failed to read " ++ path, e.message] [] []
  | .unparsed e => .failed (("Failed to parse " ++ path) :: e.chain) [] []
  | .unloaded e => .failed (("Failed to load contract store " ++ registry) :: e.chain) [] []
  | .rejected messages =>
    .failed [path ++ " rejected with " ++ toString messages.length ++ " violation(s)"] []
      (messages.map ("  " ++ ·))

/-- A contract that may be registered, and the store that it was checked against. -/
structure Candidate where
  source : ByteArray
  module : Tree
  store : Store

/-- The phases before a contract is registered: it is read and parsed, the store is loaded, and the
contract is checked against it. -/
def admission (path registry : String) (d : Disk) : Except Refusal Candidate :=
  match d.read path with
  | .error e => .error (.unread e)
  | .ok source =>
    match Contract.parse source with
    | .error e => .error (.unparsed e)
    | .ok module =>
      match Store.onDisk registry d with
      | .error e => .error (.unloaded e)
      | .ok store =>
        match Linter.check .standard store.toRegistry module with
        | .fail messages => .error (.rejected messages)
        | .pass => .ok ⟨source, module, store⟩

/-- The report of a run that cannot save its store. -/
def unsaved (registry : String) (e : RegistryError) : Report :=
  .failed (("Failed to save contract store " ++ registry) :: e.chain) [] []

namespace Candidate

/-- The entry under which a contract is put in its store. -/
def entry (c : Candidate) (name root : String) (now : UInt64) : Entry :=
  ⟨name, root, Digest.ofBytes c.source, now⟩

def saved (c : Candidate) (name root registry : String) (d : Disk) : Except RegistryError Unit :=
  ((c.store.insert (c.entry name root d.seconds)).1.save (m := Disk.Action) registry d).1.2

def enroll (c : Candidate) (name root registry : String) (d : Disk) : Report × Disk :=
  match c.store.register .standard name root c.source d.seconds with
  | .error e => (.failed e.chain [] [], d)
  | .ok (store, entry) =>
    match store.save (m := Disk.Action) registry d with
    | ((_, .error e), d') => (unsaved registry e, d')
    | ((_, .ok ()), d') =>
      (.done (registeredLines entry (Linter.entryPoints .standard c.module)), d')

end Candidate

/-- The command that registers contracts is made of these phases. -/
theorem registerContract_eq (name path root registry : String) (d : Disk) :
    registerContract (m := Disk.Action) name path root registry d
      = match admission path registry d with
        | .error refusal => (refusal.report path registry, d)
        | .ok c => c.enroll name root registry d := by
  rw [registerContract, Disk.bind_apply, Disk.machine_read, admission]
  cases d.read path with
  | error e => rfl
  | ok source =>
    simp only
    cases Contract.parse source with
    | error e => rfl
    | ok module =>
      simp only [Disk.bind_apply, Store.load_eq]
      cases Store.onDisk registry d with
      | error e => rfl
      | ok store =>
        simp only
        cases Linter.check .standard store.toRegistry module with
        | fail messages => rfl
        | pass =>
          simp only [Disk.bind_apply, Disk.machine_seconds, Candidate.enroll]
          cases store.register .standard name root source d.seconds with
          | error e => rfl
          | ok result =>
            obtain ⟨store', entry⟩ := result
            simp only [Disk.bind_apply]
            rcases store'.save (m := Disk.Action) registry d with ⟨⟨kept, _ | _⟩, d'⟩ <;> rfl

/-- A run puts a contract in the registry: its source is read, it is admitted against the store, and
the store with its entry is saved. -/
structure Registers (name path root registry : String) (d d' : Disk) (source : ByteArray)
    (module : Tree) (store : Store) (e : Entry) : Prop where
  read : d.read path = .ok source
  parsed : Contract.parse source = .ok module
  loaded : Store.onDisk registry d = .ok store
  admitted : Linter.check .standard store.toRegistry module = .pass
  registered : store.register .standard name root source d.seconds = .ok ((store.insert e).1, e)
  tellable : (store.insert e).1.isTellable = true
  saved : d'.read registry = .ok (store.insert e).1.toBytes

section

variable {name path root registry : String} {d : Disk} {c : Candidate}

theorem admission_eq_ok_iff : admission path registry d = .ok c
    ↔ d.read path = .ok c.source ∧ Contract.parse c.source = .ok c.module
      ∧ Store.onDisk registry d = .ok c.store
      ∧ Linter.check .standard c.store.toRegistry c.module = .pass := by
  constructor
  · intro h
    unfold admission at h
    split at h
    · cases h
    next hread =>
      split at h
      · cases h
      next hparsed =>
        split at h
        · cases h
        next hloaded =>
          split at h
          · cases h
          next hadmitted =>
            obtain rfl := Except.ok.inj h
            exact ⟨hread, hparsed, hloaded, hadmitted⟩
  · rintro ⟨hread, hparsed, hloaded, hadmitted⟩
    simp only [admission, hread, hparsed, hloaded, hadmitted]

/-- A run fails and changes nothing, or cannot save its store, or puts a contract in the registry. -/
theorem registerContract_cases (name path root registry : String) (d : Disk) :
    let run := registerContract (m := Disk.Action) name path root registry d
    (run.1.code = 1 ∧ run.2 = d) ∨ (∃ e, run.1 = unsaved registry e)
    ∨ run.1.code = 0 ∧ ∃ source module store e,
        Registers name path root registry d run.2 source module store e := by
  simp only [registerContract_eq]
  cases hadmission : admission path registry d with
  | error refusal => exact Or.inl ⟨by cases refusal <;> rfl, rfl⟩
  | ok c =>
    obtain ⟨hread, hparsed, hloaded, hadmitted⟩ := admission_eq_ok_iff.mp hadmission
    simp only [Candidate.enroll]
    cases hregistered : c.store.register .standard name root c.source d.seconds with
    | error e => exact Or.inl ⟨rfl, rfl⟩
    | ok result =>
      obtain ⟨store, e⟩ := result
      obtain ⟨rfl, -⟩ := Store.register_eq_ok hregistered
      simp only
      cases hsaved : (c.store.insert e).1.save (m := Disk.Action) registry d with
      | mk answer d' =>
        obtain ⟨kept, e' | _⟩ := answer
        · exact Or.inr (Or.inl ⟨e', rfl⟩)
        · obtain ⟨htell, -, hwritten⟩ := Store.save_eq_ok hsaved
          exact Or.inr (Or.inr ⟨rfl, c.source, c.module, c.store, e, hread, hparsed, hloaded,
            hadmitted, hregistered, htell, hwritten⟩)

theorem registerContract_eq_done {d' : Disk} {kept : Store} {e : Entry}
    (hadmission : admission path registry d = .ok c)
    (hregistered : c.store.register .standard name root c.source d.seconds
      = .ok ((c.store.insert e).1, e))
    (hsaved : (c.store.insert e).1.save (m := Disk.Action) registry d = ((kept, .ok ()), d')) :
    registerContract (m := Disk.Action) name path root registry d
      = (.done (registeredLines e (Linter.entryPoints .standard c.module)), d') := by
  simp only [registerContract_eq, hadmission, Candidate.enroll, hregistered, hsaved]

end

end Command
end Gatehouse
