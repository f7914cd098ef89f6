import Gatehouse.Proofs.Archive.Lookup
import Gatehouse.Proofs.Store.File
import Gatehouse.Proofs.Store.Sorting

/-!
One file, read into a store or looked at as an archive. Both see the same entries or refuse the
file, and what is found under a name does not hang on which of the two is asked. Of a file that a
store has been saved to, both show the entries of the store, in the order of their names.
-/
namespace Gatehouse

section

variable {path : String} {d d' : Disk} {bytes : ByteArray}

theorem Disk.machine_view_of_read (h : d.read path = .ok bytes) :
    (Machine.view path : Disk.Action _) d = (.ok bytes, d) := by
  rw [Machine.view, Disk.bind_apply, Disk.machine_opens, Disk.opens_of_read h]
  simp only [Machine.mapped, Disk.machine_read, h]

theorem Disk.machine_view_eq_ok_iff :
    ((Machine.view path : Disk.Action _) d).1 = .ok bytes ↔ d.read path = .ok bytes := by
  refine ⟨fun h => ?_, fun h => by rw [Disk.machine_view_of_read h]⟩
  rw [Machine.view, Disk.bind_apply, Disk.machine_opens] at h
  generalize d.opens path = opened at h
  obtain e | (size | size) := opened
  · cases h
  · exact h
  · cases h

theorem Disk.machine_view_snd : ((Machine.view path : Disk.Action _) d).2 = d := by
  rw [Machine.view, Disk.bind_apply, Disk.machine_opens]
  obtain e | (size | size) := d.opens path <;> rfl

theorem Store.load_of_read (h : d.read path = .ok bytes) :
    Store.load (m := Disk.Action) path d = (Store.ofBytes bytes, d) := by
  rw [Store.load_eq, Store.onDisk, h]

theorem Archive.load_of_read (h : d.read path = .ok bytes) :
    Archive.load (m := Disk.Action) path d
      = (match Archive.ofBytes? bytes.data.toList with
        | some a => .ok a
        | none => .error .malformed, d) := by
  rw [Archive.load, Disk.bind_apply, Disk.machine_view_of_read h]
  simp only
  cases Archive.ofBytes? bytes.data.toList <;> rfl

/-- An archive and a store of the same entries: what one answers the other answers. -/
structure Archive.Agrees (a : Archive) (s : Store) : Prop where
  size : a.size = s.size
  entry : ∀ i, a.entry? i = s.entries[i]?
  find : ∀ name, a.find? name = s.get? name
  lookUp : ∀ name, a.toRegistry.lookUp name = s.toRegistry.lookUp name

theorem Archive.Shows.agrees {a : Archive} {es : List Entry} (h : a.Shows es) : a.Agrees ⟨es⟩ :=
  ⟨h.size, h.entry?_eq, h.find?_eq, fun _ => by rw [h.toRegistry_eq]⟩

theorem Store.sorted_of_textBytes {s : Store} (h : s.entries.Pairwise
    fun e f => Archive.textBytes e.name < Archive.textBytes f.name) : s.Sorted :=
  h.imp Archive.textBytes_lt_iff.mp

/-- A file is malformed for both, or both have the same of it: as many entries, the same under every
number and the same under every name. A name that is said to be there is the name of an entry,
whatever the order of the entries is; if they are in strict order, the name of every entry is
said to be there. -/
theorem load_agrees (h : d.read path = .ok bytes) :
    (Store.load (m := Disk.Action) path d = (.error .malformed, d)
      ∧ Archive.load (m := Disk.Action) path d = (.error .malformed, d))
    ∨ ∃ s a, Store.load (m := Disk.Action) path d = (.ok s, d)
      ∧ Archive.load (m := Disk.Action) path d = (.ok a, d)
      ∧ a.Agrees s
      ∧ (∀ name, a.toRegistry.lookUp name = .ok true → ∃ e ∈ s.entries, e.name = name)
      ∧ (s.entries.Pairwise (fun e f => Archive.textBytes e.name < Archive.textBytes f.name) →
        ∀ e ∈ s.entries, a.toRegistry.lookUp e.name = .ok true) := by
  rw [Store.load_of_read h, Archive.load_of_read h, Store.ofBytes]
  cases hchecked : Archive.ofBytes? bytes.data.toList with
  | none => exact Or.inl ⟨rfl, rfl⟩
  | some a =>
    obtain ⟨es, hshows⟩ := Archive.exists_shows hchecked
    have hagrees := hshows.agrees
    refine Or.inr ⟨⟨es⟩, a, by simp only [hshows.toList_eq], rfl, hagrees, fun name hname => ?_,
      fun hstrict e he => ?_⟩
    · rw [hagrees.lookUp] at hname
      obtain ⟨e, he⟩ := Option.isSome_iff_exists.mp (Except.ok.inj hname)
      exact ⟨e, Store.get?_eq_some he⟩
    · rw [hagrees.lookUp]
      exact congrArg Except.ok
        ((Store.sorted_of_textBytes hstrict).contains_iff.mpr ⟨e, he, rfl⟩)

/-- Two entries out of order. -/
def disorder : List Entry :=
  [⟨"b", "test_contracts", Digest.ofBytes .empty, 2⟩, ⟨"a", "test_contracts", Digest.ofBytes .empty, 1⟩]

/-- A disk with nothing but the archive of entries. -/
def onlyArchive (es : List Entry) : Disk := ⟨[(["r"], .file ⟨(Archive.encode es).toArray⟩)], 0⟩

/-- An archive out of order is not refused, and both have the same of it. -/
theorem load_agrees_disorder : ∃ s a,
    Store.load (m := Disk.Action) "r" (onlyArchive disorder) = (.ok s, onlyArchive disorder)
    ∧ Archive.load (m := Disk.Action) "r" (onlyArchive disorder) = (.ok a, onlyArchive disorder)
    ∧ a.Agrees s := by
  have hread : (onlyArchive disorder).read "r" = .ok ⟨(Archive.encode disorder).toArray⟩ := rfl
  have hsize : (Archive.encode disorder).length < 0x80000000 := by
    rw [Archive.length_encode]
    decide
  have hopened : Archive.ofBytes? (Archive.encode disorder) = some _ :=
    Archive.ofBytes?_encode (by decide) hsize
  obtain ⟨-, hrefused⟩ | ⟨s, a, hloaded, hviewed, hagrees, -⟩ := load_agrees hread
  · rw [Archive.load_of_read hread] at hrefused
    simp only [hopened] at hrefused
    cases congrArg Prod.fst hrefused
  · exact ⟨s, a, hloaded, hviewed, hagrees⟩

end

namespace Store

variable {s t : Store} {bytes : ByteArray}

theorem isTellable_iff : s.isTellable = true ↔ ∀ e ∈ s.entries, Archive.Tellable e := by
  simp [isTellable, Archive.Tellable]

theorem toArchive_eq_ok_iff : s.toArchive = .ok bytes
    ↔ (∀ e ∈ s.entries, Archive.Tellable e) ∧ bytes = s.toBytes := by
  rw [toArchive, ← isTellable_iff]
  cases s.isTellable <;> simp [eq_comm]

/-- The bytes of an archive: the texts outside, filled up, the entries and what stands at the end. The
order of the entries does not matter. -/
theorem size_toBytes (s : Store) : s.toBytes.size = (Archive.textPart s.entries).length
    + Archive.entrySize * s.size + Archive.footSize := by
  have hperm := (inByteOrder_sorted s).perm
  have htexts : (Archive.textPart s.sorted.entries).length = (Archive.textPart s.entries).length := by
    simp only [Archive.textPart, List.length_append, Archive.padding, List.length_replicate,
      (hperm.flatMap_right Archive.outsideOf).length_eq]
  have hbytes : s.toBytes.size = (Archive.encode s.sorted.entries).length := by
    simp [toBytes, ByteArray.size]
  rw [hbytes, Archive.length_encode, htexts, hperm.length_eq, size]

theorem toBytes_sorted (s : Store) : s.sorted.toBytes = s.toBytes := by
  rw [toBytes, sorted_sorted, toBytes]

theorem toArchive_sorted (h : s.toArchive = .ok bytes) : s.sorted.toArchive = .ok bytes := by
  obtain ⟨htell, rfl⟩ := toArchive_eq_ok_iff.mp h
  refine toArchive_eq_ok_iff.mpr ⟨fun e he => htell e ?_, (toBytes_sorted s).symm⟩
  exact (inByteOrder_sorted s).perm.mem_iff.mp he

theorem toArchive_eq_of_mem_iff (hs : (s.entries.map (·.name)).Nodup)
    (ht : (t.entries.map (·.name)).Nodup) (hsame : ∀ e, e ∈ s.entries ↔ e ∈ t.entries)
    (h : s.toArchive = .ok bytes) : t.toArchive = .ok bytes := by
  obtain ⟨htell, rfl⟩ := toArchive_eq_ok_iff.mp h
  have hsorted := (inByteOrder_sorted s).eq_of_mem_iff (inByteOrder_sorted t) hs ht hsame
  refine toArchive_eq_ok_iff.mpr ⟨fun e he => htell e ((hsame e).mpr he), ?_⟩
  rw [toBytes, toBytes, hsorted]

/-- What a store is written as can be read: its archive, if there is one and it has less than 2³¹
bytes, is laid out as it should be, loads as the entries in order, opens as an archive that shows
them, and is written again for them and for every other arrangement of them that leaves no name
to two entries. A store that is saved leaves these bytes behind. -/
theorem toArchive_roundTrip (s : Store) :
    ((∃ bytes, s.toArchive = .ok bytes) ↔ ∀ e ∈ s.entries, Archive.Tellable e)
    ∧ ∀ bytes, s.toArchive = .ok bytes → bytes.size < 0x80000000 → ∃ es a,
      InByteOrder s.entries es ∧ Archive.LaidOut bytes.data.toList a.start es
      ∧ ofBytes bytes = .ok ⟨es⟩
      ∧ Archive.ofBytes? bytes.data.toList = some a ∧ a.size = es.length ∧ a.toList = es
      ∧ (Store.mk es).toArchive = .ok bytes
      ∧ (∀ t : Store, (s.entries.map (·.name)).Nodup → (t.entries.map (·.name)).Nodup →
        (∀ e, e ∈ s.entries ↔ e ∈ t.entries) → t.toArchive = .ok bytes)
      ∧ (∀ path d, d.read path = .ok bytes →
        load (m := Disk.Action) path d = (.ok ⟨es⟩, d)
        ∧ Archive.load (m := Disk.Action) path d = (.ok a, d))
      ∧ ∀ path d d' s', s.save (m := Disk.Action) path d = ((s', .ok ()), d') →
        s' = ⟨es⟩ ∧ d'.read path = .ok bytes := by
  refine ⟨by simp [toArchive_eq_ok_iff], fun bytes h hsize => ?_⟩
  obtain ⟨htell, rfl⟩ := toArchive_eq_ok_iff.mp h
  have horder := inByteOrder_sorted s
  have hsorted : ∀ e ∈ s.sorted.entries, Archive.Tellable e :=
    fun e he => htell e (horder.perm.mem_iff.mp he)
  have hlength : (Archive.encode s.sorted.entries).length < 0x80000000 := by
    simpa [toBytes, ByteArray.size] using hsize
  have hloaded := ofBytes_toBytes (isTellable_iff.mpr htell) hsize
  have hopened : Archive.ofBytes? s.toBytes.data.toList = some _ :=
    Archive.ofBytes?_encode hsorted hlength
  refine ⟨s.sorted.entries, ⟨Archive.encode s.sorted.entries, _, _⟩, horder,
    Archive.laidOut_encode hsorted hlength, hloaded, hopened, rfl,
    Archive.toList_encode hsorted hlength, toArchive_sorted h,
    fun t hs ht hsame => toArchive_eq_of_mem_iff hs ht hsame h, fun path d hread => ?_,
    fun path d d' s' hsaved => ?_⟩
  · rw [load_of_read hread, Archive.load_of_read hread, hloaded, hopened]
    exact ⟨rfl, rfl⟩
  · obtain ⟨-, rfl, hread⟩ := save_eq_ok hsaved
    exact ⟨rfl, hread⟩

/-- Contracts out of order, two of them of one name, the other with a name that does not fit in its
slot. -/
def unordered : Store :=
  ⟨[⟨"token", "test_contracts", Digest.ofBytes .empty, 2⟩,
    ⟨"atomic_swaps", "", Digest.ofBytes .empty, 3⟩, ⟨"token", "lib", Digest.ofBytes .empty, 1⟩]⟩

/-- They are written, and loaded in order. -/
theorem unordered_roundTrip : ∃ bytes es, unordered.toArchive = .ok bytes
    ∧ InByteOrder unordered.entries es ∧ ofBytes bytes = .ok ⟨es⟩ := by
  have htell : ∀ e ∈ unordered.entries, Archive.Tellable e := by decide
  have harchive : unordered.toArchive = .ok unordered.toBytes :=
    toArchive_eq_ok_iff.mpr ⟨htell, rfl⟩
  have hsize : unordered.toBytes.size < 0x80000000 := by
    rw [size_toBytes]
    decide
  obtain ⟨es, a, horder, -, hloaded, -⟩ := (toArchive_roundTrip unordered).2 _ harchive hsize
  exact ⟨_, es, harchive, horder, hloaded⟩

end Store
end Gatehouse
