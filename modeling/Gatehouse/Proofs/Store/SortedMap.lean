import Mathlib.Data.List.Dedup
import Gatehouse.Proofs.Command.Register
import Gatehouse.Proofs.Store.Mapped

/-!
Stores as maps. A store that was empty at first, and has been changed by putting entries in it, by
registering contracts, and by saving and loading, holds the entry that was put in last under each
name, in the order of the bytes of the names, and nothing else.
-/
namespace Gatehouse

/-- The entry of a name that was put in last; the log has the latest entry first. -/
def latest? (log : List Entry) (name : String) : Option Entry := log.find? (·.name = name)

namespace Store

/-- The stores that can be reached from the empty one, with what was put in them on the way, the
latest first. A registration that is refused leaves the store alone, and so does loading that
fails; saving leaves a store behind whatever comes of it. -/
inductive Reached : List Entry → Store → Prop
  | empty : Reached [] .empty
  | insert {log : List Entry} {s : Store} (e : Entry) (h : Reached log s) :
      Reached (e :: log) (s.insert e).1
  | register {log : List Entry} {s s' : Store} {e : Entry} {p : Policy} {name root : String}
      {source : ByteArray} {now : UInt64} (h : Reached log s)
      (hregister : s.register p name root source now = .ok (s', e)) : Reached (e :: log) s'
  | save {log : List Entry} {s : Store} (path : String) (d : Disk) (h : Reached log s) :
      Reached log (s.save (m := Disk.Action) path d).1.1
  | load {log : List Entry} {s s' t : Store} {path : String} {d d' : Disk} (h : Reached log s)
      (hsize : s.toBytes.size < 0x80000000)
      (hsave : s.save (m := Disk.Action) path d = ((s', .ok ()), d'))
      (hload : (load (m := Disk.Action) path d').1 = .ok t) : Reached log t

/-- A store holds what was put in last under each name, in order, and answers for these names. -/
structure Holds (s : Store) (log : List Entry) : Prop where
  ordered : s.entries.Pairwise fun a b => Archive.textBytes a.name < Archive.textBytes b.name
  get : ∀ name, s.get? name = latest? log name
  lookUp : ∀ name, s.toRegistry.lookUp name = .ok (decide (name ∈ log.map (·.name)))
  size : s.size = (log.map (·.name)).dedup.length

section

variable {s s' : Store} {log log' : List Entry} {e : Entry} {name : String}

theorem latest?_isSome_iff : (latest? log name).isSome = true ↔ name ∈ log.map (·.name) := by
  simp [latest?]

/-- What is found after an entry is put in a store in order. -/
theorem Sorted.get?_insert (h : s.Sorted) :
    (s.insert e).1.get? name = if e.name = name then some e else s.get? name := by
  have hsorted := h.insert e
  have hself : (s.insert e).1.get? e.name = some e :=
    hsorted.get?_of_mem (h.mem_insert_iff.mpr (Or.inl rfl))
  split
  · next hname => rwa [← hname]
  · next hname =>
    refine Option.ext fun x => ⟨fun hx => ?_, fun hx => ?_⟩
    · obtain ⟨hmem, rfl⟩ := get?_eq_some hx
      rcases h.mem_insert_iff.mp hmem with rfl | ⟨hold, -⟩
      · exact absurd rfl hname
      · exact h.get?_of_mem hold
    · obtain ⟨hmem, rfl⟩ := get?_eq_some hx
      exact hsorted.get?_of_mem (h.mem_insert_iff.mpr (Or.inr ⟨hmem, Ne.symm hname⟩))

theorem Sorted.getElem?_insert (h : s.Sorted) (e : Entry) :
    (s.insert e).1.entries[(s.insert e).2]? = some e := by
  obtain ⟨before, after, -, -, -, hinsert⟩ := h.insert_split e
  simp [hinsert]

theorem Sorted.save_fst (h : s.Sorted) (path : String) (d : Disk) :
    (s.save (m := Disk.Action) path d).1.1 = s := by
  rw [save, Disk.bind_apply]
  cases (Machine.makeParents path : Disk.Action _) d with
  | mk made d₁ =>
    cases made with
    | error e => rfl
    | ok _ =>
      cases s.toArchive with
      | error e => exact h.sorted_eq
      | ok bytes =>
        simp only [Disk.bind_apply]
        cases (Machine.write path bytes : Disk.Action _) d₁ with
        | mk written d₂ => cases written <;> exact h.sorted_eq

theorem Sorted.load_of_save (h : s.Sorted) {path : String} {d d' : Disk}
    (hsize : s.toBytes.size < 0x80000000)
    (hsave : s.save (m := Disk.Action) path d = ((s', .ok ()), d')) :
    s' = s ∧ Store.load (m := Disk.Action) path d' = (.ok s, d') := by
  obtain ⟨htell, rfl, hread⟩ := save_eq_ok hsave
  rw [load_of_read hread, ofBytes_toBytes htell hsize, h.sorted_eq]
  exact ⟨rfl, rfl⟩

/-- A store that is reached is in order, and what is found in it was put in last. -/
theorem Reached.sorted_and_get? (h : Reached log s) :
    s.Sorted ∧ ∀ name, s.get? name = latest? log name := by
  have hput : ∀ {log : List Entry} {s : Store} (e : Entry),
      (s.Sorted ∧ ∀ name, s.get? name = latest? log name) →
      (s.insert e).1.Sorted ∧ ∀ name, (s.insert e).1.get? name = latest? (e :: log) name := by
    intro log s e ⟨hsorted, hget⟩
    refine ⟨hsorted.insert e, fun name => ?_⟩
    rw [hsorted.get?_insert, hget, latest?, latest?, List.find?_cons]
    by_cases hname : e.name = name <;> simp [hname]
  induction h with
  | empty => exact ⟨List.Pairwise.nil, fun name => rfl⟩
  | insert e _ ih => exact hput e ih
  | register _ hregister ih =>
    obtain ⟨rfl, -⟩ := register_eq_ok hregister
    exact hput _ ih
  | save path d _ ih => rwa [ih.1.save_fst]
  | load _ hsize hsave hload ih =>
    obtain ⟨-, hloaded⟩ := ih.1.load_of_save hsize hsave
    rw [hloaded] at hload
    rwa [← Except.ok.inj hload]

theorem Sorted.nodup_names (h : s.Sorted) : (s.entries.map (·.name)).Nodup :=
  List.pairwise_map.mpr (h.imp String.ne_of_lt)

theorem Sorted.mem_iff (h : s.Sorted) : e ∈ s.entries ↔ s.get? e.name = some e :=
  ⟨h.get?_of_mem, fun he => (get?_eq_some he).1⟩

theorem Sorted.eq_of_get? (h : s.Sorted) (h' : s'.Sorted)
    (hget : ∀ name, s.get? name = s'.get? name) : s = s' := by
  have hsame : ∀ e, e ∈ s.entries ↔ e ∈ s'.entries := fun e => by
    rw [h.mem_iff, h'.mem_iff, hget]
  have hsorted : s.sorted.entries = s'.sorted.entries :=
    (inByteOrder_sorted s).eq_of_mem_iff (inByteOrder_sorted s') h.nodup_names h'.nodup_names hsame
  rw [h.sorted_eq, h'.sorted_eq] at hsorted
  exact congrArg Store.mk hsorted

theorem Reached.holds (h : Reached log s) : s.Holds log := by
  obtain ⟨hsorted, hget⟩ := h.sorted_and_get?
  have hcontains : ∀ name, s.contains name = decide (name ∈ log.map (·.name)) := fun name => by
    rw [contains, hget, Bool.eq_iff_iff, latest?_isSome_iff, decide_eq_true_iff]
  have hnames : (s.entries.map (·.name)).Perm (log.map (·.name)).dedup := by
    refine (List.perm_ext_iff_of_nodup hsorted.nodup_names (List.nodup_dedup _)).mpr fun name => ?_
    rw [List.mem_dedup, ← decide_eq_true_iff (p := name ∈ log.map (·.name)), ← hcontains,
      hsorted.contains_iff, List.mem_map]
  refine ⟨hsorted.imp Archive.textBytes_lt_iff.mpr, hget, fun name => ?_, ?_⟩
  · exact congrArg Except.ok (hcontains name)
  · simpa [size] using hnames.length_eq

/-- A store that is reached is a map from names to entries: it holds what was put in last under each
name, and does so after every further entry, which takes the place that is answered and changes
nothing under any other name. Saving and loading give it back. Nothing of the way to it is left in
it: a store that is reached on another way is the same if the same was put in last. -/
theorem Reached.isMap (h : Reached log s) :
    s.Holds log
    ∧ (∀ e, (s.insert e).1.Holds (e :: log) ∧ (s.insert e).1.entries[(s.insert e).2]? = some e
      ∧ ∀ name, name ≠ e.name → (s.insert e).1.get? name = s.get? name)
    ∧ (∀ path d s' d', s.toBytes.size < 0x80000000 →
      s.save (m := Disk.Action) path d = ((s', .ok ()), d') →
      s' = s ∧ Store.load (m := Disk.Action) path d' = (.ok s, d'))
    ∧ ∀ log' s', Reached log' s' → (∀ name, latest? log' name = latest? log name) → s' = s := by
  obtain ⟨hsorted, hget⟩ := h.sorted_and_get?
  refine ⟨h.holds, fun e => ⟨(h.insert e).holds, hsorted.getElem?_insert e, fun name hname => ?_⟩,
    fun path d s' d' hsize hsave => hsorted.load_of_save hsize hsave, fun log' s' h' hlatest => ?_⟩
  · rw [hsorted.get?_insert, if_neg (Ne.symm hname)]
  · obtain ⟨hsorted', hget'⟩ := h'.sorted_and_get?
    exact hsorted'.eq_of_get? hsorted fun name => by rw [hget', hlatest, hget]

end

/-- An entry of a name, put in at a time. -/
def entryAt (name : String) (time : UInt64) : Entry := ⟨name, "lib", default, time⟩

/-- Two names, one of them twice, are put in a store, which is saved and loaded before a third name
comes between them. -/
theorem isMap_of_three_names : ∃ s,
    Reached [entryAt "b" 4, entryAt "c" 3, entryAt "a" 2, entryAt "c" 1] s
    ∧ s.Holds [entryAt "b" 4, entryAt "c" 3, entryAt "a" 2, entryAt "c" 1] ∧ s.size = 3
    ∧ s.get? "c" = some (entryAt "c" 3) := by
  let three : Store := ⟨[entryAt "a" 2, entryAt "c" 3]⟩
  let d : Disk := .put (.empty 0) ["r"] (.file three.toBytes)
  have hput : (((Store.empty.insert (entryAt "c" 1)).1.insert (entryAt "a" 2)).1.insert
      (entryAt "c" 3)).1 = three := by
    decide +kernel
  have hthree : Reached [entryAt "c" 3, entryAt "a" 2, entryAt "c" 1] three := by
    rw [← hput]
    exact .insert _ (.insert _ (.insert _ .empty))
  have hsize : three.toBytes.size < 0x80000000 := by
    rw [size_toBytes]
    decide
  have hsave : three.save (m := Disk.Action) "r" (.empty 0) = ((three.sorted, .ok ()), d) := rfl
  obtain ⟨-, hload⟩ := hthree.sorted_and_get?.1.load_of_save hsize hsave
  have hreached := Reached.insert (entryAt "b" 4)
    (hthree.load hsize hsave (congrArg Prod.fst hload))
  obtain ⟨hholds, -⟩ := hreached.isMap
  refine ⟨_, hreached, hholds, ?_, ?_⟩
  · rw [hholds.size]
    decide
  · rw [hholds.get]
    decide

end Store
end Gatehouse
