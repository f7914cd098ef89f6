import Mathlib.Tactic.Choose
import Gatehouse.Proofs.Archive.RoundTrip
import Gatehouse.Proofs.Search
import Gatehouse.Store

/-!
Looking names up in an archive. A search in place reads the names it meets and nothing else, and
what it reads has been checked, whether the entries are in order or not. So it goes the way of a
search in the store of all entries.
-/
namespace Gatehouse

namespace Archive

theorem textAt?_of_checkSlot {bytes : List UInt8} {limit here free free' : Nat}
    (h : checkSlot bytes limit here free = some free') : ∃ s, textAt? bytes here = some s := by
  unfold checkSlot at h
  split at h
  next hs => exact ⟨_, hs⟩
  next hs => exact ⟨_, hs⟩
  next => cases h

theorem name_of_entryAt? {bytes : List UInt8} {here : Nat} {e : Entry}
    (h : entryAt? bytes here = some e) : textAt? bytes here = some e.name := by
  obtain ⟨name, hname, h⟩ := Option.bind_eq_some_iff.mp h
  obtain ⟨root, -, h⟩ := Option.bind_eq_some_iff.mp h
  rw [hname, ← Option.some.inj h]

/-- Entries that pass their check can be read. -/
theorem entryAt?_of_checkEntries {bytes : List UInt8} {limit n here free i : Nat}
    (h : checkEntries bytes limit n here free = true) (hi : i < n) :
    ∃ e, entryAt? bytes (here + entrySize * i) = some e := by
  induction n generalizing here free i with
  | zero => cases hi
  | succ n ih =>
    rw [checkEntries] at h
    split at h
    next => cases h
    next hname =>
      split at h
      next => cases h
      next hroot =>
        cases i with
        | zero =>
          obtain ⟨name, hname⟩ := textAt?_of_checkSlot hname
          obtain ⟨root, hroot⟩ := textAt?_of_checkSlot hroot
          rw [entryAt?, Nat.mul_zero, Nat.add_zero, hname, hroot]
          exact ⟨_, rfl⟩
        | succ i =>
          obtain ⟨e, he⟩ := ih h (Nat.lt_of_succ_lt_succ hi)
          exact ⟨e, by rwa [Nat.mul_succ, Nat.add_comm (entrySize * i), ← Nat.add_assoc]⟩

/-- The archive shows the entries: each can be read, and there are as many. -/
structure Shows (a : Archive) (es : List Entry) : Prop where
  size : a.size = es.length
  entry : ∀ i (hi : i < es.length), entryAt? a.bytes (a.start + entrySize * i) = some es[i]

theorem ofBytes?_eq_some {bytes : List UInt8} {a : Archive} (h : ofBytes? bytes = some a) :
    a.bytes = bytes ∧ checkEntries a.bytes a.start a.size a.start 0 = true := by
  unfold ofBytes? at h
  simp only at h
  split at h
  · cases h
  split at h
  · cases h
  split at h
  next hchecked =>
    obtain rfl := Option.some.inj h
    exact ⟨rfl, hchecked.2.2⟩
  next => cases h

theorem exists_shows {bytes : List UInt8} {a : Archive} (h : ofBytes? bytes = some a) :
    ∃ es, a.Shows es := by
  obtain ⟨-, hchecked⟩ := ofBytes?_eq_some h
  have hread := fun i (hi : i < a.size) => entryAt?_of_checkEntries hchecked hi
  choose e he using hread
  refine ⟨List.ofFn fun i : Fin a.size => e i i.isLt, List.length_ofFn.symm, fun i hi => ?_⟩
  rw [List.getElem_ofFn]
  exact he i _

namespace Shows

variable {a : Archive} {es : List Entry}

theorem entry?_eq (h : a.Shows es) (i : Nat) : a.entry? i = es[i]? := by
  rw [ entry?, h.size]
  split
  next hi => rw [h.entry i hi, List.getElem?_eq_getElem hi]
  next hi => rw [List.getElem?_eq_none (Nat.not_lt.mp hi)]

theorem toList_eq (h : a.Shows es) : a.toList = es := by
  rw [toList, h.size]
  exact filterMap_range_eq es fun i hi => by rw [h.entry?_eq, List.getElem?_eq_getElem hi]

theorem compareAt_eq (h : a.Shows es) (name : String) {i : Nat} (hi : i < es.length) :
    a.compareAt name i = (Store.mk es).compareAt name i := by
  simp [compareAt, Store.compareAt, name_of_entryAt? (h.entry i hi), hi]

theorem find?_eq (h : a.Shows es) (name : String) : a.find? name = (Store.mk es).get? name := by
  have hsearch : Search.run (a.compareAt name) a.size = (Store.mk es).search name := by
    rw [h.size]
    exact Search.run_congr fun i hi => h.compareAt_eq name hi
  rw [find?, hsearch, Store.get?]
  exact congrArg _ (funext h.entry?_eq)

theorem toRegistry_eq (h : a.Shows es) : a.toRegistry = (Store.mk es).toRegistry := by
  unfold toRegistry Store.toRegistry Store.contains
  simp only [h.find?_eq]

end Shows

end Archive
end Gatehouse
