import Gatehouse.Proofs.Archive.Slots

/-!
An archive of entries is read back as these entries.
-/
namespace Gatehouse

open Bytes

namespace Archive

/-- Can the texts of an entry be told in an archive? -/
def Tellable (e : Entry) : Prop :=
  isTellable (textBytes e.name) = true ∧ isTellable (textBytes e.root) = true

instance (e : Entry) : Decidable (Tellable e) :=
  inferInstanceAs (Decidable (_ = true ∧ _ = true))

/-- Entries are written from `here` on, with what does not fit in their slots from `there` on. -/
structure WrittenAll (bytes : List UInt8) (here there : Nat) (es : List Entry) : Prop where
  entries : Has bytes here (entriesBytes es there here)
  texts : Has bytes there (es.flatMap outsideOf)
  tellable : ∀ e ∈ es, Tellable e
  before : there + (es.flatMap outsideOf).length ≤ here
  small : here + entrySize * es.length < 0x80000000

theorem length_entryBytes (e : Entry) (there here : Nat) :
    (entryBytes e there here).length = entrySize := by
  simp [entryBytes, slotSize, entrySize]

theorem length_entriesBytes (es : List Entry) (there here : Nat) :
    (entriesBytes es there here).length = entrySize * es.length := by
  induction es generalizing there here with
  | nil => simp [entriesBytes]
  | cons e es ih =>
    rw [entriesBytes, List.length_append, length_entryBytes, ih, List.length_cons, Nat.mul_succ,
      Nat.add_comm]

namespace WrittenAll

variable {bytes : List UInt8} {here there : Nat} {e : Entry} {es : List Entry}

theorem parts (h : WrittenAll bytes here there (e :: es)) :
    Has bytes here (slot (textBytes e.name) there here)
    ∧ Has bytes (here + slotSize)
        (slot (textBytes e.root) (there + (outside (textBytes e.name)).length) (here + slotSize))
    ∧ Has bytes (here + 2 * slotSize) e.digest.bytes.toList
    ∧ Has bytes (here + 48) (littleEndian 8 e.registeredAt.toNat) := by
  have hentry := (has_append_iff.mp h.entries).1
  rw [entryBytes, has_append_iff, has_append_iff, has_append_iff] at hentry
  obtain ⟨⟨⟨hname, hroot⟩, hdigest⟩, htime⟩ := hentry
  simp only [List.length_append, length_slot, Vector.length_toList] at hroot hdigest htime
  exact ⟨hname, hroot, hdigest, htime⟩

theorem name (h : WrittenAll bytes here there (e :: es)) : Written bytes here there e.name := by
  have htexts := h.texts
  rw [List.flatMap_cons, outsideOf, has_append_iff, has_append_iff] at htexts
  have hbefore := h.before
  have hsmall := h.small
  exact ⟨h.parts.1, htexts.1.1, (h.tellable e List.mem_cons_self).1, by omega, by omega⟩

theorem root (h : WrittenAll bytes here there (e :: es)) :
    Written bytes (here + slotSize) (there + (outside (textBytes e.name)).length) e.root := by
  have htexts := h.texts
  rw [List.flatMap_cons, outsideOf, has_append_iff, has_append_iff] at htexts
  have hbefore := h.before
  have hsmall := h.small
  simp only [List.flatMap_cons, outsideOf, List.length_append, List.length_cons,
    entrySize] at hbefore hsmall
  exact ⟨h.parts.2.1, htexts.1.2, (h.tellable e List.mem_cons_self).2, by simp only [slotSize]; omega,
    by simp only [slotSize]; omega⟩

theorem tail (h : WrittenAll bytes here there (e :: es)) :
    WrittenAll bytes (here + entrySize) (there + (outsideOf e).length) es := by
  have hentries := (has_append_iff.mp h.entries).2
  rw [length_entryBytes] at hentries
  have htexts := h.texts
  rw [List.flatMap_cons, has_append_iff] at htexts
  have hbefore := h.before
  have hsmall := h.small
  simp only [List.flatMap_cons, List.length_append, List.length_cons] at hbefore hsmall
  exact ⟨hentries, htexts.2, fun x hx => h.tellable x (List.mem_cons_of_mem _ hx), by omega,
    by rw [Nat.mul_succ] at hsmall; omega⟩

theorem entryAt?_eq (h : WrittenAll bytes here there (e :: es)) : entryAt? bytes here = some e := by
  obtain ⟨-, -, hdigest, htime⟩ := h.parts
  have hd : digestAt bytes (here + 2 * slotSize) = e.digest := by
    rw [digestAt, hdigest.stretch_eq (by simp)]
    refine congrArg Digest.mk (Vector.ext fun i hi => ?_)
    simp
  have ht : UInt64.ofNat (ofLittleEndian (stretch bytes (here + 48) 8)) = e.registeredAt := by
    have hlt : e.registeredAt.toNat < Nat.pow 256 8 := e.registeredAt.toNat_lt
    rw [htime.stretch_eq (by simp), ofLittleEndian_littleEndian, Nat.mod_eq_of_lt hlt,
      UInt64.ofNat_toNat]
  rw [entryAt?, h.name.textAt?_eq, h.root.textAt?_eq]
  simp only [hd, ht]
  rfl

theorem checkEntries_eq (limit : Nat) (h : WrittenAll bytes here there es)
    (hlimit : there + (es.flatMap outsideOf).length ≤ limit) :
    checkEntries bytes limit es.length here there = true := by
  induction es generalizing here there with
  | nil => rfl
  | cons e es ih =>
    simp only [List.flatMap_cons, outsideOf, List.length_append] at hlimit
    have htail := ih h.tail (by simp only [outsideOf, List.length_append]; omega)
    rw [List.length_cons, checkEntries, h.name.checkSlot_eq (by omega)]
    simp only
    rw [h.root.checkSlot_eq (by omega)]
    simpa only [outsideOf, List.length_append, Nat.add_assoc] using htail

theorem entryAt?_getElem (h : WrittenAll bytes here there es) {i : Nat} (hi : i < es.length) :
    entryAt? bytes (here + entrySize * i) = some es[i] := by
  induction es generalizing here there i with
  | nil => cases hi
  | cons e es ih =>
    cases i with
    | zero => exact h.entryAt?_eq
    | succ i =>
      have htail := ih h.tail (Nat.lt_of_succ_lt_succ hi)
      rwa [Nat.add_assoc, Nat.add_comm entrySize, ← Nat.mul_succ] at htail

theorem drop (h : WrittenAll bytes here there es) {i : Nat} (hi : i ≤ es.length) :
    ∃ there', WrittenAll bytes (here + entrySize * i) there' (es.drop i) := by
  induction es generalizing here there i with
  | nil => exact ⟨there, by simpa [Nat.le_zero.mp hi] using h⟩
  | cons e es ih =>
    cases i with
    | zero => exact ⟨there, h⟩
    | succ i =>
      obtain ⟨there', htail⟩ := ih h.tail (Nat.le_of_succ_le_succ hi)
      rw [Nat.add_assoc, Nat.add_comm entrySize, ← Nat.mul_succ] at htail
      exact ⟨there', htail⟩

end WrittenAll

/-- Where everything stands in an archive of entries: the entries on a multiple of eight bytes, with
their four parts, and at the end the distance to them and their number. -/
structure LaidOut (bytes : List UInt8) (start : Nat) (es : List Entry) : Prop where
  aligned : start % 8 = 0
  length : bytes.length = start + entrySize * es.length + footSize
  foot : Has bytes (bytes.length - footSize)
    (distance (bytes.length - footSize) start ++ littleEndian 4 es.length)
  name : ∀ i (hi : i < es.length), ∃ there, Written bytes (start + entrySize * i) there es[i].name
  root : ∀ i (hi : i < es.length), ∃ there,
    Written bytes (start + entrySize * i + slotSize) there es[i].root
  digest : ∀ i (hi : i < es.length),
    Has bytes (start + entrySize * i + 2 * slotSize) es[i].digest.bytes.toList
  registeredAt : ∀ i (hi : i < es.length),
    Has bytes (start + entrySize * i + 48) (littleEndian 8 es[i].registeredAt.toNat)

def textPart (es : List Entry) : List UInt8 :=
  es.flatMap outsideOf ++ padding (es.flatMap outsideOf).length

theorem encode_eq (es : List Entry) : encode es = textPart es
    ++ entriesBytes es 0 (textPart es).length
    ++ distance ((textPart es).length + entrySize * es.length) (textPart es).length
    ++ littleEndian 4 es.length := rfl

theorem length_encode (es : List Entry) :
    (encode es).length = (textPart es).length + entrySize * es.length + footSize := by
  rw [encode_eq]
  simp only [List.length_append, length_entriesBytes, length_distance, length_littleEndian, footSize]

theorem has_foot_encode (es : List Entry) :
    Has (encode es) ((textPart es).length + entrySize * es.length)
      (distance ((textPart es).length + entrySize * es.length) (textPart es).length
        ++ littleEndian 4 es.length) := by
  have h := Has.of_append (textPart es ++ entriesBytes es 0 (textPart es).length)
    (distance ((textPart es).length + entrySize * es.length) (textPart es).length
      ++ littleEndian 4 es.length) []
  rwa [List.append_nil, ← List.append_assoc, ← encode_eq, List.length_append,
    length_entriesBytes] at h

theorem length_textPart_mod (es : List Entry) : (textPart es).length % 8 = 0 := by
  rw [textPart, List.length_append, padding, List.length_replicate]
  omega

theorem filterMap_range_eq {α : Type} {f : Nat → Option α} (xs : List α)
    (h : ∀ i (hi : i < xs.length), f i = some xs[i]) :
    (List.range xs.length).filterMap f = xs := by
  induction xs generalizing f with
  | nil => rfl
  | cons x xs ih =>
    have htail := ih fun i hi => h (i + 1) (Nat.succ_lt_succ hi)
    rw [List.length_cons, List.range_succ_eq_map, List.filterMap_cons, h 0 (Nat.succ_pos _),
      List.filterMap_map]
    exact congrArg (x :: ·) htail

section

variable {es : List Entry} (htell : ∀ e ∈ es, Tellable e) (hsize : (encode es).length < 0x80000000)

include htell hsize

theorem writtenAll_encode : WrittenAll (encode es) (textPart es).length 0 es := by
  rw [length_encode] at hsize
  refine ⟨?_, ?_, htell, ?_, by omega⟩
  · rw [encode_eq, List.append_assoc]
    exact Has.of_append _ _ _
  · rw [encode_eq, textPart]
    simp only [List.append_assoc]
    exact List.prefix_append _ _
  · rw [textPart, List.length_append]
    omega

theorem laidOut_encode : LaidOut (encode es) (textPart es).length es := by
  have hwritten := writtenAll_encode htell hsize
  have hlength := length_encode es
  have hfrom : ∀ i (hi : i < es.length), ∃ there,
      WrittenAll (encode es) ((textPart es).length + entrySize * i) there
        (es[i] :: es.drop (i + 1)) := by
    intro i hi
    rw [List.getElem_cons_drop]
    exact hwritten.drop (Nat.le_of_lt hi)
  refine ⟨length_textPart_mod es, hlength, ?_, fun i hi => ?_, fun i hi => ?_, fun i hi => ?_,
    fun i hi => ?_⟩
  · rw [hlength, Nat.add_sub_cancel]
    exact has_foot_encode es
  · obtain ⟨there, h⟩ := hfrom i hi
    exact ⟨there, h.name⟩
  · obtain ⟨there, h⟩ := hfrom i hi
    exact ⟨_, h.root⟩
  · obtain ⟨there, h⟩ := hfrom i hi
    exact h.parts.2.2.1
  · obtain ⟨there, h⟩ := hfrom i hi
    exact h.parts.2.2.2

/-- The archive of entries is one, and it shows the place and the number of them. -/
theorem ofBytes?_encode :
    ofBytes? (encode es) = some ⟨encode es, (textPart es).length, es.length⟩ := by
  have hwritten := writtenAll_encode htell hsize
  have hlength := length_encode es
  have hfoot : (encode es).length - footSize = (textPart es).length + entrySize * es.length := by
    omega
  obtain ⟨hdistance, hcount⟩ := has_append_iff.mp (has_foot_encode es)
  rw [length_distance] at hcount
  have hplace : placeAt? ((textPart es).length + entrySize * es.length)
      (distance ((textPart es).length + entrySize * es.length) (textPart es).length)
      = some (textPart es).length :=
    placeAt?_distance (Nat.le_add_right _ _) (by omega)
  have hmany : ofLittleEndian (littleEndian 4 es.length) = es.length := by
    have hpow : Nat.pow 256 4 = 0x100000000 := rfl
    rw [ofLittleEndian_littleEndian, hpow, Nat.mod_eq_of_lt]
    simp only [entrySize] at hlength
    omega
  have hmod := length_textPart_mod es
  have hchecked := hwritten.checkEntries_eq (textPart es).length hwritten.before
  rw [ofBytes?, if_neg (by simp only [entrySize] at hfoot; omega)]
  simp only [hfoot, hdistance.stretch_eq (length_distance _ _), hplace,
    hcount.stretch_eq (length_littleEndian _ _), hmany]
  exact if_pos ⟨hmod, Nat.le_refl _, hchecked⟩

theorem toList_encode : (Archive.mk (encode es) (textPart es).length es.length).toList = es := by
  have hwritten := writtenAll_encode htell hsize
  refine filterMap_range_eq es fun i hi => ?_
  rw [ entry?, if_pos hi]
  exact hwritten.entryAt?_getElem hi

end

end Archive
end Gatehouse
