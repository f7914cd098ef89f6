import Gatehouse.Archive

/-!
Reading back what is written in an archive, one text at a time. What matters of an archive is only
that certain bytes stand at certain places, so every fact is stated of such places.
-/
namespace Gatehouse

namespace Bytes

def Has (bytes : List UInt8) (here : Nat) (piece : List UInt8) : Prop := piece <+: bytes.drop here

theorem has_append_iff {bytes : List UInt8} {here : Nat} {a b : List UInt8} :
    Has bytes here (a ++ b) ↔ Has bytes here a ∧ Has bytes (here + a.length) b := by
  unfold Has
  rw [← List.drop_drop]
  constructor
  · rintro ⟨rest, h⟩
    rw [← h]
    exact ⟨⟨b ++ rest, by simp⟩, by simp⟩
  · rintro ⟨⟨rest, h⟩, hb⟩
    rw [← h, List.drop_left] at hb
    obtain ⟨rest', rfl⟩ := hb
    exact ⟨rest', by simpa using h⟩

theorem Has.of_append (before piece after : List UInt8) :
    Has (before ++ piece ++ after) before.length piece := by
  refine ⟨after, ?_⟩
  simp

theorem Has.stretch_eq {bytes : List UInt8} {here n : Nat} {piece : List UInt8}
    (h : Has bytes here piece) (hn : piece.length = n) : stretch bytes here n = piece := by
  obtain ⟨rest, hrest⟩ := h
  rw [stretch, ← hrest, ← hn, List.take_left]

end Bytes

open Bytes

namespace Archive

/-- The numbers that encode a character: all of them are below 255, and the first does not begin
with the bits `10`. -/
theorem utf8EncodeChar_eq_map (c : Char) : ∃ n ns,
    String.utf8EncodeChar c = (n :: ns).map UInt8.ofNat ∧ n / 64 ≠ 2 ∧ ∀ m ∈ n :: ns, m < 255 := by
  unfold String.utf8EncodeChar
  simp only
  split
  · refine ⟨_, [], rfl, by omega, ?_⟩
    simp only [List.forall_mem_singleton]
    omega
  · split
    · refine ⟨_, [_], rfl, by omega, ?_⟩
      simp only [List.forall_mem_cons, List.not_mem_nil, false_implies, implies_true, and_true]
      omega
    · split
      · refine ⟨_, [_, _], rfl, by omega, ?_⟩
        simp only [List.forall_mem_cons, List.not_mem_nil, false_implies, implies_true, and_true]
        omega
      · refine ⟨_, [_, _, _], rfl, by omega, ?_⟩
        simp only [List.forall_mem_cons, List.not_mem_nil, false_implies, implies_true, and_true]
        omega

theorem textBytes_eq_flatMap (s : String) : textBytes s = s.toList.flatMap String.utf8EncodeChar := by
  rw [textBytes, String.toUTF8_eq_toByteArray, ← String.utf8Encode_toList, List.utf8Encode]
  simp

theorem ne_of_mem_textBytes {s : String} {b : UInt8} (h : b ∈ textBytes s) : b ≠ 255 := by
  rw [textBytes_eq_flatMap] at h
  obtain ⟨c, -, hb⟩ := List.mem_flatMap.mp h
  obtain ⟨n, ns, hc, -, hsmall⟩ := utf8EncodeChar_eq_map c
  rw [hc] at hb
  obtain ⟨m, hm, rfl⟩ := List.mem_map.mp hb
  intro heq
  have hval := congrArg UInt8.toNat heq
  rw [UInt8.toNat_ofNat_of_lt' (Nat.lt_succ_of_lt (hsmall m hm))] at hval
  exact absurd hval (Nat.ne_of_lt (hsmall m hm))

theorem head_textBytes_ne {s : String} {b : UInt8} {bs : List UInt8} (h : textBytes s = b :: bs) :
    b.toNat / 64 ≠ 2 := by
  rw [textBytes_eq_flatMap] at h
  cases hs : s.toList with
  | nil => simp [hs] at h
  | cons c cs =>
    obtain ⟨n, ns, hc, hne, hsmall⟩ := utf8EncodeChar_eq_map c
    rw [hs, List.flatMap_cons, hc, List.map_cons, List.cons_append] at h
    rwa [← (List.cons.inj h).1,
      UInt8.toNat_ofNat_of_lt' (Nat.lt_succ_of_lt (hsmall n List.mem_cons_self))]

theorem ofTextBytes?_textBytes (s : String) : ofTextBytes? (textBytes s) = some s := by
  have hbytes : (⟨(textBytes s).toArray⟩ : ByteArray) = s.toByteArray := by
    simp [textBytes]
  rw [ofTextBytes?, hbytes, String.fromUTF8?, dif_pos s.isValidUTF8]
  rfl

@[simp] theorem length_distance (here there : Nat) : (distance here there).length = 4 :=
  length_littleEndian _ _

@[simp] theorem length_slot (text : List UInt8) (there here : Nat) :
    (slot text there here).length = slotSize := by
  unfold slot
  split
  next h => rw [List.length_append, List.length_replicate, Nat.add_sub_of_le h]
  next => simp [slotSize]

/-- A text is written in the slot at `here`, with what does not fit from `there` on. -/
structure Written (bytes : List UInt8) (here there : Nat) (s : String) : Prop where
  slot : Has bytes here (slot (textBytes s) there here)
  text : Has bytes there (outside (textBytes s))
  tellable : isTellable (textBytes s) = true
  before : there ≤ here
  small : here < 0x80000000

section

variable {bytes : List UInt8} {here there : Nat} {s : String}

theorem Written.stretch_eq (h : Written bytes here there s) :
    stretch bytes here slotSize = Archive.slot (textBytes s) there here :=
  h.slot.stretch_eq (length_slot _ _ _)

theorem Written.readSlot?_inside (h : Written bytes here there s)
    (hlen : (textBytes s).length ≤ slotSize) :
    readSlot? bytes here = some (.inside (textBytes s)) := by
  have hcut : (textBytes s ++ List.replicate (slotSize - (textBytes s).length) 255).takeWhile
      (· != 255) = textBytes s := by
    rw [List.takeWhile_append_of_pos (by simpa using fun b hb => ne_of_mem_textBytes hb)]
    cases slotSize - (textBytes s).length with
    | zero => simp
    | succ n => simp [List.replicate_succ]
  rw [readSlot?, h.stretch_eq, Archive.slot, if_pos hlen]
  cases htext : textBytes s with
  | nil => rfl
  | cons b bs =>
    rw [htext] at hcut
    have hne := head_textBytes_ne htext
    simp only [List.cons_append, if_neg hne] at hcut ⊢
    rw [hcut]

theorem Written.readSlot?_outside (h : Written bytes here there s)
    (hlen : slotSize < (textBytes s).length) :
    readSlot? bytes here = some (.outside there (textBytes s).length) := by
  have htell : (textBytes s).length < 0x40000000 := by simpa [isTellable] using h.tellable
  generalize hn : (textBytes s).length = n at hlen htell
  have hlong : longLength n < Nat.pow 256 4 := by
    have hpow : Nat.pow 256 4 = 0x100000000 := rfl
    rw [hpow, longLength]
    omega
  have hlength : ofLongLength (ofLittleEndian (littleEndian 4 (longLength n))) = n := by
    rw [ofLittleEndian_littleEndian, Nat.mod_eq_of_lt hlong, ofLongLength_longLength]
  have hmark : (UInt8.ofNat (longLength n)).toNat / 64 = 2 := by
    rw [UInt8.toNat_ofNat']
    unfold longLength
    omega
  have htake : (littleEndian 4 (longLength n) ++ distance here there).take 4
      = littleEndian 4 (longLength n) := List.take_left' (length_littleEndian _ _)
  have hdrop : (littleEndian 4 (longLength n) ++ distance here there).drop 4
      = distance here there := List.drop_left' (length_littleEndian _ _)
  have hcons : littleEndian 4 (longLength n) ++ distance here there
      = UInt8.ofNat (longLength n) :: (littleEndian 3 (longLength n / 256) ++ distance here there) :=
    rfl
  rw [readSlot?, h.stretch_eq, Archive.slot, hn, if_neg (Nat.not_le.mpr hlen)]
  simp only [htake, hdrop, hlength, placeAt?_distance h.before h.small]
  rw [hcons]
  simp only [if_pos hmark, Option.map_some]

theorem Written.textAt?_eq (h : Written bytes here there s) : textAt? bytes here = some s := by
  rcases Nat.lt_or_ge slotSize (textBytes s).length with hlen | hlen
  · have htext := h.text
    rw [outside, if_neg (Nat.not_le.mpr hlen)] at htext
    rw [textAt?, h.readSlot?_outside hlen]
    simp only [htext.stretch_eq rfl, ofTextBytes?_textBytes]
  · rw [textAt?, h.readSlot?_inside hlen]
    exact ofTextBytes?_textBytes s

theorem Written.checkSlot_eq (h : Written bytes here there s) {limit : Nat}
    (hlimit : there + (outside (textBytes s)).length ≤ limit) :
    checkSlot bytes limit here there = some (there + (outside (textBytes s)).length) := by
  rcases Nat.lt_or_ge slotSize (textBytes s).length with hlen | hlen
  · rw [outside, if_neg (Nat.not_le.mpr hlen)] at hlimit ⊢
    rw [checkSlot, h.readSlot?_outside hlen, h.textAt?_eq]
    exact if_pos ⟨Nat.le_refl _, hlimit⟩
  · rw [outside, if_pos hlen, checkSlot, h.readSlot?_inside hlen, h.textAt?_eq]
    rfl

end

end Archive
end Gatehouse
