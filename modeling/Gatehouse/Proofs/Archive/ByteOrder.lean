import Gatehouse.Proofs.Archive.Slots

/-!
The order of texts is the order of their bytes. Texts are compared character by character, and the
bytes of a character that comes before another come before the bytes of the other, whatever stands
after them.
-/
namespace Gatehouse.Archive

theorem ofNat_cons_lt_iff {m n : Nat} {xs ys : List UInt8} (hm : m < 256) (hn : n < 256) :
    UInt8.ofNat m :: xs < UInt8.ofNat n :: ys ↔ m < n ∨ m = n ∧ xs < ys := by
  rw [List.cons_lt_cons_iff, UInt8.lt_iff_toNat_lt, ← UInt8.toNat_inj, UInt8.toNat_ofNat_of_lt' hm,
    UInt8.toNat_ofNat_of_lt' hn]

theorem utf8EncodeChar_append_lt {c d : Char} (h : c < d) (xs ys : List UInt8) :
    String.utf8EncodeChar c ++ xs < String.utf8EncodeChar d ++ ys := by
  have hlt : c.val.toNat < d.val.toNat := h
  have hd : d.val.toNat < 0x110000 := by
    rcases d.valid with hd | hd
    · exact Nat.lt_trans hd (by decide)
    · exact hd.2
  unfold String.utf8EncodeChar
  generalize c.val.toNat = m at hlt
  generalize d.val.toNat = n at hlt hd
  -- The bytes hold digits of one number to the base 64.
  have hdigits : ∀ k < 0x110000, k / 64 / 64 = k / 4096 ∧ k / 4096 / 64 = k / 262144
      ∧ k / 262144 % 8 = k / 262144 := by omega
  have hm := hdigits m (Nat.lt_trans hlt hd)
  have hn := hdigits n hd
  dsimp only
  repeat' split
  all_goals
    simp (disch := omega) only [List.cons_append, List.nil_append, ofNat_cons_lt_iff]
    omega

theorem flatMap_utf8EncodeChar_lt {cs ds : List Char} (h : cs < ds) :
    cs.flatMap String.utf8EncodeChar < ds.flatMap String.utf8EncodeChar := by
  induction cs generalizing ds with
  | nil =>
    cases ds with
    | nil => exact absurd h (List.lt_irrefl _)
    | cons d ds =>
      obtain ⟨n, ns, hd, -, -⟩ := utf8EncodeChar_eq_map d
      rw [List.flatMap_cons, hd]
      exact List.nil_lt_cons _ _
  | cons c cs ih =>
    cases ds with
    | nil => exact absurd h (List.not_lt_nil _)
    | cons d ds =>
      rw [List.flatMap_cons, List.flatMap_cons]
      rcases List.cons_lt_cons_iff.mp h with hcd | ⟨rfl, hrest⟩
      · exact utf8EncodeChar_append_lt hcd _ _
      · exact List.append_left_lt (ih hrest)

theorem textBytes_lt_iff {a b : String} : textBytes a < textBytes b ↔ a < b := by
  have hlt : ∀ {a b : String}, a < b → textBytes a < textBytes b := fun h => by
    rw [textBytes_eq_flatMap, textBytes_eq_flatMap]
    exact flatMap_utf8EncodeChar_lt (String.lt_iff.mp h)
  refine ⟨fun h => Decidable.byContradiction fun hge => ?_, hlt⟩
  rcases Decidable.em (a = b) with rfl | hne
  · exact List.lt_irrefl _ h
  · have hba : b < a := String.not_le.mp fun hle => hne (String.le_antisymm hle (String.not_lt.mp hge))
    exact List.lt_asymm h (hlt hba)

theorem textBytes_le_iff {a b : String} : textBytes a ≤ textBytes b ↔ a ≤ b :=
  not_congr textBytes_lt_iff

end Gatehouse.Archive
