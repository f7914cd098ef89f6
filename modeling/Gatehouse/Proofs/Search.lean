import Gatehouse.Search

/-!
What a search by halves answers when the items are in strict order: the item that is equal, or the
only place at which one could be put.
-/
namespace Gatehouse.Search

/-- Items in strict order, seen from what is looked for: before an item that is not greater every
item is less. -/
def Ordered (compare : Nat → Ordering) (size : Nat) : Prop :=
  ∀ i j, i < j → j < size → compare j ≠ .gt → compare i = .lt

theorem narrow_congr {f g : Nat → Ordering} {base size : Nat}
    (h : ∀ i < base + size, f i = g i) : narrow f base size = narrow g base size := by
  fun_induction narrow f base size with
  | case1 base size hs => rw [narrow, dif_pos hs]
  | case2 base size hs half hlt ih =>
    have hhalf := h (base + half) (by omega)
    simp only [dite_eq_ite, hhalf] at ih ⊢
    rw [ih fun i hi => h i (by split at hi <;> omega), narrow.eq_1 g base, dif_neg hs]

theorem run_congr {f g : Nat → Ordering} {size : Nat} (h : ∀ i < size, f i = g i) :
    run f size = run g size := by
  unfold run
  split
  next => rfl
  next hs =>
    have hlt : narrow g 0 size < size := narrow_lt g (Nat.pos_of_ne_zero hs) (by omega)
    have hsame : narrow f 0 size = narrow g 0 size := narrow_congr (by simpa using h)
    simp only [hsame, h _ hlt]

/-- The item to which a search is narrowed is not greater, unless it is the first, and all items
after it are greater. -/
theorem narrow_spec {compare : Nat → Ordering} {base size : Nat} (hsize : 0 < size)
    (hordered : Ordered compare (base + size)) :
    base ≤ narrow compare base size
      ∧ (narrow compare base size = base ∨ compare (narrow compare base size) ≠ .gt)
      ∧ ∀ j, narrow compare base size < j → j < base + size → compare j = .gt := by
  fun_induction narrow compare base size with
  | case1 base size h => exact ⟨Nat.le_refl _, Or.inl rfl, fun j _ _ => by omega⟩
  | case2 base size h half hlt ih =>
    have hhalf : 0 < half ∧ half < size := by omega
    by_cases hgt : compare (base + half) = .gt
    · -- What lies in the upper half is greater, for it comes after an item that is.
      simp only [hgt, if_true, dite_true] at ih ⊢
      have habove : ∀ j, base + half ≤ j → j < base + size → compare j = .gt := by
        intro j hj hjs
        rcases Nat.eq_or_lt_of_le hj with rfl | hj
        · exact hgt
        · refine Decidable.byContradiction fun hne => ?_
          rw [hordered _ _ hj hjs hne] at hgt
          cases hgt
      obtain ⟨hle, hself, hrest⟩ := ih (by omega) (fun i j hij hj => hordered i j hij (by omega))
      refine ⟨hle, hself, fun j hj hjs => ?_⟩
      by_cases hin : j < base + (size - half)
      · exact hrest j hj hin
      · exact habove j (by omega) hjs
    · simp only [hgt, if_false, dite_false] at ih ⊢
      have hbound : base + half + (size - half) = base + size := by omega
      rw [hbound] at ih
      obtain ⟨hle, hself, hrest⟩ := ih (by omega) hordered
      refine ⟨by omega, Or.inr ?_, hrest⟩
      rcases hself with hself | hself
      · rwa [hself]
      · exact hself

theorem le_of_run_eq_missing {compare : Nat → Ordering} {size i : Nat}
    (h : run compare size = .missing i) : i ≤ size := by
  unfold run at h
  split at h
  next hs => exact Place.missing.inj h ▸ Nat.zero_le _
  next hs =>
    have hlt : narrow compare 0 size < size :=
      narrow_lt compare (Nat.pos_of_ne_zero hs) (by omega)
    simp only at h
    split at h
    next => cases h
    next => exact Place.missing.inj h ▸ hlt
    next => exact Place.missing.inj h ▸ Nat.le_of_lt hlt

/-- Where nothing is found, the items before the place are less and those from it on greater. -/
theorem run_eq_missing {compare : Nat → Ordering} {size i : Nat} (hordered : Ordered compare size)
    (h : run compare size = .missing i) : i ≤ size ∧ (∀ j, j < i → compare j = .lt)
      ∧ ∀ j, i ≤ j → j < size → compare j = .gt := by
  unfold run at h
  split at h
  next hs =>
    obtain rfl := Place.missing.inj h
    exact ⟨Nat.zero_le _, fun j hj => by omega, fun j _ hj => by omega⟩
  next hs =>
    have hpos : 0 < size := Nat.pos_of_ne_zero hs
    have hspec := narrow_spec hpos ((Nat.zero_add size).symm ▸ hordered)
    have hlt : narrow compare 0 size < size := narrow_lt compare hpos (by omega)
    obtain ⟨-, hself, hrest⟩ := hspec
    rw [Nat.zero_add] at hrest
    simp only at h
    split at h
    next => cases h
    next hcmp =>
      obtain rfl := Place.missing.inj h
      refine ⟨hlt, fun j hj => ?_, fun j hj hjs => hrest j hj hjs⟩
      rcases Nat.eq_or_lt_of_le (Nat.le_of_lt_succ hj) with rfl | hj
      · exact hcmp
      · exact hordered j _ hj hlt (by simp [hcmp])
    next hcmp =>
      obtain rfl := Place.missing.inj h
      have hzero : narrow compare 0 size = 0 := by
        rcases hself with hself | hself
        · exact hself
        · exact absurd hcmp hself
      refine ⟨Nat.le_of_lt hlt, fun j hj => by omega, fun j hj hjs => ?_⟩
      rcases Nat.eq_or_lt_of_le hj with rfl | hj
      · exact hcmp
      · exact hrest j hj hjs

/-- An item that is equal is found. -/
theorem run_eq_found_of_eq {compare : Nat → Ordering} {size i : Nat}
    (hordered : Ordered compare size) (hi : i < size) (heq : compare i = .eq) :
    run compare size = .found i := by
  cases hrun : run compare size with
  | found j =>
    obtain ⟨hj, hcmp⟩ := run_eq_found hrun
    rcases Nat.lt_trichotomy i j with hij | rfl | hij
    · simp [hordered i j hij hj (by simp [hcmp])] at heq
    · rfl
    · simp [hordered j i hij hi (by simp [heq])] at hcmp
  | missing j =>
    obtain ⟨-, hbefore, hfrom⟩ := run_eq_missing hordered hrun
    rcases Nat.lt_or_ge i j with hij | hij
    · simp [hbefore i hij] at heq
    · simp [hfrom i hij hi] at heq

end Gatehouse.Search
