import Gatehouse.Proofs.Search
import Gatehouse.Store

/-!
Stores whose entries stand in the strict order of their names. Putting an entry in such a store
splits it at the name of the entry, and everything else about the order follows from that.
-/
namespace Gatehouse.Store

/-- The entries stand in the strict order of their names, so no name has two. -/
def Sorted (s : Store) : Prop := s.entries.Pairwise (fun a b => a.name < b.name)

theorem compare_eq_lt_iff {a b : String} : compare a b = .lt ↔ a < b :=
  compareOfLessAndEq_eq_lt

theorem compare_eq_gt_iff {a b : String} : compare a b = .gt ↔ b < a :=
  compareOfLessAndEq_eq_gt String.le_antisymm String.le_total String.not_le a b

section

variable {s : Store}

theorem compareAt_of_lt (name : String) {i : Nat} (hi : i < s.entries.length) :
    s.compareAt name i = compare s.entries[i].name name := by
  simp [compareAt, hi]

theorem Sorted.ordered (h : s.Sorted) (name : String) :
    Search.Ordered (s.compareAt name) s.size := by
  intro i j hij hj hne
  have hi : i < s.entries.length := Nat.lt_trans hij hj
  have hlt : s.entries[i].name < s.entries[j].name := List.pairwise_iff_getElem.mp h i j hi hj hij
  rw [compareAt_of_lt name hj, ne_eq, compare_eq_gt_iff, String.not_lt] at hne
  rw [compareAt_of_lt name hi, compare_eq_lt_iff, ← String.not_le]
  exact fun hle => String.not_le.mpr hlt (String.le_trans hne hle)

theorem get?_eq_some {e : Entry} {name : String} (h : s.get? name = some e) :
    e ∈ s.entries ∧ e.name = name := by
  obtain ⟨i, hfound, hi⟩ := Option.bind_eq_some_iff.mp h
  cases hsearch : s.search name with
  | missing j =>
    rw [hsearch] at hfound
    cases hfound
  | found j =>
    rw [hsearch] at hfound
    obtain rfl := Option.some.inj hfound
    obtain ⟨hlt, hcmp⟩ := Search.run_eq_found hsearch
    obtain ⟨hlen, rfl⟩ := List.getElem?_eq_some_iff.mp hi
    rw [compareAt_of_lt name hlen] at hcmp
    exact ⟨List.getElem_mem hlen, Std.LawfulEqOrd.eq_of_compare hcmp⟩

theorem Sorted.get?_of_mem (h : s.Sorted) {e : Entry} (he : e ∈ s.entries) :
    s.get? e.name = some e := by
  obtain ⟨i, hi, rfl⟩ := List.mem_iff_getElem.mp he
  have hcmp : s.compareAt s.entries[i].name i = .eq := by
    rw [compareAt_of_lt _ hi]
    exact Std.ReflOrd.compare_self
  have hrun := Search.run_eq_found_of_eq (h.ordered _) hi hcmp
  simp [get?, search, hrun, Place.found?, hi]

theorem Sorted.contains_iff (h : s.Sorted) {name : String} :
    s.contains name = true ↔ ∃ e ∈ s.entries, e.name = name := by
  rw [contains, Option.isSome_iff_exists]
  constructor
  · rintro ⟨e, he⟩
    exact ⟨e, get?_eq_some he⟩
  · rintro ⟨e, he, rfl⟩
    exact ⟨e, h.get?_of_mem he⟩

theorem insertIdx_length_append {α : Type} (before after : List α) (x : α) :
    (before ++ after).insertIdx before.length x = before ++ x :: after := by
  induction before with
  | nil => rfl
  | cons a before ih => simp [ih]

/-- Putting an entry in a store in order splits the store at its name. -/
theorem Sorted.insert_split (h : s.Sorted) (e : Entry) : ∃ before after,
    (∀ x ∈ before, x.name < e.name) ∧ (∀ x ∈ after, e.name < x.name)
    ∧ (s.entries = before ++ after ∨ ∃ old, old.name = e.name ∧ s.entries = before ++ old :: after)
    ∧ s.insert e = (⟨before ++ e :: after⟩, before.length) := by
  cases hsearch : s.search e.name with
  | found i =>
    obtain ⟨hi, hcmp⟩ := Search.run_eq_found hsearch
    have hlen : i < s.entries.length := hi
    rw [compareAt_of_lt e.name hlen] at hcmp
    have hname : s.entries[i].name = e.name := Std.LawfulEqOrd.eq_of_compare hcmp
    have hsplit : s.entries = s.entries.take i ++ s.entries[i] :: s.entries.drop (i + 1) := by
      rw [List.getElem_cons_drop, List.take_append_drop]
    have hsorted := h
    rw [Sorted, hsplit, List.pairwise_append, List.pairwise_cons] at hsorted
    obtain ⟨-, ⟨hafter, -⟩, hbefore⟩ := hsorted
    refine ⟨s.entries.take i, s.entries.drop (i + 1), ?_, ?_, Or.inr ⟨_, hname, hsplit⟩, ?_⟩
    · exact fun x hx => hname ▸ hbefore x hx _ List.mem_cons_self
    · exact fun x hx => hname ▸ hafter x hx
    · simp only [insert, hsearch, List.set_eq_take_append_cons_drop, if_pos hlen, List.length_take,
        Nat.min_eq_left (Nat.le_of_lt hlen)]
  | missing i =>
    obtain ⟨hi, hbefore, hafter⟩ := Search.run_eq_missing (h.ordered e.name) hsearch
    have hlen : i ≤ s.entries.length := hi
    refine ⟨s.entries.take i, s.entries.drop i, ?_, ?_,
      Or.inl (List.take_append_drop i s.entries).symm, ?_⟩
    · intro x hx
      obtain ⟨j, hj, rfl⟩ := List.mem_take_iff_getElem.mp hx
      have hji : j < i := by omega
      have hcmp := hbefore j hji
      rwa [compareAt_of_lt e.name (by omega), compare_eq_lt_iff] at hcmp
    · intro x hx
      obtain ⟨j, hj, rfl⟩ := List.mem_drop_iff_getElem.mp hx
      have hji : i + j < s.entries.length := by omega
      have hcmp := hafter (i + j) (by omega) hji
      rwa [compareAt_of_lt e.name hji, compare_eq_gt_iff] at hcmp
    · have hput := insertIdx_length_append (s.entries.take i) (s.entries.drop i) e
      rw [List.take_append_drop, List.length_take, Nat.min_eq_left hlen] at hput
      simp only [insert, hsearch, hput, List.length_take, Nat.min_eq_left hlen]

theorem Sorted.insert (h : s.Sorted) (e : Entry) : (s.insert e).1.Sorted := by
  obtain ⟨before, after, hbefore, hafter, hentries, hinsert⟩ := h.insert_split e
  have hparts : before.Pairwise (fun a b => a.name < b.name)
      ∧ after.Pairwise (fun a b => a.name < b.name) := by
    rcases hentries with hs | ⟨old, -, hs⟩
    · rw [Sorted, hs, List.pairwise_append] at h
      exact ⟨h.1, h.2.1⟩
    · rw [Sorted, hs, List.pairwise_append, List.pairwise_cons] at h
      exact ⟨h.1, h.2.1.2⟩
  rw [hinsert, Sorted, List.pairwise_append, List.pairwise_cons]
  refine ⟨hparts.1, ⟨hafter, hparts.2⟩, fun a ha b hb => ?_⟩
  rcases List.mem_cons.mp hb with rfl | hb
  · exact hbefore a ha
  · exact String.lt_trans (hbefore a ha) (hafter b hb)

/-- An entry that is put in a store takes the place of the one of its name. -/
theorem Sorted.mem_insert_iff (h : s.Sorted) {e x : Entry} :
    x ∈ (s.insert e).1.entries ↔ x = e ∨ (x ∈ s.entries ∧ x.name ≠ e.name) := by
  obtain ⟨before, after, hbefore, hafter, hentries, hinsert⟩ := h.insert_split e
  have hne : ∀ y, y ∈ before ∨ y ∈ after → y.name ≠ e.name := by
    rintro y (hy | hy)
    · exact String.ne_of_lt (hbefore y hy)
    · exact (String.ne_of_lt (hafter y hy)).symm
  have hothers : x ∈ s.entries ∧ x.name ≠ e.name ↔ x ∈ before ∨ x ∈ after := by
    rcases hentries with hs | ⟨old, hold, hs⟩
    · rw [hs, List.mem_append]
      exact ⟨fun hx => hx.1, fun hx => ⟨hx, hne x hx⟩⟩
    · rw [hs, List.mem_append, List.mem_cons]
      constructor
      · rintro ⟨hx | rfl | hx, hname⟩
        · exact Or.inl hx
        · exact absurd hold hname
        · exact Or.inr hx
      · intro hx
        exact ⟨hx.imp_right Or.inr, hne x hx⟩
  rw [hinsert, hothers, List.mem_append, List.mem_cons]
  exact or_left_comm

theorem Sorted.sorted_eq (h : s.Sorted) : s.sorted = s := by
  have hle : s.entries.Pairwise (fun a b => decide (a.name ≤ b.name) = true) :=
    h.imp fun hlt => decide_eq_true (String.lt_asymm hlt)
  rw [sorted, List.mergeSort_of_pairwise hle]

end

end Gatehouse.Store
