import Mathlib.Data.List.Nodup
import Gatehouse.Proofs.Archive.ByteOrder
import Gatehouse.Proofs.Archive.RoundTrip
import Gatehouse.Store

/-!
Putting a store in the order of its names. The order is that of the bytes of the names, and entries
of one name stay in the order in which they stood. Nothing but this is known of a store whose names
repeat; where no name has two entries, the entries alone tell how they stand.
-/
namespace Gatehouse

/-- Entries, put in the order of the bytes of their names; those of one name stand as they stood. -/
structure InByteOrder (es sorted : List Entry) : Prop where
  perm : sorted.Perm es
  ordered : sorted.Pairwise fun a b => Archive.textBytes a.name ≤ Archive.textBytes b.name
  stable : ∀ name, sorted.filter (·.name = name) = es.filter (·.name = name)

namespace InByteOrder

variable {es es' sorted sorted' : List Entry}

theorem ordered_names (h : InByteOrder es sorted) : sorted.Pairwise fun a b => a.name ≤ b.name :=
  h.ordered.imp Archive.textBytes_le_iff.mp

theorem eq_of_mem_iff (h : InByteOrder es sorted) (h' : InByteOrder es' sorted')
    (hnames : (es.map (·.name)).Nodup) (hnames' : (es'.map (·.name)).Nodup)
    (hsame : ∀ e, e ∈ es ↔ e ∈ es') : sorted = sorted' := by
  have hperm : es.Perm es' :=
    (List.perm_ext_iff_of_nodup (.of_map _ hnames) (.of_map _ hnames')).mpr hsame
  refine List.Perm.eq_of_pairwise (fun a b ha hb hab hba => ?_) h.ordered_names h'.ordered_names
    (h.perm.trans (hperm.trans h'.perm.symm))
  have ha : a ∈ es := h.perm.mem_iff.mp ha
  have hb : b ∈ es := hperm.mem_iff.mpr (h'.perm.mem_iff.mp hb)
  exact List.inj_on_of_nodup_map hnames ha hb (String.le_antisymm hab hba)

end InByteOrder

namespace Store

variable {s : Store}

theorem inByteOrder_sorted (s : Store) : InByteOrder s.entries s.sorted.entries := by
  have htrans : ∀ a b c : Entry, decide (a.name ≤ b.name) = true → decide (b.name ≤ c.name) = true →
      decide (a.name ≤ c.name) = true := by
    intro a b c hab hbc
    exact decide_eq_true (String.le_trans (of_decide_eq_true hab) (of_decide_eq_true hbc))
  have htotal : ∀ a b : Entry, (decide (a.name ≤ b.name) || decide (b.name ≤ a.name)) = true := by
    intro a b
    simpa using String.le_total a.name b.name
  have hperm : s.sorted.entries.Perm s.entries := List.mergeSort_perm _ _
  refine ⟨hperm, ?_, fun name => ?_⟩
  · exact (List.pairwise_mergeSort htrans htotal s.entries).imp fun hle =>
      Archive.textBytes_le_iff.mpr (of_decide_eq_true hle)
  · -- Entries of one name are in order as they stand, so they are left so.
    have hequal : (s.entries.filter (·.name = name)).Pairwise
        fun a b => decide (a.name ≤ b.name) = true := by
      refine List.pairwise_of_forall_mem_list fun a ha b hb => ?_
      have ha : a.name = name := by simpa using (List.mem_filter.mp ha).2
      have hb : b.name = name := by simpa using (List.mem_filter.mp hb).2
      rw [ha, hb]
      exact decide_eq_true (String.le_refl _)
    have hsub := (List.sublist_mergeSort htrans htotal hequal List.filter_sublist).filter
      (fun e => decide (e.name = name))
    rw [List.filter_filter] at hsub
    simp only [Bool.and_self] at hsub
    exact (hsub.eq_of_length (hperm.filter _).length_eq.symm).symm

theorem sorted_sorted (s : Store) : s.sorted.sorted = s.sorted := by
  rw [sorted, List.mergeSort_of_pairwise]
  exact (inByteOrder_sorted s).ordered_names.imp decide_eq_true

end Store
end Gatehouse
