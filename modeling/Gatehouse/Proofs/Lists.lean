import Mathlib.Data.List.Basic
import Mathlib.Data.List.Forall2

/-!
Maps that pass over some members of a list, members of two lists side by side, the first of what is
found, and names listed once each.
-/
namespace Gatehouse

theorem flatMap_filter {α β : Type} {p : α → Bool} {f : α → List β} {as : List α}
    (h : ∀ a ∈ as, p a = false → f a = []) : as.flatMap f = (as.filter p).flatMap f := by
  induction as with
  | nil => rfl
  | cons a as ih =>
    obtain ⟨ha, has⟩ := List.forall_mem_cons.mp h
    rw [List.flatMap_cons, ih has, List.filter_cons]
    split
    · rfl
    · next hp => rw [ha (Bool.eq_false_iff.mpr hp), List.nil_append]

theorem filterMap_eraseP {α β : Type} {q : α → Bool} {f : α → Option β} {as : List α}
    (h : ∀ a, q a = true → f a = none) : (as.eraseP q).filterMap f = as.filterMap f := by
  induction as with
  | nil => rfl
  | cons a as ih =>
    rw [List.eraseP_cons]
    cases hq : q a with
    | true => simp [h a hq]
    | false => simp [List.filterMap_cons, ih]

theorem forall_of_forall₂ {α β : Type} {R : α → β → Prop} {P : β → Prop} {as : List α}
    {bs : List β} (h : List.Forall₂ R as bs) (hR : ∀ a ∈ as, ∀ b, R a b → P b) : ∀ b ∈ bs, P b := by
  induction h with
  | nil => simp
  | cons h _ ih =>
    obtain ⟨ha, has⟩ := List.forall_mem_cons.mp hR
    exact List.forall_mem_cons.mpr ⟨ha _ h, ih has⟩

theorem exists_of_forall₂ {α β : Type} {R : α → β → Prop} {as : List α} {bs : List β}
    (h : List.Forall₂ R as bs) : ∀ a ∈ as, ∃ b ∈ bs, R a b := by
  induction h with
  | nil => simp
  | cons h _ ih =>
    refine List.forall_mem_cons.mpr ⟨⟨_, List.mem_cons_self, h⟩, fun a ha => ?_⟩
    obtain ⟨b, hb, h⟩ := ih a ha
    exact ⟨b, List.mem_cons_of_mem _ hb, h⟩

/-- Each member that a test picks gives one thing, and the others give nothing. So what is given
stands beside the members that are picked, in their order. -/
theorem forall₂_filter_flatMap {α β γ : Type} {R : α → β → Prop} {S : α → γ → Prop} {p : α → Bool}
    {g : β → List γ} {as : List α} {bs : List β} (h : List.Forall₂ R as bs)
    (hpick : ∀ a b, R a b → p a = true → ∃ c, g b = [c] ∧ S a c)
    (hpass : ∀ a b, R a b → p a = false → g b = []) :
    List.Forall₂ S (as.filter p) (bs.flatMap g) := by
  induction h with
  | nil => exact .nil
  | @cons a b as bs hab _ ih =>
    rw [List.filter_cons, List.flatMap_cons]
    cases hp : p a with
    | true =>
      obtain ⟨c, hc, hS⟩ := hpick a b hab hp
      rw [if_pos rfl, hc]
      exact .cons hS ih
    | false =>
      rw [if_neg (by simp), hpass a b hab hp]
      exact ih

theorem foldl_or_head? {α : Type} (as : List α) (f : α → List String) (c : Option String) :
    as.foldl (fun c a => c.or (f a).head?) c = c.or (as.flatMap f).head? := by
  induction as generalizing c with
  | nil => simp
  | cons a as ih => rw [List.foldl_cons, ih, List.flatMap_cons, List.head?_append, Option.or_assoc]

def addOnce (names : List String) (name : String) : List String :=
  if name ∈ names then names else names ++ [name]

theorem addOnce_addOnce (names : List String) (name : String) :
    addOnce (addOnce names name) name = addOnce names name := by
  by_cases h : name ∈ names <;> simp [addOnce, h]

theorem nodup_addOnce {names : List String} (h : names.Nodup) (name : String) :
    (addOnce names name).Nodup := by
  unfold addOnce
  split
  · exact h
  · next hname =>
    refine List.nodup_append.mpr ⟨h, by simp, fun a ha b hb => ?_⟩
    rw [List.mem_singleton.mp hb]
    rintro rfl
    exact hname ha

theorem eraseDups_concat (names : List String) (name : String) :
    (names ++ [name]).eraseDups = addOnce names.eraseDups name := by
  rw [List.eraseDups_append, addOnce]
  by_cases h : name ∈ names <;> simp [h, List.removeAll, List.eraseDups_cons]

theorem foldl_addOnce (names more : List String) :
    more.foldl addOnce names.eraseDups = (names ++ more).eraseDups := by
  induction more generalizing names with
  | nil => simp
  | cons name more ih =>
    rw [List.foldl_cons, ← eraseDups_concat, ih, List.append_assoc, List.singleton_append]

theorem foldl_addOnce_eq_nil_iff {names : List String} :
    names.foldl addOnce [] = [] ↔ names = [] := by
  have h := foldl_addOnce [] names
  rw [List.eraseDups_nil, List.nil_append] at h
  rw [h, List.eq_nil_iff_forall_not_mem, List.eq_nil_iff_forall_not_mem]
  simp only [List.mem_eraseDups]

theorem nodup_eraseDups (names : List String) : names.eraseDups.Nodup := by
  have hfold : ∀ (more acc : List String), acc.Nodup → (more.foldl addOnce acc).Nodup := by
    intro more
    induction more with
    | nil => exact fun acc h => h
    | cons name more ih => exact fun acc h => ih _ (nodup_addOnce h name)
  rw [← List.nil_append names, ← foldl_addOnce]
  exact hfold names _ List.nodup_nil

end Gatehouse
