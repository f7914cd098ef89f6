import Gatehouse.Proofs.Linter.Admission

/-!
Safe trees: what a pass under the standard policy says of a tree as far as kinds and names go, put
so that it is taken apart along the tree.
-/
namespace Gatehouse

/-- Every node is of an admitted kind, no node imports single names, and where names are looked at
none is hidden. -/
inductive Tree.Safe : Tree → Prop
  | intro {t : Tree} (allowed : Policy.admitted t.kind = true) (whole : t.kind ≠ .importFrom)
      (names : t.kind ∈ [.name, .arg, .keyword, .functionDef, .attributeOf] →
        ∀ n ∈ t.ident, Linter.isHidden n = false)
      (decorators : ∀ d ∈ t.decorators, Safe d) (children : ∀ c ∈ t.children, Safe c) : Safe t

namespace Tree

section

variable {kind : Kind} {line : Nat} {ident : Option String} {ds cs : List Tree}

theorem Safe.allowed {t : Tree} (h : t.Safe) :
    Policy.admitted t.kind = true ∧ t.kind ≠ .importFrom := by
  cases h with
  | intro allowed whole => exact ⟨allowed, whole⟩

theorem Safe.children (h : (Tree.node kind line ident ds cs).Safe) : ∀ c ∈ cs, c.Safe := by
  cases h with
  | intro _ _ _ _ children => exact children

theorem Safe.decorators (h : (Tree.node kind line ident ds cs).Safe) : ∀ d ∈ ds, d.Safe := by
  cases h with
  | intro _ _ _ decorators => exact decorators

theorem Safe.name {n : String} (h : (Tree.node kind line (some n) ds cs).Safe)
    (hkind : kind ∈ [Kind.name, .arg, .keyword, .functionDef, .attributeOf]) :
    Linter.isHidden n = false := by
  cases h with
  | intro _ _ names => exact names hkind n rfl

theorem Safe.of_subset {cs' : List Tree} (h : (Tree.node kind line ident ds cs).Safe)
    (hsub : ∀ c ∈ cs', c ∈ cs) : (Tree.node kind line ident ds cs').Safe := by
  cases h with
  | intro allowed whole names decorators children =>
    exact .intro allowed whole names decorators fun c hc => children c (hsub c hc)

end

end Tree

namespace Linter

variable {r : Registry}

mutual
theorem safe_of_clean {above : List Tree} {decorates : Bool} : (t : Tree) →
    (∀ o ∈ t.occurrencesFrom above decorates, Clean .standard r o) → t.Safe
  | .node kind line ident ds cs, h => by
    rw [Tree.occurrencesFrom] at h
    have hself := h _ List.mem_cons_self
    have hchildren := safe_of_clean_all cs fun o ho =>
      h o (List.mem_cons_of_mem _ (List.mem_append_left _ ho))
    have hdecorators := safe_of_clean_all ds fun o ho =>
      h o (List.mem_cons_of_mem _ (List.mem_append_right _ ho))
    exact .intro hself.allowed hself.fromImport hself.names hdecorators hchildren

theorem safe_of_clean_all {above : List Tree} {decorates : Bool} : (ts : List Tree) →
    (∀ o ∈ Tree.occurrencesOf above decorates ts, Clean .standard r o) → ∀ t ∈ ts, t.Safe
  | [], _ => fun _ ht => by cases ht
  | u :: us, h => by
    rw [Tree.occurrencesOf] at h
    have hu := safe_of_clean u fun o ho => h o (List.mem_append_left _ ho)
    have hus := safe_of_clean_all us fun o ho => h o (List.mem_append_right _ ho)
    exact List.forall_mem_cons.mpr ⟨hu, hus⟩
end

theorem safe_of_check {t : Tree} (h : check .standard r t = .pass) : t.Safe :=
  safe_of_clean t (admissible_of_check_eq_pass h).clean

end Linter
end Gatehouse
