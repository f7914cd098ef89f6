import Gatehouse.Proofs.Linter.Notes

/-!
Which rules a node can breach. A refused node breaches one of four, whatever is in it; for any other
its kind tells. The rule about missing exports is breached by no node, and that about further
constructors by their marks alone.
-/
namespace Gatehouse

def Kind.rules : Kind → List Rule
  | .importModule => [.nestedImport, .unknownContract]
  | .assign => [.severalTargets, .keywordOverloading]
  | .functionDef => [.underscore, .severalDecorators, .invalidDecorator, .severalConstructors]
  | _ => [.underscore]

theorem Kind.underscore_mem_rules {k : Kind} (himport : k ≠ .importModule) (hassign : k ≠ .assign) :
    .underscore ∈ k.rules := by
  unfold rules
  split <;> simp_all

theorem Kind.unknownContract_not_mem_rules {k : Kind} (h : k ≠ .importModule) :
    .unknownContract ∉ k.rules := by
  unfold rules
  split <;> simp_all

theorem Kind.eq_assign_of_severalTargets {k : Kind} (h : .severalTargets ∈ k.rules) :
    k = .assign := by
  unfold rules at h
  split at h <;> simp_all

theorem Kind.noExport_not_mem_rules (k : Kind) : .noExport ∉ k.rules := by
  unfold rules
  split <;> decide

theorem Kind.severalConstructors_not_mem_rules {k : Kind} (h : k ≠ .functionDef) :
    .severalConstructors ∉ k.rules := by
  unfold rules
  split <;> simp_all

/-- The rules by which a node is refused with all that is in it. -/
def Rule.refusing : List Rule := [.illegalSyntax, .importFrom, .classDefinition, .asyncFunction]

namespace Linter

section

variable {p : Policy} {r : Registry} {o : Occurrence} {v : Violation} {n : Note}

theorem rule_of_refusal {t : Tree} (h : refusal? p t = some v) : v.rule ∈ Rule.refusing := by
  have hdefinition : ∀ k, (Violation.illegalDefinition k).rule ∈ Rule.refusing := by
    intro k
    by_cases hk : k = .classDef <;> simp [Violation.rule, hk, Rule.refusing]
  unfold refusal? at h
  split at h
  · rw [← Option.some.inj h]
    exact hdefinition _
  · rw [← Option.some.inj h]
    exact hdefinition _
  · split at h <;> (rw [← Option.some.inj h]; simp [Violation.rule, Rule.refusing])
  · split at h
    · cases h
    · rw [← Option.some.inj h]
      simp [Violation.rule, Rule.refusing]

theorem rule_of_mem_hiddenBreaches {t : Tree} (h : v ∈ hiddenBreaches t) :
    v.rule = .underscore := by
  have hnames : ∀ (names : List String) (f : String → Violation), (∀ n, (f n).rule = .underscore) →
      v ∈ names.map f → v.rule = .underscore := by
    intro names f hf hv
    obtain ⟨name, -, rfl⟩ := List.mem_map.mp hv
    exact hf name
  unfold hiddenBreaches at h
  split at h
  case h_6 =>
    split at h
    · exact hnames _ _ (fun _ => rfl) h
    · cases h
  case h_7 => cases h
  all_goals exact hnames _ _ (fun _ => rfl) h

theorem rule_of_mem_assignmentBreaches {t : Tree} (h : v ∈ assignmentBreaches p t) :
    v.rule = .severalTargets ∨ v.rule = .keywordOverloading := by
  unfold assignmentBreaches at h
  split at h
  · cases h
  · rcases List.mem_append.mp h with h | h
    · obtain ⟨cell, -, h⟩ := List.mem_flatMap.mp h
      rcases List.mem_append.mp h with h | h
      · split at h
        · exact Or.inl (by rw [List.mem_singleton.mp h]; rfl)
        · cases h
      · obtain ⟨k, -, h⟩ := List.mem_flatMap.mp h
        obtain ⟨name, -, rfl⟩ := List.mem_map.mp h
        exact Or.inr rfl
    · obtain ⟨name, -, rfl⟩ := List.mem_map.mp h
      exact Or.inr rfl

theorem rule_of_mem_importBreaches (h : v ∈ importBreaches r o) :
    v.rule = .nestedImport ∨ v.rule = .unknownContract := by
  unfold importBreaches at h
  split at h
  · obtain ⟨name, -, rfl⟩ := List.mem_map.mp h
    exact Or.inr rfl
  · obtain ⟨name, -, rfl⟩ := List.mem_map.mp h
    exact Or.inl rfl

theorem rule_of_mem_decoratorNotes {d : Tree} (h : n ∈ decoratorNotes p o d)
    (hv : n.violation? = some v) : v.rule = .invalidDecorator ∨ v.rule = .severalConstructors := by
  unfold decoratorNotes at h
  split at h
  · split at h
    · split at h
      · rw [List.mem_singleton.mp h] at hv
        cases hv
      · cases h
    · split at h
      · split at h
        · rw [List.mem_singleton.mp h] at hv
          rw [← Option.some.inj hv]
          exact Or.inr rfl
        · cases h
      · rw [List.mem_singleton.mp h] at hv
        rw [← Option.some.inj hv]
        exact Or.inl rfl
  · rw [List.mem_singleton.mp h] at hv
    rw [← Option.some.inj hv]
    exact Or.inl rfl

theorem rule_of_mem_functionNotes (h : n ∈ functionNotes p o) (hv : n.violation? = some v) :
    v.rule = .severalDecorators ∨ v.rule = .invalidDecorator ∨ v.rule = .severalConstructors := by
  rcases List.mem_append.mp h with h | h
  · split at h
    · rw [List.mem_singleton.mp h] at hv
      rw [← Option.some.inj hv]
      exact Or.inl rfl
    · cases h
  · obtain ⟨d, -, h⟩ := List.mem_flatMap.mp h
    exact Or.inr (rule_of_mem_decoratorNotes h hv)

/-- A node that is not refused breaches a rule for its kind. -/
theorem rule_of_mem_admittedNotes (h : n ∈ admittedNotes p r o) (hv : n.violation? = some v) :
    v.rule ∈ o.tree.kind.rules := by
  have hbreach : ∀ {vs : List Violation}, n ∈ vs.map Note.breach → v ∈ vs := by
    intro vs hn
    obtain ⟨w, hw, rfl⟩ := List.mem_map.mp hn
    rwa [← Option.some.inj hv]
  unfold admittedNotes at h
  split at h
  · next hk =>
    rw [hk]
    rcases rule_of_mem_importBreaches (hbreach h) with hrule | hrule <;> simp [hrule, Kind.rules]
  · next hk =>
    rw [hk]
    rcases rule_of_mem_assignmentBreaches (hbreach h) with hrule | hrule <;>
      simp [hrule, Kind.rules]
  · next hk =>
    rw [hk]
    rcases List.mem_append.mp h with h | h
    · simp [rule_of_mem_hiddenBreaches (hbreach h), Kind.rules]
    · rcases rule_of_mem_functionNotes h hv with hrule | hrule | hrule <;>
        simp [hrule, Kind.rules]
  · next himport hassign _ =>
    rw [rule_of_mem_hiddenBreaches (hbreach h)]
    exact Kind.underscore_mem_rules himport hassign

/-- A node never breaches the rule about missing exports. -/
theorem rule_ne_noExport_of_mem_notes (h : n ∈ notes p r o) (hv : n.violation? = some v) :
    v.rule ≠ .noExport := by
  intro hrule
  cases hrefused : refusal? p o.tree with
  | some w =>
    rw [notes_of_refusal hrefused] at h
    rw [List.mem_singleton.mp h] at hv
    have hmem := rule_of_refusal hrefused
    rw [Option.some.inj hv, hrule] at hmem
    exact absurd hmem (by decide)
  | none =>
    rw [notes_of_admitted hrefused] at h
    have hmem := rule_of_mem_admittedNotes h hv
    rw [hrule] at hmem
    exact Kind.noExport_not_mem_rules _ hmem

theorem rule_of_breach_mem_decoratorNotes {d : Tree}
    (h : .breach v ∈ decoratorNotes p o d) : v.rule = .invalidDecorator := by
  have hinvalid : .breach v ∈ [Note.breach (.statement .invalidDecorator d.line
      (d.dottedName.getD d.kind.label))] → v.rule = .invalidDecorator := by
    intro hv
    rw [Note.breach.inj (List.mem_singleton.mp hv)]
    rfl
  by_cases hk : d.kind = .name
  · cases hm : d.ident with
    | none => exact hinvalid (decoratorNotes_of_not_name (Or.inr hm) ▸ h)
    | some m =>
      rw [decoratorNotes_of_name hk hm] at h
      split at h
      · split at h <;> simp at h
      · split at h
        · split at h <;> simp at h
        · exact hinvalid h
  · exact hinvalid (decoratorNotes_of_not_name (Or.inl hk) ▸ h)

/-- A further constructor is told by its mark, and by no breach of a node beside it. -/
theorem rule_ne_severalConstructors_of_breach (h : .breach v ∈ notes p r o) :
    v.rule ≠ .severalConstructors := by
  intro hrule
  cases hrefused : refusal? p o.tree with
  | some w =>
    rw [notes_of_refusal hrefused, List.mem_singleton] at h
    have hmem := rule_of_refusal hrefused
    rw [← Note.breach.inj h, hrule] at hmem
    exact absurd hmem (by decide)
  | none =>
    rw [notes_of_admitted hrefused] at h
    by_cases hk : o.tree.kind = .functionDef
    · rw [admittedNotes_of_functionDef hk, functionNotes] at h
      rcases List.mem_append.mp h with h | h
      · obtain ⟨w, hw, heq⟩ := List.mem_map.mp h
        rw [← Note.breach.inj heq, rule_of_mem_hiddenBreaches hw] at hrule
        cases hrule
      rcases List.mem_append.mp h with h | h
      · split at h
        · rw [Note.breach.inj (List.mem_singleton.mp h)] at hrule
          cases hrule
        · cases h
      · obtain ⟨d, -, h⟩ := List.mem_flatMap.mp h
        rw [rule_of_breach_mem_decoratorNotes h] at hrule
        cases hrule
    · have hmem := rule_of_mem_admittedNotes h rfl
      rw [hrule] at hmem
      exact Kind.severalConstructors_not_mem_rules hk hmem

end

end Linter
end Gatehouse
