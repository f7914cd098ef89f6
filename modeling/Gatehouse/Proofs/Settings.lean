import Mathlib.Data.List.DropRight
import Mathlib.Data.Nat.Digits.Defs
import Mathlib.Tactic.Positivity
import Mathlib.Tactic.Ring
import Gatehouse.Settings

/-!
Which variables make settings. A limit is left as it is by a variable that is not set or blank, and
is given by one that writes a number between blanks; everything else is refused, and so is a number
that no limit can be. What is accepted can be put in force as it is.
-/
namespace Gatehouse

/-! ### Blanks at the ends of a text -/

namespace Text

theorem trim_eq_rdropWhile (cs : List Char) : trim cs = (cs.dropWhile isBlank).rdropWhile isBlank :=
  rfl

theorem exists_trim (cs : List Char) : ∃ before after, cs = before ++ trim cs ++ after
    ∧ (∀ c ∈ before, isBlank c = true) ∧ ∀ c ∈ after, isBlank c = true := by
  refine ⟨cs.takeWhile isBlank, (cs.dropWhile isBlank).rtakeWhile isBlank, ?_,
    fun c => List.mem_takeWhile_imp, fun c => List.mem_rtakeWhile_imp⟩
  rw [trim_eq_rdropWhile, List.append_assoc, List.rdropWhile_append_rtakeWhile,
    List.takeWhile_append_dropWhile]

theorem trim_eq_nil_iff (cs : List Char) : trim cs = [] ↔ ∀ c ∈ cs, isBlank c = true := by
  constructor
  · intro h c hc
    obtain ⟨before, after, hcs, hbefore, hafter⟩ := exists_trim cs
    rw [hcs, h, List.append_nil] at hc
    exact (List.mem_append.mp hc).elim (hbefore c) (hafter c)
  · intro h
    rw [trim_eq_rdropWhile, List.dropWhile_eq_nil_iff.mpr h]
    rfl

/-- A text without blanks is all that is left when blanks around it are trimmed off. -/
theorem trim_append {before cs after : List Char} (hbefore : ∀ c ∈ before, isBlank c = true)
    (hcs : ∀ c ∈ cs, isBlank c = false) (hafter : ∀ c ∈ after, isBlank c = true) :
    trim (before ++ cs ++ after) = cs := by
  rw [trim_eq_rdropWhile, List.append_assoc, List.dropWhile_append_of_pos hbefore]
  cases cs with
  | nil =>
    rw [List.nil_append, List.dropWhile_eq_nil_iff.mpr hafter]
    rfl
  | cons c cs =>
    have hfirst : ¬isBlank c = true := by simp [hcs c (by simp)]
    rw [List.cons_append, List.dropWhile_cons_of_neg hfirst, ← List.cons_append, List.rdropWhile,
      List.reverse_append, List.dropWhile_append_of_pos (by simpa using hafter),
      List.dropWhile_eq_self_iff.mpr, List.reverse_reverse]
    intro hlength
    rw [hcs _ (List.mem_reverse.mp (List.getElem_mem hlength))]
    exact Bool.false_ne_true

end Text

namespace Settings

/-! ### Numbers -/

def numberOf (ds : List Char) : Nat :=
  Nat.ofDigits 10 (ds.reverse.map fun c => c.toNat - '0'.toNat)

/-- A text writes a number: in digits, with or without a plus sign before them. -/
def Writes (cs : List Char) (n : Nat) : Prop :=
  ∃ ds, (cs = ds ∨ cs = '+' :: ds) ∧ ds ≠ [] ∧ (∀ c ∈ ds, isDigit c = true) ∧ n = numberOf ds

theorem numberOf_cons (c : Char) (cs : List Char) :
    numberOf (c :: cs) = (c.toNat - '0'.toNat) * 10 ^ cs.length + numberOf cs := by
  simp only [numberOf, List.reverse_cons, List.map_append, List.map_cons, List.map_nil,
    Nat.ofDigits_append, Nat.ofDigits_singleton, List.length_map, List.length_reverse]
  ring

theorem readDigits_eq_ok_iff {n m : Nat} {cs : List Char} (hn : n < UInt64.size) :
    readDigits n cs = .ok m ↔ (∀ c ∈ cs, isDigit c = true)
      ∧ m = n * 10 ^ cs.length + numberOf cs ∧ m < UInt64.size := by
  induction cs generalizing n with
  | nil =>
    simp only [readDigits, Except.ok.injEq, List.not_mem_nil, false_implies, implies_true,
      List.length_nil, pow_zero, mul_one, true_and, numberOf, List.reverse_nil, List.map_nil,
      Nat.ofDigits_nil, add_zero]
    exact ⟨fun h => ⟨h.symm, h ▸ hn⟩, fun h => h.1.symm⟩
  | cons c cs ih =>
    cases hdigit : isDigit c with
    | false => simp [readDigits, hdigit]
    | true =>
      set k := n * 10 + (c.toNat - '0'.toNat) with hk
      have hnumber : n * 10 ^ (c :: cs).length + numberOf (c :: cs)
          = k * 10 ^ cs.length + numberOf cs := by
        rw [numberOf_cons, List.length_cons, hk]
        ring
      have hread : readDigits n (c :: cs)
          = if UInt64.size ≤ k then .error .tooLarge else readDigits k cs := by
        simp [readDigits, hdigit, hk]
      rw [hread, List.forall_mem_cons, hnumber, hdigit]
      by_cases hlarge : UInt64.size ≤ k
      · -- Digits after these make the number no smaller.
        have hgrows : k ≤ k * 10 ^ cs.length := Nat.le_mul_of_pos_right k (by positivity)
        rw [if_pos hlarge]
        refine iff_of_false (by simp) ?_
        rintro ⟨-, hm, hlt⟩
        omega
      · rw [if_neg hlarge, ih (Nat.lt_of_not_le hlarge)]
        simp

theorem not_isDigit_plus : ¬isDigit '+' = true := by decide

theorem Writes.unique {cs : List Char} {n m : Nat} (hn : Writes cs n) (hm : Writes cs m) :
    n = m := by
  obtain ⟨ds, hds, -, hdigits, rfl⟩ := hn
  obtain ⟨es, hes, -, hothers, rfl⟩ := hm
  rcases hds with rfl | rfl <;> rcases hes with h | h
  · rw [h]
  · exact absurd (hdigits '+' (by simp [h])) not_isDigit_plus
  · exact absurd (hothers '+' (by simp [← h])) not_isDigit_plus
  · rw [(List.cons.inj h).2]

theorem readNumber_eq_ok_iff {cs : List Char} {n : Nat} :
    readNumber cs = .ok n ↔ Writes cs n ∧ n < UInt64.size := by
  have hzero : 0 < UInt64.size := by decide
  unfold readNumber
  split
  · refine iff_of_false (by simp) fun ⟨⟨ds, hds, hne, _⟩, _⟩ => ?_
    simp_all
  · refine iff_of_false (by simp) fun ⟨⟨ds, hds, hne, hdigits, _⟩, _⟩ => ?_
    rcases hds with rfl | h
    · exact absurd (hdigits '+' (by simp)) not_isDigit_plus
    · exact hne (List.cons.inj h).2.symm
  · next ds hne =>
    rw [readDigits_eq_ok_iff hzero, Nat.zero_mul, Nat.zero_add]
    constructor
    · rintro ⟨hdigits, rfl, hlt⟩
      exact ⟨⟨ds, .inr rfl, fun h => hne (by rw [h]), hdigits, rfl⟩, hlt⟩
    · rintro ⟨⟨es, hes, _, hdigits, rfl⟩, hlt⟩
      rcases hes with rfl | h
      · exact absurd (hdigits '+' (by simp)) not_isDigit_plus
      · obtain rfl := (List.cons.inj h).2
        exact ⟨hdigits, rfl, hlt⟩
  · next hempty hplus hsigned =>
    rw [readDigits_eq_ok_iff hzero, Nat.zero_mul, Nat.zero_add]
    constructor
    · rintro ⟨hdigits, rfl, hlt⟩
      exact ⟨⟨cs, .inl rfl, hempty, hdigits, rfl⟩, hlt⟩
    · rintro ⟨⟨es, hes, _, hdigits, rfl⟩, hlt⟩
      rcases hes with rfl | rfl
      · exact ⟨hdigits, rfl, hlt⟩
      · exact absurd rfl (hsigned es)

theorem isBlank_of_isDigit {c : Char} (h : isDigit c = true) : Text.isBlank c = false := by
  simp only [isDigit, Bool.and_eq_true, decide_eq_true_eq, Char.le_def, UInt32.le_iff_toNat_le] at h
  have hlow : 48 ≤ c.toNat := h.1
  have hhigh : c.toNat ≤ 57 := h.2
  simp only [Text.isBlank, Bool.or_eq_false_iff, Bool.and_eq_false_iff, decide_eq_false_iff_not,
    beq_eq_false_iff_ne]
  omega

theorem Writes.not_isBlank {cs : List Char} {n : Nat} (h : Writes cs n) :
    cs ≠ [] ∧ ∀ c ∈ cs, Text.isBlank c = false := by
  obtain ⟨ds, hds, hne, hdigits, -⟩ := h
  have hsolid : ∀ c ∈ ds, Text.isBlank c = false := fun c hc => isBlank_of_isDigit (hdigits c hc)
  rcases hds with rfl | rfl
  · exact ⟨hne, hsolid⟩
  · exact ⟨List.cons_ne_nil _ _, List.forall_mem_cons.mpr ⟨by decide, hsolid⟩⟩

/-! ### Variables -/

def Unset (lookUp : String → Option String) (variableName : String) : Prop :=
  ∀ value, lookUp variableName = some value → ∀ c ∈ value.toList, Text.isBlank c = true

def Gives (lookUp : String → Option String) (variableName : String) (n : Nat) : Prop :=
  ∃ value before cs after, lookUp variableName = some value
    ∧ value.toList = before ++ cs ++ after ∧ (∀ c ∈ before, Text.isBlank c = true)
    ∧ (∀ c ∈ after, Text.isBlank c = true) ∧ Writes cs n

section

variable {lookUp : String → Option String} {variableName value : String}

theorem gives_iff_writes (h : lookUp variableName = some value) {n : Nat} :
    Gives lookUp variableName n ↔ Writes (Text.trim value.toList) n := by
  constructor
  · rintro ⟨value', before, cs, after, hvalue, htext, hbefore, hafter, hcs⟩
    obtain rfl := Option.some.inj (h.symm.trans hvalue)
    rwa [htext, Text.trim_append hbefore hcs.not_isBlank.2 hafter]
  · intro hwrites
    obtain ⟨before, after, htext, hbefore, hafter⟩ := Text.exists_trim value.toList
    exact ⟨value, before, _, after, h, htext, hbefore, hafter, hwrites⟩

theorem unset_iff_trim (h : lookUp variableName = some value) :
    Unset lookUp variableName ↔ Text.trim value.toList = [] := by
  rw [Text.trim_eq_nil_iff]
  exact ⟨fun hunset => hunset value h, fun hblank value' h' =>
    Option.some.inj (h.symm.trans h') ▸ hblank⟩

theorem Gives.exists_value {n : Nat} (h : Gives lookUp variableName n) :
    ∃ value, lookUp variableName = some value := by
  obtain ⟨value, -, -, -, hvalue, -⟩ := h
  exact ⟨value, hvalue⟩

theorem Gives.unique {n m : Nat} (hn : Gives lookUp variableName n)
    (hm : Gives lookUp variableName m) : n = m := by
  obtain ⟨value, hvalue⟩ := hn.exists_value
  exact ((gives_iff_writes hvalue).mp hn).unique ((gives_iff_writes hvalue).mp hm)

theorem Gives.not_unset {n : Nat} (hn : Gives lookUp variableName n) :
    ¬Unset lookUp variableName := by
  obtain ⟨value, hvalue⟩ := hn.exists_value
  rw [unset_iff_trim hvalue]
  exact ((gives_iff_writes hvalue).mp hn).not_isBlank.1

/-- What is read of a variable: nothing if it is not set, else the number that it gives. -/
theorem number?_eq_ok_iff {r : Option Nat} : number? lookUp variableName = .ok r ↔
    (r = none ∧ Unset lookUp variableName)
      ∨ ∃ n, r = some n ∧ Gives lookUp variableName n ∧ n < UInt64.size := by
  unfold number?
  cases hvalue : lookUp variableName with
  | none =>
    have hunset : Unset lookUp variableName := fun value h => by simp [hvalue] at h
    have hnone : ∀ n, ¬Gives lookUp variableName n := fun n hn => hn.not_unset hunset
    simp [hunset, hnone, eq_comm]
  | some value =>
    simp only [unset_iff_trim hvalue, gives_iff_writes hvalue, List.isEmpty_iff]
    split
    · next hempty =>
      have hnone : ∀ n, ¬Writes [] n := fun n hn => hn.not_isBlank.1 rfl
      simp [hempty, hnone, eq_comm]
    · next hne =>
      simp only [hne, and_false, false_or, ← readNumber_eq_ok_iff]
      cases readNumber (Text.trim value.toList) <;> simp [eq_comm]

/-- A variable leaves things as they are or gives a number with a property. -/
def Sets (lookUp : String → Option String) (variableName : String) (P : Nat → Prop) : Prop :=
  Unset lookUp variableName ∨ ∃ n, Gives lookUp variableName n ∧ P n

/-- A value is taken from a variable: the usual one if it is not set, else the number that it gives
in a unit. -/
def Takes (lookUp : String → Option String) (variableName : String) (usual unit x : Nat) : Prop :=
  (Unset lookUp variableName → x = usual) ∧ ∀ n, Gives lookUp variableName n → x = n * unit

theorem sets_iff {P : Nat → Prop} (hP : ∀ n, P n → n < UInt64.size) :
    Sets lookUp variableName P
      ↔ ∃ r, number? lookUp variableName = .ok r ∧ ∀ n, r = some n → P n := by
  simp only [number?_eq_ok_iff]
  constructor
  · rintro (hunset | ⟨n, hgives, hn⟩)
    · exact ⟨none, .inl ⟨rfl, hunset⟩, by simp⟩
    · exact ⟨some n, .inr ⟨n, rfl, hgives, hP n hn⟩, by simpa using hn⟩
  · rintro ⟨r, ⟨-, hunset⟩ | ⟨n, rfl, hgives, -⟩, hr⟩
    · exact .inl hunset
    · exact .inr ⟨n, hgives, hr n rfl⟩

theorem takes_of_number? {r : Option Nat} {usual unit x : Nat}
    (h : number? lookUp variableName = .ok r) (hnone : r = none → x = usual)
    (hsome : ∀ n, r = some n → n < UInt64.size → x = n * unit) :
    Takes lookUp variableName usual unit x := by
  rcases number?_eq_ok_iff.mp h with ⟨rfl, hunset⟩ | ⟨n, rfl, hgives, hn⟩
  · exact ⟨fun _ => hnone rfl, fun n hn => absurd hunset hn.not_unset⟩
  · refine ⟨fun hunset => absurd hunset hgives.not_unset, fun m hm => ?_⟩
    rw [hm.unique hgives]
    exact hsome n rfl hn

end

/-! ### Settings -/

def limitsOf (depth seconds memory : Option Nat) : Limits :=
  { depth := (depth.map UInt64.ofNat).getD Limits.standard.depth
    nanos := (seconds.map (· * 1_000_000_000)).getD Limits.standard.nanos
    memory := (memory.map UInt64.ofNat).getD Limits.standard.memory }

theorem ofNat_ne_zero_iff {n : Nat} (h : n < UInt64.size) : UInt64.ofNat n ≠ 0 ↔ 0 < n := by
  have hn : (UInt64.ofNat n).toNat = n := Nat.mod_eq_of_lt h
  rw [Ne, ← UInt64.toNat_inj, hn, UInt64.toNat_zero, Nat.pos_iff_ne_zero]

theorem getD_ofNat_ne_zero_iff {r : Option Nat} {usual : UInt64} (husual : usual ≠ 0)
    (hr : ∀ n, r = some n → n < UInt64.size) :
    (r.map UInt64.ofNat).getD usual ≠ 0 ↔ ∀ n, r = some n → 0 < n := by
  cases r with
  | none => simpa using husual
  | some n => simp [ofNat_ne_zero_iff (hr n rfl)]

theorem valid_limitsOf_iff {depth seconds memory : Option Nat}
    (hdepth : ∀ n, depth = some n → n < UInt64.size)
    (hmemory : ∀ n, memory = some n → n < UInt64.size) :
    (limitsOf depth seconds memory).Valid ↔ (∀ n, depth = some n → 0 < n)
      ∧ (∀ n, seconds = some n → 0 < n ∧ n * 1_000_000_000 < UInt64.size)
      ∧ ∀ n, memory = some n → 0 < n := by
  have hnanos : (0 < (seconds.map (· * 1_000_000_000)).getD Limits.standard.nanos
      ∧ (seconds.map (· * 1_000_000_000)).getD Limits.standard.nanos < UInt64.size)
      ↔ ∀ n, seconds = some n → 0 < n ∧ n * 1_000_000_000 < UInt64.size := by
    cases seconds with
    | none => simp [Limits.standard, UInt64.size]
    | some n => simp
  have husual : Limits.standard.depth ≠ 0 ∧ Limits.standard.memory ≠ 0 := by decide
  rw [← hnanos, ← getD_ofNat_ne_zero_iff husual.1 hdepth, ← getD_ofNat_ne_zero_iff husual.2 hmemory,
    and_assoc]
  rfl

section

variable {lookUp : String → Option String} {s : Settings}

theorem number?_lt {variableName : String} {n : Nat}
    (h : number? lookUp variableName = .ok (some n)) : n < UInt64.size := by
  rcases number?_eq_ok_iff.mp h with ⟨h, -⟩ | ⟨m, h, -, hm⟩
  · cases h
  · rwa [Option.some.inj h]

def registryPathOf (lookUp : String → Option String) : String :=
  match lookUp registryVariable with
  | some value => if (Text.trim value.toList).isEmpty then standardRegistryPath else value
  | none => standardRegistryPath

theorem bind_eq_ok_iff {ε α β : Type} {x : Except ε α} {f : α → Except ε β} {b : β} :
    (x >>= f) = .ok b ↔ ∃ a, x = .ok a ∧ f a = .ok b := by
  cases x <;> simp [bind, Except.bind]

theorem ofVariables_eq_ok_iff : ofVariables lookUp = .ok s ↔
    ∃ depth seconds memory, number? lookUp depthVariable = .ok depth
      ∧ number? lookUp secondsVariable = .ok seconds ∧ number? lookUp memoryVariable = .ok memory
      ∧ (limitsOf depth seconds memory).Valid
      ∧ s = ⟨registryPathOf lookUp, limitsOf depth seconds memory⟩ := by
  simp only [ofVariables, bind_eq_ok_iff, exists_and_left]
  refine exists_congr fun depth => and_congr_right fun _ => exists_congr fun seconds =>
    and_congr_right fun _ => exists_congr fun memory => and_congr_right fun _ => ?_
  rw [← Limits.validate_eq_ok_iff]
  cases hcheck : (limitsOf depth seconds memory).validate with
  | ok _ =>
    simp only [limitsOf] at hcheck
    simp only [hcheck, true_and]
    exact ⟨fun h => (Except.ok.inj h).symm, fun h => congrArg Except.ok h.symm⟩
  | error e =>
    simp only [limitsOf] at hcheck
    simp [hcheck, throw, throwThe, MonadExceptOf.throw]

/-- Settings follow variables: each is the standard one where its variable is not set, and else what
the variable gives. -/
structure Follows (lookUp : String → Option String) (s : Settings) : Prop where
  path : (Unset lookUp registryVariable → s.registryPath = standardRegistryPath)
    ∧ (¬Unset lookUp registryVariable → lookUp registryVariable = some s.registryPath)
  depth : Takes lookUp depthVariable Limits.standard.depth.toNat 1 s.limits.depth.toNat
  nanos : Takes lookUp secondsVariable Limits.standard.nanos 1_000_000_000 s.limits.nanos
  memory : Takes lookUp memoryVariable Limits.standard.memory.toNat 1 s.limits.memory.toNat

theorem follows_path (lookUp : String → Option String) :
    (Unset lookUp registryVariable → registryPathOf lookUp = standardRegistryPath)
      ∧ (¬Unset lookUp registryVariable →
        lookUp registryVariable = some (registryPathOf lookUp)) := by
  unfold registryPathOf
  cases hvalue : lookUp registryVariable with
  | none => exact ⟨fun _ => rfl, fun h => absurd (fun value h' => by simp [hvalue] at h') h⟩
  | some value =>
    rw [unset_iff_trim hvalue]
    by_cases hempty : Text.trim value.toList = [] <;> simp [hempty]

theorem takes_word {variableName : String} {r : Option Nat} {usual : UInt64}
    (h : number? lookUp variableName = .ok r) :
    Takes lookUp variableName usual.toNat 1 ((r.map UInt64.ofNat).getD usual).toNat := by
  refine takes_of_number? h (fun hnone => by simp [hnone]) fun n hsome hn => ?_
  rw [hsome, Nat.mul_one]
  exact Nat.mod_eq_of_lt hn

theorem follows_of_ofVariables (h : ofVariables lookUp = .ok s) : Follows lookUp s := by
  obtain ⟨depth, seconds, memory, hdepth, hseconds, hmemory, -, rfl⟩ := ofVariables_eq_ok_iff.mp h
  exact ⟨follows_path lookUp, takes_word hdepth,
    takes_of_number? hseconds (fun hnone => by simp [limitsOf, hnone])
      fun n hsome _ => by simp [limitsOf, hsome], takes_word hmemory⟩

theorem exists_ofVariables_iff : (∃ s, ofVariables lookUp = .ok s) ↔
    Sets lookUp depthVariable (fun n => 0 < n ∧ n < UInt64.size)
      ∧ Sets lookUp secondsVariable (fun n => 0 < n ∧ n * 1_000_000_000 < UInt64.size)
      ∧ Sets lookUp memoryVariable fun n => 0 < n ∧ n < UInt64.size := by
  rw [sets_iff fun n hn => hn.2, sets_iff fun n hn => by omega, sets_iff fun n hn => hn.2]
  constructor
  · rintro ⟨s, h⟩
    obtain ⟨depth, seconds, memory, hdepth, hseconds, hmemory, hvalid, -⟩ :=
      ofVariables_eq_ok_iff.mp h
    obtain ⟨hdepth', hseconds', hmemory'⟩ := (valid_limitsOf_iff
      (fun n hn => number?_lt (hn ▸ hdepth)) fun n hn => number?_lt (hn ▸ hmemory)).mp hvalid
    exact ⟨⟨depth, hdepth, fun n hn => ⟨hdepth' n hn, number?_lt (hn ▸ hdepth)⟩⟩,
      ⟨seconds, hseconds, hseconds'⟩,
      ⟨memory, hmemory, fun n hn => ⟨hmemory' n hn, number?_lt (hn ▸ hmemory)⟩⟩⟩
  · rintro ⟨⟨depth, hdepth, hdepth'⟩, ⟨seconds, hseconds, hseconds'⟩, ⟨memory, hmemory, hmemory'⟩⟩
    have hvalid : (limitsOf depth seconds memory).Valid :=
      (valid_limitsOf_iff (fun n hn => (hdepth' n hn).2) fun n hn => (hmemory' n hn).2).mpr
        ⟨fun n hn => (hdepth' n hn).1, hseconds', fun n hn => (hmemory' n hn).1⟩
    exact ⟨_, ofVariables_eq_ok_iff.mpr
      ⟨depth, seconds, memory, hdepth, hseconds, hmemory, hvalid, rfl⟩⟩

/-- There are settings exactly if each limit is left as it is or given as a number in its range.
They follow the variables, and their limits are in force as they are once they have been asked for.
Limits that fail their check leave those in force alone. -/
theorem settings_installable (lookUp : String → Option String) :
    ((∃ s, ofVariables lookUp = .ok s) ↔
      Sets lookUp depthVariable (fun n => 0 < n ∧ n < UInt64.size)
        ∧ Sets lookUp secondsVariable (fun n => 0 < n ∧ n * 1_000_000_000 < UInt64.size)
        ∧ Sets lookUp memoryVariable fun n => 0 < n ∧ n < UInt64.size)
    ∧ (∀ s, ofVariables lookUp = .ok s → Follows lookUp s ∧ ∀ b : Bounds,
      (b.apply s.limits).1 = .ok () ∧ (b.apply s.limits).2.current = s.limits)
    ∧ ∀ (b : Bounds) (asked : Limits) (e : BadLimit), asked.validate = .error e →
      b.apply asked = (.error e, b) := by
  refine ⟨exists_ofVariables_iff, fun s h => ⟨follows_of_ofVariables h, fun b => ?_⟩,
    fun b asked e he => b.apply_of_error he⟩
  obtain ⟨depth, seconds, memory, -, -, -, hvalid, rfl⟩ := ofVariables_eq_ok_iff.mp h
  rw [b.apply_of_valid hvalid]
  exact ⟨rfl, Bounds.current_ofLimits hvalid⟩

end

/-- Variables of which one is blank, one gives a number between blanks and the rest are not set. -/
def overrides (variableName : String) : Option String :=
  if variableName = depthVariable then some "\u2003"
  else if variableName = secondsVariable then some " +2\u3000"
  else none

/-- Two seconds are allowed under those variables, and put in force to the nanosecond. A number of
seconds that does not fit into nanoseconds is refused. -/
theorem settings_overrides :
    (∃ s, ofVariables overrides = .ok s ∧ s.limits.depth.toNat = 1024
      ∧ s.limits.nanos = 2_000_000_000
      ∧ ((Bounds.ofLimits .standard).apply s.limits).2.current = s.limits)
    ∧ ¬∃ s, ofVariables (fun _ => some "18446744074") = .ok s := by
  constructor
  · have hdepth : Unset overrides depthVariable :=
      (unset_iff_trim (show overrides depthVariable = some "\u2003" from rfl)).mpr (by decide)
    have hseconds : Gives overrides secondsVariable 2 :=
      ⟨" +2\u3000", [' '], ['+', '2'], "\u3000".toList, rfl, by decide, List.all_eq_true.mp rfl,
        List.all_eq_true.mp rfl, ['2'], .inr rfl, by decide, List.all_eq_true.mp rfl, by decide⟩
    have hnone : overrides memoryVariable = none := rfl
    have hmemory : Unset overrides memoryVariable := fun value h => by simp [hnone] at h
    obtain ⟨hexists, hfollows, -⟩ := settings_installable overrides
    obtain ⟨s, hs⟩ := hexists.mpr ⟨.inl hdepth, .inr ⟨2, hseconds, by decide⟩, .inl hmemory⟩
    obtain ⟨hfollow, hinstall⟩ := hfollows s hs
    exact ⟨s, hs, hfollow.depth.1 hdepth, hfollow.nanos.2 2 hseconds, (hinstall _).2⟩
  · have hseconds : Gives (fun _ => some "18446744074") secondsVariable 18446744074 :=
      ⟨_, [], "18446744074".toList, [], rfl, by decide, List.all_eq_true.mp rfl,
        List.all_eq_true.mp rfl, _, .inl rfl, by decide, List.all_eq_true.mp rfl, by decide⟩
    rw [(settings_installable _).1]
    rintro ⟨-, hunset | ⟨n, hn, -, hrange⟩, -⟩
    · exact hseconds.not_unset hunset
    · rw [hn.unique hseconds] at hrange
      exact absurd hrange (by decide)

end Settings
end Gatehouse
