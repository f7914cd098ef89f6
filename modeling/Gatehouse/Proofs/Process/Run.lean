import Gatehouse.Process

/-!
Runs of a process. What a run has come to is told from its history alone: the limits in force, the
frames that are live, the bytes that an account has taken and given back. `Effect` says all that one
call can do, and what holds of every run follows from it.
-/
namespace Gatehouse

namespace Word

variable {w next : UInt64}

theorem toNat_lt_of_ne_largest (h : w ≠ largest) : w.toNat < UInt64.size - 1 := by
  have hne : w.toNat ≠ UInt64.size - 1 := fun heq =>
    h (UInt64.toNat_inj.mp (heq.trans toNat_largest.symm))
  have hlt : w.toNat < UInt64.size := w.toNat_lt
  omega

theorem exists_next (h : w ≠ largest) : ∃ next : UInt64, (next : Nat) = w + 1 := by
  have hlt := toNat_lt_of_ne_largest h
  refine ⟨w + 1, ?_⟩
  rw [UInt64.toNat_add]
  exact Nat.mod_eq_of_lt (Nat.add_lt_of_lt_sub hlt)

theorem eq_add_one (h : (next : Nat) = w + 1) : next = w + 1 := by
  rw [← UInt64.toNat_inj, UInt64.toNat_add, h]
  exact (Nat.mod_eq_of_lt (h ▸ next.toNat_lt)).symm

theorem ne_largest_of_add_one (h : (next : Nat) = w + 1) : w ≠ largest := by
  rintro rfl
  have hlt : next.toNat < UInt64.size := next.toNat_lt
  rw [h, toNat_largest] at hlt
  simp [UInt64.size] at hlt

end Word

namespace Ledger

variable {limits : Limits} {l : Ledger} {bytes : UInt64}

theorem charge_of_le
    (h : min (l.used.toNat + bytes.toNat) (UInt64.size - 1) ≤ limits.memory.toNat) :
    l.charge limits bytes = .ok ⟨Word.cappedAdd l.used bytes⟩ := by
  refine if_neg ?_
  rw [UInt64.lt_iff_toNat_lt, Word.toNat_cappedAdd]
  exact Nat.not_lt.mpr h

theorem charge_of_lt
    (h : limits.memory.toNat < min (l.used.toNat + bytes.toNat) (UInt64.size - 1)) :
    l.charge limits bytes = .error (.tooLarge (Word.cappedAdd l.used bytes) limits.memory) := by
  refine if_pos ?_
  rwa [UInt64.lt_iff_toNat_lt, Word.toNat_cappedAdd]

end Ledger

namespace Process

/-- The calls of a run with their answers, the latest first. -/
abbrev History (θ ι : Type) := List (Call θ ι × Answer)

variable {θ ι : Type}

/-- The limits in force: those that were installed last, or the ones at the start. -/
def inForce (b : Bounds) : History θ ι → Bounds
  | [] => b
  | (.install asked, .installed (.ok ())) :: _ => .ofLimits asked
  | _ :: earlier => inForce b earlier

/-- The bytes that an account has taken in charges that succeeded. -/
def charged [DecidableEq ι] (i : ι) : History θ ι → Nat
  | [] => 0
  | (.charge j bytes, .charged (.ok _)) :: earlier =>
    (if j = i then bytes.toNat else 0) + charged i earlier
  | _ :: earlier => charged i earlier

/-- The bytes that an account has given back. -/
def released [DecidableEq ι] (i : ι) : History θ ι → Nat
  | [] => 0
  | (.release j bytes, _) :: earlier => (if j = i then bytes.toNat else 0) + released i earlier
  | _ :: earlier => released i earlier

def live [DecidableEq θ] : History θ ι → List (Frame θ)
  | [] => []
  | (.enter t, .entered (.ok ())) :: earlier => ⟨t, earlier.length⟩ :: live earlier
  | (.leave f, _) :: earlier => (live earlier).erase f
  | _ :: earlier => live earlier

variable [DecidableEq θ] [DecidableEq ι]

/-- A call that may be made after a history: only a live frame is left, and no account gives back
more than it holds. -/
def Permitted (history : History θ ι) : Call θ ι → Prop
  | .leave f => f ∈ live history
  | .release i bytes => released i history + bytes.toNat ≤ charged i history
  | _ => True

/-- A run from limits `b`: its history, and the process that it leads to. -/
inductive Run (b : Bounds) : History θ ι → Process θ ι → Prop
  | start : Run b [] (fresh b)
  | step {history : History θ ι} {s s' : Process θ ι} {c : Call θ ι} {a : Answer}
      (h : Run b history s) (hc : Permitted history c) (hstep : s.step c = (a, s')) :
      Run b ((c, a) :: history) s'

inductive Effect (s : Process θ ι) : Call θ ι → Answer → Process θ ι → Prop
  | installed {asked : Limits} (h : asked.Valid) :
      Effect s (.install asked) (.installed (.ok ())) { s with bounds := .ofLimits asked }
  | notInstalled {asked : Limits} {e : BadLimit} (h : asked.validate = .error e) :
      Effect s (.install asked) (.installed (.error e)) s
  | entered {t : θ} {next : UInt64} (hnext : (next : Nat) = s.depth t + 1)
      (h : next ≤ s.bounds.depth) :
      Effect s (.enter t) (.entered (.ok ())) (s.setDepth t next)
  | tooDeep {t : θ} {next : UInt64} (hnext : (next : Nat) = s.depth t + 1)
      (h : s.bounds.depth < next) :
      Effect s (.enter t) (.entered (.error (.tooDeep next s.bounds.depth))) s
  | overflowed {t : θ} (h : s.depth t = Word.largest) : Effect s (.enter t) .overflowed s
  | left (f : Frame θ) {before : UInt64} (hbefore : (before : Nat) = s.depth f.thread - 1) :
      Effect s (.leave f) .left (s.setDepth f.thread before)
  | charged {i : ι} {bytes total : UInt64}
      (htotal : total.toNat = min ((s.account i).used.toNat + bytes.toNat) (UInt64.size - 1))
      (h : total.toNat ≤ s.bounds.memory.toNat) :
      Effect s (.charge i bytes) (.charged (.ok total)) (s.setAccount i ⟨total⟩)
  | tooLarge {i : ι} {bytes total : UInt64}
      (htotal : total.toNat = min ((s.account i).used.toNat + bytes.toNat) (UInt64.size - 1))
      (h : s.bounds.memory.toNat < total.toNat) :
      Effect s (.charge i bytes) (.charged (.error (.tooLarge total s.bounds.memory))) s
  | released {i : ι} {bytes rest : UInt64}
      (hrest : rest.toNat = (s.account i).used.toNat - bytes.toNat) :
      Effect s (.release i bytes) .released (s.setAccount i ⟨rest⟩)

section

variable {b : Bounds} {history : History θ ι} {s s' : Process θ ι} {c : Call θ ι} {a : Answer}

theorem step_install (s : Process θ ι) {asked : Limits} (h : asked.Valid) :
    s.step (.install asked) = (.installed (.ok ()), { s with bounds := .ofLimits asked }) := by
  simp only [step, s.bounds.apply_of_valid h]

theorem step_notInstalled (s : Process θ ι) {asked : Limits} {e : BadLimit}
    (h : asked.validate = .error e) : s.step (.install asked) = (.installed (.error e), s) := by
  simp only [step, s.bounds.apply_of_error h]

theorem step_enter (s : Process θ ι) {t : θ} {next : UInt64} (hnext : (next : Nat) = s.depth t + 1)
    (h : next ≤ s.bounds.depth) : s.step (.enter t) = (.entered (.ok ()), s.setDepth t next) := by
  have hentered : enterFrame s.bounds.current (s.depth t) = .ok (s.depth t + 1) := by
    rw [enterFrame, ← Word.eq_add_one hnext]
    exact if_neg (UInt64.not_lt.mpr h)
  simp only [step, if_neg (Word.ne_largest_of_add_one hnext), hentered, Word.eq_add_one hnext]

theorem step_tooDeep (s : Process θ ι) {t : θ} {next : UInt64}
    (hnext : (next : Nat) = s.depth t + 1) (h : s.bounds.depth < next) :
    s.step (.enter t) = (.entered (.error (.tooDeep next s.bounds.depth)), s) := by
  have hrefused : enterFrame s.bounds.current (s.depth t)
      = .error (.tooDeep (s.depth t + 1) s.bounds.depth) := by
    rw [enterFrame, ← Word.eq_add_one hnext]
    exact if_pos h
  simp only [step, if_neg (Word.ne_largest_of_add_one hnext), hrefused, Word.eq_add_one hnext]

theorem step_overflowed (s : Process θ ι) {t : θ} (h : s.depth t = Word.largest) :
    s.step (.enter t) = (.overflowed, s) := if_pos h

theorem step_charge (s : Process θ ι) {i : ι} {bytes : UInt64}
    (h : min ((s.account i).used.toNat + bytes.toNat) (UInt64.size - 1) ≤ s.bounds.memory.toNat) :
    s.step (.charge i bytes) = (.charged (.ok (Word.cappedAdd (s.account i).used bytes)),
      s.setAccount i ⟨Word.cappedAdd (s.account i).used bytes⟩) := by
  have hcharged : (s.account i).charge s.bounds.current bytes
      = .ok ⟨Word.cappedAdd (s.account i).used bytes⟩ := Ledger.charge_of_le h
  simp only [step, hcharged]

theorem step_tooLarge (s : Process θ ι) {i : ι} {bytes : UInt64}
    (h : s.bounds.memory.toNat < min ((s.account i).used.toNat + bytes.toNat) (UInt64.size - 1)) :
    s.step (.charge i bytes)
      = (.charged (.error (.tooLarge (Word.cappedAdd (s.account i).used bytes) s.bounds.memory)),
        s) := by
  have hrefused : (s.account i).charge s.bounds.current bytes
      = .error (.tooLarge (Word.cappedAdd (s.account i).used bytes) s.bounds.memory) :=
    Ledger.charge_of_lt h
  simp only [step, hrefused]

theorem effect_step (s : Process θ ι) (c : Call θ ι) : Effect s c (s.step c).1 (s.step c).2 := by
  cases c with
  | install asked =>
    cases hchecked : asked.validate with
    | ok _ =>
      have hvalid := asked.validate_eq_ok_iff.mp hchecked
      rw [s.step_install hvalid]
      exact .installed hvalid
    | error e =>
      rw [s.step_notInstalled hchecked]
      exact .notInstalled hchecked
  | enter t =>
    by_cases hlargest : s.depth t = Word.largest
    · rw [s.step_overflowed hlargest]
      exact .overflowed hlargest
    · obtain ⟨next, hnext⟩ := Word.exists_next hlargest
      by_cases h : next ≤ s.bounds.depth
      · rw [s.step_enter hnext h]
        exact .entered hnext h
      · rw [s.step_tooDeep hnext (UInt64.not_le.mp h)]
        exact .tooDeep hnext (UInt64.not_le.mp h)
  | leave f => exact .left f (Word.toNat_flooredSub _ _)
  | charge i bytes =>
    have htotal := Word.toNat_cappedAdd (s.account i).used bytes
    by_cases h : min ((s.account i).used.toNat + bytes.toNat) (UInt64.size - 1)
        ≤ s.bounds.memory.toNat
    · rw [s.step_charge h]
      exact .charged htotal (htotal ▸ h)
    · have hlt := Nat.lt_of_not_le h
      rw [s.step_tooLarge hlt]
      exact .tooLarge htotal (htotal ▸ hlt)
  | release i bytes => exact .released (Word.toNat_flooredSub _ _)

theorem effect_of_step (h : s.step c = (a, s')) : Effect s c a s' := by
  have heffect := s.effect_step c
  rwa [h] at heffect

theorem Run.bounds_eq (h : Run b history s) : s.bounds = inForce b history := by
  induction h with
  | start => rfl
  | step _ _ hstep ih => cases effect_of_step hstep <;> first | rfl | exact ih

end

end Process
end Gatehouse
