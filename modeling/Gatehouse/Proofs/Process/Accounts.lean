import Gatehouse.Proofs.Process.Run

/-!
The bytes that accounts hold. A sum of bytes that does not fit into a word is cut off at the largest
word, so an account is exact as long as what it holds has always fitted. Only a limit that is the
largest word itself lets more through: there a charge succeeds whatever it asks for, and what is cut
off is lost.
-/
namespace Gatehouse.Process

open Word (largest toNat_largest toNat_lt_of_ne_largest toNat_cappedAdd)

variable {θ ι : Type} [DecidableEq ι]

def Fits (i : ι) (history : History θ ι) : Prop :=
  ∀ earlier, earlier <:+ history → charged i earlier < released i earlier + UInt64.size

section

variable {history : History θ ι} {e : Call θ ι × Answer} {i : ι}

theorem Fits.now (h : Fits i history) : charged i history < released i history + UInt64.size :=
  h _ List.suffix_rfl

theorem Fits.before (h : Fits i (e :: history)) : Fits i history :=
  fun earlier hearlier => h earlier (hearlier.trans (List.suffix_cons e history))

theorem Fits.cons (h : Fits i history)
    (hnow : charged i (e :: history) < released i (e :: history) + UInt64.size) :
    Fits i (e :: history) := by
  intro earlier hearlier
  obtain rfl | hbefore := List.suffix_cons_iff.mp hearlier
  · exact hnow
  · exact h earlier hbefore

end

def Call.Concerns (i : ι) : Call θ ι → Prop
  | .charge j _ => j = i
  | .release j _ => j = i
  | _ => False

variable [DecidableEq θ]

/-- What a call does to one account and to the bytes that are counted for it. -/
inductive Booked (i : ι) (s s' : Process θ ι) (history history' : History θ ι) : Call θ ι → Prop
  | nothing {c : Call θ ι} (hused : s'.account i = s.account i)
      (hcharged : charged i history' = charged i history)
      (hreleased : released i history' = released i history) : Booked i s s' history history' c
  | charge {bytes : UInt64}
      (hused : (s'.account i).used.toNat
        = min ((s.account i).used.toNat + bytes.toNat) (UInt64.size - 1))
      (hbound : (s'.account i).used.toNat ≤ s.bounds.memory.toNat)
      (hcharged : charged i history' = bytes.toNat + charged i history)
      (hreleased : released i history' = released i history) :
      Booked i s s' history history' (.charge i bytes)
  | release {bytes : UInt64}
      (hused : (s'.account i).used.toNat = (s.account i).used.toNat - bytes.toNat)
      (hcharged : charged i history' = charged i history)
      (hreleased : released i history' = bytes.toNat + released i history) :
      Booked i s s' history history' (.release i bytes)

section

variable {b : Bounds} {history : History θ ι} {s s' : Process θ ι} {c : Call θ ι} {a : Answer}
  {i : ι}

theorem booked_of_step (i : ι) (history : History θ ι) (h : s.step c = (a, s')) :
    Booked i s s' history ((c, a) :: history) c := by
  cases effect_of_step h with
  | installed | notInstalled | entered | tooDeep | overflowed | left | tooLarge =>
    exact .nothing rfl rfl rfl
  | @charged j bytes total htotal hbound =>
    by_cases hj : j = i
    · subst hj
      exact .charge (by rwa [account_setAccount_self]) (by rwa [account_setAccount_self])
        (by rw [charged, if_pos rfl]) rfl
    · exact .nothing (account_setAccount_of_ne _ _ (Ne.symm hj))
        (by rw [charged, if_neg hj, Nat.zero_add]) rfl
  | @released j bytes rest hrest =>
    by_cases hj : j = i
    · subst hj
      exact .release (by rwa [account_setAccount_self]) rfl (by rw [released, if_pos rfl])
    · exact .nothing (account_setAccount_of_ne _ _ (Ne.symm hj)) rfl
        (by rw [released, if_neg hj, Nat.zero_add])

theorem account_of_not_concerns (h : s.step c = (a, s')) (hc : ¬ c.Concerns i) :
    s'.account i = s.account i := by
  cases booked_of_step i [] h with
  | nothing hused => exact hused
  | charge | release => exact absurd rfl hc

/-- While what an account holds fits into a word, it is what was charged and not released. -/
theorem Run.used_add_released (h : Run b history s) (hfits : Fits i history) :
    (s.account i).used.toNat + released i history = charged i history := by
  induction h with
  | start => rfl
  | @step history s s' c a h hc hstep ih =>
    have hexact := ih hfits.before
    have hnow := hfits.now
    cases booked_of_step i history hstep with
    | nothing hused hcharged hreleased => rwa [hused, hcharged, hreleased]
    | charge hused hbound hcharged hreleased =>
      -- The sum fits, so nothing of it is cut off.
      rw [hcharged, hreleased] at hnow
      rw [hused, hcharged, hreleased]
      omega
    | release hused hcharged hreleased =>
      -- No more is released than is held, so the difference is not cut off either.
      simp only [Permitted] at hc
      rw [hused, hcharged, hreleased]
      omega

/-- Under limits below the largest word, what an account holds always fits. -/
theorem Run.fits (h : Run b history s)
    (hlimits : ∀ earlier, earlier <:+ history → (inForce b earlier).memory ≠ largest) :
    Fits i history := by
  induction h with
  | start =>
    intro earlier hearlier
    obtain rfl := List.suffix_nil.mp hearlier
    simp [charged, released, UInt64.size]
  | @step history s s' c a h hc hstep ih =>
    have hbefore : Fits i history := ih fun earlier hearlier =>
      hlimits earlier (hearlier.trans (List.suffix_cons _ history))
    have hnow := hbefore.now
    refine hbefore.cons ?_
    cases booked_of_step i history hstep with
    | nothing _ hcharged hreleased => rwa [hcharged, hreleased]
    | charge hused hbound hcharged hreleased =>
      have hexact := h.used_add_released hbefore
      have hlimit := toNat_lt_of_ne_largest (hlimits history (List.suffix_cons _ history))
      rw [hused, h.bounds_eq] at hbound
      rw [hcharged, hreleased]
      omega
    | release _ hcharged hreleased =>
      rw [hcharged, hreleased]
      omega

/-- How an account is kept in a run. Where the limit is not the largest word, a charge succeeds
exactly if the sum does not pass it, and answers the sum; where it is, every charge succeeds. What
an account holds is exact while it fits into a word, as it does under smaller limits. Calls that do
not concern the account leave it alone, and so does a charge that is refused. -/
structure IsKept (b : Bounds) (history : History θ ι) (s : Process θ ι) (i : ι) : Prop where
  exact : Fits i history → (s.account i).used.toNat + released i history = charged i history
  fits : (∀ earlier, earlier <:+ history → (inForce b earlier).memory ≠ largest) → Fits i history
  accepted : ∀ bytes : UInt64,
    (s.account i).used.toNat + bytes.toNat ≤ (inForce b history).memory.toNat →
      ∃ total : UInt64, total.toNat = (s.account i).used.toNat + bytes.toNat
        ∧ s.step (.charge i bytes) = (.charged (.ok total), s.setAccount i ⟨total⟩)
  refused : ∀ bytes : UInt64,
    (inForce b history).memory.toNat < (s.account i).used.toNat + bytes.toNat →
    (inForce b history).memory ≠ largest →
      ∃ requested : UInt64,
        requested.toNat = min ((s.account i).used.toNat + bytes.toNat) (UInt64.size - 1)
        ∧ s.step (.charge i bytes)
          = (.charged (.error (.tooLarge requested (inForce b history).memory)), s)
  cutOff : ∀ bytes : UInt64, UInt64.size ≤ (s.account i).used.toNat + bytes.toNat →
    (inForce b history).memory = largest →
      s.step (.charge i bytes) = (.charged (.ok largest), s.setAccount i ⟨largest⟩)
  others : ∀ c : Call θ ι, ¬ c.Concerns i → (s.step c).2.account i = s.account i

/-- Accounts are kept in every run. -/
theorem accounts_of_run (h : Run b history s) (i : ι) : IsKept b history s i := by
  refine ⟨h.used_add_released, h.fits, fun bytes hsum => ?_, fun bytes hsum hlimit => ?_,
    fun bytes hsum hlimit => ?_, fun c hc => account_of_not_concerns rfl hc⟩
  · have hmemory : (inForce b history).memory.toNat < UInt64.size := UInt64.toNat_lt _
    rw [← h.bounds_eq] at hsum hmemory
    refine ⟨_, ?_, s.step_charge (by omega)⟩
    rw [toNat_cappedAdd]
    omega
  · have hmemory := toNat_lt_of_ne_largest hlimit
    rw [← h.bounds_eq] at hsum hmemory ⊢
    exact ⟨_, toNat_cappedAdd _ _, s.step_tooLarge (by omega)⟩
  · have htotal : Word.cappedAdd (s.account i).used bytes = largest := by
      rw [← UInt64.toNat_inj, toNat_cappedAdd, toNat_largest]
      omega
    have hmemory : s.bounds.memory.toNat = UInt64.size - 1 := by
      rw [h.bounds_eq, hlimit, toNat_largest]
    rw [s.step_charge (by omega), htotal]

end

def narrow : Limits := { Limits.standard with memory := 100 }

/-- One account takes 60 bytes and another takes 50. The limit is lowered to 100 bytes, the first
account is refused 50 more and gives back what it holds. -/
def twoAccounts : History Unit Bool :=
  [(.release true 60, .released), (.charge true 50, .charged (.error (.tooLarge 110 100))),
    (.install narrow, .installed (.ok ())), (.charge false 50, .charged (.ok 50)),
    (.charge true 60, .charged (.ok 60))]

/-- The first account holds nothing after that. It may take all of the limit but not more, whatever
the other account holds. -/
theorem accounts_twoAccounts : ∃ s : Process Unit Bool,
    Run (.ofLimits .standard) twoAccounts s ∧ (s.account true).used.toNat = 0
    ∧ (∃ total : UInt64, total.toNat = 100
      ∧ s.step (.charge true 100) = (.charged (.ok total), s.setAccount true ⟨total⟩))
    ∧ (∃ e, s.step (.charge true 101) = (.charged (.error e), s))
    ∧ (s.step (.charge true 100)).2.account false = s.account false := by
  have hrun : Run (.ofLimits .standard) twoAccounts _ :=
    .step (.step (.step (.step (.step .start trivial rfl) trivial rfl) trivial rfl) trivial rfl)
      (by unfold Permitted; decide) rfl
  have hkept := accounts_of_run hrun true
  have hfits : Fits true twoAccounts := by
    refine hkept.fits fun earlier hearlier => ?_
    simp only [twoAccounts, List.suffix_cons_iff, List.suffix_nil] at hearlier
    rcases hearlier with rfl | rfl | rfl | rfl | rfl | rfl <;> decide
  have hlimit : inForce (.ofLimits .standard) twoAccounts = .ofLimits narrow := rfl
  have hused := hkept.exact hfits
  have hzero := Nat.add_right_cancel (m := released true twoAccounts) (k := 0) (hused.trans rfl)
  obtain ⟨total, htotal, haccepted⟩ := hkept.accepted 100 (by rw [hzero, hlimit]; decide)
  obtain ⟨requested, -, hrefused⟩ := hkept.refused 101 (by rw [hzero, hlimit]; decide) (by decide)
  have hother := (accounts_of_run hrun false).others (.charge true 100) (by simp [Call.Concerns])
  exact ⟨_, hrun, hzero, ⟨total, by rw [htotal, hzero]; rfl, haccepted⟩, ⟨_, hrefused⟩, hother⟩

/-- Limits under which an account may hold as much as a word can tell. -/
def wide : Limits := { Limits.standard with memory := largest }

/-- An account takes all of that. -/
def full : History Unit Unit :=
  [(.charge () largest, .charged (.ok largest)), (.install wide, .installed (.ok ()))]

/-- An account that holds exactly the largest word is charged one byte more than the limit, and the
charge succeeds. The byte is lost: what the account holds is not what was charged. -/
theorem full_charged : ∃ s s' : Process Unit Unit,
    Run (.ofLimits .standard) full s
    ∧ (s.account ()).used.toNat + released () full = charged () full
    ∧ (inForce (.ofLimits .standard) full).memory.toNat
      < (s.account ()).used.toNat + (1 : UInt64).toNat
    ∧ s.step (.charge () 1) = (.charged (.ok largest), s')
    ∧ (s'.account ()).used.toNat + released () ((.charge () 1, .charged (.ok largest)) :: full)
      ≠ charged () ((.charge () 1, .charged (.ok largest)) :: full) :=
  ⟨_, _, .step (.step .start trivial rfl) trivial rfl, by decide, by decide, rfl, by decide⟩

end Gatehouse.Process
