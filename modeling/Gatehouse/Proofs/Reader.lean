import Gatehouse.Proofs.Cst.Lays
import Gatehouse.Proofs.Lexeme
import Gatehouse.Reader

/-!
What readers answer. A reader leads from a place to a property if what it answers there has it
together with the place where it stops. This is closed under everything that readers are made of.
-/
namespace Gatehouse

def Cursor.row (s : Source) (c : Cursor) : Nat := s.row c.place

def Lexeme.Ahead (x : Lexeme) (c : Cursor) : Prop := c.place ≤ x.start ∧ x.start ≤ x.stop

namespace Reader

variable {α β : Type} {s : Source} {c : Cursor} {r t : Reader α} {f : α → Reader β} {g : α → β}
  {R R' : α → Cursor → Prop} {T : β → Cursor → Prop} {x : Lexeme} {e : Expect} {tag : Tag}
  {P : Cst → Prop}

/-- What the reader answers from a cursor on has the property, together with the cursor it ends
with. -/
def Leads (s : Source) (c : Cursor) (r : Reader α) (R : α → Cursor → Prop) : Prop :=
  ∀ a d, r s c = .ok (a, d) → R a d

def Looks (r : Reader α) : Prop := ∀ s c a d, r s c = .ok (a, d) → d = c

theorem bind_eq_ok {r : Reader α} {f : α → Reader β} {s : Source} {c c' : Cursor} {b : β}
    (h : (r >>= f) s c = .ok (b, c')) : ∃ a d, r s c = .ok (a, d) ∧ f a s d = .ok (b, c') := by
  change Reader.bind r f s c = .ok (b, c') at h
  unfold Reader.bind at h
  split at h
  · next a d heq => exact ⟨a, d, heq, h⟩
  · cases h

/-! ### From one place to another -/

theorem leads_mono (h : Leads s c r R) (hRR' : ∀ a d, R a d → R' a d) : Leads s c r R' :=
  fun a d hr => hRR' a d (h a d hr)

theorem leads_pure {a : α} (h : R a c) : Leads s c (pure a) R := by
  intro b d hb
  obtain ⟨rfl, rfl⟩ := Prod.mk.inj (Except.ok.inj hb)
  exact h

theorem leads_bind (hr : Leads s c r R) (hf : ∀ a d, R a d → Leads s d (f a) T) :
    Leads s c (r >>= f) T := by
  intro b d h
  obtain ⟨a, d', ha, hb⟩ := bind_eq_ok h
  exact hf a d' (hr a d' ha) b d hb

theorem leads_map (hr : Leads s c r R) (hg : ∀ a d, R a d → T (g a) d) :
    Leads s c (g <$> r) T :=
  leads_bind hr fun a d ha => leads_pure (hg a d ha)

theorem leads_look (hr : Looks r) (hf : ∀ a, Leads s c (f a) T) : Leads s c (r >>= f) T := by
  intro b d h
  obtain ⟨a, d', ha, hb⟩ := bind_eq_ok h
  obtain rfl := hr s c a d' ha
  exact hf a b d hb

theorem leads_peek {f : Lexeme → Reader β} (hf : ∀ x : Lexeme, x.Ahead c → Leads s c (f x) T) :
    Leads s c (peek e >>= f) T := by
  intro b d h
  obtain ⟨x, d', hx, hb⟩ := bind_eq_ok h
  obtain ⟨rfl, rfl⟩ := Prod.mk.inj (Except.ok.inj hx)
  exact hf _ (Lexeme.read_ahead s e _ _) b d hb

theorem leads_peekPast {f : Lexeme → Reader β}
    (hf : ∀ y : Lexeme, x.stop ≤ y.start ∧ y.start ≤ y.stop → Leads s c (f y) T) :
    Leads s c (peekPast e x >>= f) T := by
  intro b d h
  obtain ⟨y, d', hy, hb⟩ := bind_eq_ok h
  obtain ⟨rfl, rfl⟩ := Prod.mk.inj (Except.ok.inj hy)
  exact hf _ (Lexeme.read_ahead s e _ _) b d hb

theorem leads_cursor {f : Cursor → Reader β} (hf : Leads s c (f c) T) :
    Leads s c (cursor >>= f) T := by
  intro b d h
  obtain ⟨a, d', ha, hb⟩ := bind_eq_ok h
  obtain ⟨rfl, rfl⟩ := Prod.mk.inj (Except.ok.inj ha)
  exact hf b d hb

theorem leads_goTo {c' : Cursor} {f : Unit → Reader β} (hf : Leads s c' (f ()) T) :
    Leads s c (goTo c' >>= f) T := by
  intro b d h
  obtain ⟨a, d', ha, hb⟩ := bind_eq_ok h
  obtain ⟨rfl, rfl⟩ := Prod.mk.inj (Except.ok.inj ha)
  exact hf b d hb

theorem leads_skipTo {c' : Cursor} {f : Unit → Reader β} (hc' : c.place ≤ c'.place)
    (hf : (Monotone s.row → c.row s ≤ c'.row s) → Leads s c' (f ()) T) :
    Leads s c (goTo c' >>= f) T :=
  leads_goTo (hf fun hs => hs hc')

theorem leads_refuse : Leads s c (refuse x) R := fun a d h => by cases h

theorem leads_refuseHere : Leads s c refuseHere R := fun a d h => by cases h

theorem leads_orElse (hr : Leads s c r R) (ht : Leads s c t R) : Leads s c (orElse r t) R := by
  intro a d h
  unfold orElse at h
  split at h
  · next b heq =>
    obtain rfl := Except.ok.inj h
    exact hr a d heq
  · split at h
    · next b heq =>
      obtain rfl := Except.ok.inj h
      exact ht a d heq
    · split at h <;> cases h

theorem leads_iterate {σ : Type} {step : σ → Reader (σ ⊕ α)} (invariant : σ → Cursor → Prop)
    {a : σ} (ha : invariant a c) (hstep : ∀ a c, invariant a c →
      Leads s c (step a) fun next d => Sum.elim (invariant · d) (R · d) next) :
    Leads s c (iterate step a) R := by
  have hloop : ∀ n a c, invariant a c → Leads s c (loop step n a) R := by
    intro n
    induction n with
    | zero => exact fun _ _ _ => leads_refuseHere
    | succ n ih =>
      refine fun a c ha => leads_bind (hstep a c ha) fun next d hnext => ?_
      cases next with
      | inl b => exact ih b d hnext
      | inr b => exact leads_pure hnext
  exact fun b d h => hloop (s.size + 2) a c ha b d h

theorem looks_peek : Looks (peek e) := by
  intro s c a d h
  obtain ⟨-, rfl⟩ := Prod.mk.inj (Except.ok.inj h)
  rfl

theorem looks_pure {a : α} : Looks (pure a) := by
  intro s c b d h
  obtain ⟨-, rfl⟩ := Prod.mk.inj (Except.ok.inj h)
  rfl

theorem looks_bind (hr : Looks r) (hf : ∀ a, Looks (f a)) : Looks (r >>= f) := by
  intro s c b d h
  obtain ⟨a, d', ha, hb⟩ := bind_eq_ok h
  exact (hf a s d' b d hb).trans (hr s c a d' ha)

theorem looks_map (hr : Looks r) : Looks (g <$> r) := looks_bind hr fun _ => looks_pure

/-! ### Nodes -/

theorem leads_accept (hx : x.Ahead c) (h : ∀ span, P (.node tag none span [])) :
    Leads s c (accept x tag) fun t d =>
      Cst.Lays s P (c.row s) [t] (d.row s) ∧ d.place = x.stop := by
  intro t d ht
  obtain ⟨rfl, rfl⟩ := Prod.mk.inj (Except.ok.inj ht)
  refine ⟨⟨by simpa using h _, fun hs => Cst.laid_node.mpr ?_⟩, rfl⟩
  exact ⟨hs hx.1, Tag.orders_nil tag, .nil (hs hx.2)⟩

theorem leads_empty (h : ∀ span, P (.node tag none span [])) :
    Leads s c (empty tag) fun t d => Cst.Lays s P (c.row s) [t] (d.row s) := by
  intro t d ht
  obtain ⟨rfl, rfl⟩ := Prod.mk.inj (Except.ok.inj ht)
  refine ⟨by simpa using h _, fun _ => Cst.laid_node.mpr ?_⟩
  exact ⟨Nat.le_refl _, Tag.orders_nil tag, .nil (Nat.le_refl _)⟩

theorem leads_pass (hx : x.Ahead c) :
    Leads s c (pass x) fun _ d => Monotone s.row → c.row s ≤ d.row s := by
  intro a d h hs
  obtain ⟨-, rfl⟩ := Prod.mk.inj (Except.ok.inj h)
  exact hs (Nat.le_trans hx.1 hx.2)

theorem leads_passWithin (hx : x.Ahead c) :
    Leads s c (passWithin x) fun _ d => Monotone s.row → c.row s ≤ d.row s := by
  intro a d h hs
  obtain ⟨-, rfl⟩ := Prod.mk.inj (Except.ok.inj h)
  exact hs (Nat.le_trans hx.1 hx.2)

end Reader

end Gatehouse
