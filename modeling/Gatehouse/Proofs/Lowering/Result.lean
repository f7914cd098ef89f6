import Mathlib.Data.List.Forall2
import Gatehouse.Lowering

/-!
When lowering answers a tree and does not refuse: what its steps have answered by then.
-/
namespace Gatehouse.Lowering

section

variable {α β : Type}

theorem bind_eq_ok {x : Result α} {f : α → Result β} {b : β} :
    (x >>= f) = .ok b ↔ ∃ a, x = .ok a ∧ f a = .ok b := by
  cases x <;> simp [bind, Except.bind]

theorem map_eq_ok {x : Result α} {f : α → β} {b : β} :
    f <$> x = .ok b ↔ ∃ a, x = .ok a ∧ f a = b := by
  cases x <;> simp [Functor.map, Except.map]

theorem pure_eq_ok {a b : α} : (pure a : Result α) = .ok b ↔ a = b := by
  simp [pure, Except.pure]

theorem bind_eq_error {x : Result α} {f : α → Result β} {e : ReadError} :
    (x >>= f) = .error e ↔ x = .error e ∨ ∃ a, x = .ok a ∧ f a = .error e := by
  cases x <;> simp [bind, Except.bind]

theorem exists_of_isSome {x : Result α} (h : x.toOption.isSome = true) : ∃ a, x = .ok a := by
  cases x with
  | error e => cases h
  | ok a => exact ⟨a, rfl⟩

variable {f : α → Result β} {as : List α} {bs : List β}

theorem forall₂_of_mapM (h : as.mapM f = .ok bs) : List.Forall₂ (fun a b => f a = .ok b) as bs := by
  induction as generalizing bs with
  | nil =>
    obtain rfl := pure_eq_ok.mp h
    exact .nil
  | cons a as ih =>
    simp only [List.mapM_cons, bind_eq_ok, pure_eq_ok] at h
    obtain ⟨b, hb, bs, hbs, rfl⟩ := h
    exact .cons hb (ih hbs)

theorem mapM_of_forall₂ (h : List.Forall₂ (fun a b => f a = .ok b) as bs) : as.mapM f = .ok bs := by
  induction h with
  | nil => rfl
  | cons h _ ih =>
    rw [List.mapM_cons, h, ih]
    rfl

theorem exists_of_mapM_error {e : ReadError} (h : as.mapM f = .error e) :
    ∃ a ∈ as, f a = .error e := by
  induction as with
  | nil => cases h
  | cons a as ih =>
    rw [List.mapM_cons, bind_eq_error] at h
    rcases h with h | ⟨b, -, h⟩
    · exact ⟨a, List.mem_cons_self, h⟩
    · rcases bind_eq_error.mp h with h | ⟨bs, -, h⟩
      · obtain ⟨a', ha', he⟩ := ih h
        exact ⟨a', List.mem_cons_of_mem _ ha', he⟩
      · cases h

theorem length_of_mapM (h : as.mapM f = .ok bs) : bs.length = as.length :=
  (forall₂_of_mapM h).length_eq.symm

theorem exists_of_mapM (h : as.mapM f = .ok bs) : ∀ a ∈ as, ∃ b ∈ bs, f a = .ok b := by
  intro a ha
  obtain ⟨i, hi, rfl⟩ := List.getElem_of_mem ha
  have hi' : i < bs.length := by rwa [length_of_mapM h]
  exact ⟨bs[i], List.getElem_mem hi', (forall₂_of_mapM h).get hi hi'⟩

theorem forall_of_mapM {p : β → Prop} (h : as.mapM f = .ok bs)
    (hf : ∀ a ∈ as, ∀ b, f a = .ok b → p b) : ∀ b ∈ bs, p b := by
  intro b hb
  obtain ⟨i, hi, rfl⟩ := List.getElem_of_mem hb
  have hi' : i < as.length := by rwa [← length_of_mapM h]
  exact hf as[i] (List.getElem_mem hi') _ ((forall₂_of_mapM h).get hi' hi)

end

section

variable {c : Cst}

theorem required_eq_ok {r : Role} {d : Cst} : required c r = .ok d ↔ c.child? r = some d := by
  unfold required
  cases c.child? r <;> simp

theorem firstProper_eq_ok {d : Cst} : firstProper c = .ok d ↔ ∃ rest, c.proper = d :: rest := by
  unfold firstProper
  split
  · next e rest heq => simp [heq]
  · next heq => simp [heq, unsupported]

theorem operatorOf_eq_ok {look : String → Option Kind} {kind : Kind}
    (h : operatorOf look c = .ok kind) : look c.tag.name = some kind := by
  unfold operatorOf at h
  split at h
  next hkind => rw [hkind, Except.ok.inj h]
  next => cases h

/-- A link of a chain that is lowered has both operands, which are lowered in its place. -/
theorem operands_of_link {β : Type} {f : Cst → Result β} {operator : String} {pending : List Cst}
    {bs : List β} (hlink : isLink operator c = true)
    (h : (chainOperands operator (c :: pending)).mapM (fun r => r >>= f) = .ok bs) :
    ∃ l r, c.child? .left = some l ∧ c.child? .right = some r
      ∧ (chainOperands operator (l :: r :: pending)).mapM (fun r => r >>= f) = .ok bs := by
  have hthere : ∀ {r : Role}, [required c r].mapM (fun r => r >>= f) = .ok bs → c.child? r ≠ none := by
    intro r h hnone
    simp only [List.mapM_cons, bind_eq_ok, required_eq_ok, hnone] at h
    obtain ⟨b, ⟨d, hd, -⟩, -⟩ := h
    cases hd
  rw [chainOperands, if_pos hlink] at h
  split at h
  next hr => exact absurd hr (hthere h)
  next r hr =>
    split at h
    next hl => exact absurd hl (hthere h)
    next l hl => exact ⟨l, r, hl, hr, h⟩

end

/-! ### Branches -/

/-- What follows the block of a choice: nothing, an `else` on the same level, or a further condition
with what follows that, a level down. -/
inductive Branched (s : Source) : Nat → List Cst → List Tree → Prop
  | nil {levels : Nat} : Branched s levels [] []
  | otherwise {levels : Nat} {c : Cst} {rest : List Cst} {ts : List Tree}
      (htag : c.tag = .elseClause)
      (hts : body (fun b => b.proper.mapM (statement s levels)) c .body = .ok ts) :
      Branched s levels (c :: rest) ts
  | further {levels : Nat} {c test : Cst} {rest : List Cst} {condition : Tree}
      {statements others : List Tree} (htag : c.tag = .elifClause)
      (htest : required c .condition = .ok test)
      (hcondition : expression s levels test .load = .ok condition)
      (hstatements : body (fun b => b.proper.mapM (statement s levels)) c .consequence
        = .ok statements)
      (hothers : branches s levels rest = .ok others) :
      Branched s (levels + 1) (c :: rest)
        [.branch .ifElse c.line (condition :: statements ++ others)]

theorem branched {s : Source} {levels : Nat} {cs : List Cst} {ts : List Tree}
    (h : branches s levels cs = .ok ts) : Branched s levels cs ts := by
  cases cs with
  | nil =>
    rw [branches] at h
    obtain rfl := Except.ok.inj h
    exact .nil
  | cons c rest =>
    cases levels with
    | zero =>
      rw [branches] at h
      split at h
      · next htag => exact .otherwise htag h
      · cases h
      · simp [unsupported] at h
    | succ levels =>
      rw [branches] at h
      split at h
      · next htag => exact .otherwise htag h
      · next htag =>
        simp only [bind_eq_ok, pure_eq_ok] at h
        obtain ⟨test, htest, condition, hcondition, statements, hstatements, others, hothers,
          rfl⟩ := h
        exact .further htag htest hcondition hstatements hothers
      · simp [unsupported] at h

/-! ### Strings -/

section

variable {s : Source} {c : Cst}

def textKinds : List Kind := [.str, .bytes, .joinedStr]

theorem mem_textKinds_of_stringKind {kind : Kind} (h : stringKind s c = .ok kind) :
    kind ∈ textKinds := by
  obtain ⟨spelling, -, rfl⟩ := map_eq_ok.mp h
  unfold stringKindOf
  dsimp only
  split
  · decide
  · split <;> decide

theorem mem_textKinds_of_joinedKind {cs : List Cst} {kind joined : Kind}
    (h : joinedKind s cs kind = .ok joined) (hkind : kind ∈ textKinds) : joined ∈ textKinds := by
  induction cs generalizing kind with
  | nil => exact Except.ok.inj h ▸ hkind
  | cons c cs ih =>
    obtain ⟨next, hnext, h⟩ := bind_eq_ok.mp h
    refine ih h ?_
    unfold joinKinds
    split
    · decide
    · split
      · decide
      · exact hkind

end

end Gatehouse.Lowering
