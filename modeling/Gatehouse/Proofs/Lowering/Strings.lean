import Mathlib.Data.List.TakeWhile
import Gatehouse.Proofs.Lowering.Result

/-!
What a literal is lowered to: one string, or strings side by side. That hangs on the letters before
the first quote of each of its strings and on nothing else, neither on what stands between the
quotes nor on the order of the strings.
-/
namespace Gatehouse

namespace Cst

/-- Is the node a string, or strings side by side? -/
def IsLiteral (c : Cst) : Prop := c.tag = .stringLiteral ∨ c.tag = .concatenatedString

/-- The strings that a literal is made of. -/
def strings (c : Cst) : List Cst := if c.tag = .concatenatedString then c.proper else [c]

theorem strings_perm {c d : Cst} (hc : c.tag = .concatenatedString) (hd : d.tag = c.tag)
    (h : d.children.Perm c.children) : d.strings.Perm c.strings := by
  simp only [strings, hd, hc, if_true]
  exact h.filter isProper

end Cst

namespace Lowering

/-- The letters that make an interpolated string of a string. -/
def interpolating : List Char := ['f', 'F', 't', 'T']

/-- The letters that make bytes of a string. -/
def binary : List Char := ['b', 'B']

def Marked (letters : List Char) (t : String) : Prop :=
  ∃ before c after, t.toList = before ++ c :: after ∧ c ∈ letters ∧ '"' ∉ before ∧ '\'' ∉ before

/-- The text of one of the strings has one of the letters before its first quote. -/
def Bears (s : Source) (letters : List Char) (parts : List Cst) : Prop :=
  ∃ d ∈ parts, ∃ t, text s d = .ok t ∧ Marked letters t

/-- What strings are that stand side by side: plain text if none bears any of the letters,
interpolated if one bears a letter of those, and otherwise bytes. -/
structure Classifies (s : Source) (parts : List Cst) (kind : Kind) : Prop where
  plain : kind = .str ↔ ¬Bears s (interpolating ++ binary) parts
  interpolated : kind = .joinedStr ↔ Bears s interpolating parts
  bytes : kind = .bytes ↔ Bears s binary parts ∧ ¬Bears s interpolating parts

/-! ### Letters before a quote -/

theorem mem_takeWhile_iff {α : Type} {p : α → Bool} {a : α} {as : List α} :
    a ∈ as.takeWhile p ↔
      ∃ before after, as = before ++ a :: after ∧ p a = true ∧ ∀ b ∈ before, p b = true := by
  constructor
  · intro h
    obtain ⟨before, after, hsplit⟩ := List.append_of_mem h
    refine ⟨before, after ++ as.dropWhile p, ?_, List.mem_takeWhile_imp h, fun b hb => ?_⟩
    · rw [← List.cons_append, ← List.append_assoc, ← hsplit, List.takeWhile_append_dropWhile]
    · exact List.mem_takeWhile_imp (hsplit ▸ List.mem_append_left _ hb)
  · rintro ⟨before, after, rfl, ha, hbefore⟩
    rw [List.takeWhile_append_of_pos hbefore, List.takeWhile_cons_of_pos ha]
    exact List.mem_append_right _ List.mem_cons_self

def beforeQuote (t : String) : List Char := t.toList.takeWhile (fun c => c != '"' && c != '\'')

theorem marked_iff {letters : List Char} {t : String}
    (hquotes : '"' ∉ letters ∧ '\'' ∉ letters) :
    Marked letters t ↔ ∃ c ∈ letters, c ∈ beforeQuote t := by
  simp only [beforeQuote, mem_takeWhile_iff, Bool.and_eq_true, bne_iff_ne]
  constructor
  · rintro ⟨before, c, after, ht, hc, hdouble, hsingle⟩
    refine ⟨c, hc, before, after, ht, ⟨?_, ?_⟩, fun b hb => ⟨?_, ?_⟩⟩
    · exact ne_of_mem_of_not_mem hc hquotes.1
    · exact ne_of_mem_of_not_mem hc hquotes.2
    · exact ne_of_mem_of_not_mem hb hdouble
    · exact ne_of_mem_of_not_mem hb hsingle
  · rintro ⟨c, hc, before, after, ht, -, hbefore⟩
    exact ⟨before, c, after, ht, hc, fun h => (hbefore _ h).1 rfl, fun h => (hbefore _ h).2 rfl⟩

theorem toLower_eq_iff {c l u : Char} (hu : 'A' ≤ u ∧ u ≤ 'Z') (hl : u.toLower = l) :
    c.toLower = l ↔ c = l ∨ c = u := by
  subst hl
  unfold Char.toLower
  simp only [Char.le_def, UInt32.le_iff_toNat_le, Char.ext_iff, ← UInt32.toNat_inj] at *
  grind [UInt32.toNat_add]

theorem mem_stringPrefix_iff {t : String} {l u : Char} (hu : 'A' ≤ u ∧ u ≤ 'Z')
    (hl : u.toLower = l) : l ∈ stringPrefix t ↔ l ∈ beforeQuote t ∨ u ∈ beforeQuote t := by
  simp only [stringPrefix, List.mem_map, toLower_eq_iff hu hl]
  rw [← beforeQuote]
  constructor
  · rintro ⟨c, hc, rfl | rfl⟩
    · exact Or.inl hc
    · exact Or.inr hc
  · rintro (h | h)
    · exact ⟨l, h, Or.inl rfl⟩
    · exact ⟨u, h, Or.inr rfl⟩

theorem marked_interpolating_iff {t : String} :
    Marked interpolating t ↔ 'f' ∈ stringPrefix t ∨ 't' ∈ stringPrefix t := by
  rw [marked_iff (by decide), mem_stringPrefix_iff (u := 'F') (by decide) (by decide),
    mem_stringPrefix_iff (u := 'T') (by decide) (by decide)]
  simp [interpolating, or_assoc]

theorem marked_binary_iff {t : String} : Marked binary t ↔ 'b' ∈ stringPrefix t := by
  rw [marked_iff (by decide), mem_stringPrefix_iff (u := 'B') (by decide) (by decide)]
  simp [binary]

theorem marked_append_iff {letters more : List Char} {t : String} :
    Marked (letters ++ more) t ↔ Marked letters t ∨ Marked more t := by
  simp only [Marked, List.mem_append]
  grind

theorem stringKindOf_eq (t : String) : stringKindOf t =
    if 'f' ∈ stringPrefix t ∨ 't' ∈ stringPrefix t then .joinedStr
    else if 'b' ∈ stringPrefix t then .bytes else .str := by
  simp [stringKindOf]

/-! ### Strings side by side -/

section

variable {s : Source} {c : Cst} {as bs : List Cst} {kind next joined : Kind}

theorem bears_letters_append_iff {letters more : List Char} :
    Bears s (letters ++ more) as ↔ Bears s letters as ∨ Bears s more as := by
  simp only [Bears, marked_append_iff, and_or_left, exists_or]

theorem bears_append_iff {letters : List Char} :
    Bears s letters (as ++ bs) ↔ Bears s letters as ∨ Bears s letters bs := by
  simp only [Bears, List.mem_append, or_and_right, exists_or]

theorem bears_of_perm {letters : List Char} (h : as.Perm bs) :
    Bears s letters as ↔ Bears s letters bs := by
  simp only [Bears, h.mem_iff]

theorem classifies_of_stringKind (h : stringKind s c = .ok kind) : Classifies s [c] kind := by
  obtain ⟨t, ht, rfl⟩ := map_eq_ok.mp h
  have hbears : ∀ letters, Bears s letters [c] ↔ Marked letters t := by
    intro letters
    simp [Bears, ht]
  constructor
  all_goals
    simp only [hbears, marked_append_iff, marked_interpolating_iff, marked_binary_iff,
      stringKindOf_eq]
    grind

theorem classifies_nil : Classifies s [] .str := by
  constructor <;> simp [Bears]

theorem Classifies.cases (h : Classifies s as kind) :
    kind = .str ∨ kind = .bytes ∨ kind = .joinedStr := by
  obtain ⟨hplain, hinterpolated, hbytes⟩ := h
  rw [bears_letters_append_iff] at hplain
  tauto

theorem Classifies.mem_textKinds (h : Classifies s as kind) : kind ∈ textKinds := by
  rcases h.cases with rfl | rfl | rfl <;> decide

theorem Classifies.unique (h : Classifies s as kind) (h' : Classifies s as next) : kind = next := by
  rcases h.cases with rfl | rfl | rfl
  · exact (h'.plain.mpr (h.plain.mp rfl)).symm
  · exact (h'.bytes.mpr (h.bytes.mp rfl)).symm
  · exact (h'.interpolated.mpr (h.interpolated.mp rfl)).symm

theorem Classifies.perm (h : Classifies s as kind) (hperm : as.Perm bs) : Classifies s bs kind where
  plain := by rw [h.plain, bears_of_perm hperm]
  interpolated := by rw [h.interpolated, bears_of_perm hperm]
  bytes := by rw [h.bytes, bears_of_perm hperm, bears_of_perm hperm]

theorem joinKinds_eq_iff (hkind : kind ∈ textKinds) (hnext : next ∈ textKinds) :
    (joinKinds kind next = .str ↔ kind = .str ∧ next = .str)
      ∧ (joinKinds kind next = .joinedStr ↔ kind = .joinedStr ∨ next = .joinedStr)
      ∧ (joinKinds kind next = .bytes ↔
        (kind = .bytes ∨ next = .bytes) ∧ kind ≠ .joinedStr ∧ next ≠ .joinedStr) := by
  revert next
  revert kind
  decide

theorem Classifies.append (has : Classifies s as kind) (hbs : Classifies s bs next) :
    Classifies s (as ++ bs) (joinKinds kind next) := by
  obtain ⟨hplain, hinterpolated, hbytes⟩ := joinKinds_eq_iff has.mem_textKinds hbs.mem_textKinds
  constructor
  · rw [hplain, has.plain, hbs.plain, bears_append_iff, not_or]
  · rw [hinterpolated, has.interpolated, hbs.interpolated, bears_append_iff]
  · rw [hbytes, ne_eq, ne_eq, has.bytes, hbs.bytes, has.interpolated, hbs.interpolated,
      bears_append_iff, bears_append_iff]
    grind

theorem Classifies.of_joinedKind (h : Classifies s as kind)
    (hjoined : joinedKind s bs kind = .ok joined) : Classifies s (as ++ bs) joined := by
  induction bs generalizing as kind with
  | nil =>
    obtain rfl := Except.ok.inj hjoined
    rwa [List.append_nil]
  | cons c cs ih =>
    obtain ⟨next, hnext, hjoined⟩ := bind_eq_ok.mp hjoined
    have hread := h.append (classifies_of_stringKind hnext)
    rw [List.append_cons]
    exact ih hread hjoined

theorem exists_joinedKind_iff :
    (∃ joined, joinedKind s as kind = .ok joined) ↔ ∀ d ∈ as, ∃ t, text s d = .ok t := by
  induction as generalizing kind with
  | nil => simp [joinedKind]
  | cons c cs ih =>
    constructor
    · rintro ⟨joined, h⟩
      obtain ⟨next, hnext, h⟩ := bind_eq_ok.mp h
      obtain ⟨t, ht, -⟩ := map_eq_ok.mp hnext
      exact List.forall_mem_cons.mpr ⟨⟨t, ht⟩, ih.mp ⟨joined, h⟩⟩
    · intro h
      obtain ⟨⟨t, ht⟩, hcs⟩ := List.forall_mem_cons.mp h
      obtain ⟨joined, hjoined⟩ := ih.mpr hcs
      exact ⟨joined, bind_eq_ok.mpr ⟨stringKindOf t, map_eq_ok.mpr ⟨t, ht, rfl⟩, hjoined⟩⟩

theorem encoding_of_stringKind {e : ReadError} (h : stringKind s c = .error e) :
    e = .encoding := by
  cases ht : s.text? c.span.start c.span.stop with
  | none => simpa [stringKind, text, ht, eq_comm] using h
  | some t => simp [stringKind, text, ht] at h

theorem encoding_of_joinedKind {e : ReadError} (h : joinedKind s as kind = .error e) :
    e = .encoding := by
  induction as generalizing kind with
  | nil => cases h
  | cons c cs ih =>
    rcases bind_eq_error.mp h with h | ⟨next, -, h⟩
    · exact encoding_of_stringKind h
    · exact ih h

theorem joinedKind_eq_ok_iff : joinedKind s as .str = .ok kind ↔
    (∀ d ∈ as, ∃ t, text s d = .ok t) ∧ Classifies s as kind := by
  constructor
  · intro h
    exact ⟨exists_joinedKind_iff.mp ⟨kind, h⟩, classifies_nil.of_joinedKind h⟩
  · rintro ⟨htexts, hkind⟩
    obtain ⟨joined, hjoined⟩ := exists_joinedKind_iff.mpr htexts
    rw [hjoined, hkind.unique (classifies_nil.of_joinedKind hjoined)]

theorem joinedKind_of_perm (h : as.Perm bs) : joinedKind s as .str = joinedKind s bs .str := by
  have hiff : ∀ joined, joinedKind s as .str = .ok joined ↔ joinedKind s bs .str = .ok joined := by
    intro joined
    simp only [joinedKind_eq_ok_iff, h.mem_iff]
    exact and_congr_right fun _ => ⟨fun hkind => hkind.perm h, fun hkind => hkind.perm h.symm⟩
  cases hjoined : joinedKind s as .str with
  | ok joined => rw [(hiff joined).mp hjoined]
  | error e =>
    cases hjoined' : joinedKind s bs .str with
    | ok joined => rw [(hiff joined).mpr hjoined'] at hjoined; cases hjoined
    | error e' => rw [encoding_of_joinedKind hjoined, encoding_of_joinedKind hjoined']

theorem joinKinds_str (h : kind ∈ textKinds) : joinKinds .str kind = kind := by
  revert kind
  decide

theorem joinedKind_singleton : joinedKind s [c] .str = stringKind s c := by
  rw [joinedKind]
  cases h : stringKind s c with
  | error e => rfl
  | ok next => exact congrArg Except.ok (joinKinds_str (mem_textKinds_of_stringKind h))

theorem expression_of_isLiteral (hc : c.IsLiteral) (levels : Nat) (context : Kind) :
    expression s (levels + 1) c context = (Tree.leaf · c.line) <$> joinedKind s c.strings .str := by
  rw [expression, ← bind_pure_comp]
  rcases hc with htag | htag
  · simp only [expressionNode, Cst.strings, htag, reduceCtorEq, if_false, joinedKind_singleton]
  · simp only [expressionNode, Cst.strings, htag, if_true]

theorem exists_expression_iff (hc : c.IsLiteral) (levels : Nat) (context : Kind) :
    (∃ t, expression s (levels + 1) c context = .ok t)
      ↔ ∀ d ∈ c.strings, ∃ t, text s d = .ok t := by
  have htexts : (∃ joined, joinedKind s c.strings .str = .ok joined)
      ↔ ∀ d ∈ c.strings, ∃ t, text s d = .ok t := exists_joinedKind_iff
  rw [expression_of_isLiteral hc, ← htexts]
  constructor
  · rintro ⟨t, ht⟩
    obtain ⟨joined, hjoined, -⟩ := map_eq_ok.mp ht
    exact ⟨joined, hjoined⟩
  · rintro ⟨joined, hjoined⟩
    exact ⟨.leaf joined c.line, map_eq_ok.mpr ⟨joined, hjoined, rfl⟩⟩

theorem classifies_of_expression (hc : c.IsLiteral) {levels : Nat} {context : Kind} {t : Tree}
    (h : expression s levels c context = .ok t) :
    ∃ kind, t = .leaf kind c.line ∧ Classifies s c.strings kind := by
  cases levels with
  | zero =>
    rw [expression] at h
    cases h
  | succ levels =>
    rw [expression_of_isLiteral hc] at h
    obtain ⟨joined, hjoined, rfl⟩ := map_eq_ok.mp h
    exact ⟨joined, rfl, (joinedKind_eq_ok_iff.mp hjoined).2⟩

theorem expression_of_perm {d : Cst} (hc : c.IsLiteral) (htag : d.tag = c.tag)
    (hline : d.line = c.line) (hperm : d.strings.Perm c.strings) (levels : Nat) (context : Kind) :
    expression s levels d context = expression s levels c context := by
  cases levels with
  | zero => rw [expression, expression, hline]
  | succ levels =>
    have hd : d.IsLiteral := by rwa [Cst.IsLiteral, htag]
    rw [expression_of_isLiteral hc, expression_of_isLiteral hd, hline, joinedKind_of_perm hperm]

end

end Lowering
end Gatehouse
