import Mathlib.Tactic.Common
import SourceBlocks.Text.Basic

/-! Places as lengths of text: a place measured from the start of a text is the extent of the
characters before it, and the characters before a place are as many as its line and column say. -/

namespace SourceBlocks

namespace Position

lemma plus_start (p : Position) : p.plus start = p := by
  simp [plus, advance, start]

lemma plus_assoc (p q r : Position) : (p.plus q).plus r = p.plus (q.plus r) := by
  simp only [plus, advance]
  split_ifs <;> simp_all [Nat.add_assoc]

lemma row_plus (p q : Position) : (p.plus q).row = p.row + q.row := by
  simp only [plus, advance]
  split_ifs with h0
  · simp [h0]
  · rfl

lemma plus_le_plus_iff (p q r : Position) : p.plus q ≤ p.plus r ↔ q ≤ r := by
  simp only [plus, advance, le_def]
  split_ifs <;> dsimp only <;> omega

lemma plus_lt_plus_iff (p q r : Position) : p.plus q < p.plus r ↔ q < r := by
  rw [← not_le, ← not_le, plus_le_plus_iff]

lemma start_le (p : Position) : start ≤ p := by
  simp only [start, le_def]
  omega

lemma le_plus (p q : Position) : p ≤ p.plus q := by
  conv_lhs => rw [← plus_start p]
  exact (plus_le_plus_iff p start q).mpr (start_le q)

lemma lt_irrefl (p : Position) : ¬ p < p := by
  simp [lt_def]

lemma ne_of_lt {p q : Position} (h : p < q) : p ≠ q := by
  rintro rfl
  exact lt_irrefl p h

lemma le_of_eq {p q : Position} (h : p = q) : p ≤ q := h ▸ le_refl p

lemma le_of_lt {p q : Position} (h : p < q) : p ≤ q := by
  simp only [lt_def, le_def] at *
  omega

lemma lt_of_le_of_lt {p q r : Position} (h : p ≤ q) (h' : q < r) : p < r := by
  simp only [lt_def, le_def] at *
  omega

lemma lt_of_lt_of_le {p q r : Position} (h : p < q) (h' : q ≤ r) : p < r := by
  simp only [lt_def, le_def] at *
  omega

lemma not_lt {p q : Position} : ¬ p < q ↔ q ≤ p := by
  simp only [lt_def, le_def]
  omega

lemma lt_or_eq_of_le {p q : Position} (h : p ≤ q) : p < q ∨ p = q := by
  by_cases hq : q ≤ p
  · exact .inr (le_antisymm h hq)
  · exact .inl (not_le.mp hq)

lemma max_eq_left {p q : Position} (h : q ≤ p) : max p q = p := by
  simp only [max]
  split_ifs with hp
  · exact le_antisymm h hp
  · rfl

lemma min_eq_left {p q : Position} (h : p ≤ q) : min p q = p := if_pos h

lemma min_eq_right {p q : Position} (h : q ≤ p) : min p q = q := by
  simp only [min]
  split_ifs with hp
  · exact le_antisymm hp h
  · rfl

lemma le_min {p q r : Position} (hq : p ≤ q) (hr : p ≤ r) : p ≤ min q r := by
  simp only [min]
  split_ifs
  · exact hq
  · exact hr

lemma lt_min_iff {p q r : Position} : p < min q r ↔ p < q ∧ p < r := by
  rcases le_total q r with h | h
  · rw [min_eq_left h]
    exact ⟨fun hp => ⟨hp, lt_of_lt_of_le hp h⟩, And.left⟩
  · rw [min_eq_right h]
    exact ⟨fun hp => ⟨lt_of_lt_of_le hp h, hp⟩, And.right⟩

lemma row_le {p q : Position} (h : p ≤ q) : p.row ≤ q.row := by
  simp only [le_def] at h
  omega

lemma rowStart_lt_iff {r : Nat} {p : Position} :
    (⟨r, 0⟩ : Position) < p ↔ r < p.row ∨ r = p.row ∧ p.offset ≠ 0 := by
  rw [lt_def, Nat.pos_iff_ne_zero]

lemma rowStart_le_rowStart {r r' : Nat} : (⟨r, 0⟩ : Position) ≤ ⟨r', 0⟩ ↔ r ≤ r' := by
  simp only [le_def, Nat.le_refl, and_true]
  exact Nat.le_iff_lt_or_eq.symm

lemma rowStart_le (p : Position) : (⟨p.row, 0⟩ : Position) ≤ p := .inr ⟨rfl, Nat.zero_le _⟩

lemma lt_iff_rowStart_lt {p q r : Position} (h : q = r ∨ q.offset = 0) (hp : p < r) :
    p < q ↔ (⟨p.row, 0⟩ : Position) < q := by
  refine ⟨lt_of_le_of_lt (rowStart_le p), fun hlt => ?_⟩
  rcases h with rfl | h0
  · exact hp
  · exact .inl ((rowStart_lt_iff.mp hlt).resolve_right fun h => h.2 h0)

lemma lo_le_clamp {lo hi : Position} (h : lo ≤ hi) (p : Position) : lo ≤ clamp lo hi p := by
  simp only [clamp]
  split_ifs with hp hq
  · exact le_refl lo
  · exact h
  · exact not_lt.mp hp

lemma clamp_le_hi {lo hi : Position} (h : lo ≤ hi) (p : Position) : clamp lo hi p ≤ hi := by
  simp only [clamp]
  split_ifs with hp hq
  · exact h
  · exact le_refl hi
  · exact not_lt.mp hq

lemma clamp_mono {lo hi p q : Position} (h : lo ≤ hi) (hpq : p ≤ q) :
    clamp lo hi p ≤ clamp lo hi q := by
  simp only [clamp, lt_def, le_def] at *
  split_ifs <;> omega

lemma clamp_of_mem {lo hi p : Position} (hlo : lo ≤ p) (hhi : p ≤ hi) : clamp lo hi p = p := by
  rw [clamp, if_neg (not_lt.mpr hlo), if_neg (not_lt.mpr hhi)]

end Position

namespace Text

def charExtent (c : Char) : Position := if c = '\n' then ⟨1, 0⟩ else ⟨0, 1⟩

lemma newline_plus (q : Position) : (charExtent '\n').plus q = ⟨q.row + 1, q.offset⟩ := by
  simp only [charExtent, if_true, Position.plus, Position.advance]
  split_ifs with h0
  · simp [h0]
  · simp [Nat.add_comm]

lemma charExtent_plus_zero {c : Char} (hc : c ≠ '\n') (n : Nat) :
    (charExtent c).plus ⟨0, n⟩ = ⟨0, n + 1⟩ := by
  simp [charExtent, hc, Position.plus, Position.advance, Nat.add_comm]

lemma charExtent_plus_succ {c : Char} (hc : c ≠ '\n') (row n : Nat) :
    (charExtent c).plus ⟨row + 1, n⟩ = ⟨row + 1, n⟩ := by
  simp [charExtent, hc, Position.plus, Position.advance]

lemma foldl_extent (s : List Char) (p : Position) :
    s.foldl (fun p c => if c = '\n' then ⟨p.row + 1, 0⟩ else ⟨p.row, p.offset + 1⟩) p =
      p.plus (extent s) := by
  induction s generalizing p with
  | nil => exact (Position.plus_start p).symm
  | cons c r ih =>
    have hstep : ∀ q : Position, (if c = '\n' then (⟨q.row + 1, 0⟩ : Position)
        else ⟨q.row, q.offset + 1⟩) = q.plus (charExtent c) := by
      intro q
      simp only [charExtent, Position.plus, Position.advance]
      split_ifs <;> simp_all
    have hc : extent (c :: r) = (charExtent c).plus (extent r) := by
      rw [extent, List.foldl_cons, hstep, ih, Position.start_plus]
    rw [List.foldl_cons, hstep, ih, hc, Position.plus_assoc]

lemma extent_nil : extent [] = .start := rfl

lemma extent_append (s u : List Char) : extent (s ++ u) = (extent s).plus (extent u) := by
  rw [extent, List.foldl_append, foldl_extent u, ← extent]

lemma extent_cons (c : Char) (s : List Char) : extent (c :: s) = (charExtent c).plus (extent s) := by
  have h : extent [c] = charExtent c := by
    simp only [extent, List.foldl_cons, List.foldl_nil, charExtent, Position.start]
  rw [← h, ← extent_append, List.singleton_append]

lemma extent_of_not_mem {s : List Char} (h : '\n' ∉ s) : extent s = ⟨0, s.length⟩ := by
  induction s with
  | nil => rfl
  | cons c r ih =>
    rw [List.mem_cons, not_or] at h
    have hc : c ≠ '\n' := fun hc => h.1 hc.symm
    rw [extent_cons, ih h.2, charExtent, if_neg hc, List.length_cons, Nat.add_comm]
    rfl

lemma start_lt_extent {s : List Char} (h : s ≠ []) : Position.start < extent s := by
  cases s with
  | nil => exact absurd rfl h
  | cons c r =>
    rw [extent_cons]
    refine Position.lt_of_lt_of_le ?_ (Position.le_plus _ _)
    simp only [charExtent, Position.lt_def, Position.start]
    split_ifs <;> simp

lemma extent_take_lt {s : List Char} {m n : Nat} (hmn : m < n) (hn : n ≤ s.length) :
    extent (s.take m) < extent (s.take n) := by
  have hsplit : s.take n = s.take m ++ (s.take n).drop m := by
    conv_lhs => rw [← List.take_append_drop m (s.take n), List.take_take, Nat.min_eq_left (Nat.le_of_lt hmn)]
  have hne : (s.take n).drop m ≠ [] := by
    intro h
    have := congrArg List.length h
    simp only [List.length_drop, List.length_take, List.length_nil] at this
    omega
  rw [hsplit, extent_append]
  conv_lhs => rw [← Position.plus_start (extent (s.take m))]
  exact (Position.plus_lt_plus_iff _ _ _).mpr (start_lt_extent hne)

lemma extent_take_le_iff {s : List Char} {m n : Nat} (hm : m ≤ s.length) (hn : n ≤ s.length) :
    extent (s.take m) ≤ extent (s.take n) ↔ m ≤ n := by
  constructor
  · intro h
    by_contra hlt
    exact Position.lt_irrefl _ (Position.lt_of_le_of_lt h (extent_take_lt (by omega) hm))
  · intro h
    rcases Nat.eq_or_lt_of_le h with rfl | h
    · exact Position.le_refl _
    · exact Position.le_of_lt (extent_take_lt h hn)

def charsBefore (lines : List (List Char)) (p : Position) : Nat :=
  (lines.take p.row).foldr (fun l n => l.length + 1 + n) p.offset

def Fits (s : List Char) (p : Position) : Prop :=
  p.row < (splitLines s).length ∧ p.offset ≤ ((splitLines s)[p.row]?.getD []).length

lemma fits_nil {p : Position} : Fits [] p ↔ p = .start := by
  obtain ⟨row, offset⟩ := p
  constructor
  · rintro ⟨hrow, hoff⟩
    simp only [splitLines, splitAt, List.length_singleton] at hrow
    have : row = 0 := by omega
    subst this
    simp only [splitLines, splitAt, List.getElem?_cons_zero, Option.getD_some, List.length_nil] at hoff
    simp [Position.start]
    omega
  · rintro h
    obtain ⟨rfl, rfl⟩ := Position.mk.inj h
    simp [Fits, splitLines, splitAt]

lemma splitLines_newline (s : List Char) : splitLines ('\n' :: s) = [] :: splitLines s := by
  simp [splitLines, splitAt]

lemma splitLines_cons {c : Char} (hc : c ≠ '\n') (s : List Char) :
    splitLines (c :: s) = (splitLines s).modifyHead (c :: ·) := by
  obtain ⟨l, ls, hs, hcons⟩ := splitAt_cons_of_ne hc s
  rw [splitLines, splitLines, hs, hcons, List.modifyHead_cons]

lemma getElem?_splitLines_zero (s : List Char) :
    (splitLines s)[0]? = some (((splitLines s)[0]?).getD []) := by
  obtain ⟨l, ls, hs⟩ := List.exists_cons_of_ne_nil (splitLines_ne_nil s)
  rw [hs]
  rfl

section Cons

variable {c : Char} {s : List Char} {p : Position}

lemma getElem?_splitLines_cons_zero (hc : c ≠ '\n') (s : List Char) :
    ((splitLines (c :: s))[0]?).getD [] = c :: ((splitLines s)[0]?).getD [] := by
  rw [splitLines_cons hc, List.getElem?_modifyHead_zero, getElem?_splitLines_zero]
  rfl

lemma getElem?_splitLines_cons_succ (hc : c ≠ '\n') (s : List Char) (k : Nat) :
    (splitLines (c :: s))[k + 1]? = (splitLines s)[k + 1]? := by
  rw [splitLines_cons hc, List.getElem?_modifyHead_succ]

lemma drop_line_cons (c : Char) (s : List Char) (q : Position) :
    (((splitLines (c :: s))[((charExtent c).plus q).row]?).getD []).drop ((charExtent c).plus q).offset =
      (((splitLines s)[q.row]?).getD []).drop q.offset := by
  obtain ⟨row, n⟩ := q
  by_cases hc : c = '\n'
  · subst hc
    rw [newline_plus, splitLines_newline, List.getElem?_cons_succ]
  · cases row with
    | zero => rw [charExtent_plus_zero hc, getElem?_splitLines_cons_zero hc, List.drop_succ_cons]
    | succ row => rw [charExtent_plus_succ hc, getElem?_splitLines_cons_succ hc]

lemma charsBefore_cons (c : Char) (s : List Char) (q : Position) :
    charsBefore (splitLines (c :: s)) ((charExtent c).plus q) = charsBefore (splitLines s) q + 1 := by
  obtain ⟨row, n⟩ := q
  by_cases hc : c = '\n'
  · subst hc
    rw [newline_plus, splitLines_newline]
    simp [charsBefore]
    omega
  · obtain ⟨l, ls, hs⟩ := List.exists_cons_of_ne_nil (splitLines_ne_nil s)
    rw [splitLines_cons hc, hs]
    cases row with
    | zero => simp [charExtent_plus_zero hc, charsBefore]
    | succ row =>
      simp [charExtent_plus_succ hc, charsBefore]
      omega

lemma fits_start (s : List Char) : Fits s .start :=
  ⟨List.length_pos_iff.mpr (splitLines_ne_nil s), Nat.zero_le _⟩

lemma fits_plus {q : Position} : Fits (c :: s) ((charExtent c).plus q) ↔ Fits s q := by
  obtain ⟨row, n⟩ := q
  by_cases hc : c = '\n'
  · subst hc
    simp [Fits, newline_plus, splitLines_newline]
  · cases row with
    | zero =>
      simp only [Fits, charExtent_plus_zero hc, getElem?_splitLines_cons_zero hc, List.length_cons,
        Nat.add_le_add_iff_right]
      rw [splitLines_cons hc, List.length_modifyHead]
    | succ row => simp [Fits, charExtent_plus_succ hc, splitLines_cons hc]

lemma fits_cons : Fits (c :: s) p ↔ p = .start ∨ ∃ q, Fits s q ∧ p = (charExtent c).plus q := by
  constructor
  · intro h
    obtain ⟨row, n⟩ := p
    have hq : ⟨row, n⟩ = Position.start ∨ ∃ q, ⟨row, n⟩ = (charExtent c).plus q := by
      by_cases hc : c = '\n'
      · subst hc
        cases row with
        | zero =>
          left
          simpa [Fits, splitLines_newline, Position.start] using h
        | succ row => exact .inr ⟨⟨row, n⟩, (newline_plus ⟨row, n⟩).symm⟩
      · cases row with
        | zero =>
          cases n with
          | zero => exact .inl rfl
          | succ n => exact .inr ⟨⟨0, n⟩, (charExtent_plus_zero hc n).symm⟩
        | succ row => exact .inr ⟨⟨row + 1, n⟩, (charExtent_plus_succ hc row n).symm⟩
    refine hq.imp_right ?_
    rintro ⟨q, hq⟩
    rw [hq] at h
    exact ⟨q, fits_plus.mp h, hq⟩
  · rintro (rfl | ⟨q, hq, rfl⟩)
    · exact fits_start _
    · exact fits_plus.mpr hq

lemma extent_take_charsBefore (h : Fits s p) :
    charsBefore (splitLines s) p ≤ s.length ∧ extent (s.take (charsBefore (splitLines s) p)) = p := by
  induction s generalizing p with
  | nil =>
    obtain rfl := fits_nil.mp h
    simp [charsBefore, Position.start, extent]
  | cons c r ih =>
    rcases fits_cons.mp h with rfl | ⟨q, hq, rfl⟩
    · simp [charsBefore, Position.start, extent]
    · obtain ⟨hle, hext⟩ := ih hq
      rw [charsBefore_cons, List.take_succ_cons, extent_cons, hext]
      exact ⟨Nat.succ_le_succ hle, rfl⟩

end Cons

end Text

end SourceBlocks
