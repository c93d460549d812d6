import SourceBlocks.Proofs.Text.Pieces
import SourceBlocks.Text.Bounded

namespace SourceBlocks

namespace Position

lemma le_max_left (p q : Position) : p ≤ max p q := by
  simp only [max]
  split_ifs with h
  · exact h
  · exact le_refl p

lemma max_comm (p q : Position) : max p q = max q p := by
  rcases le_total p q with h | h
  · rw [max_eq_left h]
    exact if_pos h
  · rw [max_eq_left h]
    exact (if_pos h).symm

/-- The line and the column are numbers of 32 bits. -/
def InWords (p : Position) : Prop := p.line < UInt32.size ∧ p.column < UInt32.size

instance (p : Position) : Decidable p.InWords := inferInstanceAs (Decidable (p.line < UInt32.size ∧ p.column < UInt32.size))

end Position

namespace Text

section Ranges

lemma range?_eq {α : Type} {xs : List α} {m n : Nat} (hm : m ≤ n) (hn : n ≤ xs.length) :
    range? xs m n = some ((xs.take n).drop m) := if_pos ⟨hm, hn⟩

lemma cutLines?_eq {s : List Char} {i j : Position} (hi : Fits s i) (hj : Fits s j) (hij : i ≤ j) :
    cutLines? (splitLines s) i j = some (cutLines (splitLines s) i j) := by
  obtain ⟨hi, hioff⟩ := hi
  obtain ⟨hj, hjoff⟩ := hj
  obtain ⟨first, hfirst⟩ : ∃ first, (splitLines s)[i.row]? = some first := ⟨_, List.getElem?_eq_getElem hi⟩
  obtain ⟨last, hlast⟩ : ∃ last, (splitLines s)[j.row]? = some last := ⟨_, List.getElem?_eq_getElem hj⟩
  rw [hfirst, Option.getD_some] at hioff
  rw [hlast, Option.getD_some] at hjoff
  rw [Position.le_def] at hij
  simp only [cutLines?, cutLines, hfirst, hlast, Option.bind_eq_bind, Option.bind_some, Option.getD_some]
  split_ifs with hrow
  · obtain rfl : first = last := by
      rw [hrow, hlast] at hfirst
      exact (Option.some.inj hfirst).symm
    rw [range?_eq (Nat.le_max_right _ _) (Nat.max_le.mpr ⟨hjoff, hioff⟩)]
    rfl
  · rw [range?_eq hioff (Nat.le_refl _), range?_eq (by omega) (Nat.le_of_lt hj), range?_eq (Nat.zero_le _) hjoff,
      List.take_length, List.drop_zero]
    rfl

end Ranges

variable (t : Text)

/-- A place forced between the ends of the text, and to the end of its row where it lies behind that. -/
def fitted (p : Position) : Position :=
  let q := Position.clamp t.start t.stop p
  ⟨q.row, min q.offset (t.rowOffset q.row + (t.rowChars q.row).length)⟩

/-- How many characters of the text stand before the place that a place is fitted to. -/
def countBefore (p : Position) : Nat := (List.range t.chars.length).countP fun i => t.point i < t.fitted p

lemma nearest_eq_fitted (p : Position) : t.nearest p = t.fitted p := by
  have hlo := Position.lo_le_clamp t.start_le_stop p
  simp only [nearest, fitted, locate]
  generalize Position.clamp t.start t.stop p = q at hlo
  obtain ⟨r, hr⟩ := Nat.exists_eq_add_of_le (Position.row_le hlo)
  rw [hr, Nat.add_sub_cancel_left, rowChars_start]
  simp only [rowOffset, Position.plus, Position.advance]
  by_cases h0 : r = 0
  · subst h0
    have hoff : t.start.offset ≤ q.offset := by
      rw [Position.le_def] at hlo
      omega
    simp only [Nat.add_zero, if_true, Position.mk.injEq, true_and]
    omega
  · have hne : t.start.row + r ≠ t.start.row := by omega
    simp only [h0, hne, if_false, Nat.sub_zero, Nat.zero_add]

lemma countBefore_eq (p : Position) : t.countBefore p = t.before p := by
  have hle := t.before_le_length p
  have hlt : ∀ i ≤ t.chars.length, t.point i < t.fitted p ↔ i < t.before p := by
    intro i hi
    rw [← nearest_eq_fitted, nearest_eq_point, ← Position.not_le, point_le_point_iff hle hi, Nat.not_le]
  obtain ⟨n, hn⟩ := Nat.exists_eq_add_of_le hle
  have hin : (List.range (t.before p)).countP (fun i => t.point i < t.fitted p) = t.before p := by
    rw [List.countP_eq_length.mpr, List.length_range]
    intro i hi
    rw [List.mem_range] at hi
    exact decide_eq_true ((hlt i (by omega)).mpr hi)
  have hout : ((List.range n).map (t.before p + ·)).countP (fun i => t.point i < t.fitted p) = 0 := by
    rw [List.countP_eq_zero]
    intro i hi
    obtain ⟨k, hk, rfl⟩ := List.mem_map.mp hi
    rw [List.mem_range] at hk
    rw [decide_eq_true_eq, hlt _ (by omega)]
    omega
  rw [countBefore, hn, List.range_add, List.countP_append, hin, hout, Nat.add_zero]

lemma slice_max (a b : Position) : t.slice a b = t.slice a (max a b) := by
  simp only [slice]
  rw [Position.max_eq_left (Position.le_max_left a b), Position.max_comm]

section Words

def EndsInWords : Prop := t.stop.column < UInt32.size ∧ (t.lines.length = 1 ∨ t.stop.line + 1 < UInt32.size)

instance : Decidable t.EndsInWords :=
  inferInstanceAs (Decidable (t.stop.column < UInt32.size ∧ (t.lines.length = 1 ∨ t.stop.line + 1 < UInt32.size)))

lemma extent_le_length (s : List Char) : (extent s).row + (extent s).offset ≤ s.length := by
  induction s with
  | nil => exact Nat.le_refl 0
  | cons c s ih =>
    rw [extent_cons, List.length_cons]
    generalize extent s = q at ih
    obtain ⟨row, n⟩ := q
    by_cases hc : c = '\n'
    · subst hc
      rw [newline_plus, Nat.add_right_comm]
      exact Nat.succ_le_succ ih
    · cases row with
      | zero =>
        rw [charExtent_plus_zero hc]
        exact Nat.succ_le_succ ih
      | succ row =>
        rw [charExtent_plus_succ hc]
        exact Nat.le_succ_of_le ih

variable {t}

lemma stop?_eq (hsize : t.chars.length + 1 < UInt32.size) : t.stop? = if t.EndsInWords then some t.stop else none := by
  have hlines : t.lines.length = (extent t.chars).row + 1 := length_splitLines t.chars
  have hlast : (t.lines.getLast?.getD []).length = (extent t.chars).offset := by
    rw [List.getLast?_eq_getElem?, hlines]
    exact length_last_line t.chars
  have hle := extent_le_length t.chars
  simp only [stop?, EndsInWords, hlines, hlast, stop]
  generalize extent t.chars = q at hle
  obtain ⟨row, n⟩ := q
  dsimp only at hle ⊢
  rw [lowWord, lowWord, Nat.mod_eq_of_lt (by omega), Nat.mod_eq_of_lt (by omega)]
  cases row with
  | zero =>
    have hplus : t.start.plus ⟨0, n⟩ = ⟨t.start.row, t.start.offset + n⟩ := rfl
    have hplace : Position.ofLineColumn t.start.line (t.start.column + n) = ⟨t.start.row, t.start.offset + n⟩ := by
      simp only [Position.ofLineColumn, Position.line, Position.column, Position.mk.injEq]
      omega
    rw [hplus, if_pos (by omega), word?]
    by_cases h : t.start.column + n < UInt32.size
    · rw [if_pos h, if_pos ⟨by simp only [Position.column] at h ⊢; omega, .inl rfl⟩, ← hplace]
      rfl
    · rw [if_neg h, if_neg fun hends => h (by simp only [Position.column] at hends ⊢; omega)]
      rfl
  | succ row =>
    have hplus : t.start.plus ⟨row + 1, n⟩ = ⟨t.start.row + (row + 1), n⟩ := rfl
    have hplace : Position.ofLineColumn (t.start.line + (row + 1 + 1) - 1) (n + 1) = ⟨t.start.row + (row + 1), n⟩ := by
      simp only [Position.ofLineColumn, Position.line, Position.mk.injEq]
      omega
    rw [hplus, if_neg (by omega), word?, word?, if_pos (by omega : n + 1 < UInt32.size)]
    by_cases h : t.start.line + (row + 1 + 1) < UInt32.size
    · have hline : (⟨t.start.row + (row + 1), n⟩ : Position).line + 1 < UInt32.size := by
        simp only [Position.line] at h ⊢
        omega
      rw [if_pos h, if_pos ⟨by simp only [Position.column]; omega, .inr hline⟩, ← hplace]
      rfl
    · rw [if_neg h, if_neg fun hends => h (by simp only [Position.line] at hends ⊢; omega)]
      rfl

lemma locate?_eq (hsize : t.chars.length + 1 < UInt32.size) (h : t.EndsInWords) (p : Position) :
    t.locate? p = some (t.locate p) := by
  have hrow := Position.row_le (Position.lo_le_clamp t.start_le_stop p)
  obtain ⟨line, hline⟩ : ∃ line, t.lines[(Position.clamp t.start t.stop p).row - t.start.row]? = some line :=
    ⟨_, List.getElem?_eq_getElem (t.fits_locate p).1⟩
  simp only [locate?, stop?_eq hsize, if_pos h, Option.bind_eq_bind, Option.bind_some,
    if_pos (And.intro t.start_le_stop hrow), hline, locate]
  rfl

lemma inWords_fitted (hstart : t.start.InWords) (h : t.EndsInWords) {p : Position} (hp : p.InWords) :
    (t.fitted p).InWords := by
  have hstop : t.stop.InWords := by
    refine ⟨?_, h.1⟩
    rcases h.2 with hone | hline
    · have hrow : (extent t.chars).row = 0 := Nat.succ.inj ((length_splitLines t.chars).symm.trans hone)
      rw [Position.line, stop, Position.row_plus, hrow]
      exact hstart.1
    · exact Nat.lt_of_succ_lt hline
  have hclamp : (Position.clamp t.start t.stop p).InWords := by
    simp only [Position.clamp]
    split_ifs
    · exact hstart
    · exact hstop
    · exact hp
  exact ⟨hclamp.1, Nat.lt_of_le_of_lt (Nat.succ_le_succ (Nat.min_le_left _ _)) hclamp.2⟩

lemma anchor_eq (t : Text) (i : Position) : t.start.line + i.row = (t.start.plus i).line ∧
    t.lineColumn (t.start.line + i.row) + i.offset = (t.start.plus i).column := by
  obtain ⟨row, n⟩ := i
  simp only [lineColumn, Position.plus, Position.advance]
  by_cases hrow : row = 0
  · simp [hrow, Position.line, Position.column, Nat.add_right_comm]
  · have hne : t.start.row + 1 + row ≠ t.start.row + 1 := by omega
    simp only [Position.line, Position.column, hrow, hne, if_false]
    omega

lemma slice?_eq (hstart : t.start.InWords) (hsize : t.chars.length + 1 < UInt32.size) (h : t.EndsInWords) {a : Position}
    (ha : a.InWords) (b : Position) : t.slice? a b = some (t.slice a b) := by
  have hle : t.locate a ≤ t.locate (max b a) := t.locate_mono (Position.max_comm a b ▸ Position.le_max_left a b)
  have hcut : cutLines? t.lines (t.locate a) (t.locate (max b a)) = _ :=
    cutLines?_eq (t.fits_locate a) (t.fits_locate (max b a)) hle
  obtain ⟨hline, hcolumn⟩ := t.anchor_eq (t.locate a)
  have hwords : (t.start.plus (t.locate a)).InWords := by
    have hfitted := inWords_fitted hstart h ha
    rwa [← nearest_eq_fitted] at hfitted
  have hrow : lowWord (t.locate a).row = (t.locate a).row := Nat.mod_eq_of_lt (by have := hwords.1; omega)
  have hoff : lowWord (t.locate a).offset = (t.locate a).offset := Nat.mod_eq_of_lt (by have := hwords.2; omega)
  simp only [slice?, locate?_eq hsize h, Option.bind_eq_bind, Option.bind_some, hrow, hoff, word?]
  rw [if_pos (hline ▸ hwords.1), Option.bind_some, if_pos (hcolumn ▸ hwords.2), Option.bind_some, hcut, Option.bind_some,
    hcolumn, hline]
  rfl

lemma stop_slice (t : Text) (a b : Position) : (t.slice a b).stop = t.fitted (max a b) := by
  rw [slice_max, t.slice_stop (Position.le_max_left a b), nearest_eq_fitted]

lemma slice_endsInWords (hstart : t.start.InWords) (h : t.EndsInWords) {a b : Position} (hmax : (max a b).InWords) :
    (t.slice a b).EndsInWords := by
  have hstop : (t.slice a b).stop.row ≤ t.stop.row := by
    rw [stop_slice, ← nearest_eq_fitted]
    exact Position.row_le (t.nearest_le_stop _)
  refine ⟨stop_slice t a b ▸ (inWords_fitted hstart h hmax).2, h.2.imp (fun hone => ?_) fun hline => ?_⟩
  · have hlines : (t.slice a b).lines.length = (extent (t.slice a b).chars).row + 1 := length_splitLines _
    have hrow : (extent t.chars).row = 0 := Nat.succ.inj ((length_splitLines t.chars).symm.trans hone)
    have hfirst : t.start.row ≤ (t.slice a b).start.row := Position.row_le (Position.le_plus _ _)
    rw [stop, stop, Position.row_plus, Position.row_plus, hrow] at hstop
    omega
  · exact Nat.lt_of_le_of_lt (Nat.succ_le_succ (Nat.succ_le_succ hstop)) hline

end Words

/-- A piece cut out by line and column. It is cut out exactly if the end of the text is in numbers of 32 bits, and
with more than one line also the number of the line behind it. -/
theorem slice_eq_substring (hstart : t.start.InWords) (hsize : t.chars.length + 1 < UInt32.size) {a b : Position}
    (ha : a.InWords) (hb : b.InWords) :
    (t.EndsInWords → t.slice? a b = some (t.slice a b) ∧ (t.slice a b).stop? = some (t.fitted (max a b))) ∧
    (¬ t.EndsInWords → t.slice? a b = none) ∧
    (t.slice a b).joined = String.ofList (t.joined.toList.extract (t.countBefore a) (t.countBefore (max a b))) ∧
    t.countBefore a ≤ t.countBefore (max a b) ∧ t.countBefore (max a b) ≤ t.joined.length ∧
    (t.slice a b).start = t.fitted a ∧ (t.slice a b).stop = t.fitted (max a b) ∧ (t.slice a b).file = t.file := by
  have hle := Position.le_max_left a b
  have hchars : (t.slice a b).chars = _ := (congrArg chars (t.slice_max a b)).trans (t.slice_chars hle)
  have hmax : (max a b).InWords := by
    simp only [max]
    split_ifs
    · exact hb
    · exact ha
  refine ⟨fun h => ⟨slice?_eq hstart hsize h ha b, ?_⟩, fun h => ?_, ?_⟩
  · have hlength : (t.slice a b).chars.length + 1 < UInt32.size := by
      rw [hchars, List.length_take, List.length_drop]
      omega
    rw [stop?_eq hlength, if_pos (slice_endsInWords hstart h hmax), stop_slice]
  · rw [slice?, locate?, stop?_eq hsize, if_neg h]
    rfl
  rw [countBefore_eq, countBefore_eq, ← nearest_eq_fitted, joined, joined, String.toList_ofList, String.length_ofList]
  exact ⟨congrArg String.ofList hchars, t.before_mono hle, t.before_le_length _, t.slice_start a b, stop_slice t a b, rfl⟩

theorem slice_eq_substring_last_lines : ((ofString "äb\ncd").anchored ⟨UInt32.size - 4, 4⟩).EndsInWords ∧
    ((ofString "äb\ncd").anchored ⟨UInt32.size - 4, 4⟩).slice? ⟨UInt32.size - 4, 5⟩ ⟨UInt32.size - 3, 1⟩ =
      some ⟨['b', '\n', 'c'], none, ⟨UInt32.size - 4, 5⟩⟩ := by
  have hends : ((ofString "äb\ncd").anchored ⟨UInt32.size - 4, 4⟩).EndsInWords := by decide
  have hslice := ((slice_eq_substring (t := (ofString "äb\ncd").anchored ⟨UInt32.size - 4, 4⟩) (a := ⟨UInt32.size - 4, 5⟩)
    (b := ⟨UInt32.size - 3, 1⟩) (by decide) (by decide) (by decide) (by decide)).1 hends).1
  exact ⟨hends, hslice.trans (by decide)⟩

theorem slice_fails_behind_last_column : ((ofString "ab").anchored ⟨0, UInt32.size - 2⟩).start.InWords ∧
    ((ofString "ab").anchored ⟨0, UInt32.size - 2⟩).slice? ⟨0, UInt32.size - 2⟩ ⟨0, UInt32.size - 2⟩ = none ∧
    ((ofString "ab").anchored ⟨0, UInt32.size - 2⟩).fitted ⟨0, UInt32.size - 2⟩ = ⟨0, UInt32.size - 2⟩ := by decide

end Text

end SourceBlocks
