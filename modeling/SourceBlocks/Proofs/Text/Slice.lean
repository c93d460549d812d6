import SourceBlocks.Proofs.Text.Extent

namespace SourceBlocks.Text

lemma length_splitLines (s : List Char) : (splitLines s).length = (extent s).row + 1 := by
  induction s with
  | nil => rfl
  | cons c r ih =>
    rw [extent_cons, Position.row_plus]
    by_cases hc : c = '\n'
    · subst hc
      rw [splitLines_newline, List.length_cons, ih, charExtent, if_pos rfl, Nat.add_comm 1]
    · rw [splitLines_cons hc, List.length_modifyHead, ih, charExtent, if_neg hc, Nat.zero_add]

lemma fits_extent (s : List Char) : Fits s (extent s) := by
  induction s with
  | nil => exact fits_start []
  | cons c r ih =>
    rw [extent_cons]
    exact fits_plus.mpr ih

lemma drop_last_line (s : List Char) : ((splitLines s)[(extent s).row]?.getD []).drop (extent s).offset = [] := by
  induction s with
  | nil => rfl
  | cons c r ih => rw [extent_cons, drop_line_cons, ih]

lemma length_last_line (s : List Char) : ((splitLines s)[(extent s).row]?.getD []).length = (extent s).offset :=
  Nat.le_antisymm (List.drop_eq_nil_iff.mp (drop_last_line s)) (fits_extent s).2

lemma Fits.le_extent {s : List Char} {p : Position} (h : Fits s p) : p ≤ extent s := by
  obtain ⟨hrow, hoff⟩ := h
  rw [length_splitLines] at hrow
  rw [Position.le_def]
  rcases Nat.lt_or_ge p.row (extent s).row with hlt | hge
  · exact .inl hlt
  · have heq : p.row = (extent s).row := by omega
    rw [heq, length_last_line] at hoff
    exact .inr ⟨heq, hoff⟩

lemma charsBefore_start (s : List Char) : charsBefore (splitLines s) .start = 0 := by
  simp [charsBefore, Position.start]

lemma charsBefore_extent (s : List Char) : charsBefore (splitLines s) (extent s) = s.length := by
  obtain ⟨hle, hext⟩ := extent_take_charsBefore (fits_extent s)
  refine Nat.le_antisymm hle ((extent_take_le_iff (Nat.le_refl _) hle).mp ?_)
  rw [List.take_length, hext]
  exact Position.le_refl _

lemma charsBefore_le {s : List Char} {p q : Position} (hp : Fits s p) (hq : Fits s q) (h : p ≤ q) :
    charsBefore (splitLines s) p ≤ charsBefore (splitLines s) q := by
  obtain ⟨hlp, hep⟩ := extent_take_charsBefore hp
  obtain ⟨hlq, heq⟩ := extent_take_charsBefore hq
  rw [← extent_take_le_iff hlp hlq, hep, heq]
  exact h

section Lines

variable {lines : List (List Char)} {i j : Position}

def linesBefore (lines : List (List Char)) (j : Position) : List (List Char) :=
  lines.take j.row ++ [((lines[j.row]?).getD []).take j.offset]

def linesFrom (lines : List (List Char)) (i : Position) : List (List Char) :=
  ((lines[i.row]?).getD []).drop i.offset :: lines.drop (i.row + 1)

lemma joinLines_cons {l : List Char} (h : lines ≠ []) : joinLines (l :: lines) = l ++ '\n' :: joinLines lines := by
  obtain ⟨m, ms, rfl⟩ := List.exists_cons_of_ne_nil h
  rfl

lemma charsBefore_cons_succ (l : List Char) (row n : Nat) :
    charsBefore (l :: lines) ⟨row + 1, n⟩ = l.length + (charsBefore lines ⟨row, n⟩ + 1) := by
  simp only [charsBefore, List.take_succ_cons, List.foldr_cons]
  omega

lemma joinLines_linesBefore (hrow : j.row < lines.length) (hoff : j.offset ≤ ((lines[j.row]?).getD []).length) :
    joinLines (linesBefore lines j) = (joinLines lines).take (charsBefore lines j) := by
  obtain ⟨row, n⟩ := j
  simp only [linesBefore] at hrow hoff ⊢
  induction lines generalizing row with
  | nil => simp at hrow
  | cons l lines ih =>
    cases row with
    | zero =>
      have hn : n ≤ l.length := hoff
      change l.take n = (joinLines (l :: lines)).take n
      by_cases hlines : lines = []
      · rw [hlines]
        rfl
      · rw [joinLines_cons hlines, List.take_append_of_le_length hn]
    | succ row =>
      have hlt : row < lines.length := Nat.lt_of_succ_lt_succ hrow
      have hlines : lines ≠ [] := List.ne_nil_of_length_pos (Nat.zero_lt_of_lt hlt)
      rw [List.getElem?_cons_succ] at hoff ⊢
      rw [List.take_succ_cons, List.cons_append, joinLines_cons (by simp), ih row hlt hoff, charsBefore_cons_succ,
        joinLines_cons hlines, List.take_length_add_append, List.take_succ_cons]

lemma joinLines_linesFrom (hrow : i.row < lines.length) (hoff : i.offset ≤ ((lines[i.row]?).getD []).length) :
    joinLines (linesFrom lines i) = (joinLines lines).drop (charsBefore lines i) := by
  obtain ⟨row, n⟩ := i
  simp only [linesFrom] at hrow hoff ⊢
  induction lines generalizing row with
  | nil => simp at hrow
  | cons l lines ih =>
    cases row with
    | zero =>
      have hn : n ≤ l.length := hoff
      change joinLines (l.drop n :: lines) = (joinLines (l :: lines)).drop n
      by_cases hlines : lines = []
      · rw [hlines]
        rfl
      · rw [joinLines_cons hlines, joinLines_cons hlines, List.drop_append_of_le_length hn]
    | succ row =>
      have hlt : row < lines.length := Nat.lt_of_succ_lt_succ hrow
      have hlines : lines ≠ [] := List.ne_nil_of_length_pos (Nat.zero_lt_of_lt hlt)
      rw [List.getElem?_cons_succ] at hoff ⊢
      rw [List.drop_succ_cons, ih row hlt hoff, charsBefore_cons_succ, joinLines_cons hlines,
        List.drop_length_add_append, List.drop_succ_cons]

lemma cutLines_eq (hj : j.row < lines.length) (hij : i ≤ j) : cutLines lines i j = linesFrom (linesBefore lines j) i := by
  have hlen : (lines.take j.row).length = j.row := List.length_take_of_le (Nat.le_of_lt hj)
  rw [Position.le_def] at hij
  simp only [cutLines, linesFrom, linesBefore]
  split_ifs with hrow
  · rw [List.getElem?_append_right (by omega), hlen, hrow, Nat.sub_self, Nat.max_eq_left (by omega)]
    simp [hlen]
  · rw [List.getElem?_append_left (by omega), List.getElem?_take_of_lt (by omega),
      List.drop_append_of_le_length (by omega), List.cons_append]

lemma joinLines_cutLines {s : List Char} (hi : Fits s i) (hj : Fits s j) (hij : i ≤ j) :
    joinLines (cutLines (splitLines s) i j) =
      (s.take (charsBefore (splitLines s) j)).drop (charsBefore (splitLines s) i) := by
  have hlen : ((splitLines s).take j.row).length = j.row := List.length_take_of_le (Nat.le_of_lt hj.1)
  have hle := Position.row_le hij
  have hrow : i.row < (linesBefore (splitLines s) j).length := by
    rw [linesBefore, List.length_append, hlen, List.length_singleton]
    omega
  have hoff : i.offset ≤ (((linesBefore (splitLines s) j)[i.row]?).getD []).length := by
    rw [linesBefore]
    rcases Position.le_def.mp hij with hlt | ⟨heq, hoff⟩
    · rw [List.getElem?_append_left (by omega), List.getElem?_take_of_lt hlt]
      exact hi.2
    · rw [List.getElem?_append_right (by omega), hlen, heq, Nat.sub_self, List.getElem?_cons_zero, Option.getD_some,
        List.length_take]
      exact Nat.le_min.mpr ⟨hoff, heq ▸ hi.2⟩
  have hbefore : charsBefore (linesBefore (splitLines s) j) i = charsBefore (splitLines s) i := by
    rw [charsBefore, charsBefore, linesBefore, List.take_append_of_le_length (by omega), List.take_take,
      Nat.min_eq_left hle]
  rw [cutLines_eq hj.1 hij, joinLines_linesFrom hrow hoff, joinLines_linesBefore hj.1 hj.2, joinLines_splitLines, hbefore]

end Lines

variable (t : Text)

lemma start_le_stop : t.start ≤ t.stop := Position.le_plus _ _

lemma fits_locate (p : Position) : Fits t.chars (t.locate p) := by
  have hlo := Position.row_le (Position.lo_le_clamp t.start_le_stop p)
  have hhi := Position.row_le (Position.clamp_le_hi t.start_le_stop p)
  refine ⟨?_, Nat.min_le_right _ _⟩
  have hstop : t.stop.row = t.start.row + (extent t.chars).row := Position.row_plus _ _
  rw [length_splitLines]
  simp only [locate]
  omega

lemma locate_mono {p q : Position} (h : p ≤ q) : t.locate p ≤ t.locate q := by
  have hc := Position.clamp_mono t.start_le_stop h
  have hp := Position.row_le (Position.lo_le_clamp t.start_le_stop p)
  have hq := Position.row_le (Position.lo_le_clamp t.start_le_stop q)
  simp only [locate, Position.le_def] at *
  rcases hc with hc | ⟨hrow, hoff⟩
  · left
    omega
  · right
    rw [hrow]
    exact ⟨rfl, by omega⟩

lemma locate_plus {p : Position} (h : Fits t.chars p) : t.locate (t.start.plus p) = p := by
  have hle : t.start.plus p ≤ t.stop := (Position.plus_le_plus_iff _ _ _).mpr h.le_extent
  obtain ⟨row, offset⟩ := p
  obtain ⟨hrow, hoff⟩ := h
  rw [locate, Position.clamp_of_mem (Position.le_plus _ _) hle]
  by_cases h0 : row = 0
  · subst h0
    simpa [Position.plus, Position.advance, rowOffset, lines] using Nat.min_eq_left hoff
  · simpa [Position.plus, Position.advance, rowOffset, lines, h0] using Nat.min_eq_left hoff

/-- The nearest place to `p` where a character of the text stands or a line of it ends. -/
def nearest (p : Position) : Position := t.start.plus (t.locate p)

lemma nearest_plus {p : Position} (h : Fits t.chars p) : t.nearest (t.start.plus p) = t.start.plus p := by
  rw [nearest, locate_plus t h]

def HasPlace (p : Position) : Prop := ∃ q, Fits t.chars q ∧ p = t.start.plus q

variable {t} in
lemma HasPlace.nearest_eq {p : Position} (h : t.HasPlace p) : t.nearest p = p := by
  obtain ⟨q, hq, rfl⟩ := h
  exact nearest_plus t hq

variable {t} in
lemma HasPlace.le_stop {p : Position} (h : t.HasPlace p) : p ≤ t.stop := by
  obtain ⟨q, hq, rfl⟩ := h
  exact (Position.plus_le_plus_iff _ _ _).mpr hq.le_extent

variable {t} in
lemma HasPlace.start_le {p : Position} (h : t.HasPlace p) : t.start ≤ p := by
  obtain ⟨q, -, rfl⟩ := h
  exact Position.le_plus _ _

lemma hasPlace_stop : t.HasPlace t.stop := ⟨_, fits_extent _, rfl⟩

lemma hasPlace_rowStart {row : Nat} (h : t.start.row < row) (h' : row ≤ t.stop.row) :
    t.HasPlace ⟨row, 0⟩ := by
  have hstop : t.stop.row = t.start.row + (extent t.chars).row := Position.row_plus _ _
  have hlt : row - t.start.row < (splitLines t.chars).length := by
    rw [length_splitLines]
    omega
  refine ⟨⟨row - t.start.row, 0⟩, ⟨hlt, Nat.zero_le _⟩, ?_⟩
  have h0 : row - t.start.row ≠ 0 := by omega
  simp only [Position.plus, Position.advance, h0, if_false, Position.mk.injEq, and_true]
  omega

lemma nearest_start : t.nearest t.start = t.start := by
  conv_lhs => rw [← Position.plus_start t.start]
  rw [nearest_plus t (fits_start _), Position.plus_start]

lemma nearest_stop : t.nearest t.stop = t.stop := nearest_plus t (fits_extent _)

lemma nearest_mono {p q : Position} (h : p ≤ q) : t.nearest p ≤ t.nearest q :=
  (Position.plus_le_plus_iff _ _ _).mpr (t.locate_mono h)

lemma nearest_le_stop (p : Position) : t.nearest p ≤ t.stop :=
  (Position.plus_le_plus_iff _ _ _).mpr (t.fits_locate p).le_extent

lemma nearest_le {p : Position} (h : t.start ≤ p) : t.nearest p ≤ p := by
  have hclamp : Position.clamp t.start t.stop p ≤ p := by
    simp only [Position.clamp]
    split_ifs with hlo hhi
    · exact absurd h (Position.not_le.mpr hlo)
    · exact Position.le_of_lt hhi
    · exact Position.le_refl p
  refine Position.le_trans ?_ hclamp
  have hlo := Position.lo_le_clamp t.start_le_stop p
  have hrow := Position.row_le hlo
  simp only [nearest, locate, rowOffset]
  generalize Position.clamp t.start t.stop p = q at hlo hrow
  rw [Position.le_def] at hlo ⊢
  by_cases heq : q.row = t.start.row
  · simp only [Position.plus, Position.advance, heq, Nat.sub_self, if_true]
    exact .inr ⟨trivial, by omega⟩
  · have h0 : q.row - t.start.row ≠ 0 := by omega
    simp only [Position.plus, Position.advance, h0, heq, if_false]
    omega

lemma row_nearest {p : Position} (h : t.start ≤ p) (h' : p.row ≤ t.stop.row) : (t.nearest p).row = p.row := by
  have hclamp : (Position.clamp t.start t.stop p).row = p.row := by
    simp only [Position.clamp]
    split_ifs with hlo hhi
    · exact absurd h (Position.not_le.mpr hlo)
    · exact Nat.le_antisymm (Position.row_le (Position.le_of_lt hhi)) h'
    · rfl
  have hrow := Position.row_le h
  rw [nearest, Position.row_plus]
  simp only [locate, hclamp]
  omega

lemma slice_start (a b : Position) : (t.slice a b).start = t.nearest a := rfl

def before (p : Position) : Nat := charsBefore t.lines (t.locate p)

lemma extent_before (p : Position) : extent (t.chars.take (t.before p)) = t.locate p :=
  (extent_take_charsBefore (t.fits_locate p)).2

lemma before_mono {p q : Position} (h : p ≤ q) : t.before p ≤ t.before q :=
  charsBefore_le (t.fits_locate p) (t.fits_locate q) (t.locate_mono h)

lemma slice_chars {a b : Position} (h : a ≤ b) :
    (t.slice a b).chars = (t.chars.drop (t.before a)).take (t.before b - t.before a) := by
  simp only [slice, before, Position.max_eq_left h]
  rw [← List.drop_take]
  exact joinLines_cutLines (t.fits_locate a) (t.fits_locate b) (t.locate_mono h)

lemma slice_stop {a b : Position} (h : a ≤ b) : (t.slice a b).stop = t.nearest b := by
  have hm := t.before_mono h
  rw [stop, slice_start, slice_chars t h, nearest, nearest, Position.plus_assoc]
  congr 1
  rw [← extent_before, ← extent_append, ← extent_before]
  congr 1
  conv_rhs => rw [← List.take_append_drop (t.before a) (t.chars.take (t.before b)), List.take_take,
    Nat.min_eq_left hm, List.drop_take]

lemma slice_append {a b c : Position} (hab : a ≤ b) (hbc : b ≤ c) :
    (t.slice a b).chars ++ (t.slice b c).chars = (t.slice a c).chars := by
  have hm := t.before_mono hab
  have hn := t.before_mono hbc
  rw [slice_chars t hab, slice_chars t hbc, slice_chars t (Position.le_trans hab hbc)]
  have hsum : t.before c - t.before a = (t.before b - t.before a) + (t.before c - t.before b) := by
    omega
  rw [hsum, List.take_add, List.drop_drop]
  congr 3
  omega

lemma slice_eq_of {a b : Position} {u : Text} (hchars : (t.slice a b).chars = u.chars) (hfile : t.file = u.file)
    (hstart : (t.slice a b).start = u.start) : t.slice a b = u :=
  calc t.slice a b = ⟨(t.slice a b).chars, t.file, (t.slice a b).start⟩ := rfl
    _ = u := by rw [hchars, hfile, hstart]

lemma slice_whole : t.slice t.start t.stop = t := by
  have ha : t.before t.start = 0 := by
    rw [before, ← Position.plus_start t.start, locate_plus t (fits_start _)]
    exact charsBefore_start _
  have hb : t.before t.stop = t.chars.length := by
    rw [before, stop, locate_plus t (fits_extent _)]
    exact charsBefore_extent _
  have hchars : (t.slice t.start t.stop).chars = t.chars := by
    rw [slice_chars t t.start_le_stop, ha, hb]
    simp
  exact t.slice_eq_of hchars rfl t.nearest_start

variable {t}

lemma rowChars_start (t : Text) (row : Nat) :
    t.rowChars (t.start.row + row) = (t.lines[row]?).getD [] := by
  have h : ¬ t.start.row + row + 1 < t.start.row + 1 := by omega
  have hsub : t.start.row + row + 1 - (t.start.row + 1) = row := by omega
  simp only [rowChars, line?, Position.line, h, if_false, hsub]

lemma lines_ne_nil (t : Text) : t.lines ≠ [] := splitLines_ne_nil t.chars

lemma rowChars_stop (t : Text) : t.rowChars t.stop.row = t.lines.getLast t.lines_ne_nil := by
  have hlen : t.lines.length = (extent t.chars).row + 1 := length_splitLines t.chars
  have hrow : t.stop.row = t.start.row + (extent t.chars).row := Position.row_plus _ _
  rw [hrow, rowChars_start, List.getLast_eq_getElem, List.getElem?_eq_getElem (by omega), Option.getD_some]
  congr 1
  omega

lemma rowChars_before {row : Nat} (h : row < t.start.row) : t.rowChars row = [] := by
  have h' : row + 1 < t.start.row + 1 := by omega
  simp only [rowChars, line?, Position.line, h', if_true, Option.getD_none]

lemma hasPlace_of_le {row n : Nat} (hr : t.rowChars row ≠ []) (hn : n ≤ (t.rowChars row).length) :
    t.HasPlace ⟨row, t.rowOffset row + n⟩ := by
  obtain ⟨r, rfl⟩ : ∃ r, row = t.start.row + r :=
    ⟨row - t.start.row, by
      by_contra h
      exact hr (rowChars_before (by omega))⟩
  rw [rowChars_start] at hr hn
  have hlt : r < (splitLines t.chars).length := by
    by_contra hge
    exact hr (by rw [lines, List.getElem?_eq_none (by omega)]; rfl)
  refine ⟨⟨r, n⟩, ⟨hlt, hn⟩, ?_⟩
  simp only [rowOffset, Position.plus, Position.advance]
  by_cases h0 : r = 0
  · simp [h0]
  · simp [h0]

end SourceBlocks.Text
