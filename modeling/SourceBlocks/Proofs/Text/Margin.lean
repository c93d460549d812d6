import SourceBlocks.Proofs.Lexis.Source
import SourceBlocks.Proofs.Text.Slice
import SourceBlocks.Text.Blank
import SourceBlocks.Text.Indent

/-! A text and what is read of it. Reading takes the margin off every row, so what is read stands in the
text at the same row and behind the margin. -/

namespace SourceBlocks.Text

lemma splitLines_of_not_mem {l : List Char} (h : '\n' ∉ l) : splitLines l = [l] := splitAt_of_not_mem h

lemma splitLines_joinLines {ls : List (List Char)} (hne : ls ≠ []) (h : ∀ l ∈ ls, '\n' ∉ l) :
    splitLines (joinLines ls) = ls := splitAt_joinWith hne h

lemma getElem?_line {s : List Char} {i : Nat} {c : Char} (h : s[i]? = some c) (hc : c ≠ '\n') :
    (((splitLines s)[(extent (s.take i)).row]?).getD [])[(extent (s.take i)).offset]? = some c := by
  induction s generalizing i with
  | nil => simp at h
  | cons x r ih =>
    cases i with
    | zero =>
      obtain rfl : x = c := by simpa using h
      rw [List.take_zero, extent_nil, Position.start, getElem?_splitLines_cons_zero hc, List.getElem?_cons_zero]
    | succ i =>
      rw [List.take_succ_cons, extent_cons, ← List.head?_drop, drop_line_cons, List.head?_drop]
      exact ih (by simpa using h)

lemma mem_line {s : List Char} {i : Nat} {c : Char} (h : s[i]? = some c) (hc : c ≠ '\n') :
    c ∈ ((splitLines s)[(extent (s.take i)).row]?).getD [] := List.mem_of_getElem? (getElem?_line h hc)

lemma Fits.append {s : List Char} {p : Position} (h : Fits s p) (u : List Char) : Fits (s ++ u) p := by
  induction s generalizing p with
  | nil =>
    obtain rfl := fits_nil.mp h
    exact fits_start _
  | cons c r ih =>
    rcases fits_cons.mp h with rfl | ⟨q, hq, rfl⟩
    · exact fits_start _
    · exact fits_plus.mpr (ih hq)

lemma fits_extent_take (s : List Char) (i : Nat) : Fits s (extent (s.take i)) := by
  have h := (fits_extent (s.take i)).append (s.drop i)
  rwa [List.take_append_drop] at h

variable (t : Text)

def source : Lexis.Source := ⟨(dedent t.lines).margin.length, (dedent t.lines).chars⟩

def placeAt (i : Nat) : Position := t.start.plus (t.source.placeAt i)

variable {t}

lemma cutMargin_nil (line : List Char) : cutMargin [] line = line := by simp [cutMargin]

lemma mem_of_mem_cutMargin {margin line : List Char} {c : Char} (h : c ∈ cutMargin margin line) :
    c ∈ line := by
  simp only [cutMargin] at h
  split_ifs at h
  · exact List.mem_of_mem_drop h
  · simp at h

lemma splitLines_dedent (t : Text) :
    splitLines t.source.chars = t.lines.map (cutMargin (dedent t.lines).margin) := by
  have hne : t.lines ≠ [] := splitLines_ne_nil _
  have hline : ∀ l ∈ t.lines, '\n' ∉ l := fun l => not_mem_of_mem_splitLines
  simp only [source, dedent]
  split_ifs with hm
  · rw [splitLines_joinLines hne hline]
    have hid : cutMargin [] = id := funext cutMargin_nil
    rw [hid, List.map_id]
  · refine splitLines_joinLines (by simpa using hne) fun l hl => ?_
    obtain ⟨k, hk, rfl⟩ := List.mem_map.mp hl
    exact fun h => hline k hk (mem_of_mem_cutMargin h)

lemma commonIndent_of_flush {l : List Char} (hbare : isBare l = false) (hindent : indentOf l = [])
    (ls : List (List Char)) : commonIndent (l :: ls) = [] := by
  have hnil : ∀ is : List (List Char), is.foldl sharedStart [] = [] := by
    intro is
    induction is with
    | nil => rfl
    | cons i is ih => exact ih
  simp [commonIndent, hbare, hindent, hnil]

lemma dedent_of_head (h : ∀ c ∈ t.chars.head?, isBlank c = false) : dedent t.lines = ⟨t.chars, []⟩ := by
  have hcommon : commonIndent t.lines = [] := by
    rw [lines]
    cases hchars : t.chars with
    | nil => rfl
    | cons c r =>
      have hne : ∀ d, isBlank d = true → c ≠ d := by
        rintro d hd rfl
        rw [h c (by rw [hchars, List.head?_cons, Option.mem_some])] at hd
        cases hd
      have hmargin : isMarginChar c = false := by
        simp [isMarginChar, hne ' ' (by decide), hne '\t' (by decide)]
      obtain ⟨l, ls, hr⟩ := List.exists_cons_of_ne_nil (splitLines_ne_nil r)
      rw [splitLines_cons (hne '\n' (by decide)), hr, List.modifyHead_cons]
      apply commonIndent_of_flush
      · simp [isBare, hmargin]
      · simp [indentOf, hmargin]
  rw [dedent, hcommon, lines, joinLines_splitLines]
  rfl

lemma getElem?_splitLines_dedent (t : Text) (row : Nat) : ((splitLines t.source.chars)[row]?).getD [] =
    cutMargin (dedent t.lines).margin ((t.lines[row]?).getD []) := by
  rw [splitLines_dedent, List.getElem?_map]
  cases t.lines[row]? with
  | some l => rfl
  | none =>
    simp only [Option.map_none, Option.getD_none, cutMargin]
    split_ifs <;> simp

lemma row_placeAt (t : Text) (i : Nat) :
    (t.placeAt i).row = t.start.row + (extent (t.source.chars.take i)).row := Position.row_plus _ _

lemma mem_rowChars_placeAt {i : Nat} {c : Char} (h : t.source.chars[i]? = some c) (hc : c ≠ '\n') :
    c ∈ t.rowChars (t.placeAt i).row := by
  rw [row_placeAt, rowChars_start]
  have hmem := mem_line h hc
  rw [getElem?_splitLines_dedent] at hmem
  exact mem_of_mem_cutMargin hmem

lemma placeAt_lt {i j : Nat} (hij : i < j) (hj : j ≤ t.source.chars.length) : t.placeAt i < t.placeAt j :=
  (Position.plus_lt_plus_iff _ _ _).mpr (Lexis.Source.placeAt_lt hij hj)

lemma placeAt_le {i j : Nat} (hij : i ≤ j) (hj : j ≤ t.source.chars.length) : t.placeAt i ≤ t.placeAt j :=
  (Position.plus_le_plus_iff _ _ _).mpr (Lexis.Source.placeAt_le hij hj)

lemma start_le_placeAt (t : Text) (i : Nat) : t.start ≤ t.placeAt i := Position.le_plus _ _

lemma hasPlace_placeAt_or (t : Text) (i : Nat) : t.HasPlace (t.placeAt i) ∨
    (extent (t.source.chars.take i)).offset = 0 := by
  obtain ⟨hrow, hoff⟩ := fits_extent_take t.source.chars i
  rw [getElem?_splitLines_dedent, cutMargin] at hoff
  rw [splitLines_dedent, List.length_map] at hrow
  split_ifs at hoff with hmargin
  · have hlen := (List.isPrefixOf_iff_prefix.mp hmargin).length_le
    rw [List.length_drop] at hoff
    refine .inl ⟨t.source.placeAt i, ⟨hrow, ?_⟩, rfl⟩
    change (dedent t.lines).margin.length + (extent (t.source.chars.take i)).offset ≤
      ((t.lines[(extent (t.source.chars.take i)).row]?).getD []).length
    omega
  · exact .inr (by simpa using hoff)

lemma row_placeAt_le (t : Text) (i : Nat) : (t.placeAt i).row ≤ t.stop.row := by
  have hrow := (fits_extent_take t.source.chars i).1
  rw [splitLines_dedent, List.length_map, lines, length_splitLines] at hrow
  rw [row_placeAt, stop, Position.row_plus]
  omega

lemma placeAt_lt_nearest {i j : Nat} (hij : i < j) (hj : j ≤ t.source.chars.length) :
    t.placeAt i < t.nearest (t.placeAt j) := by
  have hlt := extent_take_lt hij hj
  rcases t.hasPlace_placeAt_or j with hplace | h0
  · rw [hplace.nearest_eq]
    exact placeAt_lt hij hj
  · -- nothing of the row of `j` comes before `j`
    have hrow := t.row_nearest (t.start_le_placeAt j) (t.row_placeAt_le j)
    rw [row_placeAt] at hrow
    refine .inl ?_
    rw [hrow, row_placeAt]
    rw [Position.lt_def] at hlt
    omega

def IsLimit (t : Text) (p : Position) : Prop :=
  t.HasPlace p ∨ ∃ j ≤ t.source.chars.length, p = t.placeAt j

lemma IsLimit.row_le {p : Position} (h : t.IsLimit p) : p.row ≤ t.stop.row := by
  rcases h with h | ⟨j, -, rfl⟩
  · exact Position.row_le h.le_stop
  · exact t.row_placeAt_le j

lemma isLimit_rowStart {p : Position} (h : t.start < p) (h' : p.row ≤ t.stop.row) (h0 : p.offset = 0) :
    t.IsLimit p := by
  obtain ⟨row, offset⟩ := p
  obtain rfl : offset = 0 := h0
  refine .inl (t.hasPlace_rowStart ?_ h')
  rw [Position.lt_def] at h
  simp only at h
  omega

lemma IsLimit.placeAt_lt_nearest {p : Position} {i : Nat} (h : t.IsLimit p) (hi : i ≤ t.source.chars.length)
    (hlt : t.placeAt i < p) : t.placeAt i < t.nearest p := by
  rcases h with h | ⟨j, hj, rfl⟩
  · rwa [h.nearest_eq]
  · refine Text.placeAt_lt_nearest (Nat.lt_of_not_le fun hji => ?_) hj
    exact Position.not_le.mpr hlt (placeAt_le hji hi)

end SourceBlocks.Text
