import SourceBlocks.Proofs.Text.Pieces
import SourceBlocks.Proofs.Tree.Inset

namespace SourceBlocks.Text

section Lines

variable {margin : List Char}

def spread (margin : List Char) (s : List Char) : List Char :=
  s.flatMap fun c => if c = '\n' then '\n' :: margin else [c]

lemma spread_newline (s : List Char) : spread margin ('\n' :: s) = '\n' :: (margin ++ spread margin s) := by
  simp [spread]

lemma spread_cons {c : Char} (hc : c ≠ '\n') (s : List Char) : spread margin (c :: s) = c :: spread margin s := by
  simp [spread, hc]

lemma spread_append (s u : List Char) : spread margin (s ++ u) = spread margin s ++ spread margin u :=
  List.flatMap_append

lemma splitLines_append {s l : List Char} {ls : List (List Char)} (hmargin : '\n' ∉ margin)
    (h : splitLines s = l :: ls) : splitLines (margin ++ s) = (margin ++ l) :: ls := by
  induction margin with
  | nil => exact h
  | cons c r ih =>
    rw [List.mem_cons, not_or] at hmargin
    rw [List.cons_append, splitLines_cons (fun hc => hmargin.1 hc.symm), ih hmargin.2, List.modifyHead_cons,
      List.cons_append]

lemma splitLines_spread (hmargin : '\n' ∉ margin) {s l : List Char} {ls : List (List Char)}
    (h : splitLines s = l :: ls) : splitLines (spread margin s) = l :: ls.map (margin ++ ·) := by
  induction s generalizing l ls with
  | nil =>
    obtain ⟨rfl, rfl⟩ := List.cons.inj h
    rfl
  | cons c r ih =>
    cases hr : splitLines r with
    | nil => exact absurd hr (splitLines_ne_nil r)
    | cons m ms =>
      by_cases hc : c = '\n'
      · subst hc
        rw [splitLines_newline, hr] at h
        obtain ⟨rfl, rfl⟩ := List.cons.inj h
        rw [spread_newline, splitLines_newline, splitLines_append hmargin (ih hr), List.map_cons]
      · rw [splitLines_cons hc, hr, List.modifyHead_cons] at h
        obtain ⟨rfl, rfl⟩ := List.cons.inj h
        rw [spread_cons hc, splitLines_cons hc, ih hr, List.modifyHead_cons]

lemma extent_spread (hmargin : '\n' ∉ margin) (s : List Char) :
    extent (margin ++ spread margin s) = (extent s).inset margin.length := by
  have hextent := extent_of_not_mem hmargin
  induction s with
  | nil =>
    rw [spread, List.flatMap_nil, List.append_nil, hextent, extent_nil]
    simp only [Position.inset, Position.start, Nat.zero_add]
  | cons c r ih =>
    rw [extent_append, hextent] at ih ⊢
    by_cases hc : c = '\n'
    · subst hc
      -- what the margin in front of the line adds is lost behind the line break
      rw [spread_newline, extent_cons, extent_append, hextent, ih, extent_cons, ← Position.plus_inset,
        ← Position.plus_assoc]
      rfl
    · have hcomm : (⟨0, margin.length⟩ : Position).plus (charExtent c) = (charExtent c).plus ⟨0, margin.length⟩ := by
        simp only [charExtent, hc, if_false, Position.plus, Position.advance, if_true, Nat.add_comm]
      rw [spread_cons hc, extent_cons, ← Position.plus_assoc, hcomm, Position.plus_assoc, ih, Position.plus_inset,
        extent_cons]

end Lines

section Indented

variable (margin : List Char) (t : Text)

def indented : Text := { t with chars := joinLines (t.lines.map (margin ++ ·)) }

variable {margin t}

lemma lines_indented (hmargin : '\n' ∉ margin) : (t.indented margin).lines = t.lines.map (margin ++ ·) := by
  apply splitLines_joinLines
  · exact fun h => splitLines_ne_nil t.chars (List.map_eq_nil_iff.mp h)
  · intro l hl
    obtain ⟨k, hk, rfl⟩ := List.mem_map.mp hl
    rw [List.mem_append, not_or]
    exact ⟨hmargin, not_mem_of_mem_splitLines hk⟩

lemma chars_indented (hmargin : '\n' ∉ margin) : (t.indented margin).chars = margin ++ spread margin t.chars := by
  have hlines : t.lines.map (margin ++ ·) = splitLines (margin ++ spread margin t.chars) := by
    cases h : t.lines with
    | nil => exact absurd h (splitLines_ne_nil _)
    | cons l ls =>
      rw [splitLines_append hmargin (splitLines_spread hmargin h), List.map_cons]
  rw [indented, hlines, joinLines_splitLines]

lemma stop_indented (hmargin : '\n' ∉ margin) : (t.indented margin).stop = t.stop.inset margin.length := by
  rw [stop, chars_indented hmargin, extent_spread hmargin, Position.plus_inset]
  rfl

lemma exists_append {a b : Position} (ha : t.HasPlace a) (hb : t.HasPlace b) (hab : a ≤ b) : ∃ x y z,
    t.chars = x ++ (y ++ z) ∧ a = t.start.plus (extent x) ∧ b = t.start.plus (extent (x ++ y)) := by
  obtain ⟨i, hi, rfl⟩ := ha.exists_point
  obtain ⟨j, hj, rfl⟩ := hb.exists_point
  have hij : i ≤ j := (point_le_point_iff hi hj).mp hab
  refine ⟨t.chars.take i, (t.chars.drop i).take (j - i), t.chars.drop j, ?_, rfl, ?_⟩
  · rw [← List.append_assoc, ← List.take_add, Nat.add_sub_cancel' hij, List.take_append_drop]
  · rw [point, ← List.take_add, Nat.add_sub_cancel' hij]

lemma lines_slice_indented (hmargin : '\n' ∉ margin) {a b : Position} (ha : t.HasPlace a) (hb : t.HasPlace b)
    (hab : a ≤ b) {first : List Char} {rest : List (List Char)} (h : (t.slice a b).lines = first :: rest) :
    ((t.indented margin).slice (a.inset margin.length) (b.inset margin.length)).lines =
      first :: rest.map (margin ++ ·) := by
  obtain ⟨x, y, z, hchars, rfl, rfl⟩ := exists_append ha hb hab
  have hspread : (t.indented margin).chars = (margin ++ spread margin x) ++ (spread margin y ++ spread margin z) := by
    rw [chars_indented hmargin, hchars, spread_append, spread_append, List.append_assoc]
  have hx : (t.start.plus (extent x)).inset margin.length =
      (t.indented margin).start.plus (extent (margin ++ spread margin x)) := by
    rw [extent_spread hmargin, Position.plus_inset]
    rfl
  have hxy : (t.start.plus (extent (x ++ y))).inset margin.length =
      (t.indented margin).start.plus (extent ((margin ++ spread margin x) ++ spread margin y)) := by
    rw [List.append_assoc, ← spread_append, extent_spread hmargin, Position.plus_inset]
    rfl
  rw [lines, slice_of_append hchars] at h
  rw [lines, hx, hxy, slice_of_append hspread]
  exact splitLines_spread hmargin h

end Indented

section Dedented

variable {margin : List Char}

lemma isBare_append (hmargin : ∀ c ∈ margin, isMarginChar c = true) (l : List Char) :
    isBare (margin ++ l) = isBare l := by
  rw [isBare, List.all_append, List.all_eq_true.mpr hmargin, Bool.true_and, isBare]

lemma indentOf_append (hmargin : ∀ c ∈ margin, isMarginChar c = true) (l : List Char) :
    indentOf (margin ++ l) = margin ++ indentOf l := List.takeWhile_append_of_pos hmargin

lemma sharedStart_append (margin r s : List Char) : sharedStart (margin ++ r) (margin ++ s) = margin ++ sharedStart r s := by
  induction margin with
  | nil => rfl
  | cons c margin ih => rw [List.cons_append, List.cons_append, sharedStart, if_pos rfl, ih, List.cons_append]

lemma foldl_sharedStart_append (margin i : List Char) (is : List (List Char)) :
    (is.map (margin ++ ·)).foldl sharedStart (margin ++ i) = margin ++ is.foldl sharedStart i := by
  induction is generalizing i with
  | nil => rfl
  | cons j is ih => rw [List.map_cons, List.foldl_cons, sharedStart_append, ih, List.foldl_cons]

lemma commonIndent_append (hmargin : ∀ c ∈ margin, isMarginChar c = true) {ls : List (List Char)}
    (h : ∃ l ∈ ls, isBare l = false) : commonIndent (ls.map (margin ++ ·)) = margin ++ commonIndent ls := by
  have hindents : ((ls.map (margin ++ ·)).filter fun l => !isBare l).map indentOf =
      ((ls.filter fun l => !isBare l).map indentOf).map (margin ++ ·) := by
    have hbare : (fun l => !isBare l) ∘ (margin ++ ·) = fun l => !isBare l := by
      funext l
      rw [Function.comp, isBare_append hmargin]
    have hindent : indentOf ∘ (margin ++ ·) = (margin ++ ·) ∘ indentOf := by
      funext l
      exact indentOf_append hmargin l
    rw [List.filter_map, List.map_map, List.map_map, hbare, hindent]
  obtain ⟨l, hl, hbare⟩ := h
  have hmem : indentOf l ∈ (ls.filter fun l => !isBare l).map indentOf :=
    List.mem_map_of_mem (List.mem_filter.mpr ⟨hl, by simp [hbare]⟩)
  rw [commonIndent, commonIndent, hindents]
  cases hcons : (ls.filter fun l => !isBare l).map indentOf with
  | nil => simp [hcons] at hmem
  | cons i is => exact foldl_sharedStart_append margin i is

lemma newline_not_mem (hmargin : ∀ c ∈ margin, isMarginChar c = true) : '\n' ∉ margin := by
  intro h
  have hn := hmargin '\n' h
  simp [isMarginChar] at hn

lemma dedent_indented (hmargin : ∀ c ∈ margin, isMarginChar c = true) {t : Text}
    (h : ∃ l ∈ t.lines, isBare l = false) (hindent : commonIndent t.lines = []) :
    dedent (t.indented margin).lines = ⟨(dedent t.lines).chars, margin⟩ := by
  have hcut : (t.lines.map (margin ++ ·)).map (cutMargin margin) = t.lines := by
    rw [List.map_map]
    conv_rhs => rw [← List.map_id t.lines]
    apply List.map_congr_left
    intro l _
    simp [cutMargin]
  rw [lines_indented (newline_not_mem hmargin)]
  simp only [dedent, commonIndent_append hmargin h, hindent, List.append_nil, List.isEmpty_nil, if_true]
  by_cases hnil : margin = []
  · subst hnil
    simp
  · rw [if_neg (by simpa using hnil), hcut]

end Dedented

end SourceBlocks.Text
