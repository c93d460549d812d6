import SourceBlocks.Proofs.Placement.Indented
import SourceBlocks.Proofs.Placement.Quotes
import SourceBlocks.Proofs.Text.Dedent

/-! Fragments of a text and of what is read of it. -/

namespace SourceBlocks

namespace Text

variable {t : Text} {lines : List (List Char)} {l : List Char} {i j q : Position}

def dedented (t : Text) : Text := { t with chars := (dedent t.lines).chars }

lemma lines_dedented (t : Text) : t.dedented.lines = t.lines.map (cutMargin (dedent t.lines).margin) :=
  splitLines_dedent t

lemma joinLines_inj {ls ms : List (List Char)} (hls : ls ≠ []) (hms : ms ≠ []) (hl : ∀ l ∈ ls, '\n' ∉ l)
    (hm : ∀ l ∈ ms, '\n' ∉ l) : joinLines ls = joinLines ms ↔ ls = ms := by
  constructor
  · intro h
    rw [← splitLines_joinLines hls hl, h, splitLines_joinLines hms hm]
  · rintro rfl
    rfl

lemma not_mem_of_mem_cutLines (h : ∀ l ∈ lines, '\n' ∉ l) (hl : l ∈ cutLines lines i j) : '\n' ∉ l := by
  have hget : ∀ row : Nat, '\n' ∉ (lines[row]?).getD [] := by
    intro row
    cases hrow : lines[row]? with
    | none => simp
    | some k => exact h k (List.mem_of_getElem? hrow)
  intro hn
  simp only [cutLines] at hl
  split_ifs at hl
  · rw [List.mem_singleton.mp hl] at hn
    exact hget i.row (List.mem_of_mem_take (List.mem_of_mem_drop hn))
  · rcases List.mem_append.mp hl with hl | hl
    · rcases List.mem_cons.mp hl with rfl | hl
      · exact hget i.row (List.mem_of_mem_drop hn)
      · exact h l (List.mem_of_mem_take (List.mem_of_mem_drop hl)) hn
    · rw [List.mem_singleton.mp hl] at hn
      exact hget j.row (List.mem_of_mem_take hn)

lemma cutLines_ne_nil : cutLines lines i j ≠ [] := by
  simp only [cutLines]
  split_ifs <;> simp

lemma lines_slice (hi : Fits t.chars i) (hj : Fits t.chars j) (hij : i ≤ j) :
    (t.slice (t.start.plus i) (t.start.plus j)).lines = cutLines t.lines i j := by
  have hle := (Position.plus_le_plus_iff t.start i j).mpr hij
  rw [lines, slice]
  simp only [Position.max_eq_left hle, locate_plus t hi, locate_plus t hj]
  exact splitLines_joinLines cutLines_ne_nil fun l => not_mem_of_mem_cutLines fun k => not_mem_of_mem_splitLines

def rowsBetween (t : Text) (i j : Nat) : List (List Char) := (t.lines.take j).drop (i + 1)

lemma mem_rowsBetween {i j : Nat} (hj : j < t.lines.length) : l ∈ t.rowsBetween i j ↔
    ∃ row, t.start.row + i < row ∧ row < t.start.row + j ∧ l = t.rowChars row := by
  rw [rowsBetween, List.mem_drop_iff_getElem]
  simp only [List.length_take, List.getElem_take]
  constructor
  · rintro ⟨k, hk, rfl⟩
    refine ⟨t.start.row + (i + 1 + k), by omega, by omega, ?_⟩
    rw [rowChars_start, List.getElem?_eq_getElem (by omega), Option.getD_some]
  · rintro ⟨row, hi, hrow, rfl⟩
    obtain ⟨k, rfl⟩ : ∃ k, row = t.start.row + (i + 1 + k) := ⟨row - (t.start.row + (i + 1)), by omega⟩
    refine ⟨k, by omega, ?_⟩
    rw [rowChars_start, List.getElem?_eq_getElem (by omega), Option.getD_some]

structure Behind (t : Text) (q : Position) (s : List Char) : Prop where
  row : t.lines[q.row]? = some ((dedent t.lines).margin ++ s)
  le_length : q.offset ≤ s.length

namespace Behind

variable {s s' : List Char}

lemma lt (h : Behind t q s) : q.row < t.lines.length := (List.getElem?_eq_some_iff.mp h.row).1

lemma fits (h : Behind t q s) : Fits t.chars (q.inset (dedent t.lines).margin.length) := by
  refine ⟨h.lt, ?_⟩
  have hrow : (splitLines t.chars)[q.row]? = _ := h.row
  have hle := h.le_length
  simp only [Position.inset, hrow, Option.getD_some, List.length_append]
  omega

lemma row_dedented (h : Behind t q s) : t.dedented.lines[q.row]? = some s := by
  rw [lines_dedented, List.getElem?_map, h.row, Option.map_some, cutMargin_append]

lemma fits_dedented (h : Behind t q s) : Fits t.dedented.chars q := by
  have hrow : (splitLines t.dedented.chars)[q.row]? = _ := h.row_dedented
  refine ⟨(List.getElem?_eq_some_iff.mp hrow).1, ?_⟩
  rw [hrow, Option.getD_some]
  exact h.le_length

lemma cutLines_eq (hi : Behind t i s) (hrow : i.row = j.row) :
    cutLines t.lines (i.inset (dedent t.lines).margin.length) (j.inset (dedent t.lines).margin.length) =
      cutLines t.dedented.lines i j := by
  have hcut : ∀ (m : List Char) (n k : Nat), ((m ++ s).take (max (n + m.length) (k + m.length))).drop (k + m.length) =
      (s.take (max n k)).drop k := by
    intro m n k
    rw [Nat.add_max_add_right, Nat.add_comm (max n k), List.take_length_add_append, Nat.add_comm k,
      List.drop_length_add_append]
  simp only [cutLines, Position.inset, ← hrow, hi.row, hi.row_dedented, if_true, Option.getD_some, hcut]

lemma cutLines_text (hi : Behind t i s) (hj : Behind t j s') (hrow : i.row ≠ j.row) :
    cutLines t.lines (i.inset (dedent t.lines).margin.length) (j.inset (dedent t.lines).margin.length) =
      s.drop i.offset :: (t.rowsBetween i.row j.row ++ [(dedent t.lines).margin ++ s'.take j.offset]) := by
  simp only [cutLines, Position.inset, hi.row, hj.row, hrow, if_false, Option.getD_some, List.cons_append]
  rw [Nat.add_comm i.offset, List.drop_length_add_append, Nat.add_comm j.offset, List.take_length_add_append]
  rfl

lemma cutLines_dedented (hi : Behind t i s) (hj : Behind t j s') (hrow : i.row ≠ j.row) :
    cutLines t.dedented.lines i j = s.drop i.offset ::
      ((t.rowsBetween i.row j.row).map (cutMargin (dedent t.lines).margin) ++ [s'.take j.offset]) := by
  simp only [cutLines, hi.row_dedented, hj.row_dedented, hrow, if_false, Option.getD_some, List.cons_append]
  rw [lines_dedented, ← List.map_take, ← List.map_drop]
  rfl

end Behind

end Text

namespace Placement

open SourceBlocks.Tree (Extent)
open Text (dedent cutMargin joinLines)

variable {t : Text} {margin row before after : List Char} {i j : Position}

lemma length_le_of_prefix {x : Char} (h : margin <+: before ++ x :: after) (hx : x ∉ margin) :
    margin.length ≤ before.length := by
  by_contra hlt
  have hget : margin[before.length]? = some x := by
    have hle : before.length < margin.length := by omega
    rw [List.getElem?_eq_getElem hle, h.getElem hle]
    simp
  exact hx (List.mem_of_getElem? hget)

lemma exists_behind {r n : Nat} {x : Char} (hx : Text.isMarginChar x = false)
    (hrow : t.rowChars r = before ++ x :: after) (hn : before.length ≤ n) (hn' : n ≤ (t.rowChars r).length) :
    ∃ q s, Text.Behind t q s ∧
      (⟨r, t.rowOffset r + n⟩ : Position) = t.start.plus (q.inset (dedent t.lines).margin.length) := by
  obtain ⟨k, rfl⟩ : ∃ k, r = t.start.row + k := by
    refine ⟨r - t.start.row, ?_⟩
    by_contra hlt
    rw [Text.rowChars_before (by omega)] at hrow
    simp at hrow
  rw [Text.rowChars_start] at hrow hn'
  obtain ⟨l, hl⟩ : ∃ l, t.lines[k]? = some l := by
    cases hk : t.lines[k]? with
    | none => simp [hk] at hrow
    | some l => exact ⟨l, rfl⟩
  rw [hl, Option.getD_some] at hrow hn'
  have hmargin := Text.isCommonMargin_commonIndent t.lines
  rw [← Text.margin_dedent] at hmargin
  have hbare : Text.isBare l = false := by simp [Text.isBare, hrow, hx]
  have hprefix := hmargin.2 l (List.mem_of_getElem? hl) hbare
  have hle : (dedent t.lines).margin.length ≤ before.length := by
    refine length_le_of_prefix (hrow ▸ hprefix) fun hmem => ?_
    simp [hmargin.1 x hmem] at hx
  obtain ⟨s, rfl⟩ := hprefix
  rw [List.length_append] at hn'
  refine ⟨⟨k, n - (dedent t.lines).margin.length⟩, s, ⟨hl, Nat.sub_le_of_le_add (Nat.add_comm _ _ ▸ hn')⟩, ?_⟩
  rw [Position.inset, Nat.sub_add_cancel (Nat.le_trans hle hn), Position.plus, Position.advance]
  by_cases h0 : k = 0 <;> simp [h0, Text.rowOffset]

lemma not_isMarginChar_of_isQuote {x : Char} (h : isQuote x = true) : Text.isMarginChar x = false := by
  simp only [isQuote, Bool.or_eq_true, decide_eq_true_eq] at h
  rcases h with rfl | rfl <;> rfl

lemma not_isMarginChar_of_isLiteralLetter {x : Char} (h : isLiteralLetter x = true) : Text.isMarginChar x = false := by
  have hall : ['b', 'B', 'r', 'R', 'u', 'U'].all (fun x => !Text.isMarginChar x) = true := by decide
  simpa using List.all_eq_true.mp hall x (by simpa [isLiteralLetter] using h)

lemma OpensAt.exists_behind {o : QuotePlace} (h : OpensAt t o) : ∃ q s, Text.Behind t q s ∧
    o.place = t.start.plus (q.inset (dedent t.lines).margin.length) := by
  obtain ⟨n, ⟨before, letters, after, hrow, hquote, hletters, -, rfl⟩, hoffset⟩ := h
  have hlen : before.length ≤ (t.rowChars o.place.row).length := by
    simp only [hrow, List.length_append]
    omega
  have hplace : o.place = ⟨o.place.row, t.rowOffset o.place.row + before.length⟩ := by rw [← hoffset]
  rw [hplace]
  cases letters with
  | nil =>
    rw [List.append_nil] at hrow
    exact Placement.exists_behind (not_isMarginChar_of_isQuote hquote) hrow (Nat.le_refl _) hlen
  | cons x letters =>
    rw [List.append_assoc, List.cons_append] at hrow
    exact Placement.exists_behind (not_isMarginChar_of_isLiteralLetter (hletters x List.mem_cons_self)) hrow
      (Nat.le_refl _) hlen

lemma ClosesAt.exists_behind {c : QuotePlace} (h : ClosesAt t c) : ∃ q s, Text.Behind t q s ∧
    c.place = t.start.plus (q.inset (dedent t.lines).margin.length) := by
  obtain ⟨n, ⟨before, after, hrow, hquote, rfl⟩, hoffset⟩ := h
  have hplace : c.place = ⟨c.place.row, t.rowOffset c.place.row + (before.length + 1)⟩ := by rw [← hoffset]
  rw [hplace]
  refine Placement.exists_behind (not_isMarginChar_of_isQuote hquote) hrow (Nat.le_succ _) ?_
  simp only [hrow, List.length_append, List.length_cons]
  omega

lemma withoutMargin_eq_cutMargin_iff : withoutMargin margin row = cutMargin margin row ↔ margin <+: row ∨ row = [] := by
  by_cases h : margin <+: row <;> simp [withoutMargin, cutMargin, h]

lemma not_mem_withoutMargin {x : Char} (h : x ∉ row) : x ∉ withoutMargin margin row := by
  rw [withoutMargin]
  split_ifs
  · exact fun hmem => h (List.mem_of_mem_drop hmem)
  · exact h

lemma fragment_eq_iff {s s' : List Char} {reader : List Char → Option (List Char)} (hi : Text.Behind t i s)
    (hj : Text.Behind t j s') (hij : i < j) :
    fragment ⟨t, (dedent t.lines).margin, reader⟩
        ⟨t.start.plus (i.inset (dedent t.lines).margin.length), t.start.plus (j.inset (dedent t.lines).margin.length)⟩ =
      (t.dedented.slice (t.start.plus i) (t.start.plus j)).chars ↔
    ∀ row ∈ t.rowsBetween i.row j.row, (dedent t.lines).margin <+: row ∨ row = [] := by
  have hlines := Text.lines_slice hi.fits hj.fits ((Position.inset_le_inset_iff _ i j).mpr (Position.le_of_lt hij))
  have hread : (t.dedented.slice (t.start.plus i) (t.start.plus j)).chars =
      joinLines (Text.cutLines t.dedented.lines i j) := by
    rw [← Text.lines_slice hi.fits_dedented hj.fits_dedented (Position.le_of_lt hij), Text.lines,
      Text.joinLines_splitLines]
    rfl
  rw [hread]
  by_cases hrow : i.row = j.row
  · have hnone : t.rowsBetween i.row j.row = [] := by
      rw [Text.rowsBetween, hrow, List.drop_eq_nil_iff, List.length_take]
      omega
    rw [hi.cutLines_eq hrow] at hlines
    rw [hnone, fragment, hlines]
    simp [Text.cutLines, hrow]
  · rw [hi.cutLines_text hj hrow] at hlines
    rw [hi.cutLines_dedented hj hrow, fragment, hlines]
    simp only [List.map_append, List.map_cons, List.map_nil, withoutMargin_append]
    have hbreak : ∀ l ∈ t.lines, '\n' ∉ l := fun l => Text.not_mem_of_mem_splitLines
    have hrest : ∀ {q : Position} {s : List Char}, Text.Behind t q s → '\n' ∉ s := fun h hmem =>
      hbreak _ (List.mem_of_getElem? h.row) (List.mem_append_right _ hmem)
    have hrows : ∀ f : List Char → List Char, (∀ l, '\n' ∉ l → '\n' ∉ f l) →
        ∀ l ∈ s.drop i.offset :: ((t.rowsBetween i.row j.row).map f ++ [s'.take j.offset]), '\n' ∉ l := by
      intro f hf l hl
      rcases List.mem_cons.mp hl with rfl | hl
      · exact fun hmem => hrest hi (List.mem_of_mem_drop hmem)
      · rcases List.mem_append.mp hl with hl | hl
        · obtain ⟨k, hk, rfl⟩ := List.mem_map.mp hl
          exact hf k (hbreak k (List.mem_of_mem_take (List.mem_of_mem_drop hk)))
        · rw [List.mem_singleton.mp hl]
          exact fun hmem => hrest hj (List.mem_of_mem_take hmem)
    rw [Text.joinLines_inj (by simp) (by simp) (hrows _ fun _ => not_mem_withoutMargin)
      (hrows _ fun _ hl hmem => hl (Text.mem_of_mem_cutMargin hmem))]
    rw [List.cons.injEq, eq_self, true_and, List.append_cancel_right_eq, List.map_inj_left]
    simp only [withoutMargin_eq_cutMargin_iff]

/-- A literal begins and ends behind the margin. -/
theorem fragment_eq_read_iff {reader : List Char → Option (List Char)} {o c : QuotePlace} {floor : Position}
    {last row : Nat} (ho : o ∈ openPlaces t floor last) (hc : c ∈ closePlaces t row) (hlt : o.place < c.place) :
    ∃ a b, o.place = a.inset (dedent t.lines).margin.length ∧ c.place = b.inset (dedent t.lines).margin.length ∧
      t.dedented.HasPlace a ∧ t.dedented.HasPlace b ∧
      (fragment ⟨t, (dedent t.lines).margin, reader⟩ ⟨o.place, c.place⟩ = (t.dedented.slice a b).chars ↔
        ∀ r, o.place.row < r → r < c.place.row →
          (dedent t.lines).margin <+: t.rowChars r ∨ t.rowChars r = []) := by
  obtain ⟨i, s, hi, hstart⟩ := (mem_openPlaces_iff.mp ho).2.2.exists_behind
  obtain ⟨j, s', hj, hstop⟩ := (mem_closePlaces_iff.mp hc).2.exists_behind
  rw [hstart, hstop, Position.plus_lt_plus_iff, Position.inset_lt_inset_iff] at hlt
  refine ⟨t.start.plus i, t.start.plus j, ?_, ?_, ⟨i, hi.fits_dedented, rfl⟩, ⟨j, hj.fits_dedented, rfl⟩, ?_⟩
  · rw [hstart, Position.plus_inset]
  · rw [hstop, Position.plus_inset]
  · rw [hstart, hstop, fragment_eq_iff hi hj hlt]
    simp only [Text.mem_rowsBetween hj.lt, Position.row_plus, Position.inset]
    constructor
    · exact fun h r hr hr' => h _ ⟨r, hr, hr', rfl⟩
    · rintro h _ ⟨r, hr, hr', rfl⟩
      exact h r hr hr'

theorem fragment_eq_read_empty_row :
    fragment ⟨(Text.ofString "  x = '''\n\n  '''").anchored ⟨4, 2⟩, [' ', ' '], fun _ => none⟩ ⟨⟨4, 8⟩, ⟨6, 5⟩⟩ =
      (((Text.ofString "  x = '''\n\n  '''").anchored ⟨4, 2⟩).dedented.slice ⟨4, 6⟩ ⟨6, 3⟩).chars := by
  have hmargin : (dedent ((Text.ofString "  x = '''\n\n  '''").anchored ⟨4, 2⟩).lines).margin = [' ', ' '] := by decide
  obtain ⟨a, b, ha, hb, -, -, hiff⟩ :=
    @fragment_eq_read_iff ((Text.ofString "  x = '''\n\n  '''").anchored ⟨4, 2⟩) (fun _ => none)
      ⟨'\'', ⟨4, 8⟩⟩ ⟨'\'', ⟨6, 5⟩⟩ ⟨4, 2⟩ 6 6 (by decide) (by decide) (by decide)
  rw [hmargin] at ha hb hiff
  obtain rfl : a = ⟨4, 6⟩ := by
    obtain ⟨row, offset⟩ := a
    simpa [Position.inset, eq_comm] using ha
  obtain rfl : b = ⟨6, 3⟩ := by
    obtain ⟨row, offset⟩ := b
    simpa [Position.inset, eq_comm] using hb
  refine hiff.mpr fun r hr hr' => .inr ?_
  obtain rfl : r = 5 := Nat.le_antisymm (Nat.le_of_lt_succ hr') hr
  decide

theorem fragment_keeps_short_row :
    (⟨'\'', ⟨0, 2⟩⟩ : QuotePlace) ∈ openPlaces (Text.ofString "  '''\n \n  '''\n") .start 2 ∧
    (⟨'\'', ⟨2, 5⟩⟩ : QuotePlace) ∈ closePlaces (Text.ofString "  '''\n \n  '''\n") 2 ∧
    dedent (Text.ofString "  '''\n \n  '''\n").lines = ⟨"'''\n\n'''\n".toList, [' ', ' ']⟩ ∧
    fragment ⟨Text.ofString "  '''\n \n  '''\n", [' ', ' '], fun _ => none⟩ ⟨⟨0, 2⟩, ⟨2, 5⟩⟩ = "'''\n \n'''".toList ∧
    ((Text.ofString "  '''\n \n  '''\n").dedented.slice ⟨0, 0⟩ ⟨2, 3⟩).chars = "'''\n\n'''".toList := by
  decide

end Placement

end SourceBlocks
