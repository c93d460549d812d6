import SourceBlocks.Proofs.Grammar.Inset
import SourceBlocks.Proofs.Lowering.Module
import SourceBlocks.Proofs.Placement.Shift
import SourceBlocks.Proofs.Text.Indented
import SourceBlocks.Proofs.Tree.Demands

namespace SourceBlocks

open Outcome
open SourceBlocks.Tree (Extent Mark Node Shape)

namespace Placement

section Rows

variable {margin : List Char}

def behind (n : Nat) (q : Char × Nat) : Char × Nat := (q.1, n + q.2)

lemma not_isQuote {c : Char} (h : Text.isMarginChar c = true) : isQuote c = false := by
  rw [Text.isMarginChar, Bool.or_eq_true, decide_eq_true_eq, decide_eq_true_eq] at h
  rcases h with rfl | rfl <;> rfl

lemma not_isLiteralLetter {c : Char} (h : Text.isMarginChar c = true) : isLiteralLetter c = false := by
  rw [Text.isMarginChar, Bool.or_eq_true, decide_eq_true_eq, decide_eq_true_eq] at h
  rcases h with rfl | rfl <;> rfl

lemma openingsFrom_margin (hmargin : ∀ c ∈ margin, Text.isMarginChar c = true) (i : Nat) (l : List Char) :
    openingsFrom i 0 (margin ++ l) = openingsFrom (margin.length + i) 0 l := by
  induction margin generalizing i with
  | nil => rw [List.nil_append, List.length_nil, Nat.zero_add]
  | cons c margin ih =>
    obtain ⟨hc, hmargin⟩ := List.forall_mem_cons.mp hmargin
    rw [List.cons_append, openingsFrom, not_isQuote hc, not_isLiteralLetter hc, if_neg Bool.false_ne_true,
      if_neg Bool.false_ne_true, ih hmargin, List.length_cons]
    congr 1
    omega

lemma openingsFrom_add (n : Nat) {i letters : Nat} (h : letters ≤ i) (l : List Char) :
    openingsFrom (n + i) letters l = (openingsFrom i letters l).map (behind n) := by
  induction l generalizing i letters with
  | nil => rfl
  | cons c l ih =>
    rw [openingsFrom, openingsFrom, Nat.add_assoc]
    split_ifs
    · rw [ih (Nat.zero_le _), List.map_cons, behind, Nat.add_sub_assoc h]
    · exact ih (by omega)
    · exact ih (Nat.zero_le _)

lemma openings_margin (hmargin : ∀ c ∈ margin, Text.isMarginChar c = true) (l : List Char) :
    openings (margin ++ l) = (openings l).map (behind margin.length) := by
  rw [openings, openingsFrom_margin hmargin, openingsFrom_add _ (Nat.le_refl 0), openings]

lemma closingsFrom_margin (hmargin : ∀ c ∈ margin, Text.isMarginChar c = true) (i : Nat) (l : List Char) :
    closingsFrom i (margin ++ l) = closingsFrom (margin.length + i) l := by
  induction margin generalizing i with
  | nil => rw [List.nil_append, List.length_nil, Nat.zero_add]
  | cons c margin ih =>
    obtain ⟨hc, hmargin⟩ := List.forall_mem_cons.mp hmargin
    rw [List.cons_append, closingsFrom, not_isQuote hc, if_neg Bool.false_ne_true, ih hmargin, List.length_cons]
    congr 1
    omega

lemma closingsFrom_add (n i : Nat) (l : List Char) : closingsFrom (n + i) l = (closingsFrom i l).map (behind n) := by
  induction l generalizing i with
  | nil => rfl
  | cons c l ih =>
    rw [closingsFrom, closingsFrom, Nat.add_assoc, ih]
    split_ifs <;> rfl

lemma closings_margin (hmargin : ∀ c ∈ margin, Text.isMarginChar c = true) (l : List Char) :
    closings (margin ++ l) = (closings l).map (behind margin.length) := by
  rw [closings, closingsFrom_margin hmargin, closingsFrom_add, closings]

variable {t : Text}

lemma rowChars_indented (hmargin : '\n' ∉ margin) (row : Nat) :
    (t.indented margin).rowChars row = margin ++ t.rowChars row ∨
      (t.indented margin).rowChars row = [] ∧ t.rowChars row = [] := by
  have hstart : (t.indented margin).start = t.start := rfl
  by_cases h : row < t.start.row
  · exact .inr ⟨Text.rowChars_before h, Text.rowChars_before h⟩
  · obtain ⟨r, rfl⟩ := Nat.exists_eq_add_of_le (Nat.not_lt.mp h)
    rw [Text.rowChars_start, ← hstart, Text.rowChars_start, Text.lines_indented hmargin, List.getElem?_map]
    cases t.lines[r]? with
    | none => exact .inr ⟨rfl, rfl⟩
    | some l => exact .inl rfl

lemma placed_behind (row n : Nat) (qs : List (Char × Nat)) :
    placed (t.indented margin) row (qs.map (behind n)) = (placed t row qs).map (QuotePlace.move (Position.inset n)) := by
  rw [placed, placed, List.map_map, List.map_map]
  apply List.map_congr_left
  intro q _
  have hoffset : (t.indented margin).rowOffset row = t.rowOffset row := rfl
  simp only [Function.comp, behind, QuotePlace.move, Position.inset, hoffset, QuotePlace.mk.injEq, Position.mk.injEq,
    true_and]
  omega

lemma placed_rowChars_indented (hmargin : '\n' ∉ margin) {find : List Char → List (Char × Nat)} (hnil : find [] = [])
    (hfind : ∀ l, find (margin ++ l) = (find l).map (behind margin.length)) (row : Nat) :
    placed (t.indented margin) (0 + row) (find ((t.indented margin).rowChars (0 + row))) =
      (placed t row (find (t.rowChars row))).map (QuotePlace.move (Position.inset margin.length)) := by
  rw [Nat.zero_add]
  rcases rowChars_indented (t := t) hmargin row with h | ⟨h, h'⟩
  · rw [h, hfind, placed_behind]
  · rw [h, h', hnil]
    rfl

end Rows

lemma withoutMargin_nil (row : List Char) : withoutMargin [] row = row := by
  simp [withoutMargin]

lemma withoutMargin_append (margin row : List Char) : withoutMargin margin (margin ++ row) = row := by
  simp [withoutMargin]

lemma fragment_indented {margin : List Char} {t : Text} {reader : List Char → Option (List Char)} {e : Extent}
    (hmargin : '\n' ∉ margin) (hstart : t.HasPlace e.start) (hstop : t.HasPlace e.stop) (hlt : e.start < e.stop) :
    fragment ⟨t.indented margin, margin, reader⟩ (e.move (Position.inset margin.length)) =
      fragment ⟨t, [], reader⟩ e := by
  cases hlines : (t.slice e.start e.stop).lines with
  | nil => exact absurd hlines (Text.splitLines_ne_nil _)
  | cons first rest =>
    have hlines' := Text.lines_slice_indented hmargin hstart hstop (Position.le_of_lt hlt) hlines
    have hrows : (rest.map (margin ++ ·)).map (withoutMargin margin) = rest.map (withoutMargin []) := by
      rw [List.map_map]
      apply List.map_congr_left
      intro row _
      rw [Function.comp, withoutMargin_append, withoutMargin_nil]
    simp only [fragment, Extent.move, hlines, hlines', hrows]

lemma shift_indented {margin : List Char} (hmargin : ∀ c ∈ margin, Text.isMarginChar c = true) (t : Text)
    (reader : List Char → Option (List Char)) :
    Shift ⟨t, [], reader⟩ ⟨t.indented margin, margin, reader⟩ (Position.inset margin.length) 0 where
  reader := rfl
  lt_iff := Position.inset_lt_inset_iff _
  row p := (Nat.zero_add p.row).symm
  start_row := (Nat.zero_add t.start.row).symm
  stop_row := by
    rw [Text.stop_indented (Text.newline_not_mem hmargin), Nat.zero_add]
    rfl
  start_le p hp := Position.le_trans hp (.inr ⟨rfl, Nat.le_add_right _ _⟩)
  opens := placed_rowChars_indented (Text.newline_not_mem hmargin) rfl (openings_margin hmargin)
  closes := placed_rowChars_indented (Text.newline_not_mem hmargin) rfl (closings_margin hmargin)
  fragment _ hstart hstop hlt := fragment_indented (Text.newline_not_mem hmargin) hstart hstop hlt

lemma remarks_inset (w : Nat) : Remarks (Node.inset w) (Position.inset w) where
  children := Node.children_inset
  known n p h := by rw [Node.mark_inset, h]; rfl
  endsOn n row h := by rw [Node.mark_inset, h]; rfl
  bare n h := by rw [Node.mark_inset, h]; rfl
  stringValue n := by
    obtain ⟨mark, shape⟩ := n
    cases shape <;> rfl
  isExpr n := by
    obtain ⟨mark, shape⟩ := n
    cases shape <;> rfl

end Placement

namespace Reading

open Placement

variable {t : Text} {f : Features} {margin : List Char}

lemma placeIn_indented (hmargin : ∀ c ∈ margin, Text.isMarginChar c = true) (tree : Node) :
    Agree (fun _ _ => True)
      (fun p p' => p' = p.move (Position.inset margin.length) (Node.inset margin.length))
      (placeIn ⟨tree, [], f⟩ t) (placeIn ⟨tree.inset margin.length, margin, f⟩ (t.indented margin)) := by
  have h := shift_indented hmargin t Grammar.stringValue?
  have hplus : ∀ p, (t.indented margin).start.plus (p.inset margin.length) = (t.start.plus p).inset margin.length :=
    fun p => Position.plus_inset _ _ _
  have hplace := h.place_agree (remarks_inset margin.length) hplus h.floor_start tree
  exact (hplace.mono fun _ _ hp => hp.1).mapError fun _ _ _ => trivial

/-- Putting a margin in front of every line of a text only moves it to the right: it is read if it was, as the
same tree with its places farther to the right by the width of the margin, and what is found of it in the text
is what was found, as much farther to the right. -/
theorem ofText_indented (t : Text) (f : Features) (margin : List Char)
    (hmargin : ∀ c ∈ margin, Text.isMarginChar c = true) (hline : ∃ l ∈ t.lines, Text.isBare l = false)
    (hindent : Text.commonIndent t.lines = []) :
    Agree (fun _ _ => True)
      (fun r r' => r.margin = [] ∧ r' = ⟨r.tree.inset margin.length, margin, r.features⟩ ∧
        Agree (fun _ _ => True)
          (fun p p' => p' = p.move (Position.inset margin.length) (Node.inset margin.length))
          (r.placeIn t) (r'.placeIn (t.indented margin)))
      (ofText t f) (ofText (t.indented margin) f) := by
  have hbare : (Text.dedent t.lines).margin = [] := by
    simp only [Text.dedent, hindent, List.isEmpty_nil, if_true]
  have hread := Grammar.read_inset (w := margin.length) 0 (Text.dedent t.lines).chars
  rw [Nat.zero_add] at hread
  rw [ofText_eq, ofText_eq, Text.dedent_indented hmargin hline hindent, hbare, List.length_nil]
  refine (hread.mapError fun _ _ _ => trivial).bind ?_
  rintro tree _ rfl
  refine ((Dialect.check_inset f tree).mapError fun _ _ _ => trivial).bind ?_
  rintro f' _ rfl
  exact .ok ⟨rfl, rfl, placeIn_indented hmargin tree⟩

theorem ofText_indented_literal : ∃ r p,
    (Text.ofString "x = '''a\n b'''\n\ny").indented [' ', '\t'] =
      Text.ofString " \tx = '''a\n \t b'''\n \t\n \ty" ∧
    ofText (Text.ofString "x = '''a\n b'''\n\ny") .none = .ok r ∧
    r.placeIn (Text.ofString "x = '''a\n b'''\n\ny") = .ok p ∧
    ofText (Text.ofString " \tx = '''a\n \t b'''\n \t\n \ty") .none =
      .ok ⟨r.tree.inset 2, [' ', '\t'], r.features⟩ ∧
    placeIn ⟨r.tree.inset 2, [' ', '\t'], r.features⟩ (Text.ofString " \tx = '''a\n \t b'''\n \t\n \ty") =
      .ok (p.move (Position.inset 2) (Node.inset 2)) := by
  have htext : (Text.ofString "x = '''a\n b'''\n\ny").indented [' ', '\t'] =
      Text.ofString " \tx = '''a\n \t b'''\n \t\n \ty" := by decide +kernel
  obtain ⟨p, hp⟩ : ∃ p, (ofText (Text.ofString "x = '''a\n b'''\n\ny") .none >>= fun r =>
      r.placeIn (Text.ofString "x = '''a\n b'''\n\ny")) = .ok p := isOk_iff.mp (by decide +kernel)
  obtain ⟨r, hr, hplace⟩ := bind_eq_ok.mp hp
  have hmargin : ∀ c ∈ [' ', '\t'], Text.isMarginChar c = true := by simp [Text.isMarginChar]
  have hagree := ofText_indented (Text.ofString "x = '''a\n b'''\n\ny") .none [' ', '\t'] hmargin
    (by decide +kernel) (by decide +kernel)
  rw [htext] at hagree
  obtain ⟨_, hr', -, rfl, hplaces⟩ := hagree.exists_of_ok hr
  obtain ⟨_, hplace', rfl⟩ := hplaces.exists_of_ok hplace
  exact ⟨r, p, htext, hr, hplace, hr', hplace'⟩

end Reading

end SourceBlocks
