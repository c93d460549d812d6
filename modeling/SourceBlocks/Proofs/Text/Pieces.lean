import SourceBlocks.Proofs.Text.Margin

/-! Pieces of a piece. -/

namespace SourceBlocks.Text

section Points

variable (t : Text)

def point (i : Nat) : Position := t.start.plus (extent (t.chars.take i))

lemma hasPlace_point (i : Nat) : t.HasPlace (t.point i) := ⟨_, fits_extent_take _ _, rfl⟩

lemma point_length : t.point t.chars.length = t.stop := by rw [point, List.take_length, stop]

lemma nearest_eq_point (p : Position) : t.nearest p = t.point (t.before p) := by
  rw [nearest, point, extent_before]

lemma before_le_length (p : Position) : t.before p ≤ t.chars.length :=
  (extent_take_charsBefore (t.fits_locate p)).1

lemma row_point (i : Nat) : (t.point i).row = t.start.row + (extent (t.chars.take i)).row :=
  Position.row_plus _ _

variable {t}

lemma point_le_point_iff {i j : Nat} (hi : i ≤ t.chars.length) (hj : j ≤ t.chars.length) :
    t.point i ≤ t.point j ↔ i ≤ j := by
  rw [point, point, Position.plus_le_plus_iff, extent_take_le_iff hi hj]

lemma point_le_iff {i : Nat} {p : Position} (hi : i ≤ t.chars.length) (hp : t.start ≤ p) :
    t.point i ≤ p ↔ i ≤ t.before p := by
  rw [← point_le_point_iff hi (t.before_le_length p), ← nearest_eq_point]
  constructor
  · intro h
    rw [← (t.hasPlace_point i).nearest_eq]
    exact t.nearest_mono h
  · exact fun h => Position.le_trans h (t.nearest_le hp)

lemma before_point {i : Nat} (hi : i ≤ t.chars.length) : t.before (t.point i) = i := by
  have h : t.point (t.before (t.point i)) = t.point i := by
    rw [← nearest_eq_point, (t.hasPlace_point i).nearest_eq]
  apply Nat.le_antisymm
  · apply (point_le_point_iff (t.before_le_length _) hi).mp
    rw [h]
    exact Position.le_refl _
  · apply (point_le_point_iff hi (t.before_le_length _)).mp
    rw [h]
    exact Position.le_refl _

lemma HasPlace.exists_point {p : Position} (h : t.HasPlace p) : ∃ i ≤ t.chars.length, p = t.point i :=
  ⟨t.before p, t.before_le_length p, by rw [← nearest_eq_point, h.nearest_eq]⟩

end Points

section Slices

variable {t : Text} {a b x y : Position}

lemma length_slice (h : a ≤ b) : (t.slice a b).chars.length = t.before b - t.before a := by
  have hb := t.before_le_length b
  rw [slice_chars t h, List.length_take, List.length_drop]
  omega

lemma point_slice {i : Nat} (h : a ≤ b) (hi : t.before a + i ≤ t.before b) :
    (t.slice a b).point i = t.point (t.before a + i) := by
  have htake : (t.slice a b).chars.take i = (t.chars.drop (t.before a)).take i := by
    rw [slice_chars t h, List.take_take, Nat.min_eq_left (by omega)]
  rw [point, slice_start, nearest, htake, point, List.take_add, extent_append, extent_before,
    Position.plus_assoc]

lemma before_slice (h : a ≤ b) (hx : t.nearest a ≤ x) :
    (t.slice a b).before x = min (t.before x) (t.before b) - t.before a := by
  have hab := t.before_mono h
  have hstart : t.start ≤ t.nearest a := Position.le_plus _ _
  have hax : t.before a ≤ t.before x := by
    rw [nearest_eq_point] at hx
    exact (point_le_iff (t.before_le_length a) (Position.le_trans (nearest_eq_point t a ▸ hstart) hx)).mp hx
  -- a number counts in the piece exactly if it counts in the text
  have hiff : ∀ i ≤ t.before b - t.before a, i ≤ (t.slice a b).before x ↔ t.before a + i ≤ t.before x := by
    intro i hi
    have hle := t.before_le_length b
    rw [← point_le_iff (by rw [length_slice h]; exact hi) hx, point_slice h (by omega),
      point_le_iff (by omega) (Position.le_trans hstart hx)]
  have hlen := (t.slice a b).before_le_length x
  rw [length_slice h] at hlen
  have hself := (hiff _ hlen).mp (Nat.le_refl _)
  have hmax := (hiff (min (t.before x) (t.before b) - t.before a) (by omega)).mpr (by omega)
  omega

lemma slice_slice (h : a ≤ b) (hax : t.nearest a ≤ x) (hxy : x ≤ y) (hyb : y ≤ b) :
    (t.slice a b).slice x y = t.slice x y := by
  have hbx := before_slice h hax
  have hby := before_slice h (Position.le_trans hax hxy)
  have hmx := t.before_mono hxy
  have hmy := t.before_mono hyb
  have hstart : t.start ≤ t.nearest a := Position.le_plus _ _
  have hma : t.before a ≤ t.before x := by
    rw [nearest_eq_point] at hax hstart
    exact (point_le_iff (t.before_le_length a) (Position.le_trans hstart hax)).mp hax
  have hchars : ((t.slice a b).slice x y).chars = (t.slice x y).chars := by
    rw [slice_chars _ hxy, slice_chars _ hxy, slice_chars _ h, hbx, hby, List.drop_take, List.drop_drop,
      List.take_take]
    congr 2 <;> omega
  have hfirst : ((t.slice a b).slice x y).start = (t.slice x y).start := by
    rw [slice_start, slice_start, nearest_eq_point, nearest_eq_point, hbx, point_slice h (by omega)]
    congr 1
    omega
  exact slice_eq_of _ hchars rfl hfirst

lemma slice_of_append {x y z : List Char} (h : t.chars = x ++ (y ++ z)) :
    (t.slice (t.start.plus (extent x)) (t.start.plus (extent (x ++ y)))).chars = y := by
  have hlen : x.length + y.length ≤ t.chars.length := by
    rw [h, List.length_append, List.length_append]
    omega
  have hx : t.start.plus (extent x) = t.point x.length := by
    rw [point, h, List.take_left]
  have hxy : t.start.plus (extent (x ++ y)) = t.point (x.length + y.length) := by
    rw [point, h, ← List.append_assoc, ← List.length_append, List.take_left]
  have hle : t.point x.length ≤ t.point (x.length + y.length) :=
    (point_le_point_iff (by omega) hlen).mpr (Nat.le_add_right _ _)
  rw [hx, hxy, slice_chars t hle, before_point hlen, before_point (by omega), h, List.drop_left,
    Nat.add_sub_cancel_left, List.take_left]

end Slices

section Lines

lemma getElem?_splitLines_append_of_lt {u : List Char} (v : List Char) {k : Nat} (h : k < (extent u).row) :
    (splitLines (u ++ v))[k]? = (splitLines u)[k]? := by
  induction u generalizing k with
  | nil => simp [extent_nil, Position.start] at h
  | cons c r ih =>
    rw [extent_cons, Position.row_plus] at h
    rw [List.cons_append]
    by_cases hc : c = '\n'
    · subst hc
      rw [splitLines_newline, splitLines_newline]
      cases k with
      | zero => rfl
      | succ k => exact ih (by simpa [charExtent, Nat.add_comm 1] using h)
    · have hlt : k < (extent r).row := by simpa [charExtent, hc] using h
      rw [splitLines_cons hc, splitLines_cons hc, List.getElem?_modifyHead, List.getElem?_modifyHead, ih hlt]

lemma getElem?_splitLines_append_add (u v : List Char) {k : Nat} (h : 0 < k) :
    (splitLines (u ++ v))[(extent u).row + k]? = (splitLines v)[k]? := by
  induction u with
  | nil => simp [extent_nil, Position.start]
  | cons c r ih =>
    rw [extent_cons, Position.row_plus, List.cons_append, ← ih]
    by_cases hc : c = '\n'
    · subst hc
      rw [splitLines_newline, charExtent, if_pos rfl, Nat.add_comm 1, Nat.add_right_comm, List.getElem?_cons_succ]
    · have hne : (extent r).row + k ≠ 0 := by omega
      rw [splitLines_cons hc, charExtent, if_neg hc, Nat.zero_add, List.getElem?_modifyHead, if_neg hne]

lemma getElem?_splitLines_append_row (u v : List Char) :
    ((splitLines (u ++ v))[(extent u).row]?).getD [] =
      ((splitLines u)[(extent u).row]?).getD [] ++ ((splitLines v)[0]?).getD [] := by
  induction u with
  | nil => simp [extent_nil, Position.start, splitLines, splitAt]
  | cons c r ih =>
    rw [extent_cons, Position.row_plus, List.cons_append]
    by_cases hc : c = '\n'
    · subst hc
      rw [splitLines_newline, splitLines_newline, charExtent, if_pos rfl, Nat.add_comm 1, List.getElem?_cons_succ,
        List.getElem?_cons_succ, ih]
    · rw [charExtent, if_neg hc, Nat.zero_add]
      cases hrow : (extent r).row with
      | zero =>
        rw [hrow] at ih
        rw [getElem?_splitLines_cons_zero hc, getElem?_splitLines_cons_zero hc, ih, List.cons_append]
      | succ row =>
        rw [hrow] at ih
        rw [getElem?_splitLines_cons_succ hc, getElem?_splitLines_cons_succ hc, ih]

end Lines

structure IsPiece (u t : Text) : Prop where
  eq_slice : u = t.slice u.start u.stop
  first : t.HasPlace u.start
  last : t.HasPlace u.stop

namespace IsPiece

variable {t u : Text} {x y : Position} {row : Nat}

lemma slice_eq (h : IsPiece u t) (hx : u.start ≤ x) (hxy : x ≤ y) (hy : y ≤ u.stop) :
    u.slice x y = t.slice x y := by
  rw [h.eq_slice]
  exact slice_slice u.start_le_stop (h.first.nearest_eq.symm ▸ hx) hxy hy

lemma exists_around (h : IsPiece u t) : ∃ before after, t.chars = before ++ (u.chars ++ after) ∧
    u.start = t.start.plus (extent before) ∧ (u.stop = t.stop → after = []) := by
  have hm := t.before_mono u.start_le_stop
  have hchars : u.chars = (t.chars.drop (t.before u.start)).take (t.before u.stop - t.before u.start) := by
    rw [← slice_chars t u.start_le_stop, ← h.eq_slice]
  refine ⟨t.chars.take (t.before u.start), t.chars.drop (t.before u.stop), ?_, ?_, fun hstop => ?_⟩
  · rw [hchars]
    conv_lhs => rw [← List.take_append_drop (t.before u.start) t.chars,
      ← List.take_append_drop (t.before u.stop - t.before u.start) (t.chars.drop (t.before u.start)),
      List.drop_drop]
    congr 3
    omega
  · rw [extent_before, ← nearest, h.first.nearest_eq]
  · rw [hstop, ← point_length, before_point (Nat.le_refl _), List.drop_length]

lemma stop_le (h : IsPiece u t) : u.stop ≤ t.stop := h.last.le_stop

lemma line_eq {v after : List Char} {k : Nat} (h : k < (extent v).row ∨ after = []) :
    (splitLines (v ++ after))[k]? = (splitLines v)[k]? := by
  rcases h with h | rfl
  · exact getElem?_splitLines_append_of_lt after h
  · rw [List.append_nil]

lemma exists_rowChars_start (h : IsPiece u t) (hrow : u.start.row < u.stop.row ∨ u.stop = t.stop) :
    ∃ l, t.rowChars u.start.row = l ++ u.rowChars u.start.row := by
  obtain ⟨before, after, hchars, hstart, hafter⟩ := h.exists_around
  have hu : u.rowChars u.start.row = ((splitLines u.chars)[0]?).getD [] := u.rowChars_start 0
  have ht : t.rowChars u.start.row = ((splitLines t.chars)[(extent before).row]?).getD [] := by
    rw [hstart, Position.row_plus, rowChars_start, lines]
  rw [stop, Position.row_plus] at hrow
  refine ⟨((splitLines before)[(extent before).row]?).getD [], ?_⟩
  rw [ht, hu, hchars, getElem?_splitLines_append_row, line_eq (hrow.imp (by omega) hafter)]

lemma rowChars_eq (h : IsPiece u t) (hstart : u.start.row < row) (hrow : row < u.stop.row ∨ u.stop = t.stop) :
    u.rowChars row = t.rowChars row := by
  obtain ⟨before, after, hchars, hfirst, hafter⟩ := h.exists_around
  obtain ⟨k, rfl⟩ := Nat.exists_eq_add_of_lt hstart
  have ht : t.rowChars (u.start.row + k + 1) = ((splitLines t.chars)[(extent before).row + (k + 1)]?).getD [] := by
    rw [hfirst, Position.row_plus, Nat.add_assoc, Nat.add_assoc, rowChars_start, lines]
  rw [stop, Position.row_plus] at hrow
  rw [ht, hchars, getElem?_splitLines_append_add _ _ (Nat.succ_pos k), line_eq (hrow.imp (by omega) hafter),
    Nat.add_assoc, rowChars_start, lines]

end IsPiece

def Holds (t : Text) (p : Position) : Prop := ∃ i c, t.chars[i]? = some c ∧ c ≠ '\n' ∧ p = t.point i

section Holds

variable {t u : Text} {p : Position}

lemma Holds.hasPlace (h : t.Holds p) : t.HasPlace p := by
  obtain ⟨i, -, -, -, rfl⟩ := h
  exact t.hasPlace_point i

lemma Holds.rowChars_ne_nil (h : t.Holds p) : t.rowChars p.row ≠ [] := by
  obtain ⟨i, c, hi, hc, rfl⟩ := h
  rw [row_point, rowChars_start]
  exact List.ne_nil_of_mem (mem_line hi hc)

lemma holds_of_fits {q : Position} (h : Fits t.chars ⟨q.row, q.offset + 1⟩) : t.Holds (t.start.plus q) := by
  have hq : Fits t.chars q := ⟨h.1, Nat.le_of_succ_le h.2⟩
  obtain ⟨hi, hqi⟩ := extent_take_charsBefore hq
  obtain ⟨hj, hqj⟩ := extent_take_charsBefore h
  generalize charsBefore (splitLines t.chars) q = i at hi hqi
  generalize charsBefore (splitLines t.chars) ⟨q.row, q.offset + 1⟩ = j at hj hqj
  have hij : i < j := by
    by_contra hle
    have := (extent_take_le_iff hj hi).mpr (Nat.not_lt.mp hle)
    rw [hqi, hqj, Position.le_def] at this
    dsimp only at this
    omega
  have hget : t.chars[i]? = some t.chars[i] := List.getElem?_eq_getElem (by omega)
  refine ⟨i, t.chars[i], hget, fun hc => ?_, by rw [point, hqi]⟩
  have hle := (extent_take_le_iff (m := i + 1) (by omega) hj).mpr hij
  rw [List.take_add_one, hget, extent_append, hqi, hqj, hc, Position.le_def, Position.row_plus] at hle
  simp only [Option.toList_some, extent_cons, extent_nil, Position.plus_start, charExtent, if_true] at hle
  omega

lemma holds_of_lt {row n : Nat} (hn : n < (t.rowChars row).length) : t.Holds ⟨row, t.rowOffset row + n⟩ := by
  have hne : t.rowChars row ≠ [] := by
    intro hnil
    simp [hnil] at hn
  obtain ⟨⟨r, o⟩, hfits, hq⟩ := hasPlace_of_le hne hn
  have hrow : row = t.start.row + r := by simpa [Position.row_plus] using congrArg Position.row hq
  have hoff : o = n + 1 ∧ (⟨row, t.rowOffset row + n⟩ : Position) = t.start.plus ⟨r, n⟩ := by
    have := congrArg Position.offset hq
    simp only [Position.plus, Position.advance, rowOffset] at this ⊢
    by_cases h0 : r = 0
    · simp_all
    · have hr : row ≠ t.start.row := by omega
      simp only [h0, hr, if_false] at this ⊢
      exact ⟨by omega, by rw [hrow, Nat.zero_add]⟩
  obtain ⟨rfl, heq⟩ := hoff
  rw [heq]
  exact holds_of_fits hfits

lemma holds_placeAt {i : Nat} {c : Char} (h : t.source.chars[i]? = some c) (hc : c ≠ '\n') :
    t.Holds (t.placeAt i) := by
  have hnext : extent (t.source.chars.take (i + 1)) =
      ⟨(extent (t.source.chars.take i)).row, (extent (t.source.chars.take i)).offset + 1⟩ := by
    rw [List.take_add_one, h, extent_append]
    simp [extent_cons, extent_nil, charExtent, hc, Position.plus, Position.advance, Position.start]
  obtain ⟨hrow, hoff⟩ := fits_extent_take t.source.chars (i + 1)
  rw [hnext] at hrow hoff
  rw [getElem?_splitLines_dedent, cutMargin] at hoff
  rw [splitLines_dedent, List.length_map] at hrow
  apply holds_of_fits
  refine ⟨hrow, ?_⟩
  change (dedent t.lines).margin.length + (extent (t.source.chars.take i)).offset + 1 ≤
    ((t.lines[(extent (t.source.chars.take i)).row]?).getD []).length
  split_ifs at hoff with hmargin
  · have hlen := (List.isPrefixOf_iff_prefix.mp hmargin).length_le
    rw [List.length_drop] at hoff
    dsimp only at hoff hlen
    omega
  · simp at hoff

lemma IsPiece.holds (h : IsPiece u t) (hp : t.Holds p) (hstart : u.start ≤ p) (hstop : p < u.stop) : u.Holds p := by
  obtain ⟨i, c, hi, hc, rfl⟩ := hp
  have hlen : i < t.chars.length := (List.getElem?_eq_some_iff.mp hi).1
  have hle : t.before u.start ≤ i := by
    rw [← before_point (Nat.le_of_lt hlen)]
    exact t.before_mono hstart
  have hlt : i < t.before u.stop := by
    by_contra hge
    have hpoint := (point_le_point_iff (t.before_le_length _) (Nat.le_of_lt hlen)).mpr (Nat.not_lt.mp hge)
    rw [← nearest_eq_point, h.last.nearest_eq] at hpoint
    exact Position.not_le.mpr hstop hpoint
  have hchars : u.chars = (t.chars.drop (t.before u.start)).take (t.before u.stop - t.before u.start) := by
    rw [← slice_chars t u.start_le_stop, ← h.eq_slice]
  have hpoint : u.point (i - t.before u.start) = t.point (t.before u.start + (i - t.before u.start)) := by
    rw [← point_slice u.start_le_stop (by omega), ← h.eq_slice]
  refine ⟨i - t.before u.start, c, ?_, hc, ?_⟩
  · rw [hchars, List.getElem?_take_of_lt (by omega), List.getElem?_drop, Nat.add_sub_cancel' hle, hi]
  · rw [hpoint, Nat.add_sub_cancel' hle]

lemma Holds.append_left (h : t.Holds p) (s : List Char) : Holds { t with chars := t.chars ++ s } p := by
  obtain ⟨i, c, hi, hc, rfl⟩ := h
  have hlen : i < t.chars.length := (List.getElem?_eq_some_iff.mp hi).1
  refine ⟨i, c, by rw [List.getElem?_append_left hlen, hi], hc, ?_⟩
  rw [point, point, List.take_append_of_le_length (Nat.le_of_lt hlen)]

lemma Holds.append_right (h : u.Holds p) (hstart : t.stop = u.start) :
    Holds { t with chars := t.chars ++ u.chars } p := by
  obtain ⟨i, c, hi, hc, rfl⟩ := h
  refine ⟨t.chars.length + i, c, ?_, hc, ?_⟩
  · rw [List.getElem?_append_right (Nat.le_add_right _ _), Nat.add_sub_cancel_left, hi]
  · rw [point, point, List.take_length_add_append, extent_append, ← Position.plus_assoc, ← hstart, stop]

end Holds

end SourceBlocks.Text
