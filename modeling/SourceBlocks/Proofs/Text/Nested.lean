import SourceBlocks.Proofs.Text.Substring

namespace SourceBlocks.Text

variable {t : Text} {a b : Position}

lemma before_nearest (p : Position) : t.before (t.nearest p) = t.before p := by
  rw [nearest_eq_point, before_point (t.before_le_length p)]

lemma before_of_le_start {p : Position} (h : p ≤ t.start) : t.before p = 0 := by
  have hmono := t.before_mono h
  have hstart : t.before t.start = 0 := by
    rw [before, ← Position.plus_start t.start, locate_plus t (fits_start _)]
    exact charsBefore_start _
  omega

lemma before_clamp (h : a ≤ b) (p : Position) :
    t.before (Position.clamp a b p) = max (t.before a) (min (t.before p) (t.before b)) := by
  have hab := t.before_mono h
  simp only [Position.clamp]
  split_ifs with hlo hhi
  · have hp := t.before_mono (Position.le_of_lt hlo)
    omega
  · have hp := t.before_mono (Position.le_of_lt hhi)
    omega
  · have hlo := t.before_mono (Position.not_lt.mp hlo)
    have hhi := t.before_mono (Position.not_lt.mp hhi)
    omega

lemma before_clamp_slice (h : a ≤ b) (p : Position) :
    t.before (Position.clamp a b p) = t.before a + (t.slice a b).before p := by
  have hab := t.before_mono h
  rw [before_clamp h]
  rcases Position.le_total (t.nearest a) p with hp | hp
  · have hle := t.before_mono hp
    rw [before_nearest] at hle
    rw [before_slice h hp]
    omega
  · have hle := t.before_mono hp
    rw [before_nearest] at hle
    rw [before_of_le_start (t := t.slice a b) hp]
    omega

/-- Cutting a piece out of a piece is cutting it out of the text, at the same places forced between
the ends of the outer piece. -/
theorem slice_slice_clamp (t : Text) {a b : Position} (h : a ≤ b) (c d : Position) :
    (t.slice a b).slice c d = t.slice (Position.clamp a b c) (Position.clamp a b (max c d)) := by
  have hcd := Position.le_max_left c d
  have hclamp := Position.clamp_mono h hcd
  have hfirst := before_clamp_slice (t := t) h c
  have hlast := before_clamp_slice (t := t) h (max c d)
  have hbound := (t.slice a b).before_le_length
  have hab := t.before_mono h
  rw [slice_max (t.slice a b)]
  have hchars : ((t.slice a b).slice c (max c d)).chars =
      (t.slice (Position.clamp a b c) (Position.clamp a b (max c d))).chars := by
    have hlen := length_slice (t := t) h ▸ hbound (max c d)
    rw [slice_chars _ hcd, slice_chars _ hclamp, slice_chars t h, hfirst, hlast, List.drop_take, List.drop_drop,
      List.take_take]
    congr 1
    omega
  have hstart : ((t.slice a b).slice c (max c d)).start =
      (t.slice (Position.clamp a b c) (Position.clamp a b (max c d))).start := by
    have hlen := length_slice (t := t) h ▸ hbound c
    rw [slice_start, slice_start, nearest_eq_point, nearest_eq_point, hfirst, point_slice h (by omega)]
  exact slice_eq_of _ hchars rfl hstart

theorem slice_slice_clamp_outside :
    (⟨2, 9⟩ : Position) ≤ ⟨3, 1⟩ ∧
      (((ofString "ab\ncd\n").anchored ⟨2, 4⟩).slice ⟨2, 9⟩ ⟨3, 1⟩).slice ⟨2, 5⟩ ⟨3, 2⟩ =
        ((ofString "ab\ncd\n").anchored ⟨2, 4⟩).slice ⟨2, 9⟩ ⟨3, 1⟩ :=
  ⟨by decide, slice_slice_clamp _ (by decide) ⟨2, 5⟩ ⟨3, 2⟩⟩

end SourceBlocks.Text
