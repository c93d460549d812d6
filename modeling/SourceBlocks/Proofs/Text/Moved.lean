import SourceBlocks.Proofs.Text.Slice

namespace SourceBlocks

namespace Position

variable (p : Position)

lemma clamp_plus (lo hi q : Position) : clamp (p.plus lo) (p.plus hi) (p.plus q) = p.plus (clamp lo hi q) := by
  simp only [clamp, plus_lt_plus_iff]
  split_ifs <;> rfl

lemma min_plus (q r : Position) : min (p.plus q) (p.plus r) = p.plus (min q r) := by
  simp only [min, plus_le_plus_iff]
  split_ifs <;> rfl

lemma max_plus (q r : Position) : max (p.plus q) (p.plus r) = p.plus (max q r) := by
  simp only [max, plus_le_plus_iff]
  split_ifs <;> rfl

lemma plus_rowStart {row : Nat} (h : 0 < row) : p.plus ⟨row, 0⟩ = ⟨p.row + row, 0⟩ := by
  simp only [plus, advance, Nat.ne_of_gt h, if_false]

variable {p}

lemma plus_inj {q r : Position} : p.plus q = p.plus r ↔ q = r := by
  constructor
  · intro h
    refine le_antisymm ?_ ?_
    · rw [← plus_le_plus_iff p, h]
      exact le_refl _
    · rw [← plus_le_plus_iff p, h]
      exact le_refl _
  · rintro rfl
    rfl

lemma offset_plus_eq_zero {q : Position} (h : start < q) : (p.plus q).offset = 0 ↔ q.offset = 0 := by
  simp only [lt_def, start] at h
  simp only [plus, advance]
  split_ifs <;> dsimp only <;> omega

end Position

namespace Text

variable (p : Position) (t : Text)

def moved : Text := { t with start := p.plus t.start }

lemma moved_start (s : List Char) (file : Option FileName) : moved p ⟨s, file, .start⟩ = ⟨s, file, p⟩ := by
  rw [moved, Position.plus_start]

lemma stop_moved : (moved p t).stop = p.plus t.stop := by
  rw [stop, stop, moved, Position.plus_assoc]

lemma lines_moved : (moved p t).lines = t.lines := rfl

lemma rowChars_moved (row : Nat) : (moved p t).rowChars (p.row + row) = t.rowChars row := by
  have hrow : (moved p t).start.row = p.row + t.start.row := Position.row_plus _ _
  by_cases h : row < t.start.row
  · rw [rowChars_before h, rowChars_before (by omega)]
  · obtain ⟨r, rfl⟩ := Nat.exists_eq_add_of_le (Nat.not_lt.mp h)
    rw [rowChars_start, ← Nat.add_assoc, ← hrow, rowChars_start, lines_moved]

lemma place_moved {row : Nat} (h : t.start.row ≤ row) (n : Nat) :
    (⟨p.row + row, (moved p t).rowOffset (p.row + row) + n⟩ : Position) =
      p.plus ⟨row, t.rowOffset row + n⟩ := by
  simp only [rowOffset, moved, Position.row_plus, Nat.add_left_cancel_iff]
  simp only [Position.plus, Position.advance]
  split_ifs <;> simp only [Position.mk.injEq] <;> omega

lemma locate_moved (q : Position) : (moved p t).locate (p.plus q) = t.locate q := by
  have hclamp : Position.clamp (moved p t).start (moved p t).stop (p.plus q) =
      p.plus (Position.clamp t.start t.stop q) := by
    rw [stop_moved]
    exact Position.clamp_plus _ _ _ _
  have hle := Position.row_le (Position.lo_le_clamp t.start_le_stop q)
  simp only [locate, hclamp, lines_moved]
  generalize Position.clamp t.start t.stop q = r at hle
  have hrow : (p.plus r).row - (moved p t).start.row = r.row - t.start.row := by
    simp only [moved, Position.row_plus]
    omega
  have hoff : (p.plus r).offset - (moved p t).rowOffset (p.plus r).row = r.offset - t.rowOffset r.row := by
    simp only [rowOffset, moved, Position.row_plus, Nat.add_left_cancel_iff]
    simp only [Position.plus, Position.advance]
    split_ifs <;> dsimp only <;> omega
  rw [hrow, hoff]

lemma slice_moved (a b : Position) : (moved p t).slice (p.plus a) (p.plus b) = moved p (t.slice a b) := by
  simp only [slice, Position.max_plus, locate_moved, lines_moved]
  simp only [moved, Position.plus_assoc]

end Text

end SourceBlocks
