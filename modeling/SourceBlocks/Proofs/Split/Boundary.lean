import Mathlib.Order.Bounds.Defs
import SourceBlocks.Proofs.Split.Checks

namespace SourceBlocks.Split

open Outcome

variable {t : Text} {s : Span} {start next stop : Position}

/-- How far a statement can reach: up to the next one, or to the end of the text less a last row without code that
has no line break behind it. -/
def boundary (t : Text) (next : Position) : Position :=
  if next = t.stop ∧ next.offset ≠ 0 ∧ isLoose t next.row = true then ⟨next.row, 0⟩ else next

/-- A row at which a statement can stop: it is behind the row of the statement's start, and from it up to `row`
there is no code and no row that is continued. -/
def LooseFrom (t : Text) (top row : Nat) (r : Nat) : Prop :=
  top < r ∧ ∀ k, r ≤ k → k < row →
    isCommentOrBlank (t.rowChars k) = true ∧ isContinued (t.rowChars (k - 1)) = false

lemma isLoose_iff {row : Nat} : isLoose t row = true ↔
    isCommentOrBlank (t.rowChars row) = true ∧ isContinued (t.rowChars (row - 1)) = false := by
  simp [isLoose]

lemma boundary_of_beforeLastComment {b : Position} (h : beforeLastComment t start next = .ok b) :
    b = boundary t next ∧ (b = next ∨ start.row < b.row) := by
  rcases beforeLastComment_eq_ok h with ⟨rfl, hlast⟩ | ⟨rfl, hoff, hstop, hlast, hrow⟩
  · refine ⟨(if_neg ?_).symm, .inl rfl⟩
    rintro ⟨hstop, hoff, hloose⟩
    rcases hlast with h0 | hne | hcode
    · exact hoff h0
    · exact hne hstop
    · simp [hcode] at hloose
  · exact ⟨(if_pos ⟨hstop, hoff, hlast⟩).symm, .inr hrow⟩

lemma looseStart_isLeast {top row : Nat} (h : top < row) :
    IsLeast {r | LooseFrom t top row r} (looseStart t top row) := by
  simp only [LooseFrom, ← isLoose_iff]
  refine ⟨⟨lt_looseStart h, fun k hk hrow => ?_⟩, fun r hr => ?_⟩
  · have hlt := Nat.lt_of_le_of_lt hk hrow
    exact ((looseStart_le_iff hlt).mp (Nat.le_refl _)).2 k hk hrow
  · rcases Nat.lt_or_ge r row with hlt | hge
    · exact (looseStart_le_iff hlt).mpr hr
    · exact Nat.le_trans (looseStart_le t top row) hge

lemma stopBeforeLoose_boundary (h : stopBeforeLoose t start next = .ok stop) (hlt : start < next) :
    ((boundary t next).offset ≠ 0 → stop = boundary t next) ∧
      ((boundary t next).offset = 0 → ∃ row, stop = ⟨row, 0⟩ ∧
        IsLeast {r | LooseFrom t start.row (boundary t next).row r} row) := by
  simp only [stopBeforeLoose, bind_eq_ok, pure_eq_ok] at h
  obtain ⟨b, hb, rfl⟩ := h
  obtain ⟨hbound, hrow⟩ := boundary_of_beforeLastComment hb
  rw [← hbound]
  refine ⟨fun hoff => if_neg hoff, fun h0 => ⟨_, if_pos h0, looseStart_isLeast ?_⟩⟩
  rcases hrow with rfl | hrow
  · exact (Position.lt_def.mp hlt).resolve_right fun h => by omega
  · exact hrow

lemma chunksFrom_drop {i : Nat} {before rest : List Span} {cs : List Chunk}
    (h : chunksFrom t i (before ++ s :: rest) = .ok cs) : ∃ front more, cs = front ++ more ∧
      nextStart t (before ++ s :: rest) ≤ s.start ∧ chunksFrom t (i + before.length) (s :: rest) = .ok more := by
  induction before generalizing i cs with
  | nil => exact ⟨[], cs, rfl, Position.le_refl _, h⟩
  | cons s' before ih =>
    rw [List.cons_append] at h
    obtain ⟨stop, more', hlt, -, -, -, hmore', rfl⟩ := chunksFrom_cons.mp h
    obtain ⟨front, more, rfl, hle, hmore⟩ := ih hmore'
    refine ⟨⟨some i, t.slice s'.start stop⟩ :: (gap t stop (nextStart t (before ++ s :: rest)) ++ front), more, ?_,
      Position.le_of_lt (Position.lt_of_lt_of_le hlt hle), ?_⟩
    · rw [List.cons_append, List.append_assoc]
    · rwa [List.length_cons, Nat.add_comm before.length, ← Nat.add_assoc]

lemma nextStart_le_stop {i : Nat} {rest : List Span} {cs : List Chunk} (h : chunksFrom t i rest = .ok cs) :
    nextStart t rest ≤ t.stop := by
  cases rest with
  | nil => exact Position.le_refl _
  | cons n rest => exact (chunksFrom_cut h).le

lemma chunks_at {before rest : List Span} {cs : List Chunk} (h : chunks t (before ++ s :: rest) = .ok cs) :
    ∃ front back stop,
      cs = front ++ ⟨some before.length, t.slice s.start stop⟩ :: (gap t stop (nextStart t rest) ++ back) ∧
      t.start ≤ s.start ∧ s.start < nextStart t rest ∧ nextStart t rest ≤ t.stop ∧
      statementStop t s (nextStart t rest) = .ok stop ∧ s.start < stop ∧ stop ≤ nextStart t rest := by
  obtain ⟨first, others, hspans⟩ : ∃ first others, before ++ s :: rest = first :: others := by
    cases before <;> simp
  obtain ⟨all, hfirst, hall, rfl⟩ := chunks_cons (hspans ▸ h)
  rw [← hspans] at hall
  obtain ⟨front, more, rfl, hle, hmore⟩ := chunksFrom_drop hall
  obtain ⟨stop, back, hlt, hstop, hstart, hend, hback, rfl⟩ := chunksFrom_cons.mp hmore
  rw [hspans] at hle
  refine ⟨gap t t.start first.start ++ front, back, stop, ?_, Position.le_trans hfirst hle, hlt, nextStart_le_stop hback,
    hstop, hstart, hend⟩
  rw [Nat.zero_add, List.append_assoc]

/-- Where the chunk of a statement stops whose end is not known. -/
theorem chunk_stop_exact {before rest : List Span} {cs : List Chunk} {b : Position}
    (h : chunks t (before ++ s :: rest) = .ok cs) (hs : s.stop = none) (hb : b = boundary t (nextStart t rest)) :
    ∃ front back stop,
      cs = front ++ ⟨some before.length, t.slice s.start stop⟩ :: (gap t stop (nextStart t rest) ++ back) ∧
      (b.offset ≠ 0 → stop = b ∧ (t.slice s.start stop).stop = t.nearest b ∧
        (t.HasPlace b → (t.slice s.start stop).stop = b)) ∧
      (b.offset = 0 → ∃ row, stop = ⟨row, 0⟩ ∧ (t.slice s.start stop).stop = ⟨row, 0⟩ ∧
        IsLeast {r | LooseFrom t s.start.row b.row r} row) ∧
      ∀ k, stop ≤ ⟨k, 0⟩ → (⟨k, 0⟩ : Position) < nextStart t rest → isCommentOrBlank (t.rowChars k) = true := by
  obtain ⟨front, back, stop, hcs, hfrom, hlt, hend, hstop, hstart, hle⟩ := chunks_at h
  have hloose : stopBeforeLoose t s.start (nextStart t rest) = .ok stop := by
    rcases statementStop_eq_ok hstop with ⟨e, he, -⟩ | ⟨-, hloose⟩
    · simp [hs] at he
    · exact hloose
  obtain ⟨hmid, hrow⟩ := stopBeforeLoose_boundary hloose hlt
  rw [← hb] at hmid hrow
  have hslice := t.slice_stop (Position.le_of_lt hstart)
  refine ⟨front, back, stop, hcs, fun hoff => ?_, fun h0 => ?_, fun k hk hnext => ?_⟩
  · rw [hslice, hmid hoff]
    exact ⟨rfl, rfl, Text.HasPlace.nearest_eq⟩
  · obtain ⟨row, rfl, hleast⟩ := hrow h0
    refine ⟨row, rfl, ?_, hleast⟩
    rw [hslice]
    refine (t.hasPlace_rowStart ?_ (Position.row_le (Position.le_trans hle hend))).nearest_eq
    exact Nat.lt_of_le_of_lt (Position.row_le hfrom) hleast.1.1
  · have htrail := ((stopBeforeLoose_eq_ok hloose).2 k hnext).mp hk
    exact (isLoose_iff.mp (htrail.2.2 k (Nat.le_refl _) hnext)).1

theorem chunk_stop_exact_continued : ∃ t cs front back row,
    t = (Text.ofString "x = 1 + \\\n# odd\n\n# c\ny = 2\n# tail").anchored ⟨2, 4⟩ ∧
      chunks t [⟨⟨2, 4⟩, none⟩, ⟨⟨6, 0⟩, none⟩] = .ok cs ∧
      cs.map (fun c => c.text.joined) = ["x = 1 + \\\n# odd\n", "\n# c\n", "y = 2\n", "# tail"] ∧
      cs = front ++ ⟨some 0, t.slice ⟨2, 4⟩ ⟨row, 0⟩⟩ :: (gap t ⟨row, 0⟩ ⟨6, 0⟩ ++ back) ∧
      IsLeast {r | LooseFrom t 2 6 r} row := by
  obtain ⟨t, ht⟩ : ∃ t, t = (Text.ofString "x = 1 + \\\n# odd\n\n# c\ny = 2\n# tail").anchored ⟨2, 4⟩ := ⟨_, rfl⟩
  have hsplit : (chunks t [⟨⟨2, 4⟩, none⟩, ⟨⟨6, 0⟩, none⟩]).map (·.map fun c => c.text.joined) =
      .ok ["x = 1 + \\\n# odd\n", "\n# c\n", "y = 2\n", "# tail"] := by
    rw [ht]
    decide +kernel
  obtain ⟨cs, hcs, htexts⟩ := map_eq_ok.mp hsplit
  have hspans : chunks t ([] ++ ⟨⟨2, 4⟩, none⟩ :: [⟨⟨6, 0⟩, none⟩]) = .ok cs := hcs
  have hb : (⟨6, 0⟩ : Position) = boundary t ⟨6, 0⟩ := by
    rw [ht]
    decide +kernel
  obtain ⟨front, back, _, hat, -, hrow, -⟩ := chunk_stop_exact hspans rfl hb
  obtain ⟨row, rfl, -, hleast⟩ := hrow rfl
  exact ⟨t, cs, front, back, row, ht, hcs, htexts, hat, hleast⟩

end SourceBlocks.Split
