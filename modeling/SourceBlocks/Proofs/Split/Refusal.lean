import SourceBlocks.Proofs.Split.Boundary

namespace SourceBlocks.Split

open Outcome

variable {t : Text} {s : Span} {spans : List Span} {f : Fault}

/-- Subtraction from a line number, which gives nothing where it would go below zero. -/
def minus? (line n : Nat) : Option Nat := if n ≤ line then some (line - n) else none

/-- Whether the walk goes on from a line to the one above it. It does so over lines behind the line `top` that have no
code, unless the line above them is continued. -/
def goesOn? (t : Text) (top line : Nat) : Option Bool := do
  let above ← minus? line 1
  if top < above ∧ isCommentOrBlank ((t.line? above).getD []) then do
    let further ← minus? line 2
    pure (!isContinued ((t.line? further).getD []))
  else pure false

/-- The line at which the walk ends, with every subtraction of line numbers checked. -/
def walk? (t : Text) (top : Nat) : Nat → Option Nat
  | 0 => none
  | line + 1 => do
    if ← goesOn? t top (line + 1) then walk? t top line else pure (line + 1)

lemma goesOn?_eq (t : Text) (top row : Nat) :
    goesOn? t (top + 1) (row + 2) = some (decide (top < row ∧ isLoose t row = true)) := by
  have hline : (t.line? (row + 1)).getD [] = t.rowChars row := rfl
  have habove : minus? (row + 2) 1 = some (row + 1) := if_pos (by omega)
  have hfurther : minus? (row + 2) 2 = some row := if_pos (by omega)
  simp only [goesOn?, habove, hfurther, hline, Nat.add_lt_add_iff_right, Option.bind_eq_bind, Option.bind_some]
  by_cases htop : top < row
  · -- there is a row before this one
    obtain ⟨r, rfl⟩ := Nat.exists_eq_succ_of_ne_zero (Nat.ne_of_gt (Nat.zero_lt_of_lt htop))
    have hrow : (t.line? (r + 1)).getD [] = t.rowChars (r + 1 - 1) := rfl
    cases hquiet : isCommentOrBlank (t.rowChars (r + 1)) <;> simp [isLoose, htop, hquiet, hrow]
  · simp [htop]

lemma walk?_eq (t : Text) (top row : Nat) : walk? t (top + 1) (row + 1) = some (looseStart t top row + 1) := by
  induction row with
  | zero => simp [walk?, goesOn?, minus?, looseStart]
  | succ row ih =>
    rw [walk?, goesOn?_eq, looseStart, Option.bind_eq_bind, Option.bind_some]
    by_cases hloose : top < row ∧ isLoose t row = true
    · rw [if_pos hloose, decide_eq_true hloose, if_pos rfl, ih]
    · rw [if_neg hloose, decide_eq_false hloose]
      rfl

lemma statementStop_of_none (hs : s.stop = none) (next : Position) :
    statementStop t s next = stopBeforeLoose t s.start next := by
  simp only [statementStop, hs]
  rfl

lemma cause_of_chunksFrom {i : Nat} (hs : ∀ s ∈ spans, s.stop = none) (h : chunksFrom t i spans = .error f) :
    f.cause = .outOfOrder ∨ f.cause = .commentOnOwnLine := by
  induction spans generalizing i with
  | nil => cases h
  | cons s rest ih =>
    obtain ⟨hnone, hrest⟩ := List.forall_mem_cons.mp hs
    rcases chunksFrom_cons_error h with ⟨-, rfl⟩ | ⟨horder, hstop | ⟨stop, hstop, ⟨hrange, -⟩ | hmore⟩⟩
    · exact .inl rfl
    · rw [statementStop_of_none hnone] at hstop
      exact .inr (congrArg Fault.cause (stopBeforeLoose_error hstop).1)
    · rw [statementStop_of_none hnone] at hstop
      exact absurd (stopBeforeLoose_range hstop horder) hrange
    · exact ih hrest hmore

lemma cause_of_chunks (hs : ∀ s ∈ spans, s.stop = none) (h : chunks t spans = .error f) :
    f.cause ∈ [Cause.firstBeforeText, .lastAfterText, .outOfOrder, .commentOnOwnLine] := by
  rcases chunks_eq_error h with ⟨_, -, -, hcause⟩ | ⟨_, -, -, hcause⟩ | hmore
  · simp [hcause]
  · simp [hcause]
  · rcases cause_of_chunksFrom hs hmore with hcause | hcause <;> simp [hcause]

/-- What it takes to split a text at statements whose ends are not known: they start in the text and one behind the
other, and the last one does not stand on a last row without code. -/
structure Splittable (t : Text) (spans : List Span) (hne : spans ≠ []) : Prop where
  first : t.start ≤ (spans.head hne).start
  last : (spans.getLast hne).start < t.stop
  order : (spans.map Span.start).Pairwise (· < ·)
  code : t.stop.offset ≠ 0 → isCommentOrBlank (t.rowChars t.stop.row) = true →
    (spans.getLast hne).start.row ≠ t.stop.row

lemma pairwise_of_chunksFrom {i : Nat} {cs : List Chunk} (h : chunksFrom t i spans = .ok cs) :
    (spans.map Span.start).Pairwise (· < ·) := by
  induction spans generalizing i cs with
  | nil => exact .nil
  | cons s rest ih =>
    obtain ⟨stop, more, hlt, -, -, -, hmore, -⟩ := chunksFrom_cons.mp h
    rw [List.map_cons, List.pairwise_cons]
    refine ⟨fun p hp => ?_, ih hmore⟩
    obtain ⟨s', hs', rfl⟩ := List.mem_map.mp hp
    obtain ⟨before, after, rfl⟩ := List.append_of_mem hs'
    obtain ⟨_, _, -, hle, -⟩ := chunksFrom_drop hmore
    exact Position.lt_of_lt_of_le hlt hle

lemma splittable_of_chunks {cs : List Chunk} (hne : spans ≠ []) (hs : ∀ s ∈ spans, s.stop = none)
    (h : chunks t spans = .ok cs) : Splittable t spans hne := by
  have hlast : spans.dropLast ++ spans.getLast hne :: [] = spans := List.dropLast_append_getLast hne
  obtain ⟨_, _, stop, -, -, hlt, -, hstop, -, hle⟩ := chunks_at (hlast.symm ▸ h)
  have hnone : ¬ IsSettled t (spans.getLast hne).stop := by
    rw [hs _ (List.getLast_mem hne)]
    rintro ⟨e, he, -⟩
    cases he
  obtain ⟨first, rest, rfl⟩ := List.exists_cons_of_ne_nil hne
  obtain ⟨more, hfirst, hmore, -⟩ := chunks_cons h
  refine ⟨hfirst, hlt, pairwise_of_chunksFrom hmore, fun hoff hquiet hrow => ?_⟩
  exact not_fails_of_statementStop hlt hstop hle .commentOnOwnLine ⟨hnone, rfl, hoff, hquiet, Nat.le_of_eq hrow.symm⟩

namespace Splittable

variable {hne : spans ≠ []}

lemma start_le (h : Splittable t spans hne) (hs : s ∈ spans) : t.start ≤ s.start := by
  obtain ⟨first, rest, rfl⟩ := List.exists_cons_of_ne_nil hne
  rcases List.mem_cons.mp hs with rfl | hs
  · exact h.first
  · have hlt := (List.pairwise_cons.mp h.order).1 _ (List.mem_map_of_mem hs)
    exact Position.le_trans h.first (Position.le_of_lt hlt)

lemma lt_stop (h : Splittable t spans hne) (hs : s ∈ spans) : s.start < t.stop := by
  obtain ⟨before, rest, rfl⟩ := List.append_of_mem hs
  have hlast := h.last
  rw [List.getLast_append_of_ne_nil _ (List.cons_ne_nil s rest)] at hlast
  cases rest with
  | nil => exact hlast
  | cons n rest =>
    have horder := h.order
    rw [List.map_append, List.map_cons] at horder
    have hafter := (List.pairwise_cons.mp (List.pairwise_append.mp horder).2.1).1
    rw [List.getLast_cons (List.cons_ne_nil n rest)] at hlast
    refine Position.lt_of_le_of_lt (Position.le_of_lt (hafter _ ?_)) hlast
    exact List.mem_map_of_mem (List.getLast_mem _)

lemma inside (h : Splittable t spans hne) (hs : ∀ s ∈ spans, s.stop = none) : ∀ s ∈ spans, s.Inside t := by
  intro s hmem
  refine ⟨h.start_le hmem, h.lt_stop hmem, fun e he => ?_⟩
  rw [hs s hmem] at he
  cases he

lemma not_fails {before rest : List Span} (h : Splittable t spans hne) (hs : ∀ s ∈ spans, s.stop = none)
    (hspans : spans = before ++ s :: rest) (cause : Cause) : ¬ Fails t s (nextStart t rest) cause := by
  subst hspans
  have hmem : s ∈ before ++ s :: rest := by simp
  have hnone := hs s hmem
  cases cause with
  | outOfOrder =>
    refine Position.not_le.mpr ?_
    cases rest with
    | nil => exact h.lt_stop hmem
    | cons n rest =>
      have horder := h.order
      rw [List.map_append, List.map_cons, List.map_cons] at horder
      exact (List.pairwise_cons.mp (List.pairwise_append.mp horder).2.1).1 _ List.mem_cons_self
  | stringOutsideStatement =>
    rintro ⟨e, he, -⟩
    rw [hnone] at he
    cases he
  | commentOnOwnLine =>
    rintro ⟨-, hnext, hoff, hquiet, hrow⟩
    cases rest with
    | nil =>
      -- the last statement starts before the end of the text and on its last row
      have hle := Position.row_le (Position.le_of_lt (h.lt_stop hmem))
      have hcode := h.code hoff hquiet
      rw [List.getLast_append_of_ne_nil _ (List.cons_ne_nil s []), List.getLast_singleton] at hcode
      exact hcode (Nat.le_antisymm hle hrow)
    | cons n rest =>
      have hlt := h.lt_stop (s := n) (by simp)
      exact Position.lt_irrefl _ (hnext ▸ hlt)
  | endOutsideRange =>
    rintro ⟨⟨e, he, -⟩, -⟩
    rw [hnone] at he
    cases he
  | firstBeforeText => exact id
  | lastAfterText => exact id
  | stringEndsRow => exact id

end Splittable

lemma chunks_ok_iff_splittable (hne : spans ≠ []) (hs : ∀ s ∈ spans, s.stop = none) :
    (∃ cs, chunks t spans = .ok cs) ↔ Splittable t spans hne := by
  constructor
  · rintro ⟨cs, h⟩
    exact splittable_of_chunks hne hs h
  · intro h
    exact (chunks_eq_ok_iff (h.inside hs)).mpr fun before s rest => h.not_fails hs

/-- A text is refused at statements whose ends are not known exactly if the first of them starts
before the text, the last one at its end or behind, their starts do not go up, or the last one
stands on the last row and this row has something on it but no code. -/
theorem chunks_error_iff (hne : spans ≠ []) (hs : ∀ s ∈ spans, s.stop = none) :
    ((∃ f, chunks t spans = .error f) ↔
      (spans.head hne).start < t.start ∨ t.stop ≤ (spans.getLast hne).start ∨
        ¬ (spans.map Span.start).Pairwise (· < ·) ∨
        (t.stop.column ≠ 1 ∧ isCommentOrBlank (t.lines.getLast t.lines_ne_nil) = true ∧
          (spans.getLast hne).start.line = t.stop.line)) ∧
    (∀ f, chunks t spans = .error f →
      f.cause ∈ [Cause.firstBeforeText, .lastAfterText, .outOfOrder, .commentOnOwnLine]) ∧
    ∀ start next : Position,
      walk? t start.line next.line = some (Position.line ⟨looseStart t start.row next.row, 0⟩) := by
  refine ⟨?_, fun f => cause_of_chunks hs, fun start next => walk?_eq t start.row next.row⟩
  have hfails : (∃ f, chunks t spans = .error f) ↔ ¬ ∃ cs, chunks t spans = .ok cs := by
    cases chunks t spans <;> simp
  have hcolumn : t.stop.column ≠ 1 ↔ t.stop.offset ≠ 0 := by simp [Position.column]
  have hline : (spans.getLast hne).start.line = t.stop.line ↔ (spans.getLast hne).start.row = t.stop.row := by
    simp [Position.line]
  rw [hfails, chunks_ok_iff_splittable hne hs, hcolumn, hline, ← Text.rowChars_stop]
  constructor
  · intro h
    by_contra hnot
    simp only [not_or, not_and, not_not, Position.not_lt, Position.not_le] at hnot
    obtain ⟨hfirst, hlast, horder, hcode⟩ := hnot
    exact h ⟨hfirst, hlast, horder, hcode⟩
  · rintro (hfirst | hlast | horder | ⟨hoff, hquiet, hrow⟩) h
    · exact Position.not_le.mpr hfirst h.first
    · exact Position.not_le.mpr h.last hlast
    · exact horder h.order
    · exact h.code hoff hquiet hrow

theorem chunks_error_iff_comment :
    (∃ f, chunks ((Text.ofString "x = 1\n  # tail").anchored ⟨2, 4⟩) [⟨⟨2, 4⟩, none⟩, ⟨⟨3, 2⟩, none⟩] = .error f) ∧
      ¬ ∃ f, chunks ((Text.ofString "x = 1\n  # tail").anchored ⟨2, 4⟩) [⟨⟨2, 4⟩, none⟩] = .error f := by
  constructor
  · exact (chunks_error_iff (by simp) (by simp)).1.mpr (.inr (.inr (.inr (by decide +kernel))))
  · rw [(chunks_error_iff (by simp) (by simp)).1]
    decide +kernel

end SourceBlocks.Split
