import SourceBlocks.Proofs.Agreement
import SourceBlocks.Proofs.Split.Loose
import SourceBlocks.Proofs.Text.Moved

namespace SourceBlocks.Split

open Outcome

variable (p : Position) {t : Text} {s : Span} {start next stop : Position}

def Span.moved (s : Span) : Span := ⟨p.plus s.start, s.stop.map p.plus⟩

def Chunk.moved (c : Chunk) : Chunk := ⟨c.node, c.text.moved p⟩

def Fault.moved (f : Fault) : Fault := ⟨f.cause, p.plus f.start, p.plus f.stop⟩

def FaultMoves (f f' : Fault) : Prop := f' = f.moved p

variable {p}

lemma check_moves {α : Type} {R : α → α → Prop} {ok ok' : Prop} [Decidable ok] [Decidable ok'] {cause : Cause}
    {x x' : Except Fault α} (h : ok' ↔ ok) (hx : ok → Agree (FaultMoves p) R x x') :
    Agree (FaultMoves p) R (check ok cause start stop >>= fun _ => x)
      (check ok' cause (p.plus start) (p.plus stop) >>= fun _ => x') := by
  by_cases hok : ok
  · rw [check, check, if_pos hok, if_pos (h.mpr hok)]
    exact hx hok
  · rw [check, check, if_neg hok, if_neg (mt h.mp hok)]
    exact .error rfl

lemma isLoose_moved {row : Nat} (h : 0 < row) : isLoose (t.moved p) (p.row + row) = isLoose t row := by
  rw [isLoose, isLoose, Nat.add_sub_assoc h, Text.rowChars_moved, Text.rowChars_moved]

lemma looseStart_moved (top row : Nat) :
    looseStart (t.moved p) (p.row + top) (p.row + row) = p.row + looseStart t top row := by
  induction row with
  | zero =>
    rw [looseStart]
    cases hrow : p.row with
    | zero => rfl
    | succ k =>
      rw [Nat.add_zero, looseStart, if_neg (fun hand => by omega)]
  | succ row ih =>
    rw [← Nat.add_assoc, looseStart, looseStart]
    by_cases htop : top < row
    · simp only [isLoose_moved (Nat.zero_lt_of_lt htop), Nat.add_lt_add_iff_left, ih]
      split_ifs <;> rfl
    · rw [if_neg (fun hand => htop (by omega)), if_neg (fun hand => htop hand.1), Nat.add_assoc]

lemma looseStart_pos {top row : Nat} (h : 0 < row) : 0 < looseStart t top row := by
  induction row with
  | zero => exact absurd h (Nat.lt_irrefl 0)
  | succ row ih =>
    rw [looseStart]
    split_ifs with hloose
    · exact ih (by omega)
    · exact Nat.succ_pos row

lemma start_lt_of_lt (h : start < next) : Position.start < next :=
  Position.lt_of_le_of_lt (Position.start_le start) h

lemma stopAfterString?_moves : Agree (FaultMoves p) (fun q q' => q' = q.map p.plus) (stopAfterString? t start next stop)
    (stopAfterString? (t.moved p) (p.plus start) (p.plus next) (p.plus stop)) := by
  rw [stopAfterString?, stopAfterString?]
  refine check_moves (by rw [Position.plus_lt_plus_iff, Position.plus_le_plus_iff]) fun hinside => ?_
  have hlt := hinside.1
  refine check_moves (not_congr (Position.offset_plus_eq_zero (start_lt_of_lt hlt))) fun _ => ?_
  have hend : min (t.moved p).stop ⟨(p.plus stop).row + 1, 0⟩ = p.plus (min t.stop ⟨stop.row + 1, 0⟩) := by
    rw [Text.stop_moved, Position.row_plus, Nat.add_assoc, ← Position.plus_rowStart p (Nat.succ_pos _),
      Position.min_plus]
  simp only [hend, Text.slice_moved]
  change Agree (FaultMoves p) _ (pure (if isCommentOrBlank (t.slice stop (min t.stop ⟨stop.row + 1, 0⟩)).chars then _ else _))
    (pure (if isCommentOrBlank (t.slice stop (min t.stop ⟨stop.row + 1, 0⟩)).chars then _ else _))
  split_ifs <;> exact .ok rfl

lemma beforeLastComment_moves (h : start < next) :
    Agree (FaultMoves p) (fun q q' => q' = p.plus q ∧ .start < q) (beforeLastComment t start next)
      (beforeLastComment (t.moved p) (p.plus start) (p.plus next)) := by
  have hlast : ((p.plus next).offset ≠ 0 ∧ p.plus next = (t.moved p).stop ∧
      isCommentOrBlank ((t.moved p).rowChars (p.plus next).row) = true) ↔
      (next.offset ≠ 0 ∧ next = t.stop ∧ isCommentOrBlank (t.rowChars next.row) = true) := by
    rw [Ne, Position.offset_plus_eq_zero (start_lt_of_lt h), Text.stop_moved, Position.plus_inj, Position.row_plus,
      Text.rowChars_moved]
  rw [beforeLastComment, beforeLastComment]
  by_cases hnext : next.offset ≠ 0 ∧ next = t.stop ∧ isCommentOrBlank (t.rowChars next.row) = true
  · rw [if_pos hnext, if_pos (hlast.mpr hnext)]
    refine check_moves (by rw [Position.row_plus, Position.row_plus, Nat.add_lt_add_iff_left]) fun hrow => ?_
    have hpos : 0 < next.row := Nat.zero_lt_of_lt hrow
    rw [Position.row_plus, Nat.add_sub_assoc hpos, Text.rowChars_moved, ← Position.plus_rowStart p hpos]
    split_ifs
    · exact .ok ⟨rfl, start_lt_of_lt h⟩
    · exact .ok ⟨rfl, .inl hpos⟩
  · rw [if_neg hnext, if_neg (mt hlast.mp hnext)]
    exact .ok ⟨rfl, start_lt_of_lt h⟩

lemma stopBeforeLoose_moves (h : start < next) :
    Agree (FaultMoves p) (fun q q' => q' = p.plus q) (stopBeforeLoose t start next)
      (stopBeforeLoose (t.moved p) (p.plus start) (p.plus next)) := by
  rw [stopBeforeLoose, stopBeforeLoose]
  refine (beforeLastComment_moves h).bind ?_
  rintro b _ ⟨rfl, hb⟩
  simp only [Position.offset_plus_eq_zero hb, Position.row_plus, looseStart_moved]
  by_cases h0 : b.offset = 0
  · have hrow : 0 < b.row := by
      rw [Position.lt_def, Position.start] at hb
      omega
    rw [if_pos h0, if_pos h0, ← Position.plus_rowStart p (looseStart_pos hrow)]
    exact .ok rfl
  · rw [if_neg h0, if_neg h0]
    exact .ok rfl

lemma statementStop_moves (h : s.start < next) :
    Agree (FaultMoves p) (fun q q' => q' = p.plus q) (statementStop t s next)
      (statementStop (t.moved p) (s.moved p) (p.plus next)) := by
  obtain ⟨start, known⟩ := s
  cases known with
  | none => exact stopBeforeLoose_moves h
  | some stop =>
    rw [statementStop, statementStop]
    refine stopAfterString?_moves.bind ?_
    rintro (_ | q) _ rfl
    · exact stopBeforeLoose_moves h
    · exact .ok rfl

lemma chunksFrom_eq (t : Text) (i : Nat) (s : Span) (rest : List Span) : chunksFrom t i (s :: rest) =
    (check (s.start < nextStart t rest) .outOfOrder s.start (nextStart t rest) >>= fun _ =>
      statementStop t s (nextStart t rest) >>= fun stop =>
      check (s.start < stop ∧ stop ≤ nextStart t rest) .endOutsideRange s.start stop >>= fun _ =>
      chunksFrom t (i + 1) rest >>= fun more =>
      .ok (⟨some i, t.slice s.start stop⟩ :: (gap t stop (nextStart t rest) ++ more))) := by
  cases rest <;> rfl

lemma chunks_eq {rest : List Span} {last : Span} (h : (s :: rest).getLast? = some last) : chunks t (s :: rest) =
    (check (t.start ≤ s.start) .firstBeforeText t.start s.start >>= fun _ =>
      check (last.start < t.stop) .lastAfterText last.start t.stop >>= fun _ =>
      chunksFrom t 0 (s :: rest) >>= fun more => .ok (gap t t.start s.start ++ more)) := by
  simp only [chunks, h]
  rfl

lemma nextStart_moved (spans : List Span) :
    nextStart (t.moved p) (spans.map (Span.moved p)) = p.plus (nextStart t spans) := by
  cases spans with
  | nil => exact Text.stop_moved p t
  | cons => rfl

lemma gap_moved (a b : Position) : gap (t.moved p) (p.plus a) (p.plus b) = (gap t a b).map (Chunk.moved p) := by
  simp only [gap, Position.plus_inj, Text.slice_moved]
  split_ifs <;> rfl

lemma chunksFrom_moves {i : Nat} {spans : List Span} :
    Agree (FaultMoves p) (fun cs cs' => cs' = cs.map (Chunk.moved p)) (chunksFrom t i spans)
      (chunksFrom (t.moved p) i (spans.map (Span.moved p))) := by
  induction spans generalizing i with
  | nil => exact .ok rfl
  | cons s rest ih =>
    have hnext : nextStart (t.moved p) (rest.map (Span.moved p)) = p.plus (nextStart t rest) := nextStart_moved rest
    rw [chunksFrom_eq, List.map_cons, chunksFrom_eq, hnext]
    refine check_moves (Position.plus_lt_plus_iff p _ _) fun hlt => (statementStop_moves hlt).bind ?_
    rintro stop _ rfl
    refine check_moves (and_congr (Position.plus_lt_plus_iff p _ _) (Position.plus_le_plus_iff p _ _)) fun _ =>
      ih.bind ?_
    rintro more _ rfl
    refine .ok ?_
    rw [gap_moved, List.map_cons, List.map_append]
    simp only [Span.moved, Text.slice_moved]
    rfl

lemma chunks_moves (spans : List Span) :
    Agree (FaultMoves p) (fun cs cs' => cs' = cs.map (Chunk.moved p)) (chunks t spans)
      (chunks (t.moved p) (spans.map (Span.moved p))) := by
  cases spans with
  | nil => exact .ok rfl
  | cons s rest =>
    obtain ⟨last, hlast⟩ : ∃ last, (s :: rest).getLast? = some last := ⟨_, List.getLast?_eq_some_getLast (by simp)⟩
    have hlast' : ((s :: rest).map (Span.moved p)).getLast? = some (last.moved p) := by
      rw [List.getLast?_map, hlast, Option.map_some]
    rw [chunks_eq hlast, List.map_cons, chunks_eq hlast', Text.stop_moved]
    refine check_moves (Position.plus_le_plus_iff p _ _) fun _ => check_moves (Position.plus_lt_plus_iff p _ _) fun _ =>
      chunksFrom_moves.bind ?_
    rintro more _ rfl
    refine .ok ?_
    rw [List.map_append, ← gap_moved]
    rfl

end SourceBlocks.Split
