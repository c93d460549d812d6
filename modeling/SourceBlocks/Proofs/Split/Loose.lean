import SourceBlocks.Proofs.Split.Tiling

namespace SourceBlocks.Split

open Outcome

variable {t : Text} {start next stop : Position}

def TrailsLoose (t : Text) (start next : Position) (row : Nat) : Prop :=
  start.row < row ∧ (next.offset = 0 ∨ next = t.stop) ∧
    ∀ k, row ≤ k → (⟨k, 0⟩ : Position) < next → isLoose t k = true

lemma trailsLoose_congr {start' : Position} {row : Nat} (h : start.row = start'.row) :
    TrailsLoose t start next row ↔ TrailsLoose t start' next row := by
  rw [TrailsLoose, TrailsLoose, h]

lemma looseStart_le (t : Text) (top row : Nat) : looseStart t top row ≤ row := by
  induction row with
  | zero => exact Nat.le_refl 0
  | succ row ih =>
    rw [looseStart]
    split_ifs
    · omega
    · exact Nat.le_refl _

lemma looseStart_le_iff {top row r : Nat} (h : r < row) :
    looseStart t top row ≤ r ↔ top < r ∧ ∀ k, r ≤ k → k < row → isLoose t k = true := by
  induction row with
  | zero => omega
  | succ row ih =>
    rw [looseStart]
    split_ifs with hloose
    · rcases Nat.lt_or_eq_of_le (Nat.le_of_lt_succ h) with hlt | rfl
      · rw [ih hlt]
        refine and_congr_right fun _ => ⟨fun hall k hk hkr => ?_, fun hall k hk hkr => hall k hk (by omega)⟩
        rcases Nat.lt_or_eq_of_le (Nat.le_of_lt_succ hkr) with hlt' | rfl
        · exact hall k hk hlt'
        · exact hloose.2
      · refine ⟨fun _ => ⟨hloose.1, fun k hk hkr => ?_⟩, fun _ => looseStart_le t top r⟩
        obtain rfl : k = r := by omega
        exact hloose.2
    · refine ⟨fun hle => by omega, fun ⟨htop, hall⟩ => ?_⟩
      exact absurd ⟨by omega, hall row (by omega) (by omega)⟩ hloose

lemma beforeLastComment_eq_ok {b : Position} (h : beforeLastComment t start next = .ok b) :
    (b = next ∧ (next.offset = 0 ∨ next ≠ t.stop ∨ isLoose t next.row = false)) ∨
      (b = ⟨next.row, 0⟩ ∧ next.offset ≠ 0 ∧ next = t.stop ∧ isLoose t next.row = true ∧
        start.row < next.row) := by
  rw [beforeLastComment] at h
  by_cases hlast : next.offset ≠ 0 ∧ next = t.stop ∧ isCommentOrBlank (t.rowChars next.row) = true
  · rw [if_pos hlast] at h
    simp only [bind_eq_ok, pure_eq_ok, check_eq_ok] at h
    obtain ⟨_, hrow, rfl⟩ := h
    obtain ⟨hoff, hstop, hquiet⟩ := hlast
    cases hcont : isContinued (t.rowChars (next.row - 1)) with
    | true => exact .inl ⟨rfl, .inr (.inr (by simp [isLoose, hcont]))⟩
    | false => exact .inr ⟨rfl, hoff, hstop, by simp [isLoose, hquiet, hcont], hrow⟩
  · rw [if_neg hlast] at h
    refine .inl ⟨(Except.ok.inj h).symm, ?_⟩
    by_contra hnot
    simp only [not_or, not_not, Bool.not_eq_false, isLoose, Bool.and_eq_true] at hnot
    exact hlast ⟨hnot.1, hnot.2.1, hnot.2.2.1⟩

lemma stopBeforeLoose_eq_ok (h : stopBeforeLoose t start next = .ok stop) :
    (stop = next ∨ stop.offset = 0) ∧
      ∀ r, (⟨r, 0⟩ : Position) < next → (stop ≤ ⟨r, 0⟩ ↔ TrailsLoose t start next r) := by
  simp only [stopBeforeLoose, bind_eq_ok, pure_eq_ok] at h
  obtain ⟨b, hb, rfl⟩ := h
  rcases beforeLastComment_eq_ok hb with ⟨rfl, hlast⟩ | ⟨rfl, hoff, hstop, hlast, hrow⟩
  · by_cases h0 : b.offset = 0
    · rw [if_pos h0]
      refine ⟨.inr rfl, fun r hr => ?_⟩
      have hbefore : ∀ k, (⟨k, 0⟩ : Position) < b ↔ k < b.row := fun k => by
        simp [Position.rowStart_lt_iff, h0]
      rw [Position.rowStart_le_rowStart, looseStart_le_iff ((hbefore r).mp hr)]
      simp only [TrailsLoose, h0, true_or, true_and, hbefore]
    · rw [if_neg h0]
      refine ⟨.inl rfl, fun r hr => ⟨fun hle => absurd hle (Position.not_le.mpr hr), fun htrail => ?_⟩⟩
      -- the row on which the next statement begins is not given up
      obtain ⟨-, hnext, hall⟩ := htrail
      have hle : r ≤ b.row := Position.row_le (Position.le_of_lt hr)
      have hloose := hall b.row hle (Position.rowStart_lt_iff.mpr (.inr ⟨rfl, h0⟩))
      rcases hlast with hlast | hlast | hlast
      · exact absurd hlast h0
      · exact absurd (hnext.resolve_left h0) hlast
      · simp [hlast] at hloose
  · rw [if_pos rfl]
    refine ⟨.inr rfl, fun r hr => ?_⟩
    have hle : r ≤ next.row := Position.row_le (Position.le_of_lt hr)
    have hrows : TrailsLoose t start next r ↔
        start.row < r ∧ ∀ k, r ≤ k → k < next.row → isLoose t k = true := by
      refine and_congr_right fun _ => ⟨fun h k hk hlt => h.2 k hk (.inl hlt), fun hall => ⟨.inr hstop, ?_⟩⟩
      intro k hk hlt
      rcases Position.rowStart_lt_iff.mp hlt with hlt | ⟨rfl, -⟩
      · exact hall k hk hlt
      · exact hlast
    rw [hrows, Position.rowStart_le_rowStart]
    rcases Nat.lt_or_eq_of_le hle with hlt | rfl
    · exact looseStart_le_iff hlt
    · exact ⟨fun _ => ⟨hrow, by omega⟩, fun _ => looseStart_le _ _ _⟩

def IsSettled (t : Text) (stop : Option Position) : Prop := ∃ e ∈ stop,
  isCommentOrBlank (t.slice e (min t.stop ⟨e.row + 1, 0⟩)).chars = true

lemma statementStop_eq_ok {s : Span} (h : statementStop t s next = .ok stop) :
    (∃ e, s.stop = some e ∧ IsSettled t s.stop ∧ e ≤ next ∧ stop = min t.stop ⟨e.row + 1, 0⟩) ∨
      (¬ IsSettled t s.stop ∧ stopBeforeLoose t s.start next = .ok stop) := by
  simp only [statementStop] at h
  cases hs : s.stop with
  | none =>
    rw [hs] at h
    exact .inr ⟨by simp [IsSettled], h⟩
  | some e =>
    rw [hs] at h
    simp only [stopAfterString?, bind_eq_ok, pure_eq_ok, check_eq_ok] at h
    obtain ⟨known, ⟨_, ⟨-, hle⟩, _, -, rfl⟩, h⟩ := h
    split_ifs at h with hquiet
    · exact .inl ⟨e, rfl, ⟨e, rfl, hquiet⟩, hle, (pure_eq_ok.mp h).symm⟩
    · refine .inr ⟨?_, h⟩
      rintro ⟨e', he', hquiet'⟩
      obtain rfl := Option.some.inj he'
      exact hquiet hquiet'

lemma not_mem_gap {a b : Position} {j : Nat} {u : Text} : ⟨some j, u⟩ ∉ gap t a b := by
  rw [gap]
  split_ifs <;> simp

lemma mem_chunksFrom {i j : Nat} {spans : List Span} {cs : List Chunk} {u : Text}
    (h : chunksFrom t i spans = .ok cs) (hc : ⟨some j, u⟩ ∈ cs) :
    ∃ before s rest stop, spans = before ++ s :: rest ∧ j = i + before.length ∧
      statementStop t s (nextStart t rest) = .ok stop ∧ s.start < stop ∧ stop ≤ nextStart t rest ∧
      u = t.slice s.start stop := by
  induction spans generalizing i cs with
  | nil =>
    obtain rfl : [] = cs := by simpa [chunksFrom] using h
    simp at hc
  | cons s rest ih =>
    obtain ⟨stop, more, -, hstop, hlt, hle, hmore, rfl⟩ := chunksFrom_cons.mp h
    rcases List.mem_cons.mp hc with heq | hc
    · obtain ⟨hj, rfl⟩ := Chunk.mk.inj heq
      exact ⟨[], s, rest, stop, rfl, Option.some.inj hj, hstop, hlt, hle, rfl⟩
    · have hmem := (List.mem_append.mp hc).resolve_left not_mem_gap
      obtain ⟨before, s', rest', stop', rfl, rfl, hs'⟩ := ih hmore hmem
      exact ⟨s :: before, s', rest', stop', rfl, by simp only [List.length_cons]; omega, hs'⟩

lemma mem_chunks {j : Nat} {spans : List Span} {cs : List Chunk} {u : Text}
    (h : chunks t spans = .ok cs) (hc : ⟨some j, u⟩ ∈ cs) :
    ∃ before s rest stop, spans = before ++ s :: rest ∧ j = before.length ∧
      statementStop t s (nextStart t rest) = .ok stop ∧ s.start < stop ∧ stop ≤ nextStart t rest ∧
      u = t.slice s.start stop := by
  cases spans with
  | nil =>
    obtain rfl : [⟨none, t⟩] = cs := by simpa [chunks] using h
    simp at hc
  | cons s rest =>
    obtain ⟨more, -, hmore, rfl⟩ := chunks_cons h
    have hmem := (List.mem_append.mp hc).resolve_left not_mem_gap
    simpa using mem_chunksFrom hmore hmem

end SourceBlocks.Split
