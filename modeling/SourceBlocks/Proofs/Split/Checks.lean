import SourceBlocks.Proofs.Split.Loose

namespace SourceBlocks.Split

open Outcome

variable {t : Text} {s : Span} {next : Position}

/-- What a check finds wrong with a statement when the next one begins at `next`. The checks that are left
out hold of all statements that are recorded in the text. -/
def Fails (t : Text) (s : Span) (next : Position) : Cause → Prop
  | .outOfOrder => next ≤ s.start
  | .stringOutsideStatement => ∃ e ∈ s.stop, next < e
  | .commentOnOwnLine => ¬ IsSettled t s.stop ∧ next = t.stop ∧ next.offset ≠ 0 ∧
      isCommentOrBlank (t.rowChars next.row) = true ∧ next.row ≤ s.start.row
  | .endOutsideRange => IsSettled t s.stop ∧ ∃ e ∈ s.stop, next < min t.stop ⟨e.row + 1, 0⟩
  | .firstBeforeText => False
  | .lastAfterText => False
  | .stringEndsRow => False

structure Span.Inside (t : Text) (s : Span) : Prop where
  start_le : t.start ≤ s.start
  lt_stop : s.start < t.stop
  stop : ∀ e ∈ s.stop, s.start < e ∧ e.offset ≠ 0 ∧ e ≤ t.stop

lemma check_eq_error {ok : Prop} [Decidable ok] {cause : Cause} {a b : Position} {f : Fault} :
    check ok cause a b = .error f ↔ ¬ ok ∧ f = ⟨cause, a, b⟩ := by
  simp only [check]
  split_ifs <;> simp_all [eq_comm]

lemma stopBeforeLoose_error {start : Position} {f : Fault} (h : stopBeforeLoose t start next = .error f) :
    f = ⟨.commentOnOwnLine, start, next⟩ ∧ next = t.stop ∧ next.offset ≠ 0 ∧
      isCommentOrBlank (t.rowChars next.row) = true ∧ next.row ≤ start.row := by
  simp only [stopBeforeLoose, bind_eq_error, pure_eq_error, and_false, exists_false, or_false] at h
  rw [beforeLastComment] at h
  by_cases hlast : next.offset ≠ 0 ∧ next = t.stop ∧ isCommentOrBlank (t.rowChars next.row) = true
  · rw [if_pos hlast] at h
    simp only [bind_eq_error, check_eq_error, pure_eq_error, and_false, exists_false, or_false] at h
    obtain ⟨hrow, rfl⟩ := h
    exact ⟨rfl, hlast.2.1, hlast.1, hlast.2.2, Nat.not_lt.mp hrow⟩
  · rw [if_neg hlast] at h
    cases h

lemma lt_looseStart {top row : Nat} (h : top < row) : top < looseStart t top row := by
  by_contra hle
  obtain ⟨hlt, -⟩ := (looseStart_le_iff h).mp (Nat.not_lt.mp hle)
  exact Nat.lt_irrefl top hlt

lemma stopBeforeLoose_range {start stop : Position} (h : stopBeforeLoose t start next = .ok stop)
    (hlt : start < next) : start < stop ∧ stop ≤ next := by
  simp only [stopBeforeLoose, bind_eq_ok, pure_eq_ok] at h
  obtain ⟨b, hb, rfl⟩ := h
  have hrows : start.row < b.row → b.row ≤ next.row →
      start < ⟨looseStart t start.row b.row, 0⟩ ∧ (⟨looseStart t start.row b.row, 0⟩ : Position) ≤ next := by
    intro hrow hle
    have hloose := looseStart_le t start.row b.row
    refine ⟨.inl (lt_looseStart hrow), Position.le_trans ?_ (Position.rowStart_le next)⟩
    exact Position.rowStart_le_rowStart.mpr (Nat.le_trans hloose hle)
  rcases beforeLastComment_eq_ok hb with ⟨rfl, -⟩ | ⟨rfl, -, -, -, hrow⟩
  · by_cases h0 : b.offset = 0
    · rw [if_pos h0]
      refine hrows ?_ (Nat.le_refl _)
      rcases hlt with hlt | ⟨-, hlt⟩
      · exact hlt
      · omega
    · rw [if_neg h0]
      exact ⟨hlt, Position.le_refl _⟩
  · rw [if_pos rfl]
    exact hrows hrow (Nat.le_refl _)

lemma checks_of_statementStop {stop : Position} (h : statementStop t s next = .ok stop) :
    ∀ e ∈ s.stop, s.start < e ∧ e ≤ next ∧ e.offset ≠ 0 := by
  rintro e he
  obtain he : s.stop = some e := he
  simp only [statementStop, he, stopAfterString?, bind_eq_ok, pure_eq_ok, check_eq_ok] at h
  obtain ⟨_, ⟨_, ⟨hlt, hle⟩, _, hoff, -⟩, -⟩ := h
  exact ⟨hlt, hle, hoff⟩

lemma isSettled_some {e : Position} : IsSettled t (some e) ↔
    isCommentOrBlank (t.slice e (min t.stop ⟨e.row + 1, 0⟩)).chars = true := by
  simp [IsSettled]

lemma isCommentOrBlank_of_code {l r : List Char} {x : Char} (hl : '#' ∉ l) (hx : x ≠ '#')
    (hblank : Text.isBlank x = false) : isCommentOrBlank (l ++ x :: r) = false := by
  have hbreak : x ≠ '\n' := by
    rintro rfl
    exact absurd hblank (by decide)
  rw [isCommentOrBlank]
  induction l with
  | nil => simp [isQuiet, hbreak, hx, hblank]
  | cons c l ih =>
    rw [List.mem_cons, not_or] at hl
    have hc : c ≠ '#' := fun hc => hl.1 hc.symm
    simp [isQuiet, hc, ih hl.2]

lemma not_fails_of_statementStop {stop : Position} (hlt : s.start < next)
    (hstop : statementStop t s next = .ok stop) (hle : stop ≤ next) (cause : Cause) :
    ¬ Fails t s next cause := by
  cases cause with
  | outOfOrder => exact Position.not_le.mpr hlt
  | stringOutsideStatement =>
    rintro ⟨e, he, hafter⟩
    exact Position.not_le.mpr hafter (checks_of_statementStop hstop e he).2.1
  | commentOnOwnLine =>
    rintro ⟨hsettled, hnext, hoff, hquiet, hrow⟩
    rcases statementStop_eq_ok hstop with ⟨_, _, h, -⟩ | ⟨-, hloose⟩
    · exact hsettled h
    · simp only [stopBeforeLoose, beforeLastComment, bind_eq_ok] at hloose
      obtain ⟨b, hb, -⟩ := hloose
      rw [if_pos ⟨hoff, hnext, hquiet⟩] at hb
      simp only [bind_eq_ok, check_eq_ok] at hb
      obtain ⟨_, hlast, -⟩ := hb
      omega
  | endOutsideRange =>
    rintro ⟨hsettled, e, he, hafter⟩
    rcases statementStop_eq_ok hstop with ⟨e', he', -, -, rfl⟩ | ⟨h, -⟩
    · obtain rfl := Option.some.inj (he'.symm.trans he)
      exact Position.not_le.mpr hafter hle
    · exact h hsettled
  | firstBeforeText => exact id
  | lastAfterText => exact id
  | stringEndsRow => exact id

lemma statementStop_error {f : Fault} (hs : s.Inside t) (h : statementStop t s next = .error f) :
    f.start = s.start ∧ Fails t s next f.cause := by
  have hloose : ∀ {f : Fault}, ¬ IsSettled t s.stop → stopBeforeLoose t s.start next = .error f →
      f.start = s.start ∧ Fails t s next f.cause := by
    intro f hsettled h
    obtain ⟨rfl, hnext⟩ := stopBeforeLoose_error h
    exact ⟨rfl, hsettled, hnext⟩
  cases hstop : s.stop with
  | none =>
    simp only [statementStop, hstop] at h
    exact hloose (by simp [IsSettled, hstop]) h
  | some e =>
    obtain ⟨hlt, hoff, -⟩ := hs.stop e hstop
    simp only [statementStop, hstop, stopAfterString?, bind_eq_error, check_eq_error, pure_eq_error, and_false,
      exists_false, or_false, bind_eq_ok, check_eq_ok, pure_eq_ok] at h
    rcases h with (⟨hrange, rfl⟩ | ⟨_, -, h0, -⟩) | ⟨known, ⟨_, -, _, -, rfl⟩, h⟩
    · exact ⟨rfl, e, hstop, Position.not_le.mp fun hle => hrange ⟨hlt, hle⟩⟩
    · exact absurd hoff h0
    · split_ifs at h with hquiet
      · cases h
      · exact hloose (by rwa [hstop, isSettled_some]) h

lemma fails_of_range {stop : Position} (hs : s.Inside t) (hlt : s.start < next)
    (hstop : statementStop t s next = .ok stop) (hrange : ¬ (s.start < stop ∧ stop ≤ next)) :
    Fails t s next .endOutsideRange := by
  rcases statementStop_eq_ok hstop with ⟨e, he, hsettled, -, rfl⟩ | ⟨-, hloose⟩
  · obtain ⟨hstart, -, hle⟩ := hs.stop e he
    refine ⟨hsettled, e, he, Position.not_le.mp fun hnext => hrange ⟨?_, hnext⟩⟩
    refine Position.lt_of_lt_of_le hstart ?_
    simp only [min]
    split_ifs
    · exact hle
    · exact .inl (Nat.lt_succ_self _)
  · exact absurd (stopBeforeLoose_range hloose hlt) hrange

lemma chunksFrom_cons_error {i : Nat} {rest : List Span} {f : Fault} (h : chunksFrom t i (s :: rest) = .error f) :
    ¬ s.start < nextStart t rest ∧ f = ⟨.outOfOrder, s.start, nextStart t rest⟩ ∨
      s.start < nextStart t rest ∧ (statementStop t s (nextStart t rest) = .error f ∨
        ∃ stop, statementStop t s (nextStart t rest) = .ok stop ∧
          (¬ (s.start < stop ∧ stop ≤ nextStart t rest) ∧ f = ⟨.endOutsideRange, s.start, stop⟩ ∨
            chunksFrom t (i + 1) rest = .error f)) := by
  simp only [chunksFrom, bind_eq_error, check_eq_error, check_eq_ok, pure_eq_error, and_false, exists_false,
    or_false] at h
  rcases h with horder | ⟨_, horder, hstop | ⟨stop, hstop, hrange | ⟨_, -, hmore⟩⟩⟩
  · exact .inl horder
  · exact .inr ⟨horder, .inl hstop⟩
  · exact .inr ⟨horder, .inr ⟨stop, hstop, .inl hrange⟩⟩
  · exact .inr ⟨horder, .inr ⟨stop, hstop, .inr hmore⟩⟩

lemma chunks_eq_error {spans : List Span} {f : Fault} (h : chunks t spans = .error f) :
    (∃ first ∈ spans, ¬ t.start ≤ first.start ∧ f.cause = .firstBeforeText) ∨
      (∃ last ∈ spans, ¬ last.start < t.stop ∧ f.cause = .lastAfterText) ∨ chunksFrom t 0 spans = .error f := by
  cases spans with
  | nil => cases h
  | cons first rest =>
    obtain ⟨last, hlast⟩ : ∃ last, (first :: rest).getLast? = some last :=
      ⟨_, List.getLast?_eq_some_getLast (by simp)⟩
    simp only [chunks, hlast, bind_eq_error, check_eq_error, pure_eq_error, and_false, exists_false, or_false] at h
    rcases h with ⟨hfirst, rfl⟩ | ⟨_, -, ⟨hafter, rfl⟩ | ⟨_, -, hmore⟩⟩
    · exact .inl ⟨first, List.mem_cons_self, hfirst, rfl⟩
    · exact .inr (.inl ⟨last, List.mem_of_getLast? hlast, hafter, rfl⟩)
    · exact .inr (.inr hmore)

lemma chunksFrom_error {i : Nat} {spans : List Span} {f : Fault} (hs : ∀ s ∈ spans, s.Inside t)
    (h : chunksFrom t i spans = .error f) : ∃ before s rest, spans = before ++ s :: rest ∧
      f.start = s.start ∧ Fails t s (nextStart t rest) f.cause := by
  induction spans generalizing i with
  | nil => cases h
  | cons s rest ih =>
    obtain ⟨hin, hrest⟩ := List.forall_mem_cons.mp hs
    rcases chunksFrom_cons_error h with ⟨horder, rfl⟩ | ⟨horder, hstop | ⟨stop, hstop, ⟨hrange, rfl⟩ | hmore⟩⟩
    · exact ⟨[], s, rest, rfl, rfl, Position.not_lt.mp horder⟩
    · exact ⟨[], s, rest, rfl, statementStop_error hin hstop⟩
    · exact ⟨[], s, rest, rfl, rfl, fails_of_range hin horder hstop hrange⟩
    · obtain ⟨before, s', rest', rfl, hfail⟩ := ih hrest hmore
      exact ⟨s :: before, s', rest', rfl, hfail⟩

lemma chunksFrom_not_fails {i : Nat} {spans before rest : List Span} {cs : List Chunk}
    (h : chunksFrom t i spans = .ok cs) (hspans : spans = before ++ s :: rest) (cause : Cause) :
    ¬ Fails t s (nextStart t rest) cause := by
  induction before generalizing i spans cs with
  | nil =>
    subst hspans
    obtain ⟨stop, more, hlt, hstop, -, hle, -⟩ := chunksFrom_cons.mp h
    exact not_fails_of_statementStop hlt hstop hle cause
  | cons s' before ih =>
    subst hspans
    obtain ⟨_, _, _, _, _, _, hmore, _⟩ := chunksFrom_cons.mp h
    exact ih hmore rfl

lemma chunks_error {spans : List Span} {f : Fault} (hs : ∀ s ∈ spans, s.Inside t)
    (h : chunks t spans = .error f) : ∃ before s rest, spans = before ++ s :: rest ∧
      f.start = s.start ∧ Fails t s (nextStart t rest) f.cause := by
  rcases chunks_eq_error h with ⟨first, hmem, hfirst, -⟩ | ⟨last, hmem, hafter, -⟩ | hmore
  · exact absurd (hs first hmem).start_le hfirst
  · exact absurd (hs last hmem).lt_stop hafter
  · exact chunksFrom_error hs hmore

lemma chunks_eq_ok_iff {spans : List Span} (hs : ∀ s ∈ spans, s.Inside t) :
    (∃ cs, chunks t spans = .ok cs) ↔ ∀ before s rest, spans = before ++ s :: rest →
      ∀ cause, ¬ Fails t s (nextStart t rest) cause := by
  constructor
  · rintro ⟨cs, h⟩ before s rest rfl
    obtain ⟨first, more, heq⟩ : ∃ first more, before ++ s :: rest = first :: more := by
      cases before <;> simp
    rw [heq] at h
    obtain ⟨cs', -, hmore, -⟩ := chunks_cons h
    exact chunksFrom_not_fails hmore heq.symm
  · intro hall
    cases h : chunks t spans with
    | ok cs => exact ⟨cs, rfl⟩
    | error f =>
      obtain ⟨before, s, rest, heq, -, hfail⟩ := chunks_error hs h
      exact absurd hfail (hall before s rest heq f.cause)

end SourceBlocks.Split
