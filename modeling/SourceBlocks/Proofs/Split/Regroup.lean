import SourceBlocks.Proofs.Split.Checks
import SourceBlocks.Proofs.Text.Pieces

/-! Splitting a piece of a text at the statements in it. -/

namespace SourceBlocks.Split

open Outcome

variable {t u : Text} {s : Span} {start next stop : Position}

def Keeps (u : Text) (s : Span) (stop : Position) : Prop :=
  (IsSettled u s.stop → ∀ e ∈ s.stop, stop = min u.stop ⟨e.row + 1, 0⟩) ∧
    (stop = u.stop → (∀ e ∈ s.stop, e ≤ stop) ∧
      (¬ IsSettled u s.stop → stop.offset ≠ 0 → isCommentOrBlank (u.rowChars stop.row) = true →
        s.start.row < stop.row ∧ isContinued (u.rowChars (stop.row - 1)) = true))

section Rows

variable {row : Nat}

lemma isContinued_piece (h : u.IsPiece t) (hs : u.Holds start) (hrow : start.row ≤ row)
    (hlast : row < u.stop.row ∨ u.stop = t.stop) : isContinued (u.rowChars row) = isContinued (t.rowChars row) := by
  have hfirst : u.start.row ≤ row := Nat.le_trans (Position.row_le hs.hasPlace.start_le) hrow
  rcases Nat.lt_or_eq_of_le hfirst with hlt | rfl
  · rw [h.rowChars_eq hlt hlast]
  · have heq : start.row = u.start.row := Nat.le_antisymm hrow (Position.row_le hs.hasPlace.start_le)
    have hne : u.rowChars u.start.row ≠ [] := heq ▸ hs.rowChars_ne_nil
    obtain ⟨l, hl⟩ := h.exists_rowChars_start hlast
    rw [isContinued, isContinued, hl, List.getLast?_append_of_ne_nil _ hne]

lemma isLoose_piece (h : u.IsPiece t) (hs : u.Holds start) (hrow : start.row < row)
    (hlast : row < u.stop.row ∨ u.stop = t.stop) : isLoose u row = isLoose t row := by
  have hfirst : u.start.row < row := Nat.lt_of_le_of_lt (Position.row_le hs.hasPlace.start_le) hrow
  rw [isLoose, isLoose, h.rowChars_eq hfirst hlast,
    isContinued_piece h hs (by omega) (hlast.imp_left (by omega))]

lemma looseStart_piece (h : u.IsPiece t) (hs : u.Holds start) (hlast : row ≤ u.stop.row) :
    looseStart u start.row row = looseStart t start.row row := by
  induction row with
  | zero => rfl
  | succ row ih =>
    rw [looseStart, looseStart, ih (Nat.le_of_succ_le hlast)]
    by_cases hrow : start.row < row
    · rw [isLoose_piece h hs hrow (.inl hlast)]
    · simp only [hrow, false_and, if_false]

end Rows

section Stops

lemma beforeLastComment_of_ne (h : next.offset = 0 ∨ next ≠ t.stop) : beforeLastComment t start next = .ok next := by
  rw [beforeLastComment, if_neg]
  rintro ⟨hoff, hstop, -⟩
  exact h.elim hoff fun hne => hne hstop

lemma stopBeforeLoose_piece (h : u.IsPiece t) (hs : u.Holds start) (hnext : next ≤ u.stop) (hlt : stop < u.stop)
    (hstop : stopBeforeLoose t start next = .ok stop) : stopBeforeLoose u start next = .ok stop := by
  simp only [stopBeforeLoose, bind_eq_ok, pure_eq_ok] at hstop ⊢
  obtain ⟨b, hb, rfl⟩ := hstop
  -- where the next statement begins in the middle of a row, the text ends there as the piece does
  have hlast : beforeLastComment u start next = .ok b := by
    rcases beforeLastComment_eq_ok hb with ⟨rfl, -⟩ | ⟨-, hoff, rfl, -, hrow⟩
    · apply beforeLastComment_of_ne
      by_cases h0 : b.offset = 0
      · exact .inl h0
      · rw [if_neg h0] at hlt
        exact .inr fun heq => Position.lt_irrefl _ (heq ▸ hlt)
    · have heq : u.stop = t.stop := Position.le_antisymm h.stop_le hnext
      have hfirst := Nat.lt_of_le_of_lt (Position.row_le hs.hasPlace.start_le) hrow
      rw [beforeLastComment] at hb ⊢
      rw [heq, h.rowChars_eq hfirst (.inr heq), isContinued_piece h hs (by omega) (.inr heq)]
      exact hb
  refine ⟨b, hlast, ?_⟩
  have hrow : b.row ≤ u.stop.row := by
    refine Nat.le_trans ?_ (Position.row_le hnext)
    rcases beforeLastComment_eq_ok hb with ⟨rfl, -⟩ | ⟨rfl, -⟩
    · exact Nat.le_refl _
    · exact Nat.le_refl _
  rw [looseStart_piece h hs hrow]

lemma statementStop_of_settled {e : Position} (he : s.stop = some e)
    (hcheck : s.start < e ∧ e ≤ next ∧ e.offset ≠ 0) (h : IsSettled t s.stop) :
    statementStop t s next = .ok (min t.stop ⟨e.row + 1, 0⟩) := by
  obtain ⟨hlt, hle, hoff⟩ := hcheck
  rw [he, isSettled_some] at h
  simp only [statementStop, he, stopAfterString?, check, hlt, hle, hoff, h, if_true, and_self, ne_eq,
    not_false_eq_true]
  rfl

lemma statementStop_of_not_settled (hcheck : ∀ e ∈ s.stop, s.start < e ∧ e ≤ next ∧ e.offset ≠ 0)
    (h : ¬ IsSettled t s.stop) : statementStop t s next = stopBeforeLoose t s.start next := by
  cases he : s.stop with
  | none =>
    rw [statementStop, he]
    rfl
  | some e =>
    obtain ⟨hlt, hle, hoff⟩ := hcheck e he
    rw [he, isSettled_some] at h
    simp only [statementStop, he, stopAfterString?, check, hlt, hle, hoff, h, if_true, and_self, ne_eq,
      not_false_eq_true]
    rfl

lemma isSettled_piece {e : Position} (h : u.IsPiece t) (hfirst : u.start ≤ e) (hle : e ≤ t.stop)
    (hend : min t.stop ⟨e.row + 1, 0⟩ ≤ u.stop) : min u.stop ⟨e.row + 1, 0⟩ = min t.stop ⟨e.row + 1, 0⟩ ∧
      (IsSettled u (some e) ↔ IsSettled t (some e)) := by
  have hmin : min u.stop ⟨e.row + 1, 0⟩ = min t.stop ⟨e.row + 1, 0⟩ := by
    rcases Position.le_total ⟨e.row + 1, 0⟩ u.stop with hline | hline
    · rw [Position.min_eq_right hline, Position.min_eq_right (Position.le_trans hline h.stop_le)]
    · rw [Position.min_eq_left hline]
      exact Position.le_antisymm (Position.le_min h.stop_le hline) hend
  have hline : e ≤ min t.stop ⟨e.row + 1, 0⟩ :=
    Position.le_min hle (Position.le_of_lt (.inl (Nat.lt_succ_self _)))
  exact ⟨hmin, by rw [isSettled_some, isSettled_some, hmin, h.slice_eq hfirst hline hend]⟩

lemma not_isLoose_of_stopBeforeLoose {row : Nat} (h : stopBeforeLoose t start next = .ok ⟨row + 1, 0⟩)
    (hle : (⟨row + 1, 0⟩ : Position) ≤ next) (hrow : start.row < row) : isLoose t row = false := by
  obtain ⟨-, htrail⟩ := stopBeforeLoose_eq_ok h
  have hlt : (⟨row, 0⟩ : Position) < next := Position.lt_of_lt_of_le (.inl (Nat.lt_succ_self row)) hle
  by_contra hloose
  rw [Bool.not_eq_false] at hloose
  have hnot : ¬ TrailsLoose t start next row := by
    rw [← htrail row hlt, Position.rowStart_le_rowStart]
    omega
  -- all rows behind it are loose, since the statement stops before them
  rcases Position.lt_or_eq_of_le hle with hlt' | rfl
  · obtain ⟨-, hnext, hall⟩ := (htrail (row + 1) hlt').mp (Position.le_refl _)
    refine hnot ⟨hrow, hnext, fun k hk hkn => ?_⟩
    rcases Nat.eq_or_lt_of_le hk with rfl | hk
    · exact hloose
    · exact hall k hk hkn
  · refine hnot ⟨hrow, .inl rfl, fun k hk hkn => ?_⟩
    obtain rfl : k = row := by
      simp only [Position.lt_def, Nat.lt_irrefl, and_false, or_false] at hkn
      omega
    exact hloose

lemma stopBeforeLoose_stop (h : u.IsPiece t) (hs : u.Holds start) (hlt : start < u.stop) (hle : u.stop ≤ next)
    (hstop : stopBeforeLoose t start next = .ok u.stop)
    (hlast : u.stop.offset ≠ 0 → isCommentOrBlank (u.rowChars u.stop.row) = true →
      start.row < u.stop.row ∧ isContinued (u.rowChars (u.stop.row - 1)) = true) :
    stopBeforeLoose u start u.stop = .ok u.stop := by
  simp only [stopBeforeLoose, bind_eq_ok, pure_eq_ok]
  by_cases h0 : u.stop.offset = 0
  · refine ⟨_, beforeLastComment_of_ne (.inl h0), ?_⟩
    rw [if_pos h0]
    obtain ⟨row, hrow⟩ : ∃ row, u.stop = ⟨row + 1, 0⟩ := by
      have := Position.lt_def.mp hlt
      exact ⟨u.stop.row - 1, by rw [← h0, Nat.sub_add_cancel (by omega)]⟩
    rw [hrow] at hstop hle ⊢
    rw [looseStart, if_neg]
    rintro ⟨hstart, hloose⟩
    rw [isLoose_piece h hs hstart (.inl (by rw [hrow]; exact Nat.lt_succ_self row)),
      not_isLoose_of_stopBeforeLoose hstop hle hstart] at hloose
    cases hloose
  · refine ⟨u.stop, ?_, if_neg h0⟩
    rw [beforeLastComment]
    by_cases hquiet : isCommentOrBlank (u.rowChars u.stop.row) = true
    · obtain ⟨hrow, hcont⟩ := hlast h0 hquiet
      rw [if_pos ⟨h0, rfl, hquiet⟩, check, if_pos hrow, if_pos hcont]
      rfl
    · rw [if_neg fun h => hquiet h.2.2]

lemma isSettled_of_piece (h : u.IsPiece t) (hs : u.Holds s.start) (hstop : statementStop t s next = .ok stop)
    (hnext : next ≤ t.stop) (hle : stop ≤ u.stop) (hset : IsSettled t s.stop) : IsSettled u s.stop := by
  rcases statementStop_eq_ok hstop with ⟨e, he, -, -, rfl⟩ | ⟨hnot, -⟩
  · obtain ⟨hse, hen, -⟩ := checks_of_statementStop hstop e he
    have hfirst := Position.le_trans hs.hasPlace.start_le (Position.le_of_lt hse)
    rw [he] at hset ⊢
    exact (isSettled_piece h hfirst (Position.le_trans hen hnext) hle).2.mpr hset
  · exact absurd hset hnot

lemma keeps_of_statementStop (h : statementStop u s next = .ok stop) (hnext : stop = u.stop → next = u.stop) :
    Keeps u s stop := by
  refine ⟨fun hset e he => ?_, ?_⟩
  · rcases statementStop_eq_ok h with ⟨e', he', -, -, rfl⟩ | ⟨hnot, -⟩
    · obtain rfl := Option.some.inj (he'.symm.trans he)
      rfl
    · exact absurd hset hnot
  · rintro rfl
    obtain rfl := hnext rfl
    refine ⟨fun e he => (checks_of_statementStop h e he).2.1, fun hnot hoff hquiet => ?_⟩
    rcases statementStop_eq_ok h with ⟨_, _, hset, -⟩ | ⟨-, hloose⟩
    · exact absurd hset hnot
    · simp only [stopBeforeLoose, beforeLastComment, hoff, hquiet, ne_eq, not_false_eq_true, and_self, if_true,
        bind_eq_ok, check_eq_ok, pure_eq_ok] at hloose
      obtain ⟨_, ⟨_, hrow, rfl⟩, hloose⟩ := hloose
      refine ⟨hrow, ?_⟩
      by_contra hcont
      rw [if_neg hcont, if_pos rfl] at hloose
      exact hoff (hloose ▸ rfl)

section Piece

variable {next' : Position} (h : u.IsPiece t) (hs : u.Holds s.start) (hstop : statementStop t s next = .ok stop)
  (hlt : s.start < stop) (hle : stop ≤ next) (hnext : next ≤ t.stop)
  (hcase : (stop < u.stop ∧ next' = next ∧ next ≤ u.stop) ∨ (stop = u.stop ∧ next' = u.stop))

include h hs hstop hlt hle hnext hcase

lemma statementStop_of_keeps (hkeeps : Keeps u s stop) : statementStop u s next' = .ok stop := by
  obtain ⟨hset, hlast⟩ := hkeeps
  have hchecks : ∀ e ∈ s.stop, s.start < e ∧ e ≤ next' ∧ e.offset ≠ 0 := by
    intro e he
    obtain ⟨hse, hen, hoff⟩ := checks_of_statementStop hstop e he
    refine ⟨hse, ?_, hoff⟩
    rcases hcase with ⟨-, rfl, -⟩ | ⟨rfl, rfl⟩
    · exact hen
    · exact (hlast rfl).1 e he
  by_cases hu : IsSettled u s.stop
  · obtain ⟨e, he, -⟩ := id hu
    rw [statementStop_of_settled he (hchecks e he) hu, hset hu e he]
  · have hle' : stop ≤ u.stop := hcase.elim (fun h => Position.le_of_lt h.1) fun h => Position.le_of_eq h.1
    have hloose : stopBeforeLoose t s.start next = .ok stop := by
      rcases statementStop_eq_ok hstop with ⟨e, he, hset, -⟩ | ⟨-, hloose⟩
      · exact absurd (isSettled_of_piece h hs hstop hnext hle' hset) hu
      · exact hloose
    rw [statementStop_of_not_settled hchecks hu]
    rcases hcase with ⟨hlt', rfl, hnext'⟩ | ⟨rfl, rfl⟩
    · exact stopBeforeLoose_piece h hs hnext' hlt' hloose
    · exact stopBeforeLoose_stop h hs hlt hle hloose ((hlast rfl).2 hu)

lemma statementStop_piece : statementStop u s next' = .ok stop ↔ Keeps u s stop := by
  refine ⟨fun hu => keeps_of_statementStop hu fun heq => ?_,
    statementStop_of_keeps h hs hstop hlt hle hnext hcase⟩
  rcases hcase with ⟨hlt', -⟩ | ⟨-, hnext'⟩
  · exact absurd heq (Position.ne_of_lt hlt')
  · exact hnext'

end Piece

lemma hasPlace_of_statementStop (hstart : t.HasPlace s.start) (hnext : t.HasPlace next)
    (h : statementStop t s next = .ok stop) (hlt : s.start < stop) (hle : stop ≤ next) : t.HasPlace stop := by
  have hrow : stop.offset = 0 → t.HasPlace stop := by
    intro h0
    have hfirst := Position.row_le hstart.start_le
    have hlast := Position.row_le (Position.le_trans hle hnext.le_stop)
    have heq : stop = ⟨stop.row, 0⟩ := by rw [← h0]
    rw [heq]
    refine t.hasPlace_rowStart ?_ hlast
    rw [Position.lt_def] at hlt
    omega
  rcases statementStop_eq_ok h with ⟨e, -, -, -, heq⟩ | ⟨-, hloose⟩
  · simp only [min] at heq
    split_ifs at heq
    · exact heq ▸ t.hasPlace_stop
    · exact hrow (by rw [heq])
  · rcases (stopBeforeLoose_eq_ok hloose).1 with rfl | h0
    · exact hnext
    · exact hrow h0

end Stops

section Runs

variable {i k d : Nat} {spans : List Span} {cs front : List Chunk}

inductive Carve (t : Text) : Nat → List Span → Position → List Chunk → Position → Prop
  | one {i : Nat} {s : Span} {next stop : Position} : s.start < next → statementStop t s next = .ok stop →
      s.start < stop → stop ≤ next → Carve t i [s] next [⟨some i, t.slice s.start stop⟩] stop
  | cons {i : Nat} {s s' : Span} {rest : List Span} {next stop last : Position} {cs : List Chunk} :
      s.start < s'.start → statementStop t s s'.start = .ok stop → s.start < stop → stop ≤ s'.start →
      Carve t (i + 1) (s' :: rest) next cs last →
      Carve t i (s :: s' :: rest) next (⟨some i, t.slice s.start stop⟩ :: (gap t stop s'.start ++ cs)) last

lemma gap_self (t : Text) (a : Position) : gap t a a = [] := if_pos rfl

lemma gap_piece (h : u.IsPiece t) {a b : Position} (hfirst : u.start ≤ a) (hab : a ≤ b) (hlast : b ≤ u.stop) :
    gap u a b = gap t a b := by
  rw [gap, gap, h.slice_eq hfirst hab hlast]

namespace Carve

lemma start_lt (h : Carve t i (s :: spans) next front stop) : s.start < stop := by
  generalize hs : s :: spans = all at h
  induction h generalizing s spans with
  | one _ _ hlt _ =>
    obtain ⟨rfl, -⟩ := List.cons.inj hs
    exact hlt
  | cons hlt _ _ _ _ ih =>
    obtain ⟨rfl, -⟩ := List.cons.inj hs
    exact Position.lt_of_le_of_lt (Position.le_of_lt hlt) (ih rfl)

lemma mem_range (h : Carve t i (s :: spans) next front stop) :
    ∀ x ∈ s :: spans, s.start ≤ x.start ∧ x.start < stop := by
  generalize hs : s :: spans = all at h
  induction h generalizing s spans with
  | one _ _ hlt _ =>
    obtain ⟨rfl, -⟩ := List.cons.inj hs
    rw [List.forall_mem_singleton]
    exact ⟨Position.le_refl _, hlt⟩
  | cons hlt _ _ _ hrest ih =>
    obtain ⟨rfl, -⟩ := List.cons.inj hs
    refine List.forall_mem_cons.mpr ⟨⟨Position.le_refl _, ?_⟩, fun x hx => ?_⟩
    · exact Position.lt_of_le_of_lt (Position.le_of_lt hlt) hrest.start_lt
    · obtain ⟨hle, hlast⟩ := ih rfl x hx
      exact ⟨Position.le_trans (Position.le_of_lt hlt) hle, hlast⟩

lemma nodes (h : Carve t i spans next front stop) : front.filterMap Chunk.node = List.range' i spans.length := by
  induction h with
  | one => rfl
  | cons _ _ _ _ _ ih =>
    rw [List.filterMap_cons, List.filterMap_append, gap_nodes, List.nil_append, ih]
    rfl

lemma cut (h : Carve t i (s :: spans) next front stop) : Text.Cut t s.start stop (front.map Chunk.text) := by
  generalize hs : s :: spans = all at h
  induction h generalizing s spans with
  | one _ _ hlt _ =>
    obtain ⟨rfl, -⟩ := List.cons.inj hs
    exact .one (Position.le_of_lt hlt)
  | cons _ _ hlt hle _ ih =>
    obtain ⟨rfl, -⟩ := List.cons.inj hs
    rw [List.map_cons, List.map_append]
    exact .cons (Position.le_of_lt hlt) (gap_cut hle (ih rfl))

lemma stop_le (h : Carve t i spans next front stop) : stop ≤ next := by
  induction h with
  | one _ _ _ hle => exact hle
  | cons _ _ _ _ _ ih => exact ih

lemma hasPlace_stop (h : Carve t i spans next front stop) (hnext : t.HasPlace next)
    (hs : ∀ s ∈ spans, t.HasPlace s.start) : t.HasPlace stop := by
  induction h with
  | one _ hstop hlt hle => exact hasPlace_of_statementStop (hs _ List.mem_cons_self) hnext hstop hlt hle
  | cons _ _ _ _ _ ih => exact ih hnext fun s hs' => hs s (List.mem_cons_of_mem _ hs')

lemma index_le {j : Nat} {x : Text} (h : Carve t i spans next front stop) (hc : ⟨some j, x⟩ ∈ front) : i ≤ j := by
  induction h with
  | one =>
    obtain ⟨hj, -⟩ := Chunk.mk.inj (List.mem_singleton.mp hc)
    exact Nat.le_of_eq (Option.some.inj hj).symm
  | cons _ _ _ _ _ ih =>
    rcases List.mem_cons.mp hc with heq | hc
    · exact Nat.le_of_eq (Option.some.inj (Chunk.mk.inj heq).1).symm
    · exact Nat.le_of_succ_le (ih ((List.mem_append.mp hc).resolve_left not_mem_gap))

end Carve

lemma chunksFrom_append {rest : List Span} (hne : spans ≠ []) : chunksFrom t i (spans ++ rest) = .ok cs ↔
    ∃ front stop more, Carve t i spans (nextStart t rest) front stop ∧
      chunksFrom t (i + spans.length) rest = .ok more ∧ cs = front ++ (gap t stop (nextStart t rest) ++ more) := by
  induction spans generalizing i cs with
  | nil => exact absurd rfl hne
  | cons s spans ih =>
    rw [List.cons_append, chunksFrom_cons]
    cases spans with
    | nil =>
      constructor
      · rintro ⟨stop, more, hlt, hstop, hstart, hle, hmore, rfl⟩
        exact ⟨_, stop, more, .one hlt hstop hstart hle, hmore, rfl⟩
      · rintro ⟨front, stop, more, hcarve, hmore, rfl⟩
        cases hcarve with
        | one hlt hstop hstart hle => exact ⟨stop, more, hlt, hstop, hstart, hle, hmore, rfl⟩
    | cons s' spans =>
      have hlen : i + 1 + (s' :: spans).length = i + (s :: s' :: spans).length := by
        simp only [List.length_cons]
        omega
      simp only [ih (List.cons_ne_nil s' spans), hlen]
      constructor
      · rintro ⟨stop, more, hlt, hstop, hstart, hle, ⟨front, last, rest', hcarve, hrest, rfl⟩, rfl⟩
        refine ⟨_, last, rest', .cons hlt hstop hstart hle hcarve, hrest, ?_⟩
        simp only [nextStart, List.cons_append, List.append_assoc]
      · rintro ⟨front, last, rest', hcarve, hrest, rfl⟩
        cases hcarve with
        | cons hlt hstop hstart hle hcarve =>
          refine ⟨_, _, hlt, hstop, hstart, hle, ⟨_, last, rest', hcarve, hrest, rfl⟩, ?_⟩
          simp only [nextStart, List.cons_append, List.append_assoc]

def Chunk.lower (d : Nat) (c : Chunk) : Chunk := ⟨c.node.map (fun j => j - d), c.text⟩

lemma lower_some (h : k + d = i) (x : Text) : Chunk.lower d ⟨some i, x⟩ = ⟨some k, x⟩ := by
  rw [Chunk.lower, Option.map_some, ← h, Nat.add_sub_cancel]

lemma map_lower_gap (a b : Position) : (gap t a b).map (Chunk.lower d) = gap t a b := by
  rw [gap]
  split_ifs <;> rfl

lemma stop_slice_of_statementStop (hstart : t.HasPlace s.start) (hnext : t.HasPlace next)
    (h : statementStop t s next = .ok stop) (hlt : s.start < stop) (hle : stop ≤ next) :
    (t.slice s.start stop).stop = stop := by
  rw [Text.slice_stop t (Position.le_of_lt hlt)]
  exact (hasPlace_of_statementStop hstart hnext h hlt hle).nearest_eq

lemma Carve.piece (hc : Carve t (k + d) spans next front stop) (h : u.IsPiece t)
    (hs : ∀ s ∈ spans, t.HasPlace s.start ∧ u.Holds s.start) (hnext : t.HasPlace next)
    (hcase : (stop < u.stop ∧ next = u.stop) ∨ stop = u.stop)
    (hkeeps : ∀ j x, ⟨some (k + d + j), x⟩ ∈ front → ∀ s ∈ spans[j]?, Keeps u s x.stop) :
    Carve u k spans u.stop (front.map (Chunk.lower d)) stop := by
  generalize hi : k + d = i at hc hkeeps
  induction hc generalizing k with
  | @one i s next stop hlt hstop hstart hle =>
    obtain ⟨hplace, hhold⟩ := hs s List.mem_cons_self
    have hkeep := hkeeps 0 _ List.mem_cons_self s rfl
    rw [stop_slice_of_statementStop hplace hnext hstop hstart hle] at hkeep
    have hle' : stop ≤ u.stop := hcase.elim (fun h => Position.le_of_lt h.1) Position.le_of_eq
    rw [List.map_singleton, lower_some hi,
      ← h.slice_eq hhold.hasPlace.start_le (Position.le_of_lt hstart) hle']
    refine .one (Position.lt_of_lt_of_le hstart hle') ?_ hstart hle'
    apply (statementStop_piece h hhold hstop hstart hle hnext.le_stop ?_).mpr hkeep
    rcases hcase with ⟨hlt', rfl⟩ | hstop'
    · exact .inl ⟨hlt', rfl, Position.le_refl _⟩
    · exact .inr ⟨hstop', rfl⟩
  | @cons i s s' rest next stop last cs hlt hstop hstart hle hrest ih =>
    obtain ⟨⟨hplace, hhold⟩, hs'⟩ := List.forall_mem_cons.mp hs
    obtain ⟨hplace', hhold'⟩ := hs' s' List.mem_cons_self
    have hlast : last ≤ u.stop := hcase.elim (fun h => Position.le_of_lt h.1) Position.le_of_eq
    have hnext' : s'.start < u.stop := Position.lt_of_lt_of_le hrest.start_lt hlast
    have hlt' : stop < u.stop := Position.lt_of_le_of_lt hle hnext'
    have hfirst := hhold.hasPlace.start_le
    have hkeep := hkeeps 0 _ List.mem_cons_self s rfl
    rw [stop_slice_of_statementStop hplace hplace' hstop hstart hle] at hkeep
    rw [List.map_cons, List.map_append, lower_some hi, map_lower_gap,
      ← h.slice_eq hfirst (Position.le_of_lt hstart) (Position.le_of_lt hlt'),
      ← gap_piece h (Position.le_trans hfirst (Position.le_of_lt hstart)) hle (Position.le_of_lt hnext')]
    refine .cons hlt ?_ hstart hle (ih hs' hnext hcase (by omega) fun j x hx s'' hs'' => ?_)
    · apply (statementStop_piece h hhold hstop hstart hle hplace'.le_stop ?_).mpr hkeep
      exact .inl ⟨hlt', rfl, Position.le_of_lt hnext'⟩
    · refine hkeeps (j + 1) x ?_ s'' hs''
      rw [← Nat.add_assoc, Nat.add_right_comm]
      exact List.mem_cons_of_mem _ (List.mem_append_right _ hx)

lemma Carve.keeps {front' : List Chunk} {stop' b : Position} (hc : Carve t i spans next front stop)
    (hc' : Carve u k spans u.stop front' stop') (h : u.IsPiece t)
    (hs : ∀ s ∈ spans, t.HasPlace s.start ∧ u.Holds s.start) (hnext : t.HasPlace next)
    (hcase : (stop < u.stop ∧ next = u.stop) ∨ stop = u.stop)
    (heq : (front' ++ gap u stop' u.stop).map Chunk.text = (front ++ gap t stop b).map Chunk.text) :
    ∀ j x, ⟨some (i + j), x⟩ ∈ front → ∀ s ∈ spans[j]?, Keeps u s x.stop := by
  induction hc generalizing k front' with
  | @one i s next stop hlt hstop hstart hle =>
    obtain ⟨hplace, hhold⟩ := hs s List.mem_cons_self
    cases hc' with
    | one hlt' hstop' hstart' hle' =>
      have hx := stop_slice_of_statementStop hplace hnext hstop hstart hle
      have hx' := stop_slice_of_statementStop hhold.hasPlace u.hasPlace_stop hstop' hstart' hle'
      obtain ⟨hhead, -⟩ := List.cons.inj heq
      obtain rfl : stop' = stop := hx'.symm.trans ((congrArg Text.stop hhead).trans hx)
      intro j x hmem s' hs'
      obtain ⟨hj, rfl⟩ := Chunk.mk.inj (List.mem_singleton.mp hmem)
      obtain rfl : j = 0 := by simpa using hj
      obtain rfl : s = s' := by simpa using hs'
      rw [hx]
      apply (statementStop_piece h hhold hstop hstart hle hnext.le_stop ?_).mp hstop'
      rcases hcase with ⟨hlt', rfl⟩ | hstop'
      · exact .inl ⟨hlt', rfl, Position.le_refl _⟩
      · exact .inr ⟨hstop', rfl⟩
  | @cons i s s' rest next stop last cs hlt hstop hstart hle hrest ih =>
    obtain ⟨⟨hplace, hhold⟩, hs'⟩ := List.forall_mem_cons.mp hs
    obtain ⟨hplace', hhold'⟩ := hs' s' List.mem_cons_self
    cases hc' with
    | cons hlt' hstop' hstart' hle' hrest' =>
      have hx := stop_slice_of_statementStop hplace hplace' hstop hstart hle
      have hx' := stop_slice_of_statementStop hhold.hasPlace hhold'.hasPlace hstop' hstart' hle'
      simp only [List.cons_append, List.append_assoc, List.map_cons, List.map_append, List.cons.injEq] at heq
      obtain ⟨hhead, htail⟩ := heq
      obtain rfl := hx'.symm.trans ((congrArg Text.stop hhead).trans hx)
      have hlast : last ≤ u.stop := hcase.elim (fun h => Position.le_of_lt h.1) Position.le_of_eq
      have hnext' : s'.start < u.stop := Position.lt_of_lt_of_le hrest.start_lt hlast
      have hafter := Position.le_trans hhold.hasPlace.start_le (Position.le_of_lt hstart)
      rw [gap_piece h hafter hle (Position.le_of_lt hnext'), List.append_cancel_left_eq, ← List.map_append,
        ← List.map_append] at htail
      have hkeeps := ih hrest' hs' hnext hcase htail
      intro j x hmem s'' hs''
      rcases List.mem_cons.mp hmem with hhead | hmem
      · obtain ⟨hj, rfl⟩ := Chunk.mk.inj hhead
        obtain rfl : j = 0 := by simpa using hj
        obtain rfl : s = s'' := by simpa using hs''
        rw [hx]
        apply (statementStop_piece h hhold hstop hstart hle hplace'.le_stop ?_).mp hstop'
        exact .inl ⟨Position.lt_of_le_of_lt hle hnext', rfl, Position.le_of_lt hnext'⟩
      · have hmem := (List.mem_append.mp hmem).resolve_left not_mem_gap
        obtain ⟨j, rfl⟩ : ∃ j', j = j' + 1 := by
          have := hrest.index_le hmem
          exact ⟨j - 1, by omega⟩
        refine hkeeps j x ?_ s'' hs''
        rw [Nat.add_assoc, Nat.add_comm 1]
        exact hmem

lemma hasPlace_nextStart (hs : ∀ s ∈ spans, t.Holds s.start) : t.HasPlace (nextStart t spans) := by
  cases spans with
  | nil => exact t.hasPlace_stop
  | cons s rest => exact (hs s List.mem_cons_self).hasPlace

lemma exists_suffix {a : Position} {pre suf : List Chunk} (hs : ∀ s ∈ spans, t.Holds s.start)
    (h : chunksFrom t i spans = .ok cs) (ha : t.HasPlace a) (hle : a ≤ nextStart t spans)
    (heq : gap t a (nextStart t spans) ++ cs = pre ++ suf) : ∃ before rest a' cs', spans = before ++ rest ∧
      chunksFrom t (i + before.length) rest = .ok cs' ∧ t.HasPlace a' ∧ a' ≤ nextStart t rest ∧
      suf = gap t a' (nextStart t rest) ++ cs' := by
  induction pre generalizing i spans cs a with
  | nil => exact ⟨[], spans, a, cs, rfl, h, ha, hle, heq.symm⟩
  | cons c pre ih =>
    by_cases hgap : a = nextStart t spans
    · rw [hgap, gap_self, List.nil_append] at heq
      cases spans with
      | nil =>
        obtain rfl : [] = cs := by simpa [chunksFrom] using h
        cases heq
      | cons s rest =>
        obtain ⟨hstart, hs'⟩ := List.forall_mem_cons.mp hs
        obtain ⟨stop, more, -, hstop, hlt, hle', hmore, rfl⟩ := chunksFrom_cons.mp h
        have hplace := hasPlace_of_statementStop hstart.hasPlace (hasPlace_nextStart hs') hstop hlt hle'
        obtain ⟨before, rest', a', cs', rfl, hcs'⟩ := ih hs' hmore hplace hle' (List.cons.inj heq).2
        refine ⟨s :: before, rest', a', cs', rfl, ?_⟩
        rw [List.length_cons, Nat.add_comm before.length, ← Nat.add_assoc]
        exact hcs'
    · rw [gap, if_neg hgap] at heq
      apply ih hs h (hasPlace_nextStart hs) (Position.le_refl _)
      rw [gap_self]
      exact (List.cons.inj heq).2

lemma exists_front {pre suf : List Chunk} (h : chunksFrom t i spans = .ok (pre ++ suf)) (hne : pre ≠ []) :
    ∃ mid rest front stop b, spans = mid ++ rest ∧ mid ≠ [] ∧ Carve t i mid (nextStart t rest) front stop ∧
      pre = front ++ gap t stop b ∧ (b = stop ∨ b = nextStart t rest) := by
  induction spans generalizing i pre with
  | nil =>
    rw [chunksFrom, Except.ok.injEq, eq_comm, List.append_eq_nil_iff] at h
    exact absurd h.1 hne
  | cons s rest ih =>
    obtain ⟨stop, more, hlt, hstop, hstart, hle, hmore, heq⟩ := chunksFrom_cons.mp h
    obtain ⟨c, pre, rfl⟩ := List.exists_cons_of_ne_nil hne
    obtain ⟨rfl, hrest⟩ := List.cons.inj heq
    have hone : Carve t i [s] (nextStart t rest) [⟨some i, t.slice s.start stop⟩] stop := .one hlt hstop hstart hle
    rcases List.append_eq_append_iff.mp hrest with ⟨w, hgap, -⟩ | ⟨w, rfl, hw⟩
    · -- what is taken ends in what lies behind the first statement
      have hpre : pre = [] ∨ pre = gap t stop (nextStart t rest) := by
        rw [gap] at hgap ⊢
        split_ifs at hgap ⊢
        · exact .inl (List.append_eq_nil_iff.mp hgap.symm).1
        · rcases List.append_eq_singleton_iff.mp hgap.symm with ⟨h, -⟩ | ⟨h, -⟩
          · exact .inl h
          · exact .inr h
      rcases hpre with rfl | rfl
      · exact ⟨[s], rest, _, stop, stop, rfl, by simp, hone, by simp [gap_self], .inl rfl⟩
      · exact ⟨[s], rest, _, stop, _, rfl, by simp, hone, rfl, .inr rfl⟩
    · by_cases hnil : w = []
      · subst hnil
        exact ⟨[s], rest, _, stop, _, rfl, by simp, hone, by simp, .inr rfl⟩
      · obtain ⟨mid, rest', front, last, b, rfl, hmid, hcarve, rfl, hb⟩ := ih (hw ▸ hmore) hnil
        obtain ⟨s', mid, rfl⟩ := List.exists_cons_of_ne_nil hmid
        refine ⟨s :: s' :: mid, rest', _, last, b, rfl, by simp, .cons hlt hstop hstart hle hcarve, ?_, hb⟩
        simp [nextStart]

lemma cut_gap {a b c : Position} {ts : List Text} (h : Text.Cut t a b ts) (hbc : b ≤ c) :
    Text.Cut t a c (ts ++ (gap t b c).map Chunk.text) := by
  by_cases hgap : b = c
  · rw [hgap, gap_self, List.map_nil, List.append_nil]
    exact hgap ▸ h
  · rw [gap, if_neg hgap]
    induction h with
    | one hab => exact .cons hab (.one hbc)
    | cons hab _ ih => exact .cons hab (ih hbc hgap)

lemma isPiece_slice {a b : Position} (ha : t.HasPlace a) (hb : t.HasPlace b) (hab : a ≤ b) :
    (t.slice a b).IsPiece t ∧ (t.slice a b).start = a ∧ (t.slice a b).stop = b := by
  have hstart : (t.slice a b).start = a := by rw [Text.slice_start, ha.nearest_eq]
  have hstop : (t.slice a b).stop = b := by rw [Text.slice_stop t hab, hb.nearest_eq]
  exact ⟨⟨by rw [hstart, hstop], by rwa [hstart], by rwa [hstop]⟩, hstart, hstop⟩

lemma chunks_eq_carve {cs : List Chunk} : chunks t (s :: spans) = .ok cs ↔ t.start ≤ s.start ∧
    ∃ front stop, Carve t 0 (s :: spans) t.stop front stop ∧
      cs = gap t t.start s.start ++ (front ++ gap t stop t.stop) := by
  have hfrom : ∀ cs, chunksFrom t 0 (s :: spans) = .ok cs ↔ ∃ front stop,
      Carve t 0 (s :: spans) t.stop front stop ∧ cs = front ++ gap t stop t.stop := by
    intro cs
    rw [← List.append_nil (s :: spans), chunksFrom_append (List.cons_ne_nil s spans)]
    simp [chunksFrom, nextStart]
  constructor
  · intro h
    obtain ⟨more, hle, hmore, rfl⟩ := chunks_cons h
    obtain ⟨front, stop, hcarve, rfl⟩ := (hfrom more).mp hmore
    exact ⟨hle, front, stop, hcarve, rfl⟩
  · rintro ⟨hle, front, stop, hcarve, rfl⟩
    obtain ⟨last, hlast⟩ : ∃ last, (s :: spans).getLast? = some last :=
      ⟨_, List.getLast?_eq_some_getLast (by simp)⟩
    have hbefore : last.start < t.stop :=
      Position.lt_of_lt_of_le (hcarve.mem_range last (List.mem_of_getLast? hlast)).2 hcarve.stop_le
    simp only [chunks, hlast, bind_eq_ok, check_eq_ok, pure_eq_ok]
    exact ⟨(), hle, (), hbefore, _, (hfrom _).mpr ⟨front, stop, hcarve, rfl⟩, rfl⟩

lemma length_gap_le (a b : Position) : (gap t a b).length ≤ 1 := by
  rw [gap]
  split_ifs <;> simp

lemma exists_run {pre run post : List Chunk} (h : chunks t spans = .ok (pre ++ (run ++ post)))
    (hs : ∀ s ∈ spans, t.Holds s.start) (hlen : 2 ≤ run.length) : ∃ before first mid rest front a stop b,
      spans = before ++ (first :: mid ++ rest) ∧ t.HasPlace a ∧ a ≤ first.start ∧
      Carve t before.length (first :: mid) (nextStart t rest) front stop ∧ (b = stop ∨ b = nextStart t rest) ∧
      run = gap t a first.start ++ (front ++ gap t stop b) := by
  cases spans with
  | nil =>
    have hone : [⟨none, t⟩] = pre ++ (run ++ post) := by simpa [chunks] using h
    have := congrArg List.length hone
    simp only [List.length_append, List.length_singleton] at this
    omega
  | cons s spans =>
    obtain ⟨more, hle, hmore, heq⟩ := chunks_cons h
    obtain ⟨before, rest, a, cs, hspans, hcs, ha, hle, hsuf⟩ :=
      exists_suffix hs hmore (t.hasPlace_point 0) hle heq.symm
    rcases List.append_eq_append_iff.mp hsuf with ⟨w, hgap, -⟩ | ⟨w, rfl, hw⟩
    · have := congrArg List.length hgap
      have := length_gap_le (t := t) a (nextStart t rest)
      simp only [List.length_append] at *
      omega
    · have hne : w ≠ [] := by
        rintro rfl
        have := length_gap_le (t := t) a (nextStart t rest)
        simp only [List.append_nil] at hlen
        omega
      rw [Nat.zero_add, hw] at hcs
      obtain ⟨mid, rest, front, stop, b, rfl, hmid, hcarve, rfl, hb⟩ := exists_front hcs hne
      obtain ⟨first, mid, rfl⟩ := List.exists_cons_of_ne_nil hmid
      exact ⟨before, first, mid, rest, front, a, stop, b, hspans, ha, hle, hcarve, hb, rfl⟩

lemma chunks_of_run {pre run post : List Chunk} (h : chunks t spans = .ok (pre ++ (run ++ post)))
    (hs : ∀ s ∈ spans, t.Holds s.start) (hlen : 2 ≤ run.length) : ∃ before mid rest u,
      spans = before ++ (mid ++ rest) ∧ run.filterMap Chunk.node = List.range' before.length mid.length ∧
      Text.concat? (run.map Chunk.text) = some u ∧
      ((∀ j x, ⟨some (before.length + j), x⟩ ∈ run → ∀ s ∈ mid[j]?, Keeps u s x.stop) →
        chunks u mid = .ok (run.map (Chunk.lower before.length))) ∧
      ∀ cs, chunks u mid = .ok cs → cs.map Chunk.text = run.map Chunk.text →
        ∀ j x, ⟨some (before.length + j), x⟩ ∈ run → ∀ s ∈ mid[j]?, Keeps u s x.stop := by
  obtain ⟨before, first, mid, rest, front, a, stop, b, rfl, ha, hle, hcarve, hb, rfl⟩ := exists_run h hs hlen
  have hnext : t.HasPlace (nextStart t rest) :=
    hasPlace_nextStart fun s hs' => hs s (List.mem_append_right _ (List.mem_append_right _ hs'))
  have hstop : stop ≤ b := by
    rcases hb with rfl | rfl
    · exact Position.le_refl _
    · exact hcarve.stop_le
  have hholds : ∀ s ∈ first :: mid, t.Holds s.start := fun s hs' =>
    hs s (List.mem_append_right _ (List.mem_append_left _ hs'))
  have hplace : t.HasPlace b := by
    rcases hb with rfl | rfl
    · exact (hcarve.hasPlace_stop hnext fun s hs' => (hholds s hs').hasPlace)
    · exact hnext
  have hab : a ≤ b := Position.le_trans hle (Position.le_trans (Position.le_of_lt hcarve.start_lt) hstop)
  obtain ⟨hpiece, hstart, hend⟩ := isPiece_slice ha hplace hab
  have hcut : Text.Cut t a b ((gap t a first.start ++ (front ++ gap t stop b)).map Chunk.text) := by
    rw [List.map_append, List.map_append]
    exact gap_cut hle (cut_gap hcarve.cut hstop)
  have hconcat := hcut.concat?_eq
  generalize t.slice a b = u at hpiece hstart hend hconcat
  subst hstart hend
  have hfirst : first.start ≤ u.stop := Position.le_trans (Position.le_of_lt hcarve.start_lt) hstop
  have hlast : u.start ≤ stop := Position.le_trans hle (Position.le_of_lt hcarve.start_lt)
  have hs' : ∀ s ∈ first :: mid, t.HasPlace s.start ∧ u.Holds s.start := by
    intro s hs'
    obtain ⟨hge, hlt⟩ := hcarve.mem_range s hs'
    exact ⟨(hholds s hs').hasPlace, hpiece.holds (hholds s hs') (Position.le_trans hle hge)
      (Position.lt_of_lt_of_le hlt hstop)⟩
  have hcase : (stop < u.stop ∧ nextStart t rest = u.stop) ∨ stop = u.stop := by
    rcases hb with hb | hb
    · exact .inr hb.symm
    · exact (Position.lt_or_eq_of_le hstop).imp_left fun hlt => ⟨hlt, hb.symm⟩
  have hgaps : gap u u.start first.start = gap t u.start first.start ∧ gap u stop u.stop = gap t stop u.stop :=
    ⟨gap_piece hpiece (Position.le_refl _) hle hfirst, gap_piece hpiece hlast hstop (Position.le_refl _)⟩
  have hmem : ∀ {j : Nat} {x : Text}, ⟨some j, x⟩ ∈ gap t u.start first.start ++ (front ++ gap t stop u.stop) ↔
      ⟨some j, x⟩ ∈ front := by
    simp [not_mem_gap]
  refine ⟨before, first :: mid, rest, u, rfl, ?_, hconcat, fun hkeeps => ?_, ?_⟩
  · rw [List.filterMap_append, List.filterMap_append, gap_nodes, gap_nodes, List.nil_append, List.append_nil,
      hcarve.nodes]
  · rw [← Nat.zero_add before.length] at hcarve
    have hcarve' := hcarve.piece hpiece hs' hnext hcase fun j x hx =>
      hkeeps j x (hmem.mpr (by rwa [Nat.zero_add] at hx))
    refine chunks_eq_carve.mpr ⟨hle, _, stop, hcarve', ?_⟩
    rw [List.map_append, List.map_append, map_lower_gap, map_lower_gap, hgaps.1, hgaps.2]
  · intro cs hcs htexts j x hx
    obtain ⟨-, front', stop', hcarve', rfl⟩ := chunks_eq_carve.mp hcs
    simp only [hgaps.1, List.map_append, List.append_cancel_left_eq] at htexts
    rw [← List.map_append, ← List.map_append] at htexts
    exact hcarve.keeps hcarve' hpiece hs' hnext hcase htexts j x (hmem.mp hx)

end Runs

end SourceBlocks.Split
