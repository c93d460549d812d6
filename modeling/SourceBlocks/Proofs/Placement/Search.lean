import SourceBlocks.Placement.Search
import SourceBlocks.Proofs.Text.Slice

/-! The search for a literal as a list of pairs that are tried in turn. The first pair that reads as the
value is the answer, and its places stand in the text. -/

namespace SourceBlocks

namespace Placement

variable {t : Text} {s : Setting} {value : List Char}

lemma openingsFrom_lt {index letters : Nat} {row : List Char} {q : Char × Nat}
    (h : q ∈ openingsFrom index letters row) : q.2 < index + row.length := by
  induction row generalizing index letters with
  | nil => simp [openingsFrom] at h
  | cons c r ih =>
    rw [openingsFrom] at h
    simp only [List.length_cons]
    split_ifs at h
    · rcases List.mem_cons.mp h with rfl | h
      · dsimp only
        omega
      · have := ih h
        omega
    all_goals
      have := ih h
      omega

lemma closingsFrom_bounds {index : Nat} {row : List Char} {q : Char × Nat}
    (h : q ∈ closingsFrom index row) : index < q.2 ∧ q.2 ≤ index + row.length := by
  induction row generalizing index with
  | nil => simp [closingsFrom] at h
  | cons c r ih =>
    rw [closingsFrom] at h
    simp only [List.length_cons]
    split_ifs at h
    · rcases List.mem_cons.mp h with rfl | h
      · dsimp only
        omega
      · have := ih h
        omega
    · have := ih h
      omega

lemma closingsFrom_ne_nil {index : Nat} {row : List Char} {c : Char} (hc : c ∈ row) (hq : isQuote c = true) :
    closingsFrom index row ≠ [] := by
  induction row generalizing index with
  | nil => simp at hc
  | cons x r ih =>
    rw [closingsFrom]
    split_ifs with hx
    · simp
    · rcases List.mem_cons.mp hc with rfl | hc
      · exact absurd hq hx
      · exact ih hc

lemma hasPlace_of_mem_placed {row : Nat} {qs : List (Char × Nat)} {q : QuotePlace} (hq : q ∈ placed t row qs)
    (hle : ∀ x ∈ qs, x.2 ≤ (t.rowChars row).length) (hnil : t.rowChars row = [] → qs = []) :
    t.HasPlace q.place := by
  obtain ⟨x, hx, rfl⟩ := List.mem_map.mp hq
  exact Text.hasPlace_of_le (fun h => by simp [hnil h] at hx) (hle x hx)

lemma row_of_mem_placed {row : Nat} {qs : List (Char × Nat)} {q : QuotePlace} (hq : q ∈ placed t row qs) :
    q.place.row = row := by
  obtain ⟨x, -, rfl⟩ := List.mem_map.mp hq
  rfl

lemma mem_openPlaces {floor : Position} {last : Nat} {q : QuotePlace} (h : q ∈ openPlaces t floor last) :
    floor ≤ q.place ∧ q.place.row ≤ last ∧ t.HasPlace q.place := by
  simp only [openPlaces, List.mem_filter, List.mem_flatMap, decide_eq_true_eq] at h
  obtain ⟨⟨row, hrow, hq⟩, hfloor⟩ := h
  refine ⟨hfloor, ?_, hasPlace_of_mem_placed hq (fun x hx => ?_) (fun hnil => by rw [hnil]; rfl)⟩
  · rw [row_of_mem_placed hq]
    simp only [rowsFrom, List.mem_range'_1] at hrow
    omega
  · simpa using Nat.le_of_lt (openingsFrom_lt hx)

lemma mem_closePlaces {row : Nat} {q : QuotePlace} (h : q ∈ closePlaces t row) :
    q.place.row = row ∧ q.place.offset ≠ 0 ∧ t.HasPlace q.place := by
  refine ⟨row_of_mem_placed h, ?_, hasPlace_of_mem_placed h (fun x hx => ?_) (fun hnil => by rw [hnil]; rfl)⟩
  · obtain ⟨x, hx, rfl⟩ := List.mem_map.mp h
    have := (closingsFrom_bounds hx).1
    dsimp only
    omega
  · simpa using (closingsFrom_bounds hx).2

lemma closePlaces_ne_nil {row : Nat} {c : Char} (hc : c ∈ t.rowChars row) (hq : isQuote c = true) :
    closePlaces t row ≠ [] := by
  rw [closePlaces, placed, Ne, List.map_eq_nil_iff]
  exact closingsFrom_ne_nil hc hq

lemma mem_pairs {opens closes : List QuotePlace} {e : Tree.Extent} (h : e ∈ pairs opens closes) :
    ∃ o ∈ opens, ∃ c ∈ closes, o.place < c.place ∧ e = ⟨o.place, c.place⟩ := by
  have hall : ∃ b, (b, e) ∈ closes.reverse.flatMap (pairsWith opens) := by
    simp only [pairs, List.mem_append, List.mem_map, List.mem_filter] at h
    rcases h with ⟨⟨b, e'⟩, ⟨h, -⟩, rfl⟩ | ⟨⟨b, e'⟩, ⟨h, -⟩, rfl⟩
    · exact ⟨b, h⟩
    · exact ⟨b, h⟩
  obtain ⟨b, hb⟩ := hall
  obtain ⟨c, hc, hb⟩ := List.mem_flatMap.mp hb
  simp only [pairsWith, List.mem_map, List.mem_filter, decide_eq_true_eq] at hb
  obtain ⟨o, ⟨ho, hlt⟩, he⟩ := hb
  exact ⟨o, ho, c, List.mem_reverse.mp hc, hlt, (Prod.mk.inj he).2.symm⟩

def hopeful (s : Setting) (value : List Char) (opens : List QuotePlace) (row : Nat) : List QuotePlace :=
  opens.filter (fun o =>
    o.place ∈ ((pairs opens (closePlaces s.text row)).filter (isPartial s value)).map Tree.Extent.start)

def attempts (s : Setting) (value : List Char) (opens : List QuotePlace) : List Nat → List Tree.Extent
  | [] => []
  | row :: rows =>
    if closePlaces s.text row = [] then attempts s value opens rows
    else pairs opens (closePlaces s.text row) ++ attempts s value (hopeful s value opens row) rows

lemma pairs_nil (closes : List QuotePlace) : pairs [] closes = [] := by
  simp [pairs, pairsWith]

lemma attempts_nil (rows : List Nat) : attempts s value [] rows = [] := by
  induction rows with
  | nil => rfl
  | cons row rows ih => simp [attempts, hopeful, pairs_nil, ih]

lemma search_eq_ok {isFirst : Bool} {opens : List QuotePlace} {rows : List Nat} {e : Tree.Extent} :
    search s value isFirst opens rows = .ok e ↔
      (isFirst = true → ∀ row ∈ rows.head?, closePlaces s.text row ≠ []) ∧
        (attempts s value opens rows).find? (isMatch s value) = some e := by
  induction rows generalizing isFirst opens with
  | nil => simp [search, attempts]
  | cons row rows ih =>
    simp only [search, attempts, List.head?_cons, Option.mem_some_iff, forall_eq']
    by_cases hclose : closePlaces s.text row = []
    · cases isFirst <;> simp [hclose, ih]
    · simp only [List.isEmpty_iff, hclose, if_false, List.find?_append, ne_eq, not_false_eq_true, implies_true,
        true_and]
      cases hfind : (pairs opens (closePlaces s.text row)).find? (isMatch s value) with
      | some e' => simp
      | none =>
        simp only [Option.none_or, List.map_eq_nil_iff]
        split_ifs with hstarts
        · have hnil : hopeful s value opens row = [] := by
            simp [hopeful, hstarts]
          simp [hnil, attempts_nil]
        · rw [ih]
          simp [hopeful]

lemma mem_attempts {opens : List QuotePlace} {rows : List Nat} {e : Tree.Extent}
    (h : e ∈ attempts s value opens rows) :
    ∃ o ∈ opens, ∃ row ∈ rows, ∃ c ∈ closePlaces s.text row, o.place < c.place ∧ e = ⟨o.place, c.place⟩ := by
  induction rows generalizing opens with
  | nil => simp [attempts] at h
  | cons row rows ih =>
    rw [attempts] at h
    split_ifs at h
    · obtain ⟨o, ho, row', hrow, h⟩ := ih h
      exact ⟨o, ho, row', List.mem_cons_of_mem _ hrow, h⟩
    · rcases List.mem_append.mp h with h | h
      · obtain ⟨o, ho, c, hc, h⟩ := mem_pairs h
        exact ⟨o, ho, row, List.mem_cons_self, c, hc, h⟩
      · obtain ⟨o, ho, row', hrow, h⟩ := ih h
        exact ⟨o, (List.mem_filter.mp ho).1, row', List.mem_cons_of_mem _ hrow, h⟩

def tried (s : Setting) (value : List Char) (floor : Position) (last : Nat) : List Tree.Extent :=
  attempts s value (openPlaces s.text floor last) (rowsFrom last s.text.stop.row)

lemma locate_eq_ok {floor : Position} {last : Nat} {e : Tree.Extent} :
    locate s value floor last = .ok e ↔
      (last ≤ s.text.stop.row → closePlaces s.text last ≠ []) ∧
        (tried s value floor last).find? (isMatch s value) = some e := by
  rw [locate, search_eq_ok, tried]
  have hhead : (∀ row ∈ (rowsFrom last s.text.stop.row).head?, closePlaces s.text row ≠ []) ↔
      (last ≤ s.text.stop.row → closePlaces s.text last ≠ []) := by
    rw [rowsFrom]
    cases hn : s.text.stop.row + 1 - last with
    | zero =>
      simp only [List.range'_zero, List.head?_nil]
      constructor
      · intro _ hle
        omega
      · simp
    | succ n =>
      simp only [List.range'_succ, List.head?_cons, Option.mem_some_iff, forall_eq']
      constructor
      · exact fun h _ => h
      · exact fun h => h (by omega)
  simp only [true_implies, hhead]

lemma search_eq_noQuote {isFirst : Bool} {opens : List QuotePlace} {rows : List Nat}
    (h : search s value isFirst opens rows = .error .noQuote) :
    isFirst = true ∧ ∃ row, rows.head? = some row ∧ closePlaces s.text row = [] := by
  fun_induction search s value isFirst opens rows with
  | case1 => simp at h
  | case2 opens row rows closes hclose => exact ⟨rfl, row, rfl, List.isEmpty_iff.mp hclose⟩
  | case3 _ _ _ _ _ _ _ ih => simpa using ih h
  | case4 => simp at h
  | case5 => simp at h
  | case6 _ _ _ _ _ _ _ _ _ _ ih => simpa using ih h

lemma locate_eq_noQuote {floor : Position} {last : Nat} (h : locate s value floor last = .error .noQuote) :
    closePlaces s.text last = [] := by
  obtain ⟨-, row, hrow, hclose⟩ := search_eq_noQuote h
  simp only [rowsFrom, List.head?_range'] at hrow
  split_ifs at hrow
  rwa [← Option.some.inj hrow] at hclose

structure FoundAt (s : Setting) (floor : Position) (last : Nat) (e : Tree.Extent) : Prop where
  floor_le : floor ≤ e.start
  row_le : e.start.row ≤ last
  lt : e.start < e.stop
  stop_offset : e.stop.offset ≠ 0
  start_place : s.text.HasPlace e.start
  stop_place : s.text.HasPlace e.stop

lemma foundAt_of_tried {floor : Position} {last : Nat} {e : Tree.Extent}
    (h : e ∈ tried s value floor last) : FoundAt s floor last e := by
  obtain ⟨o, ho, row, -, c, hc, hlt, rfl⟩ := mem_attempts h
  obtain ⟨hfloor, hrow, hstart⟩ := mem_openPlaces ho
  obtain ⟨-, hoffset, hstop⟩ := mem_closePlaces hc
  exact ⟨hfloor, hrow, hlt, hoffset, hstart, hstop⟩

lemma foundAt_of_locate {floor : Position} {last : Nat} {e : Tree.Extent}
    (h : locate s value floor last = .ok e) : FoundAt s floor last e :=
  foundAt_of_tried (List.mem_of_find?_eq_some (locate_eq_ok.mp h).2)

end Placement

end SourceBlocks
