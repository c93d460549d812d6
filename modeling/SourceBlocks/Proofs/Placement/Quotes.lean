import Mathlib.Data.List.DropRight
import SourceBlocks.Proofs.Placement.Search

namespace SourceBlocks.Placement

variable {t : Text} {row : List Char} {quote : Char} {index : Nat} {q : Char × Nat}

def IsOpening (row : List Char) (quote : Char) (index : Nat) : Prop := ∃ before letters after,
  row = before ++ letters ++ quote :: after ∧ isQuote quote = true ∧ (∀ c ∈ letters, isLiteralLetter c = true) ∧
    (∀ c ∈ before.getLast?, isLiteralLetter c = false) ∧ index = before.length

def IsClosing (row : List Char) (quote : Char) (index : Nat) : Prop := ∃ before after,
  row = before ++ quote :: after ∧ isQuote quote = true ∧ index = before.length + 1

lemma isLiteralLetter_of_isQuote {c : Char} (h : isQuote c = true) : isLiteralLetter c = false := by
  simp only [isQuote, Bool.or_eq_true, decide_eq_true_eq] at h
  rcases h with rfl | rfl <;> rfl

lemma exists_split_cons {c x : Char} {r : List Char} {P : List Char → Prop} :
    (∃ u v, c :: r = u ++ x :: v ∧ P u) ↔ (c = x ∧ P []) ∨ ∃ u v, r = u ++ x :: v ∧ P (c :: u) := by
  constructor
  · rintro ⟨u, v, heq, hu⟩
    cases u with
    | nil => exact .inl ⟨(List.cons.inj heq).1, hu⟩
    | cons d u =>
      obtain ⟨rfl, rfl⟩ := List.cons.inj heq
      exact .inr ⟨u, v, rfl, hu⟩
  · rintro (⟨rfl, hnil⟩ | ⟨u, v, rfl, hu⟩)
    · exact ⟨[], r, rfl, hnil⟩
    · exact ⟨c :: u, v, rfl, hu⟩

lemma mem_if_isQuote {c : Char} {n : Nat} :
    q ∈ (if isQuote c then [(c, n)] else []) ↔ c = q.1 ∧ isQuote q.1 = true ∧ q.2 = n := by
  obtain ⟨quote, index⟩ := q
  by_cases hquote : isQuote c = true
  · simp only [hquote, if_true, List.mem_singleton, Prod.mk.injEq]
    constructor
    · rintro ⟨rfl, rfl⟩
      exact ⟨rfl, hquote, rfl⟩
    · rintro ⟨rfl, -, rfl⟩
      exact ⟨rfl, rfl⟩
  · simp only [hquote, Bool.false_eq_true, if_false, List.not_mem_nil, false_iff]
    rintro ⟨rfl, hq, -⟩
    exact hquote hq

lemma length_rdropWhile (p : Char → Bool) (l : List Char) :
    (l.rdropWhile p).length = l.length - (l.rtakeWhile p).length := by
  have h := congrArg List.length (List.rdropWhile_append_rtakeWhile (p := p) (l := l))
  rw [List.length_append] at h
  omega

lemma rdropWhile_append {p : Char → Bool} {before letters : List Char} (hletters : ∀ c ∈ letters, p c = true)
    (hbefore : ∀ c ∈ before.getLast?, p c = false) : (before ++ letters).rdropWhile p = before := by
  rw [List.rdropWhile, List.reverse_append, List.dropWhile_append_of_pos (by simpa using hletters)]
  rw [← List.rdropWhile, List.rdropWhile_eq_self_iff]
  intro hne
  simp [hbefore _ (List.getLast?_eq_some_getLast hne)]

lemma openingsFrom_concat (read : List Char) (c : Char) (r : List Char) :
    openingsFrom read.length (read.rtakeWhile isLiteralLetter).length (c :: r) =
      (if isQuote c then [(c, (read.rdropWhile isLiteralLetter).length)] else []) ++
        openingsFrom (read ++ [c]).length ((read ++ [c]).rtakeWhile isLiteralLetter).length r := by
  rw [openingsFrom, length_rdropWhile, List.rtakeWhile_concat]
  by_cases hquote : isQuote c = true
  · simp [hquote, isLiteralLetter_of_isQuote hquote]
  · by_cases hletter : isLiteralLetter c = true <;> simp [hquote, hletter]

lemma mem_openingsFrom (read : List Char) :
    q ∈ openingsFrom read.length (read.rtakeWhile isLiteralLetter).length row ↔
      ∃ u v, row = u ++ q.1 :: v ∧ isQuote q.1 = true ∧ q.2 = ((read ++ u).rdropWhile isLiteralLetter).length := by
  induction row generalizing read with
  | nil => simp [openingsFrom]
  | cons c r ih =>
    rw [openingsFrom_concat, List.mem_append, mem_if_isQuote, ih, exists_split_cons]
    simp only [List.append_assoc, List.singleton_append, List.append_nil]

lemma mem_openings : (quote, index) ∈ openings row ↔ IsOpening row quote index := by
  have hscan : (quote, index) ∈ openings row ↔ _ := mem_openingsFrom []
  simp only [hscan, List.nil_append]
  constructor
  · rintro ⟨u, v, rfl, hquote, rfl⟩
    refine ⟨u.rdropWhile isLiteralLetter, u.rtakeWhile isLiteralLetter, v, ?_, hquote, ?_, ?_, rfl⟩
    · rw [List.rdropWhile_append_rtakeWhile]
    · exact fun c hc => List.mem_rtakeWhile_imp hc
    · intro c hc
      obtain ⟨hne, rfl⟩ := List.mem_getLast?_eq_getLast hc
      simpa using List.rdropWhile_last_not isLiteralLetter u hne
  · rintro ⟨before, letters, after, rfl, hquote, hletters, hbefore, rfl⟩
    exact ⟨before ++ letters, after, rfl, hquote, by rw [rdropWhile_append hletters hbefore]⟩

lemma closingsFrom_cons (index : Nat) (c : Char) (r : List Char) : closingsFrom index (c :: r) =
    (if isQuote c then [(c, index + 1)] else []) ++ closingsFrom (index + 1) r := by
  rw [closingsFrom]
  split_ifs <;> rfl

lemma mem_closingsFrom : q ∈ closingsFrom index row ↔
    ∃ u v, row = u ++ q.1 :: v ∧ isQuote q.1 = true ∧ q.2 = index + u.length + 1 := by
  induction row generalizing index with
  | nil => simp [closingsFrom]
  | cons c r ih =>
    rw [closingsFrom_cons, List.mem_append, mem_if_isQuote, ih, exists_split_cons]
    simp only [List.length_cons, List.length_nil, Nat.add_zero, Nat.add_assoc, Nat.add_comm 1]

lemma mem_closings : (quote, index) ∈ closings row ↔ IsClosing row quote index := by
  simp [closings, mem_closingsFrom, IsClosing]

lemma openingsFrom_ge {letters : Nat} (h : q ∈ openingsFrom index letters row) : index ≤ q.2 + letters := by
  induction row generalizing index letters with
  | nil => simp [openingsFrom] at h
  | cons c r ih =>
    rw [openingsFrom] at h
    split_ifs at h
    · rcases List.mem_cons.mp h with rfl | h
      · dsimp only
        omega
      · have := ih h
        omega
    all_goals
      have := ih h
      omega

lemma pairwise_openingsFrom (index letters : Nat) (row : List Char) :
    (openingsFrom index letters row).Pairwise (fun a b => a.2 < b.2) := by
  induction row generalizing index letters with
  | nil => exact .nil
  | cons c r ih =>
    rw [openingsFrom]
    split_ifs
    · apply List.pairwise_cons.mpr
      refine ⟨fun b hb => ?_, ih _ _⟩
      have := openingsFrom_ge hb
      dsimp only
      omega
    · exact ih _ _
    · exact ih _ _

lemma pairwise_closingsFrom (index : Nat) (row : List Char) :
    (closingsFrom index row).Pairwise (fun a b => a.2 < b.2) := by
  induction row generalizing index with
  | nil => exact .nil
  | cons c r ih =>
    rw [closingsFrom]
    split_ifs
    · exact List.pairwise_cons.mpr ⟨fun b hb => (closingsFrom_bounds hb).1, ih _⟩
    · exact ih _

def OpensAt (t : Text) (o : QuotePlace) : Prop := ∃ i, IsOpening (t.rowChars o.place.row) o.quote i ∧
  o.place.offset = t.rowOffset o.place.row + i

def ClosesAt (t : Text) (c : QuotePlace) : Prop := ∃ i, IsClosing (t.rowChars c.place.row) c.quote i ∧
  c.place.offset = t.rowOffset c.place.row + i

def HasQuote (t : Text) (row : Nat) : Prop := ∃ c ∈ t.rowChars row, isQuote c = true

variable {r : Nat} {o c : QuotePlace}

lemma mem_placed {qs : List (Char × Nat)} : o ∈ placed t r qs ↔
    o.place.row = r ∧ ∃ i, (o.quote, i) ∈ qs ∧ o.place.offset = t.rowOffset o.place.row + i := by
  simp only [placed, List.mem_map]
  constructor
  · rintro ⟨⟨quote, i⟩, hmem, rfl⟩
    exact ⟨rfl, i, hmem, rfl⟩
  · obtain ⟨quote, row, offset⟩ := o
    rintro ⟨rfl, i, hmem, hoffset⟩
    exact ⟨(quote, i), hmem, by rw [← hoffset]⟩

lemma mem_rowsFrom {first last : Nat} : r ∈ rowsFrom first last ↔ first ≤ r ∧ r ≤ last := by
  rw [rowsFrom, List.mem_range'_1]
  omega

lemma pairwise_rowsFrom (first last : Nat) : (rowsFrom first last).Pairwise (· < ·) :=
  List.pairwise_lt_range'

lemma mem_openPlaces_iff {floor : Position} {last : Nat} : o ∈ openPlaces t floor last ↔
    floor ≤ o.place ∧ o.place.row ≤ last ∧ OpensAt t o := by
  simp only [openPlaces, List.mem_filter, List.mem_flatMap, decide_eq_true_eq, mem_placed, mem_rowsFrom]
  constructor
  · rintro ⟨⟨_, ⟨-, hlast⟩, rfl, i, hmem, hoffset⟩, hfloor⟩
    exact ⟨hfloor, hlast, i, mem_openings.mp hmem, hoffset⟩
  · rintro ⟨hfloor, hlast, i, hopen, hoffset⟩
    exact ⟨⟨o.place.row, ⟨Position.row_le hfloor, hlast⟩, rfl, i, mem_openings.mpr hopen, hoffset⟩, hfloor⟩

lemma mem_closePlaces_iff : c ∈ closePlaces t r ↔ c.place.row = r ∧ ClosesAt t c := by
  rw [closePlaces, mem_placed]
  constructor
  · rintro ⟨rfl, i, hmem, hoffset⟩
    exact ⟨rfl, i, mem_closings.mp hmem, hoffset⟩
  · rintro ⟨rfl, i, hclose, hoffset⟩
    exact ⟨rfl, i, mem_closings.mpr hclose, hoffset⟩

lemma closePlaces_ne_nil_iff : closePlaces t r ≠ [] ↔ HasQuote t r := by
  constructor
  · intro hne
    obtain ⟨c, hc⟩ := List.exists_mem_of_ne_nil _ hne
    obtain ⟨rfl, i, ⟨before, after, hrow, hquote, -⟩, -⟩ := mem_closePlaces_iff.mp hc
    exact ⟨c.quote, by simp [hrow], hquote⟩
  · rintro ⟨c, hc, hquote⟩
    exact closePlaces_ne_nil hc hquote

lemma ClosesAt.row_le (h : ClosesAt t c) : c.place.row ≤ t.stop.row :=
  Position.row_le (mem_closePlaces (mem_closePlaces_iff.mpr ⟨rfl, h⟩)).2.2.le_stop

lemma pairwise_placed {qs : List (Char × Nat)} (h : qs.Pairwise (fun a b => a.2 < b.2)) :
    (placed t r qs).Pairwise (fun a b => a.place < b.place) := by
  apply List.Pairwise.map _ _ h
  intro a b hlt
  exact .inr ⟨rfl, Nat.add_lt_add_left hlt _⟩

lemma pairwise_openPlaces (floor : Position) (last : Nat) :
    (openPlaces t floor last).Pairwise (fun a b => a.place < b.place) := by
  apply List.Pairwise.filter
  rw [List.pairwise_flatMap]
  refine ⟨fun row _ => pairwise_placed (pairwise_openingsFrom 0 0 _), ?_⟩
  apply (pairwise_rowsFrom _ _).imp
  intro a b hlt x hx y hy
  rw [← row_of_mem_placed hx, ← row_of_mem_placed hy] at hlt
  exact .inl hlt

lemma pairwise_closePlaces (r : Nat) : (closePlaces t r).Pairwise (fun a b => a.place < b.place) :=
  pairwise_placed (pairwise_closingsFrom 0 _)

end SourceBlocks.Placement
