import Mathlib.Data.List.Find
import SourceBlocks.Grammar.Fragment
import SourceBlocks.Proofs.Placement.Quotes

namespace SourceBlocks.Placement

open SourceBlocks.Tree (Extent)

variable {s : Setting} {value : List Char} {opens : List QuotePlace} {floor : Position} {last : Nat}

structure Pair where
  opening : QuotePlace
  closing : QuotePlace

namespace Pair

def extent (a : Pair) : Extent := ⟨a.opening.place, a.closing.place⟩

def row (a : Pair) : Nat := a.closing.place.row

def isLike (a : Pair) : Bool := a.opening.quote = a.closing.quote

/-- Earlier rows come first, on a row pairs of like quotes, among these later ends, and then earlier beginnings. -/
def Precedes (a b : Pair) : Prop :=
  a.row < b.row ∨ a.row = b.row ∧ (a.isLike = true ∧ b.isLike = false ∨ a.isLike = b.isLike ∧
    (b.closing.place < a.closing.place ∨
      a.closing.place = b.closing.place ∧ a.opening.place < b.opening.place))

/-- A literal that does not begin before `floor` nor below the row `last` can reach over the pair. -/
structure IsCandidate (t : Text) (floor : Position) (last : Nat) (a : Pair) : Prop where
  opens : OpensAt t a.opening
  floor_le : floor ≤ a.opening.place
  opening_row : a.opening.place.row ≤ last
  closes : ClosesAt t a.closing
  row_le : last ≤ a.row
  lt : a.opening.place < a.closing.place

/-- On each row with a quote before the one of the pair, there is a candidate with the same beginning that reads as a
beginning of the value. -/
def IsConsidered (s : Setting) (value : List Char) (floor : Position) (last : Nat) (a : Pair) : Prop :=
  a.IsCandidate s.text floor last ∧ ∀ r, last ≤ r → r < a.row → HasQuote s.text r →
    ∃ b : Pair, b.IsCandidate s.text floor last ∧ b.opening = a.opening ∧ b.row = r ∧
      ∃ v, s.reader (fragment s b.extent) = some v ∧ v <+: value

lemma Precedes.asymm {a b : Pair} (h : a.Precedes b) : ¬ b.Precedes a := by
  have hlt : ∀ p q : Position, p < q → ¬ q < p := fun p q h => Position.not_lt.mpr (Position.le_of_lt h)
  rcases h with h | ⟨hrow, ⟨ha, hb⟩ | ⟨hlike, h⟩⟩
  · rintro (h' | ⟨h', -⟩) <;> omega
  · rintro (h' | ⟨-, ⟨hb', -⟩ | ⟨hlike, -⟩⟩)
    · omega
    · simp [hb] at hb'
    · simp [ha, hb] at hlike
  · rintro (h' | ⟨-, ⟨hb, ha⟩ | ⟨-, h'⟩⟩)
    · omega
    · simp [ha, hb] at hlike
    · rcases h with h | ⟨heq, h⟩
      · rcases h' with h' | ⟨heq', -⟩
        · exact hlt _ _ h h'
        · exact Position.lt_irrefl _ (heq' ▸ h)
      · rcases h' with h' | ⟨-, h'⟩
        · exact Position.lt_irrefl _ (heq ▸ h')
        · exact hlt _ _ h h'

def all (opens closes : List QuotePlace) : List Pair :=
  closes.reverse.flatMap (fun c => (opens.filter (fun o => o.place < c.place)).map (fun o => ⟨o, c⟩))

def inTurn (opens closes : List QuotePlace) : List Pair :=
  (all opens closes).filter isLike ++ (all opens closes).filter (fun a => !a.isLike)

lemma pairs_eq (opens closes : List QuotePlace) : pairs opens closes = (inTurn opens closes).map extent := by
  have hall : closes.reverse.flatMap (pairsWith opens) = (all opens closes).map (fun a => (a.isLike, a.extent)) := by
    rw [all, List.map_flatMap]
    simp only [List.map_map]
    rfl
  simp only [pairs, hall, inTurn, List.filter_map, List.map_map, List.map_append]
  rfl

lemma mem_all {closes : List QuotePlace} {a : Pair} : a ∈ all opens closes ↔
    a.opening ∈ opens ∧ a.closing ∈ closes ∧ a.opening.place < a.closing.place := by
  obtain ⟨o, c⟩ := a
  simp only [all, List.mem_flatMap, List.mem_reverse, List.mem_map, List.mem_filter, decide_eq_true_eq, mk.injEq]
  constructor
  · rintro ⟨_, hc, _, ⟨ho, hlt⟩, rfl, rfl⟩
    exact ⟨ho, hc, hlt⟩
  · rintro ⟨ho, hc, hlt⟩
    exact ⟨c, hc, o, ⟨ho, hlt⟩, rfl, rfl⟩

lemma mem_inTurn {closes : List QuotePlace} {a : Pair} : a ∈ inTurn opens closes ↔
    a.opening ∈ opens ∧ a.closing ∈ closes ∧ a.opening.place < a.closing.place := by
  rw [inTurn, List.mem_append, List.mem_filter, List.mem_filter, ← and_or_left, mem_all]
  cases a.isLike <;> simp

lemma pairwise_all {closes : List QuotePlace} (hopens : opens.Pairwise (fun a b => a.place < b.place))
    (hcloses : closes.Pairwise (fun a b => a.place < b.place)) :
    (all opens closes).Pairwise (fun a b => b.closing.place < a.closing.place ∨
      a.closing.place = b.closing.place ∧ a.opening.place < b.opening.place) := by
  rw [all, List.pairwise_flatMap]
  constructor
  · intro c _
    apply List.Pairwise.map _ _ (hopens.filter _)
    exact fun a b hlt => .inr ⟨rfl, hlt⟩
  · apply (List.pairwise_reverse.mpr hcloses).imp
    intro c d hlt a ha b hb
    obtain ⟨_, -, rfl⟩ := List.mem_map.mp ha
    obtain ⟨_, -, rfl⟩ := List.mem_map.mp hb
    exact .inl hlt

lemma pairwise_inTurn (hopens : opens.Pairwise (fun a b => a.place < b.place)) (t : Text) (r : Nat) :
    (inTurn opens (closePlaces t r)).Pairwise Precedes := by
  have hrow : ∀ a ∈ all opens (closePlaces t r), a.row = r := fun a ha => (mem_closePlaces (mem_all.mp ha).2.1).1
  have hall := pairwise_all hopens (pairwise_closePlaces (t := t) r)
  have hsame : ∀ p : Pair → Bool, (∀ a b, p a = true → p b = true → a.isLike = b.isLike) →
      ((all opens (closePlaces t r)).filter p).Pairwise Precedes := by
    intro p hp
    apply (hall.filter p).imp_of_mem
    intro a b ha hb h
    obtain ⟨ha, hpa⟩ := List.mem_filter.mp ha
    obtain ⟨hb, hpb⟩ := List.mem_filter.mp hb
    exact .inr ⟨(hrow a ha).trans (hrow b hb).symm, .inr ⟨hp a b hpa hpb, h⟩⟩
  apply List.pairwise_append.mpr
  refine ⟨hsame _ fun a b ha hb => ha.trans hb.symm, hsame _ fun a b ha hb => Bool.not_inj (ha.trans hb.symm), ?_⟩
  intro a ha b hb
  obtain ⟨ha, hlike⟩ := List.mem_filter.mp ha
  obtain ⟨hb, hunlike⟩ := List.mem_filter.mp hb
  exact .inr ⟨(hrow a ha).trans (hrow b hb).symm, .inl ⟨hlike, by simpa using hunlike⟩⟩

end Pair

lemma isPartial_iff {e : Extent} : isPartial s value e = true ↔
    ∃ v, s.reader (fragment s e) = some v ∧ v <+: value := by
  simp [isPartial, Option.any_eq_true]

/-- A beginning is kept on a row: the row has no quote, or a beginning of the value reaches from there to the row. -/
def Keeps (s : Setting) (value : List Char) (r : Nat) (o : QuotePlace) : Prop := closePlaces s.text r ≠ [] →
  ∃ c ∈ closePlaces s.text r, o.place < c.place ∧ isPartial s value ⟨o.place, c.place⟩ = true

lemma mem_hopeful {r : Nat} {o : QuotePlace} (hclose : closePlaces s.text r ≠ []) :
    o ∈ hopeful s value opens r ↔ o ∈ opens ∧ Keeps s value r o := by
  simp only [hopeful, Keeps, hclose, ne_eq, not_false_eq_true, true_implies, List.mem_filter, decide_eq_true_eq,
    Pair.pairs_eq, List.mem_map]
  refine and_congr_right fun ho => ⟨?_, ?_⟩
  · rintro ⟨_, ⟨⟨a, ha, rfl⟩, hpartial⟩, hstart⟩
    obtain ⟨-, hc, hlt⟩ := Pair.mem_inTurn.mp ha
    rw [← hstart]
    exact ⟨a.closing, hc, hlt, hpartial⟩
  · rintro ⟨c, hc, hlt, hpartial⟩
    exact ⟨_, ⟨⟨⟨o, c⟩, Pair.mem_inTurn.mpr ⟨ho, hc, hlt⟩, rfl⟩, hpartial⟩, rfl⟩

lemma attempts_cons (s : Setting) (value : List Char) (opens : List QuotePlace) (r : Nat) (rows : List Nat) :
    ∃ kept, attempts s value opens (r :: rows) =
        (Pair.inTurn opens (closePlaces s.text r)).map Pair.extent ++ attempts s value kept rows ∧
      kept.Sublist opens ∧ ∀ o, o ∈ kept ↔ o ∈ opens ∧ Keeps s value r o := by
  rw [attempts]
  by_cases hclose : closePlaces s.text r = []
  · refine ⟨opens, ?_, .refl _, fun o => ?_⟩
    · simp [hclose, Pair.inTurn, Pair.all]
    · simp [Keeps, hclose]
  · refine ⟨hopeful s value opens r, ?_, List.filter_sublist, fun o => mem_hopeful hclose⟩
    rw [if_neg hclose, Pair.pairs_eq]

lemma exists_attempts (s : Setting) (value : List Char) {rows : List Nat} (hrows : rows.Pairwise (· < ·))
    (hopens : opens.Pairwise (fun a b => a.place < b.place)) :
    ∃ l : List Pair, attempts s value opens rows = l.map Pair.extent ∧ l.Pairwise Pair.Precedes ∧
      ∀ a, a ∈ l ↔ a.opening ∈ opens ∧ a.row ∈ rows ∧ ClosesAt s.text a.closing ∧
        a.opening.place < a.closing.place ∧ ∀ r ∈ rows, r < a.row → Keeps s value r a.opening := by
  induction rows generalizing opens with
  | nil => exact ⟨[], rfl, .nil, by simp⟩
  | cons r rows ih =>
    obtain ⟨hfirst, hrows⟩ := List.pairwise_cons.mp hrows
    obtain ⟨kept, hattempts, hsub, hkept⟩ := attempts_cons s value opens r rows
    obtain ⟨l, hl, hordered, hmem⟩ := ih hrows (hopens.sublist hsub)
    have hturn : ∀ a, a ∈ Pair.inTurn opens (closePlaces s.text r) ↔
        a.opening ∈ opens ∧ (a.row = r ∧ ClosesAt s.text a.closing) ∧ a.opening.place < a.closing.place := by
      intro a
      rw [Pair.mem_inTurn, mem_closePlaces_iff, Pair.row]
    refine ⟨Pair.inTurn opens (closePlaces s.text r) ++ l, ?_, ?_, fun a => ?_⟩
    · rw [hattempts, hl, List.map_append]
    · apply List.pairwise_append.mpr
      refine ⟨Pair.pairwise_inTurn hopens s.text r, hordered, fun a ha b hb => .inl ?_⟩
      rw [((hturn a).mp ha).2.1.1]
      exact hfirst _ ((hmem b).mp hb).2.1
    · rw [List.mem_append, hturn, hmem, hkept]
      constructor
      · rintro (⟨ho, ⟨hrow, hc⟩, hlt⟩ | ⟨⟨ho, hkeep⟩, hrow, hc, hlt, hrest⟩)
        · -- the first row has none before it
          refine ⟨ho, hrow ▸ List.mem_cons_self, hc, hlt, fun r' hr' hbefore => ?_⟩
          rcases List.mem_cons.mp hr' with rfl | hr'
          · omega
          · have := hfirst r' hr'
            omega
        · exact ⟨ho, List.mem_cons_of_mem _ hrow, hc, hlt, List.forall_mem_cons.mpr ⟨fun _ => hkeep, hrest⟩⟩
      · rintro ⟨ho, hrow, hc, hlt, hkeep⟩
        obtain ⟨hhere, hrest⟩ := List.forall_mem_cons.mp hkeep
        rcases List.mem_cons.mp hrow with hrow | hrow
        · exact .inl ⟨ho, ⟨hrow, hc⟩, hlt⟩
        · exact .inr ⟨⟨ho, hhere (hfirst _ hrow)⟩, hrow, hc, hlt, hrest⟩

lemma find?_eq_some_of_pairwise {α : Type} {R : α → α → Prop} {p : α → Bool} {l : List α} {a : α}
    (hl : l.Pairwise R) (hR : ∀ a b, R a b → ¬ R b a) :
    l.find? p = some a ↔ a ∈ l ∧ p a = true ∧ ∀ b ∈ l, p b = true → b = a ∨ R a b := by
  have hfound : ∀ a, l.find? p = some a → a ∈ l ∧ p a = true ∧ ∀ b ∈ l, p b = true → b = a ∨ R a b := by
    intro a h
    obtain ⟨hp, front, back, rfl, hfront⟩ := List.find?_eq_some_iff_append.mp h
    refine ⟨by simp, hp, fun b hb hpb => ?_⟩
    rcases List.mem_append.mp hb with hb | hb
    · exact absurd hpb (by simpa using hfront b hb)
    · rcases List.mem_cons.mp hb with rfl | hb
      · exact .inl rfl
      · exact .inr ((List.pairwise_cons.mp (List.pairwise_append.mp hl).2.1).1 b hb)
  refine ⟨hfound a, ?_⟩
  rintro ⟨ha, hp, hfirst⟩
  obtain ⟨b, hb⟩ := Option.isSome_iff_exists.mp (List.find?_isSome.mpr ⟨a, ha, hp⟩)
  obtain ⟨hmem, hpb, hbefore⟩ := hfound b hb
  rcases hfirst b hmem hpb with rfl | hab
  · exact hb
  · rcases hbefore a ha hp with rfl | hba
    · exact hb
    · exact absurd hba (hR a b hab)

lemma Pair.IsCandidate.hasQuote {t : Text} {a : Pair} (h : a.IsCandidate t floor last) : HasQuote t a.row := by
  obtain ⟨i, ⟨before, after, hrow, hquote, -⟩, -⟩ := h.closes
  exact ⟨a.closing.quote, by simp [Pair.row, hrow], hquote⟩

lemma keeps_iff {a : Pair} {r : Nat} (ha : a.IsCandidate s.text floor last) (hr : last ≤ r) :
    Keeps s value r a.opening ↔ (HasQuote s.text r → ∃ b : Pair, b.IsCandidate s.text floor last ∧
      b.opening = a.opening ∧ b.row = r ∧ ∃ v, s.reader (fragment s b.extent) = some v ∧ v <+: value) := by
  rw [Keeps, closePlaces_ne_nil_iff]
  apply imp_congr_right
  intro _
  constructor
  · rintro ⟨c, hc, hlt, hpartial⟩
    obtain ⟨rfl, hcloses⟩ := mem_closePlaces_iff.mp hc
    exact ⟨⟨a.opening, c⟩, ⟨ha.opens, ha.floor_le, ha.opening_row, hcloses, hr, hlt⟩, rfl, rfl,
      isPartial_iff.mp hpartial⟩
  · rintro ⟨b, hb, hopening, rfl, hreads⟩
    rw [← hopening]
    exact ⟨b.closing, mem_closePlaces_iff.mpr ⟨rfl, hb.closes⟩, hb.lt, isPartial_iff.mpr hreads⟩

lemma exists_tried (s : Setting) (value : List Char) (floor : Position) (last : Nat) :
    ∃ l : List Pair, tried s value floor last = l.map Pair.extent ∧ l.Pairwise Pair.Precedes ∧
      ∀ a, a ∈ l ↔ a.IsConsidered s value floor last := by
  obtain ⟨l, hl, hordered, hmem⟩ := exists_attempts s value (pairwise_rowsFrom last s.text.stop.row)
    (pairwise_openPlaces (t := s.text) floor last)
  refine ⟨l, hl, hordered, fun a => ?_⟩
  rw [hmem, mem_openPlaces_iff, mem_rowsFrom]
  constructor
  · rintro ⟨⟨hfloor, hrow, hopens⟩, ⟨hlast, hend⟩, hcloses, hlt, hkeep⟩
    have ha : a.IsCandidate s.text floor last := ⟨hopens, hfloor, hrow, hcloses, hlast, hlt⟩
    refine ⟨ha, fun r hr hbefore => (keeps_iff ha hr).mp (hkeep r ?_ hbefore)⟩
    exact mem_rowsFrom.mpr ⟨hr, by omega⟩
  · rintro ⟨ha, hkept⟩
    refine ⟨⟨ha.floor_le, ha.opening_row, ha.opens⟩, ⟨ha.row_le, ha.closes.row_le⟩, ha.closes, ha.lt, ?_⟩
    intro r hr hbefore
    have hr := (mem_rowsFrom.mp hr).1
    exact (keeps_iff ha hr).mpr (hkept r hr hbefore)

def Pair.IsFirst (s : Setting) (value : List Char) (floor : Position) (last : Nat) (a : Pair) : Prop :=
  a.IsConsidered s value floor last ∧ s.reader (fragment s a.extent) = some value ∧
    ∀ b : Pair, b.IsConsidered s value floor last → s.reader (fragment s b.extent) = some value →
      b = a ∨ a.Precedes b

lemma find?_tried {e : Extent} : (tried s value floor last).find? (isMatch s value) = some e ↔
    ∃ a : Pair, a.extent = e ∧ a.IsFirst s value floor last := by
  obtain ⟨l, hl, hordered, hmem⟩ := exists_tried s value floor last
  rw [hl, List.find?_map, Option.map_eq_some_iff]
  apply exists_congr
  intro a
  rw [find?_eq_some_of_pairwise hordered fun _ _ => Pair.Precedes.asymm, and_comm]
  simp only [hmem, Function.comp_apply, isMatch, decide_eq_true_eq, Pair.IsFirst]

lemma locate_eq_ok_iff {e : Extent} : locate s value floor last = .ok e ↔
    HasQuote s.text last ∧ ∃ a : Pair, a.extent = e ∧ a.IsFirst s value floor last := by
  rw [locate_eq_ok, find?_tried, closePlaces_ne_nil_iff]
  apply and_congr_left
  rintro ⟨a, -, ⟨ha, -⟩, -⟩
  have hrow : last ≤ s.text.stop.row := Nat.le_trans ha.row_le ha.closes.row_le
  exact ⟨fun h => h hrow, fun h _ => h⟩

lemma search_congr {reader : List Char → Option (List Char)} {isFirst : Bool} {rows : List Nat}
    (h : ∀ e ∈ attempts s value opens rows, reader (fragment s e) = s.reader (fragment s e)) :
    search { s with reader := reader } value isFirst opens rows = search s value isFirst opens rows := by
  induction rows generalizing isFirst opens with
  | nil => rfl
  | cons r rows ih =>
    rw [attempts] at h
    by_cases hclose : closePlaces s.text r = []
    · rw [if_pos hclose] at h
      simp only [search, hclose, List.isEmpty_nil, if_true, ih h]
    · rw [if_neg hclose, List.forall_mem_append] at h
      obtain ⟨hhere, hrest⟩ := h
      have hmatch : ∀ e ∈ pairs opens (closePlaces s.text r),
          isMatch { s with reader := reader } value e = isMatch s value e := by
        intro e he
        exact congrArg (fun v => decide (v = some value)) (hhere e he)
      have hpartial : ∀ e ∈ pairs opens (closePlaces s.text r),
          isPartial { s with reader := reader } value e = isPartial s value e := by
        intro e he
        exact congrArg (fun v => v.any fun v => v.isPrefixOf value) (hhere e he)
      have hih : search _ value false _ rows = _ := ih hrest
      simp only [hopeful] at hih
      simp only [search, List.isEmpty_iff, hclose, if_false, List.find?_congr hmatch, List.filter_congr hpartial, hih]

lemma Pair.IsCandidate.isConsidered {a : Pair} (h : a.IsCandidate s.text floor last) (hrow : a.row = last) :
    a.IsConsidered s value floor last := by
  refine ⟨h, fun r hr hbefore => ?_⟩
  omega

lemma Pair.Precedes.row_le {a b : Pair} (h : a.Precedes b) : a.row ≤ b.row := by
  rcases h with h | ⟨h, -⟩ <;> omega

lemma exists_isFirst {b : Pair} (hb : b.IsCandidate s.text floor last) (hrow : b.row = last)
    (hreads : s.reader (fragment s b.extent) = some value) :
    ∃ a : Pair, a.IsFirst s value floor last ∧ a.row = last := by
  obtain ⟨l, hl, -, hmem⟩ := exists_tried s value floor last
  have htried : b.extent ∈ tried s value floor last := by
    rw [hl]
    exact List.mem_map_of_mem ((hmem b).mpr (hb.isConsidered hrow))
  have hsome : ((tried s value floor last).find? (isMatch s value)).isSome = true :=
    List.find?_isSome.mpr ⟨b.extent, htried, by simpa [isMatch] using hreads⟩
  obtain ⟨e, he⟩ := Option.isSome_iff_exists.mp hsome
  obtain ⟨a, -, ha⟩ := find?_tried.mp he
  have hlast := ha.1.1.row_le
  refine ⟨a, ha, ?_⟩
  rcases ha.2.2 b (hb.isConsidered hrow) hreads with rfl | hbefore
  · exact hrow
  · have := hbefore.row_le
    omega

/-- The search for a literal finds the first of the considered pairs that reads as the value, if
there is a quote on the row on which it begins. -/
theorem locate_first (s : Setting) (value : List Char) (floor : Position) (last : Nat) :
    (∀ e, locate s value floor last = .ok e ↔
      HasQuote s.text last ∧ ∃ a : Pair, a.extent = e ∧ a.IsFirst s value floor last) ∧
    (∀ e, locate s value floor last = .ok e → floor ≤ e.start ∧ e.start < e.stop ∧
      (∃ q, OpensAt s.text ⟨q, e.start⟩) ∧ floor.row ≤ e.start.row ∧ e.start.row ≤ last ∧
      (∃ q, ClosesAt s.text ⟨q, e.stop⟩) ∧ last ≤ e.stop.row ∧ s.reader (fragment s e) = some value) ∧
    (∀ b : Pair, b.IsCandidate s.text floor last → b.row = last → s.reader (fragment s b.extent) = some value →
      ∃ a : Pair, locate s value floor last = .ok a.extent ∧ a.IsCandidate s.text floor last ∧ a.row = last ∧
        ∀ b : Pair, b.IsCandidate s.text floor last → b.row = last → s.reader (fragment s b.extent) = some value →
          b = a ∨ a.Precedes b) ∧
    ∀ reader, (∀ a : Pair, a.IsConsidered s value floor last →
        reader (fragment s a.extent) = s.reader (fragment s a.extent)) →
      locate { s with reader := reader } value floor last = locate s value floor last := by
  refine ⟨fun e => locate_eq_ok_iff, ?_, ?_, ?_⟩
  · intro e he
    obtain ⟨-, a, rfl, ⟨ha, -⟩, hreads, -⟩ := locate_eq_ok_iff.mp he
    exact ⟨ha.floor_le, ha.lt, ⟨_, ha.opens⟩, Position.row_le ha.floor_le, ha.opening_row, ⟨_, ha.closes⟩, ha.row_le,
      hreads⟩
  · intro b hb hrow hreads
    obtain ⟨a, ha, hlast⟩ := exists_isFirst hb hrow hreads
    refine ⟨a, locate_eq_ok_iff.mpr ⟨hrow ▸ hb.hasQuote, a, rfl, ha⟩, ha.1.1, hlast, ?_⟩
    exact fun c hc hrow => ha.2.2 c (hc.isConsidered hrow)
  · intro reader hreader
    obtain ⟨l, hl, -, hmem⟩ := exists_tried s value floor last
    apply search_congr
    intro e he
    have he : e ∈ tried s value floor last := he
    rw [hl] at he
    obtain ⟨a, ha, rfl⟩ := List.mem_map.mp he
    exact hreader a ((hmem a).mp ha)

theorem locate_first_pieces :
    ∃ a : Pair, a.extent = ⟨⟨0, 0⟩, ⟨1, 4⟩⟩ ∧
      a.IsFirst ⟨Text.ofString "'a' '''b\nc'''", [], Grammar.stringValue?⟩ "ab\nc".toList .start 0 := by
  have hfound : locate ⟨Text.ofString "'a' '''b\nc'''", [], Grammar.stringValue?⟩ "ab\nc".toList .start 0 =
      .ok ⟨⟨0, 0⟩, ⟨1, 4⟩⟩ := by decide +kernel
  exact (((locate_first _ _ _ _).1 _).mp hfound).2

end SourceBlocks.Placement
