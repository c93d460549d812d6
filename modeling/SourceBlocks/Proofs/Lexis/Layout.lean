import SourceBlocks.Proofs.Lexis.Source
import SourceBlocks.Text.Blank

/-! What is passed on the way to the next token. A comment is passed up to the end of its row, so what stands
behind it stands on another row. -/

namespace SourceBlocks.Lexis

namespace Margin

lemma isGap_of_feed {c : Char} (h : c = '\r' ∨ c.toNat = 12) : isGap c = true := by
  rcases h with rfl | h
  · rfl
  · simp [isGap, h]

structure Takes (inComment : Bool) (m m' : Margin) (a r : List Char) : Prop where
  length : m'.length = m.length + a.length
  rest : m'.rest ≠ [] → m'.rest = r
  rowEnded : m'.rowEnded = true → m.rowEnded = true ∨ '\n' ∈ a ∨ m'.rest = []
  comment : m'.comment = none → m.comment = none
  plain : m'.comment = none → inComment = false →
    '#' ∉ a ∧ (m'.rest ≠ [] → '\n' ∈ a ∨ ∀ x ∈ a, isGap x = true)

lemma Takes.append {inComment inComment₁ : Bool} {m m₁ m' : Margin} {u a r : List Char}
    (h : Takes inComment₁ m₁ m' a r) (hlength : m₁.length = m.length + u.length)
    (hrow : m₁.rowEnded = true → m.rowEnded = true ∨ '\n' ∈ u) (hcomment : m₁.comment = none → m.comment = none)
    (hplain : m₁.comment = none → inComment = false →
      inComment₁ = false ∧ '#' ∉ u ∧ ('\n' ∈ u ∨ ∀ x ∈ u, isGap x = true)) :
    Takes inComment m m' (u ++ a) r where
  length := by rw [h.length, hlength, List.length_append, Nat.add_assoc]
  rest := h.rest
  rowEnded hm := by
    rcases h.rowEnded hm with hm | hmem | hnil
    · exact (hrow hm).imp_right fun hmem => .inl (List.mem_append_left _ hmem)
    · exact .inr (.inl (List.mem_append_right _ hmem))
    · exact .inr (.inr hnil)
  comment hm := hcomment (h.comment hm)
  plain hm hin := by
    obtain ⟨hin₁, hu, hgaps⟩ := hplain (h.comment hm) hin
    obtain ⟨ha, hrest⟩ := h.plain hm hin₁
    refine ⟨by simp [hu, ha], fun hne => ?_⟩
    rcases hgaps with hmem | hgaps
    · exact .inl (List.mem_append_left _ hmem)
    · refine (hrest hne).imp (List.mem_append_right _) fun hall x hx => ?_
      exact (List.mem_append.mp hx).elim (hgaps x) (hall x)

lemma read?_takes {comments inComment : Bool} {m m' : Margin} {l : List Char}
    (h : read? comments inComment m l = some m') : ∃ a r, l = a ++ r ∧ Takes inComment m m' a r := by
  fun_induction read? comments inComment m l with
  | case1 m =>
    obtain rfl := Option.some.inj h
    exact ⟨[], [], rfl, rfl, by simp, by simp, id, by simp⟩
  | case2 m b r ih =>
    obtain ⟨a, r, rfl, ht⟩ := ih h
    exact ⟨['\n'] ++ a, r, rfl, ht.append rfl (by simp) id (by simp)⟩
  | case3 m r ih | case4 m b r hb ih =>
    obtain ⟨a, r, rfl, ht⟩ := ih h
    exact ⟨['\\', '\n'] ++ a, r, rfl, ht.append rfl (by simp) id (by simp)⟩
  | case5 m r ih | case6 m b r hb ih =>
    obtain ⟨a, r, rfl, ht⟩ := ih h
    exact ⟨['\\', '\r', '\n'] ++ a, r, rfl, ht.append rfl (by simp) id (by simp)⟩
  | case7 m c r _ _ _ hc ih | case8 m c r _ _ _ hc ih =>
    obtain ⟨a, r, rfl, ht⟩ := ih h
    exact ⟨[c] ++ a, r, rfl, ht.append rfl .inl id (by simp)⟩
  | case9 m b r hb _ _ _ ih | case10 m b r hb _ _ _ _ ih =>
    obtain ⟨a, r, rfl, ht⟩ := ih h
    exact ⟨[_] ++ a, r, rfl, ht.append rfl .inl id fun _ _ => ⟨rfl, by simp, .inr (by simp [isGap])⟩⟩
  | case11 m b c r _ _ _ hb _ _ hc ih =>
    obtain ⟨a, r, rfl, ht⟩ := ih h
    have hgap : isGap c = true := isGap_of_feed hc
    have hhash : c ≠ '#' := by
      rintro rfl
      exact absurd hgap (by decide)
    exact ⟨[c] ++ a, r, rfl, ht.append rfl .inl id (by simp [hgap, hhash.symm])⟩
  | case12 m b c r _ _ _ hb _ _ _ hc hrow ih =>
    obtain ⟨a, r, rfl, ht⟩ := ih h
    exact ⟨[c] ++ a, r, rfl, ht.append rfl .inl (by simp) (by simp)⟩
  | case13 | case15 => cases h
  | case14 m b r hb hr =>
    obtain rfl := Option.some.inj h
    refine ⟨'\\' :: r, [], by simp, by simp; omega, by simp, by simp, id, ?_⟩
    rcases hr with rfl | rfl <;> simp
  | case16 m b c r =>
    obtain rfl := Option.some.inj h
    exact ⟨[], c :: r, rfl, rfl, fun _ => rfl, .inl, id, by simp⟩

lemma takes_of_read? {comments inComment : Bool} {m : Margin} {l : List Char}
    (h : read? comments inComment .start l = some m) : Takes inComment .start m (l.take m.length) (l.drop m.length) := by
  obtain ⟨a, r, rfl, ht⟩ := read?_takes h
  have hlength : m.length = a.length := by simpa [start] using ht.length
  rwa [hlength, List.take_left, List.drop_left]

lemma read?_rowEnded {comments inComment : Bool} {m m' : Margin} {l : List Char}
    (h : read? comments inComment m l = some m') (hin : inComment = false) (hm : m.rowEnded = false)
    (hm' : m'.rowEnded = true) :
    '\n' ∈ l.takeWhile isGap ∨ l.dropWhile isGap = [] ∨
      (∃ n, filler? (l.dropWhile isGap) = some n ∧ '\n' ∈ (l.dropWhile isGap).take n) ∨
      filler? (l.dropWhile isGap) = none ∧ (l.dropWhile isGap).head? = some '\\' := by
  fun_induction read? comments inComment m l with
  | case1 => exact .inr (.inl rfl)
  | case2 => exact .inl (by simp [isGap])
  | case3 | case4 => exact .inr (.inr (.inl ⟨2, rfl, by simp [isGap]⟩))
  | case5 | case6 => exact .inr (.inr (.inl ⟨3, rfl, by simp [isGap]⟩))
  | case7 | case8 => cases hin
  | case9 _ _ _ _ _ _ _ ih | case10 _ _ _ _ _ _ _ _ ih =>
    refine (ih h rfl hm).imp (fun hmem => ?_) id
    simpa [isGap] using hmem
  | case11 _ _ c _ _ _ _ _ _ _ hc ih =>
    have hgap : isGap c = true := isGap_of_feed hc
    rw [List.takeWhile_cons_of_pos hgap, List.dropWhile_cons_of_pos hgap]
    exact (ih h rfl hm).imp_left (List.mem_cons_of_mem c)
  | case12 _ _ _ _ _ _ _ _ _ _ _ _ hrow => simp [hm] at hrow
  | case13 | case15 => cases h
  | case14 _ _ r _ hr =>
    refine .inr (.inr (.inr ?_))
    rcases hr with rfl | rfl <;> exact ⟨rfl, rfl⟩
  | case16 =>
    obtain rfl := Option.some.inj h
    simp [hm] at hm'

end Margin

lemma Cursor.rest_skip (c : Cursor) (n : Nat) : (c.skip n).rest = c.rest.drop n := by
  induction n generalizing c with
  | zero => rfl
  | succ n ih => rw [skip, ih, rest_step, ← List.drop_one, List.drop_drop, Nat.add_comm]

lemma drop_takeWhile (p : Char → Bool) (l : List Char) : l.drop (l.takeWhile p).length = l.dropWhile p := by
  calc l.drop (l.takeWhile p).length
      = (l.takeWhile p ++ l.dropWhile p).drop (l.takeWhile p).length := by rw [List.takeWhile_append_dropWhile]
    _ = l.dropWhile p := List.drop_left

lemma take_takeWhile (p : Char → Bool) (l : List Char) : l.take (l.takeWhile p).length = l.takeWhile p := by
  calc l.take (l.takeWhile p).length
      = (l.takeWhile p ++ l.dropWhile p).take (l.takeWhile p).length := by rw [List.takeWhile_append_dropWhile]
    _ = l.takeWhile p := List.take_left

lemma not_mem_takeWhile {p : Char → Bool} {c : Char} (hc : p c = false) (l : List Char) : c ∉ l.takeWhile p := by
  intro hmem
  have hp := List.all_eq_true.mp (List.all_takeWhile (p := p) (l := l)) c hmem
  simp [hc] at hp

def AtRowEnd (l : List Char) : Prop := l = [] ∨ l.head? = some '\n'

lemma filler?_eq_some {l : List Char} {n : Nat} (h : filler? l = some n) : '#' ∉ l.take n ∨ AtRowEnd (l.drop n) := by
  unfold filler? at h
  split at h
  · next r =>
    obtain rfl := Option.some.inj h
    refine .inr ?_
    rw [List.drop_succ_cons, drop_takeWhile]
    cases hr : r.dropWhile (· ≠ '\n') with
    | nil => exact .inl rfl
    | cons x r' =>
      have hx := List.head?_dropWhile_not (· ≠ '\n') r
      rw [hr] at hx
      exact .inr (by simpa using hx)
  · obtain rfl := Option.some.inj h
    exact .inl (by simp)
  · obtain rfl := Option.some.inj h
    exact .inl (by simp)
  · next c r _ _ =>
    split_ifs at h with hc
    obtain rfl := Option.some.inj h
    have hne : '#' ≠ c := by
      rintro rfl
      exact absurd hc (by decide)
    exact .inl (by simp [hne])
  · cases h

lemma rowEvent?_ne_token {e : Expectation} {c d : Cursor} {m : Margin} : rowEvent? e c m ≠ some (.token d) := by
  intro h
  simp only [rowEvent?] at h
  split_ifs at h <;> cases h

lemma head_of_quote {l : List Char} (h : (Quote.atStart? l).isSome) :
    ∃ x r, l = x :: r ∧ isGap x = false ∧ x ≠ '#' ∧ x ≠ '\\' := by
  cases l with
  | nil => simp [Quote.atStart?, Quote.opening?] at h
  | cons x r =>
    have hx : x ∈ ['f', 'F', 'r', 'R', 'b', 'B', 'u', 'U', '\x60', '"', '\''] := by
      by_contra hx
      simp only [List.mem_cons, List.not_mem_nil, or_false, not_or] at hx
      simp [Quote.atStart?, Quote.opening?, hx] at h
    have hall : ∀ y ∈ ['f', 'F', 'r', 'R', 'b', 'B', 'u', 'U', '\x60', '"', '\''],
        isGap y = false ∧ y ≠ '#' ∧ y ≠ '\\' := by simp [isGap]
    exact ⟨x, r, rfl, hall x hx⟩

lemma filler?_of_quote {l : List Char} (h : (Quote.atStart? l).isSome) : filler? l = none := by
  obtain ⟨x, r, rfl, -, hhash, hslash⟩ := head_of_quote h
  unfold filler?
  split
  · next heq => exact absurd (List.cons.inj heq).1 hhash
  · next heq => exact absurd (List.cons.inj heq).1 hslash
  · next heq => exact absurd (List.cons.inj heq).1 hslash
  · next heq => exact absurd (List.cons.inj heq).1 hslash
  · rfl

section Ahead

variable {e : Expectation} {n : Nat} {c d : Cursor}

def Cursor.skipGaps (c : Cursor) : Cursor := c.skip (c.rest.takeWhile isGap).length

lemma Cursor.rest_skipGaps (c : Cursor) : c.skipGaps.rest = c.rest.dropWhile isGap := by
  rw [skipGaps, rest_skip, drop_takeWhile]

lemma ahead_succ_token (h : ahead e (n + 1) c = .token d) :
    (∃ m, Margin.read? e.readsComments false .start c.rest = some m ∧ m.comment = none ∧
      (Quote.atStart? m.rest).isSome ∧ d = c.skip m.length) ∨
    (filler? c.skipGaps.rest = none ∧ d = c.skipGaps) ∨
    ∃ k, filler? c.skipGaps.rest = some k ∧ ahead e n (c.skipGaps.skip k) = .token d := by
  rw [ahead] at h
  dsimp only at h
  split at h
  · next a ha =>
    subst h
    obtain ⟨m, -, hm⟩ := Option.bind_eq_some_iff.mp ha
    exact absurd hm rowEvent?_ne_token
  · split at h
    · next k hk =>
      obtain rfl := Ahead.token.inj h
      split at hk
      · next m hm =>
        split_ifs at hk with hquote
        obtain rfl := Option.some.inj hk
        simp only [Bool.and_eq_true, Option.isNone_iff_eq_none] at hquote
        exact .inl ⟨m, hm, hquote.1.1, hquote.2, rfl⟩
      · cases hk
    · split at h
      · next k hk => exact .inr (.inr ⟨k, hk, h⟩)
      · next hk => exact .inr (.inl ⟨hk, (Ahead.token.inj h).symm⟩)

lemma ahead_succ_lineEnd (h : ahead e (n + 1) c = .lineEnd) :
    (∃ m, Margin.read? e.readsComments false .start c.rest = some m ∧ m.rowEnded = true) ∨
    ∃ k, filler? c.skipGaps.rest = some k ∧ ahead e n (c.skipGaps.skip k) = .lineEnd := by
  rw [ahead] at h
  dsimp only at h
  split at h
  · next a ha =>
    obtain ⟨m, hm, hrow⟩ := Option.bind_eq_some_iff.mp ha
    refine .inl ⟨m, hm, ?_⟩
    by_contra hnot
    simp [rowEvent?, hnot] at hrow
  · split at h
    · cases h
    · split at h
      · next k hk => exact .inr ⟨k, hk, h⟩
      · cases h

end Ahead

namespace Source

variable {S : Source} {c d : Cursor} {i j k : Nat}

def between (S : Source) (i j : Nat) : List Char := (S.chars.drop i).take (j - i)

lemma between_self (i : Nat) : S.between i i = [] := by simp [between]

lemma between_append (hij : i ≤ j) (hjk : j ≤ k) : S.between i k = S.between i j ++ S.between j k := by
  have hk : k - i = (j - i) + (k - j) := by omega
  have hj : i + (j - i) = j := by omega
  rw [between, hk, List.take_add, List.drop_drop, hj]
  rfl

lemma between_skip (hc : S.Has c) (n : Nat) : S.between c.index (c.skip n).index = c.rest.take n := by
  rw [between, ← hc.rest, Cursor.index_skip, Nat.add_sub_cancel_left, List.take_eq_take_min, List.take_eq_take_min]
  simp

def Clear (S : Source) (i j : Nat) : Prop :=
  i ≤ j ∧ ('#' ∈ S.between i j → '\n' ∈ S.between i j ∨ AtRowEnd (S.chars.drop j))

lemma Clear.refl (i : Nat) : S.Clear i i := ⟨Nat.le_refl i, by simp [between_self]⟩

lemma Clear.trans (h : S.Clear i j) (h' : S.Clear j k) : S.Clear i k := by
  obtain ⟨hij, h⟩ := h
  obtain ⟨hjk, h'⟩ := h'
  refine ⟨Nat.le_trans hij hjk, fun hmem => ?_⟩
  rw [between_append hij hjk, List.mem_append] at hmem ⊢
  rcases hmem with hmem | hmem
  · rcases h hmem with hn | hend
    · exact .inl (.inl hn)
    · rcases Nat.eq_or_lt_of_le hjk with rfl | hlt
      · exact .inr hend
      · have hk : S.chars.drop k = (S.chars.drop j).drop (k - j) := by
          rw [List.drop_drop]
          congr 1
          omega
        rcases hend with hnil | hhead
        · exact .inr (.inl (by rw [hk, hnil, List.drop_nil]))
        · obtain ⟨r, hr⟩ := List.head?_eq_some_iff.mp hhead
          refine .inl (.inr ?_)
          rw [between, hr, show k - j = (k - j - 1) + 1 by omega, List.take_succ_cons]
          exact List.mem_cons_self
  · rcases h' hmem with hn | hend
    · exact .inl (.inr hn)
    · exact .inr hend

lemma Has.clear_skip (hc : S.Has c) {n : Nat} (h : '#' ∉ c.rest.take n ∨ AtRowEnd (c.rest.drop n)) :
    S.Clear c.index (c.skip n).index := by
  refine ⟨c.le_index_skip n, fun hmem => ?_⟩
  rw [between_skip hc] at hmem
  refine .inr ?_
  rw [← (hc.skip n).rest, Cursor.rest_skip]
  exact h.resolve_left (not_not.mpr hmem)

lemma Has.between_skipGaps (hc : S.Has c) :
    S.between c.index c.skipGaps.index = c.rest.takeWhile isGap := by
  rw [Cursor.skipGaps, between_skip hc, take_takeWhile]

lemma Has.clear_skipGaps (hc : S.Has c) : S.Clear c.index c.skipGaps.index := by
  refine hc.clear_skip (.inl ?_)
  rw [take_takeWhile]
  exact not_mem_takeWhile (by decide) _

lemma Has.clear_ahead {e : Expectation} {n : Nat} (hc : S.Has c) (h : ahead e n c = .token d) :
    S.Clear c.index d.index := by
  induction n generalizing c with
  | zero =>
    obtain rfl : c = d := by simpa [ahead] using h
    exact .refl _
  | succ n ih =>
    rcases ahead_succ_token h with ⟨m, hm, hcomment, -, rfl⟩ | ⟨-, rfl⟩ | ⟨k, hk, h⟩
    · exact hc.clear_skip (.inl ((Margin.takes_of_read? hm).plain hcomment rfl).1)
    · exact hc.clear_skipGaps
    · have hgaps : S.Has c.skipGaps := hc.skip _
      exact hc.clear_skipGaps.trans ((hgaps.clear_skip (filler?_eq_some hk)).trans (ih (hgaps.skip k) h))

lemma mem_between_iff {x : Char} (hij : i ≤ j) (hjk : j ≤ k) :
    x ∈ S.between i k ↔ x ∈ S.between i j ∨ x ∈ S.between j k := by
  rw [between_append hij hjk, List.mem_append]

lemma Has.mem_between_behind {e : Expectation} {n : Nat} (hc : S.Has c)
    (h : ahead e n (c.skipGaps.skip k) = .token d) (x : Char) : x ∈ S.between c.index d.index ↔
      x ∈ c.rest.takeWhile isGap ∨ x ∈ c.skipGaps.rest.take k ∨ x ∈ S.between (c.skipGaps.skip k).index d.index := by
  have hgaps : S.Has c.skipGaps := hc.skip _
  have hle : c.index ≤ c.skipGaps.index := c.le_index_skip _
  have hk := c.skipGaps.le_index_skip k
  have hkd := ((hgaps.skip k).clear_ahead h).1
  rw [mem_between_iff hle (Nat.le_trans hk hkd), mem_between_iff hk hkd, hc.between_skipGaps, between_skip hgaps]

lemma Has.newline_of_quote {comments : Bool} {m : Margin} (hc : S.Has c)
    (hm : Margin.read? comments false .start c.rest = some m) (hcomment : m.comment = none)
    (hquote : (Quote.atStart? m.rest).isSome) (hk : filler? c.skipGaps.rest = some k) :
    '\n' ∈ S.between c.index (c.skip m.length).index := by
  have ht := Margin.takes_of_read? hm
  obtain ⟨x, r, hr, hgap, -⟩ := head_of_quote hquote
  have hne : m.rest ≠ [] := by simp [hr]
  rw [between_skip hc]
  refine ((ht.plain hcomment rfl).2 hne).resolve_right fun hall => ?_
  rw [Cursor.rest_skipGaps, ← List.take_append_drop m.length c.rest, List.dropWhile_append_of_pos hall, ← ht.rest hne, hr,
    List.dropWhile_cons_of_neg (by simp [hgap]), ← hr, filler?_of_quote hquote] at hk
  cases hk

lemma Has.newline_of_rowEnded {e : Expectation} {n : Nat} {m : Margin} (he : e.readsComments = true) (hc : S.Has c)
    (hm : Margin.read? true false .start c.rest = some m) (hrow : m.rowEnded = true)
    (h : ahead e (n + 1) c = .token d) :
    d.rest = [] ∨ '\n' ∈ S.between c.index d.index ∨ d.rest.head? = some '\\' := by
  have hends := Margin.read?_rowEnded hm rfl rfl hrow
  rw [← Cursor.rest_skipGaps] at hends
  rcases ahead_succ_token h with ⟨m', hm', -, hquote, rfl⟩ | ⟨hnone, rfl⟩ | ⟨k, hk, h⟩
  · rw [he, hm] at hm'
    obtain rfl := Option.some.inj hm'
    have hne : m.rest ≠ [] := by
      obtain ⟨x, r, hr, -⟩ := head_of_quote hquote
      simp [hr]
    rw [between_skip hc]
    have hrows := (Margin.takes_of_read? hm).rowEnded hrow
    exact .inr (.inl ((hrows.resolve_left (by simp [Margin.start])).resolve_right hne))
  · rcases hends with hmem | hnil | ⟨k, hk, -⟩ | ⟨-, hhead⟩
    · exact .inr (.inl (hc.between_skipGaps ▸ hmem))
    · exact .inl hnil
    · simp [hnone] at hk
    · exact .inr (.inr hhead)
  · refine .inr (.inl ((hc.mem_between_behind h _).mpr ?_))
    rcases hends with hmem | hnil | ⟨k', hk', hmem⟩ | ⟨hnone, -⟩
    · exact .inl hmem
    · simp [hnil, filler?] at hk
    · obtain rfl := Option.some.inj (hk'.symm.trans hk)
      exact .inr (.inl hmem)
    · simp [hnone] at hk

lemma Has.newline_of_lineEnd {e e' : Expectation} {n : Nat} (he : e.readsComments = true)
    (he' : e'.readsComments = true) (hc : S.Has c) (h : ahead e n c = .lineEnd) (h' : ahead e' n c = .token d) :
    d.rest = [] ∨ '\n' ∈ S.between c.index d.index ∨ d.rest.head? = some '\\' := by
  induction n generalizing c with
  | zero => simp [ahead] at h
  | succ n ih =>
    rcases ahead_succ_lineEnd h with ⟨m, hm, hrow⟩ | ⟨k, hk, h⟩
    · exact hc.newline_of_rowEnded he' (he ▸ hm) hrow h'
    · rcases ahead_succ_token h' with ⟨m, hm, hcomment, hquote, rfl⟩ | ⟨hnone, -⟩ | ⟨k', hk', h'⟩
      · exact .inr (.inl (hc.newline_of_quote hm hcomment hquote hk))
      · simp [hnone] at hk
      · obtain rfl := Option.some.inj (hk'.symm.trans hk)
        refine (ih ((hc.skip _).skip k') h h').imp_right (Or.imp_left fun hmem => ?_)
        exact (hc.mem_between_behind h' _).mpr (.inr (.inr hmem))

def Parted (S : Source) (i j : Nat) : Prop := '\n' ∈ S.between i j ∨
  ∃ k x, i ≤ k ∧ k ≤ j ∧ '#' ∉ S.between i k ∧ S.chars[k]? = some x ∧ x ≠ '#' ∧ Text.isBlank x = false

lemma Parted.le (h : S.Parted i j) : i ≤ j := by
  rcases h with hmem | ⟨k, _, hik, hkj, -⟩
  · by_contra hlt
    simp [between, show j - i = 0 by omega] at hmem
  · exact Nat.le_trans hik hkj

lemma Parted.mono (h : S.Parted i j) (hjk : j ≤ k) : S.Parted i k := by
  rcases h with hmem | ⟨k', x, hik, hkj, hk'⟩
  · exact .inl ((mem_between_iff (Parted.le (.inl hmem)) hjk).mpr (.inl hmem))
  · exact .inr ⟨k', x, hik, Nat.le_trans hkj hjk, hk'⟩

lemma Clear.parted {x : Char} (h : S.Clear i j) (hx : S.chars[j]? = some x) (hhash : x ≠ '#')
    (hblank : Text.isBlank x = false) : S.Parted i j := by
  by_cases hmem : '#' ∈ S.between i j
  · refine .inl ((h.2 hmem).resolve_right fun hend => ?_)
    rw [← List.head?_drop] at hx
    rcases hend with hnil | hhead
    · simp [hnil] at hx
    · obtain rfl := Option.some.inj (hhead.symm.trans hx)
      exact absurd hblank (by decide)
  · exact .inr ⟨j, x, h.1, Nat.le_refl j, hmem, hx, hhash, hblank⟩

def Trails (S : Source) (i j : Nat) : Prop := S.Clear i j ∨ S.Parted i j

lemma Trails.trans (h : S.Trails i j) (h' : S.Clear j k) : S.Trails i k :=
  h.imp (fun h => h.trans h') fun h => h.mono h'.1

lemma Trails.parted {x : Char} (h : S.Trails i j) (hx : S.chars[j]? = some x) (hhash : x ≠ '#')
    (hblank : Text.isBlank x = false) : S.Parted i j :=
  h.elim (fun h => h.parted hx hhash hblank) id

end Source

end SourceBlocks.Lexis
