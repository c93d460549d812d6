import SourceBlocks.Proofs.Grammar.Runs

namespace SourceBlocks.Lexis

open SourceBlocks.Literal (isMarkLetter openingQuotes marks)

namespace Quote

def closing (q : Quote) : List Char := List.replicate (if q.triple then 3 else 1) q.mark

lemma opening?_letter {c : Char} (hc : isMarkLetter c = true) (q : Quote) (n : Nat) (s : List Char) :
    ∃ q' : Quote, q'.triple = q.triple ∧ opening? q n (c :: s) = opening? q' (n + 1) s := by
  rw [opening?]
  split_ifs with hf hr hb hu
  · exact ⟨{ q with fields := true }, rfl, rfl⟩
  · exact ⟨{ q with raw := true }, rfl, rfl⟩
  · exact ⟨{ q with bytes := true }, rfl, rfl⟩
  · exact ⟨q, rfl, rfl⟩
  all_goals
    simp only [not_or] at hf hr hb hu
    simp [isMarkLetter, hf, hr, hb, hu] at hc

lemma opening?_mark {q r : Quote} {n m : Nat} {c : Char} {s : List Char} (hc : isMarkLetter c = false)
    (hq : q.triple = false) (h : opening? q n (c :: s) = some (r, m)) : r.mark = c ∧ isMark c = true ∧
      r.triple = (decide (c ≠ '\x60') && [c, c].isPrefixOf s) ∧ m = n + r.closing.length := by
  have hnot : c ∉ ['r', 'R', 'b', 'B', 'u', 'U', 'f', 'F'] := by simpa [isMarkLetter] using hc
  simp only [List.mem_cons, List.not_mem_nil, or_false, not_or] at hnot
  rw [opening?, if_neg (by simp [hnot]), if_neg (by simp [hnot]), if_neg (by simp [hnot]),
    if_neg (by simp [hnot])] at h
  split_ifs at h with hback hquote htriple
  · obtain ⟨rfl, rfl⟩ := Prod.mk.inj (Option.some.inj h)
    simp [isMark, closing, hback, hq]
  · obtain ⟨rfl, rfl⟩ := Prod.mk.inj (Option.some.inj h)
    refine ⟨rfl, ?_, by simp [hback, htriple], by simp [closing]⟩
    rcases hquote with rfl | rfl <;> rfl
  · obtain ⟨rfl, rfl⟩ := Prod.mk.inj (Option.some.inj h)
    refine ⟨rfl, ?_, by simp [hq, htriple], by simp [closing, hq]⟩
    rcases hquote with rfl | rfl <;> rfl

lemma length_closing (q : Quote) : q.closing.length = if q.triple then 3 else 1 := by
  rw [closing, List.length_replicate]

lemma replicate_length_closing (q : Quote) : List.replicate q.closing.length q.mark = q.closing := by
  rw [length_closing, closing]

lemma length_closing_le {q : Quote} {t : List Char}
    (h : q.triple = (decide (q.mark ≠ '\x60') && [q.mark, q.mark].isPrefixOf t)) : q.closing.length ≤ t.length + 1 := by
  rw [length_closing]
  split_ifs with htriple
  · rw [htriple] at h
    have hquotes := List.isPrefixOf_iff_prefix.mp (Bool.and_eq_true_iff.mp h.symm).2
    simpa using hquotes.length_le
  · exact Nat.le_add_left 1 _

lemma isPrefixOf_take_eq {q : Quote} {t : List Char} {k : Nat}
    (h : q.triple = (decide (q.mark ≠ '\x60') && [q.mark, q.mark].isPrefixOf t)) (hmark : q.mark ≠ '\x60')
    (hk : q.closing.length ≤ k + 1) : [q.mark, q.mark].isPrefixOf (t.take k) = q.triple := by
  have htriple : q.triple = [q.mark, q.mark].isPrefixOf t := by simpa [hmark] using h
  rw [htriple, Bool.eq_iff_iff, List.isPrefixOf_iff_prefix, List.isPrefixOf_iff_prefix, List.prefix_take_iff,
    and_iff_left_iff_imp]
  intro hquotes
  rw [length_closing, htriple, if_pos (List.isPrefixOf_iff_prefix.mpr hquotes)] at hk
  exact Nat.le_of_succ_le_succ hk

lemma opening?_eq_some {q r : Quote} {n m : Nat} {s : List Char} (h : opening? q n s = some (r, m))
    (hq : q.triple = false) : ∃ t, s.dropWhile isMarkLetter = r.mark :: t ∧ isMark r.mark = true ∧
      r.triple = (decide (r.mark ≠ '\x60') && [r.mark, r.mark].isPrefixOf t) ∧
      m = n + (s.takeWhile isMarkLetter).length + r.closing.length := by
  induction s generalizing q n with
  | nil => simp [opening?] at h
  | cons c s ih =>
    cases hc : isMarkLetter c with
    | true =>
      obtain ⟨q', hq', heq⟩ := opening?_letter hc q n s
      obtain ⟨t, hdrop, hmark, htriple, hm⟩ := ih (heq ▸ h) (hq'.trans hq)
      refine ⟨t, by rw [List.dropWhile_cons_of_pos hc, hdrop], hmark, htriple, ?_⟩
      rw [hm, List.takeWhile_cons_of_pos hc, List.length_cons]
      omega
    | false =>
      obtain ⟨rfl, hmark, htriple, hm⟩ := opening?_mark hc hq h
      refine ⟨s, List.dropWhile_cons_of_neg (by simp [hc]), hmark, htriple, ?_⟩
      rw [hm, List.takeWhile_cons_of_neg (by simp [hc]), List.length_nil, Nat.add_zero]

end Quote

lemma quotesHere_closed {q : Quote} {some : Bool} {n m : Nat} {r : List Char}
    (h : quotesHere q some n r = .closed m) : ∃ k, m = n + k ∧ q.closing <:+ (q.mark :: r).take k := by
  unfold quotesHere at h
  split_ifs at h with htriple hquotes
  · obtain ⟨t, rfl⟩ := List.isPrefixOf_iff_prefix.mp hquotes
    refine ⟨3, (Run.closed.inj h).symm, ?_⟩
    simp [Quote.closing, htriple, List.replicate]
  · refine ⟨1, (Run.closed.inj h).symm, ?_⟩
    simp [Quote.closing, htriple]

lemma run_closed {q : Quote} {some : Bool} {n m : Nat} {s : List Char} (h : run q some n s = .closed m) :
    ∃ k, m = n + k ∧ q.closing <:+ s.take k := by
  have skip : ∀ {c : Char} {r : List Char} {n l : Nat}, (∃ k, m = n + 1 + l + k ∧ q.closing <:+ (r.drop l).take k) →
      ∃ k, m = n + k ∧ q.closing <:+ (c :: r).take k := by
    rintro c r n l ⟨k, rfl, hk⟩
    refine ⟨l + k + 1, by omega, ?_⟩
    rw [List.take_succ_cons, List.take_add]
    exact (hk.trans (List.suffix_append _ _)).trans (List.suffix_cons _ _)
  fun_induction run q some n s with
  | case1 | case2 | case8 => cases h
  | case3 | case6 =>
    unfold Run.orStuck at h
    split_ifs at h
  | case4 _ _ _ _ _ _ ih => exact skip (ih h)
  | case5 _ _ _ _ _ _ _ ih => exact skip (ih h)
  | case7 => exact quotesHere_closed h
  | case9 _ _ _ _ _ _ _ _ _ ih => exact skip (l := 0) (ih h)

end SourceBlocks.Lexis

namespace SourceBlocks.Literal

lemma decode_of_quotes {token : List Char} {x : Char} {t : List Char} (hrest : token.dropWhile isMarkLetter = x :: t)
    (hx : x = '"' ∨ x = '\'') {n : Nat} (hn : n = if [x, x].isPrefixOf t then 3 else 1)
    (hlength : 2 * n ≤ t.length + 1) (hsuffix : List.replicate n x <:+ x :: t) :
    ∃ d, decode token = .ok d ∧ d.formatted = marks (token.takeWhile isMarkLetter) 'f' 'F' := by
  have hquotes : openingQuotes (x :: t) = List.replicate n x := by
    subst hn
    split_ifs with htwo
    · obtain ⟨r, rfl⟩ := List.isPrefixOf_iff_prefix.mp htwo
      rcases hx with rfl | rfl <;> rfl
    · rcases hx with rfl | rfl
      · unfold openingQuotes
        split <;> simp_all
      · unfold openingQuotes
        split <;> simp_all
  have hne : List.replicate n x ≠ [] := by
    subst hn
    split_ifs <;> simp
  unfold decode
  dsimp only
  rw [hrest, hquotes, if_neg hne, if_neg]
  · exact ⟨_, rfl, rfl⟩
  · simp only [not_or, not_not, List.length_replicate, List.length_cons, Nat.not_lt]
    exact ⟨hlength, List.isSuffixOf_iff_suffix.mpr hsuffix⟩

lemma formatted_of_decode {token : List Char} {d : Decoded} (h : decode token = .ok d) :
    d.formatted = marks (token.takeWhile isMarkLetter) 'f' 'F' ∧
      Lexis.startsWithChar '\x60' (token.dropWhile isMarkLetter) = false := by
  unfold decode at h
  dsimp only at h
  by_cases hquotes : openingQuotes (token.dropWhile isMarkLetter) = []
  · rw [if_pos hquotes] at h
    cases h
  rw [if_neg hquotes] at h
  split at h
  · cases h
  obtain rfl := Except.ok.inj h
  refine ⟨rfl, ?_⟩
  by_contra hback
  apply hquotes
  cases hrest : token.dropWhile isMarkLetter with
  | nil => rfl
  | cons x t =>
    obtain rfl : x = '\x60' := by simpa [hrest, Lexis.startsWithChar] using hback
    rfl

end SourceBlocks.Literal

namespace SourceBlocks.Grammar.Piece

def isFormatted (p : Piece) : Bool := Literal.marks (p.text.takeWhile Literal.isMarkLetter) 'f' 'F'

def isRepr (p : Piece) : Bool := Lexis.startsWithChar '\x60' (p.text.dropWhile Literal.isMarkLetter)

end SourceBlocks.Grammar.Piece

namespace SourceBlocks.Lexis.Source

open Grammar Grammar.Parser

variable {S : Source} {g : Rules Tree.Node} {c : Cursor} {i j : Nat} {p : Piece}

lemma reads_stringBody_closing (hg : g.Sound S) (q : Quote) (n : Nat) :
    S.Reads (stringBody g q n) (fun i _ j => i ≤ j ∧ q.closing <:+ S.between i j) := by
  induction n with
  | zero => exact fun _ => .fail
  | succ n ih =>
    intro i
    have goOn : ∀ {p : Parser Unit}, S.Reads p Goes → S.Yields i (p >>= fun _ => stringBody g q n)
        (fun _ j => i ≤ j ∧ q.closing <:+ S.between i j) := by
      intro p hp
      refine (hp i).bind fun _ j hj => (ih j).mono fun _ k ⟨hk, hsuffix⟩ => ⟨Nat.le_trans hj hk, ?_⟩
      rw [between_append hj hk]
      exact hsuffix.trans (List.suffix_append _ _)
    rw [stringBody]
    refine .get fun c hc hi => .fork (goOn (reads_advance 2)) ?_
    refine .fork (goOn (reads_field hg _)) ?_
    split
    · next m hm =>
      obtain ⟨k, rfl, hk⟩ := run_closed hm
      intro d hd hdi u e he
      obtain ⟨-, rfl⟩ := Prod.mk.inj (Except.ok.inj he)
      have hrest : d.rest = c.rest := by rw [hd.rest, hdi, ← hi, ← hc.rest]
      refine ⟨(hd.skip _).of_eq rfl rfl rfl rfl, hdi ▸ d.le_index_skip _, ?_⟩
      show q.closing <:+ S.between i (d.skip (0 + k)).index
      rw [← hdi, between_skip hd, hrest, Nat.zero_add]
      exact hk
    · exact goOn (reads_advance _)
    · exact goOn (reads_bodyRemainder hg)

lemma gives_stringPiece_text (hg : g.Sound S) (hc : S.Has c) : Gives c (stringPiece g) fun p d => S.Has d ∧
    p.start = c.place ∧ p.stop = d.place ∧ p.text = S.between c.index d.index ∧
    ∃ q n, Quote.atStart? c.rest = some (q, n) ∧ (c.skip n).index ≤ d.index ∧
      q.closing <:+ S.between (c.skip n).index d.index := by
  rw [stringPiece]
  refine .get ?_
  split
  · exact .fail
  · next q n hq =>
    refine .set ?_
    have hopened : S.Has { c.skip n with inFields := q.fields } := (hc.skip n).of_eq rfl rfl rfl rfl
    refine (Gives.reads (reads_stringBody_closing hg q _) hopened).bind fun _ d h => ?_
    obtain ⟨hd, hle, hsuffix⟩ := h
    refine .get (.pure ⟨hd, rfl, rfl, ?_, q, n, hq, hle, hsuffix⟩)
    rw [Cursor.textTo, hc.rest]
    rfl

lemma dropWhile_take {l t : List Char} {x : Char} {n : Nat} (h : l.dropWhile Literal.isMarkLetter = x :: t)
    (hn : (l.takeWhile Literal.isMarkLetter).length < n) : (l.take n).dropWhile Literal.isMarkLetter =
      x :: t.take (n - (l.takeWhile Literal.isMarkLetter).length - 1) := by
  have hx : Literal.isMarkLetter x = false := by
    have hhead := List.head?_dropWhile_not Literal.isMarkLetter l
    rw [h] at hhead
    simpa using hhead
  have hall := List.all_eq_true.mp (List.all_takeWhile (p := Literal.isMarkLetter) (l := l))
  generalize hk : n - (l.takeWhile Literal.isMarkLetter).length - 1 = k
  obtain rfl : n = (l.takeWhile Literal.isMarkLetter).length + (k + 1) := by omega
  calc (l.take ((l.takeWhile Literal.isMarkLetter).length + (k + 1))).dropWhile Literal.isMarkLetter
      = (l.takeWhile Literal.isMarkLetter ++ x :: t.take k).dropWhile Literal.isMarkLetter := by
        rw [List.take_add, take_takeWhile, drop_takeWhile, h, List.take_succ_cons]
    _ = (x :: t.take k).dropWhile Literal.isMarkLetter := List.dropWhile_append_of_pos hall
    _ = x :: t.take k := List.dropWhile_cons_of_neg (by simp [hx])

lemma Token.quotes (h : S.Token i p j) : ∃ x t, p.text.dropWhile Literal.isMarkLetter = x :: t ∧
    Quote.isMark x = true ∧ (x ≠ '\x60' → ∃ n, n = (if [x, x].isPrefixOf t then 3 else 1) ∧
      2 * n ≤ t.length + 1 ∧ List.replicate n x <:+ x :: t) := by
  obtain ⟨bound, n, c, d, hc, rfl, hp, rfl⟩ := h
  obtain ⟨hd, -, -, htext, q, m, hq, hle, hsuffix⟩ := gives_stringPiece_text (sound_rules S bound n) hc p d hp
  obtain ⟨t, hdrop, hmark, htriple, hm⟩ := Quote.opening?_eq_some hq rfl
  have hdle := hd.le
  have hrest : c.rest.length = S.chars.length - c.index := by rw [hc.rest, List.length_drop]
  have hletters : c.rest.length = (c.rest.takeWhile Literal.isMarkLetter).length + (t.length + 1) := by
    rw [← List.length_cons, ← hdrop, ← List.length_append, List.takeWhile_append_dropWhile]
  have hopening := Quote.length_closing_le htriple
  have hindex : (c.skip m).index = c.index + m := by
    rw [Cursor.index_skip]
    omega
  have hclosing : q.closing.length ≤ d.index - (c.skip m).index := by
    refine Nat.le_trans hsuffix.length_le ?_
    rw [between, List.length_take]
    exact Nat.min_le_left _ _
  have hpos : 0 < q.closing.length := by
    rw [Quote.length_closing]
    split_ifs <;> decide
  have htake : p.text = c.rest.take (d.index - c.index) := by rw [htext, between, ← hc.rest]
  have hbody := dropWhile_take (n := d.index - c.index) hdrop (by omega)
  rw [← htake] at hbody
  have hlength : 2 * q.closing.length ≤
      (t.take (d.index - c.index - (c.rest.takeWhile Literal.isMarkLetter).length - 1)).length + 1 := by
    rw [List.length_take]
    omega
  refine ⟨q.mark, _, hbody, hmark, fun hx => ⟨q.closing.length, ?_, hlength, ?_⟩⟩
  · rw [Quote.isPrefixOf_take_eq htriple hx (by omega), Quote.length_closing]
  · have hall : q.closing <:+ p.text := by
      rw [htext, between_append (c.le_index_skip m) hle]
      exact hsuffix.trans (List.suffix_append _ _)
    rw [Quote.replicate_length_closing, ← hbody]
    refine List.suffix_of_suffix_length_le hall (List.dropWhile_suffix _) ?_
    rw [hbody, List.length_cons]
    omega

lemma Token.isPlain_iff (h : S.Token i p j) : IsPlain p ↔ p.isFormatted = false ∧ p.isRepr = false := by
  constructor
  · rintro ⟨d, hd, hformatted⟩
    obtain ⟨hmarks, hback⟩ := Literal.formatted_of_decode hd
    exact ⟨hmarks.symm.trans hformatted, hback⟩
  · rintro ⟨hformatted, hback⟩
    obtain ⟨x, t, hbody, hmark, hquotes⟩ := h.quotes
    rw [Piece.isRepr, hbody] at hback
    have hx : x ≠ '\x60' := of_decide_eq_false hback
    obtain ⟨n, hn, hlength, hsuffix⟩ := hquotes hx
    have hquote : x = '"' ∨ x = '\'' := by simpa [Quote.isMark, hx] using hmark
    obtain ⟨d, hd, hmarks⟩ := Literal.decode_of_quotes hbody hquote hn hlength hsuffix
    exact ⟨d, hd, hmarks.trans hformatted⟩

end SourceBlocks.Lexis.Source
