import SourceBlocks.Proofs.Grammar.Spaced

/-! The string literals in a source. -/

namespace SourceBlocks.Lexis

def isBare (x : Char) : Bool := !Quote.isMark x && x ≠ '#'

lemma isBare_of_mem {x : Char} {p : Char → Bool} (hx : p x = true)
    (hp : ['"', '\'', '\x60', '#'].any p = false) : isBare x = true := by
  by_contra hbare
  have hmem : x ∈ ['"', '\'', '\x60', '#'] := by
    by_contra hnot
    simp only [List.mem_cons, List.not_mem_nil, or_false, not_or] at hnot
    simp [isBare, Quote.isMark, hnot] at hbare
  exact List.any_eq_false.mp hp x hmem hx

lemma isBare_of_isGap {x : Char} (hx : isGap x = true) : isBare x = true := isBare_of_mem hx (by decide)

lemma isBare_of_isWordPart {x : Char} (hx : isWordPart x = true) : isBare x = true := isBare_of_mem hx (by decide)

lemma isBare_of_isWordStart {x : Char} (hx : isWordStart x = true) : isBare x = true := isBare_of_mem hx (by decide)

lemma isBare_of_digit? {base : Nat} {x : Char} (hx : (Number.digit? base x).isSome = true) : isBare x = true := by
  refine isBare_of_mem (p := fun y => (Number.digit? base y).isSome) hx ?_
  simp [Number.digit?]

lemma isBare_of_isDigit {x : Char} (hx : Number.isDigit x = true) : isBare x = true := isBare_of_mem hx (by decide)

lemma isBare_of_mem_word {x : Char} {l : List Char} (hx : x ∈ word l) : isBare x = true := by
  cases l with
  | nil => simp [word] at hx
  | cons y r =>
    rw [word] at hx
    split_ifs at hx with hy
    · rcases List.mem_cons.mp hx with rfl | hx
      · exact isBare_of_isWordStart hy
      · exact isBare_of_isWordPart (List.all_eq_true.mp List.all_takeWhile x hx)
    · cases hx

def BareUpTo (n : Nat) (l : List Char) : Prop := ∀ x ∈ l.take n, isBare x = true

instance (n : Nat) (l : List Char) : Decidable (BareUpTo n l) :=
  decidable_of_iff ((l.take n).all isBare = true) List.all_eq_true

namespace BareUpTo

variable {n m : Nat} {l : List Char}

lemma zero : BareUpTo 0 l := by simp [BareUpTo]

lemma add (h : BareUpTo n l) (h' : BareUpTo m (l.drop n)) : BareUpTo (n + m) l := by
  intro x hx
  rw [List.take_add, List.mem_append] at hx
  exact hx.elim (h x) (h' x)

lemma succ {x : Char} (hx : isBare x = true) (h : BareUpTo n l) : BareUpTo (n + 1) (x :: l) := by
  simpa [BareUpTo, hx] using h

lemma of_isPrefixOf {s : List Char} (hs : s.all isBare = true) (h : s.isPrefixOf l = true) : BareUpTo s.length l := by
  obtain ⟨r, rfl⟩ := List.isPrefixOf_iff_prefix.mp h
  intro x hx
  rw [List.take_left] at hx
  exact List.all_eq_true.mp hs x hx

lemma of_word : BareUpTo (word l).length l := by
  have htake : l.take (word l).length = word l := by
    cases l with
    | nil => rfl
    | cons x r =>
      rw [word]
      split_ifs
      · simp [take_takeWhile]
      · rfl
  intro x hx
  exact isBare_of_mem_word (htake ▸ hx)

lemma of_digitRun (afterDigit : Bool) (l : List Char) : BareUpTo (digitRun afterDigit l) l := by
  fun_induction digitRun afterDigit l with
  | case1 => exact .zero
  | case2 _ c r hc ih => exact .succ (isBare_of_isDigit hc) ih
  | case3 _ c r _ hc ih =>
    obtain ⟨-, rfl⟩ : _ ∧ c = '_' := by simpa using hc
    exact .succ (by decide) ih
  | case4 => exact .zero

lemma of_basedRun (base : Nat) (l : List Char) : BareUpTo (basedRun base l) l := by
  induction l with
  | nil => exact .zero
  | cons c r ih =>
    unfold basedRun
    split_ifs with hc hunder
    · exact .succ (isBare_of_digit? hc) ih
    · subst hunder
      split
      · split_ifs
        · exact .succ (by decide) ih
        · exact .zero
      · exact .zero
    · exact .zero

lemma of_suffixLength {letters : List Char} (hl : letters.all isBare = true) (l : List Char) :
    BareUpTo (suffixLength letters l) l := by
  cases l with
  | nil => exact .zero
  | cons c r =>
    rw [suffixLength]
    split_ifs with hc
    · exact .succ (List.all_eq_true.mp hl c hc) .zero
    · exact .zero

lemma of_exponentLength (l : List Char) : BareUpTo (exponentLength l) l := by
  cases l with
  | nil => exact .zero
  | cons e r =>
    simp only [exponentLength]
    split_ifs with he
    · exact .zero
    · have hletter : isBare e = true := by rcases he with rfl | rfl <;> decide
      rw [Nat.add_assoc, Nat.add_comm]
      refine .succ hletter (.add ?_ (of_digitRun _ _))
      cases r with
      | nil => exact .zero
      | cons c r =>
        dsimp only
        split_ifs with hc
        · have hsome : c = '+' ∨ c = '-' := by simpa [isSign] using hc
          exact .succ (by rcases hsome with rfl | rfl <;> decide) .zero
        · exact .zero
    · exact .zero

lemma withSuffix {letters : List Char} (hl : letters.all isBare = true) (h : BareUpTo n l) :
    BareUpTo (withSuffix letters l n) l := h.add (of_suffixLength hl _)

lemma withExponent (h : BareUpTo n l) : BareUpTo (withExponent l n) l := h.add (of_exponentLength _)

lemma of_announcedBase? {base : Nat} (h : announcedBase? l = some base) : BareUpTo 2 l := by
  fun_cases announcedBase? l with
  | case1 c r hc | case2 c r _ hc | case3 c r _ _ hc =>
    exact .succ (by decide) (.succ (by rcases hc with rfl | rfl <;> decide) .zero)
  | case4 c r hx ho hb => simp [announcedBase?, hx, ho, hb] at h
  | case5 => simp_all [announcedBase?]

lemma of_basedLength (l : List Char) : BareUpTo (basedLength l) l := by
  unfold basedLength
  split
  · next base hbase =>
    dsimp only
    split_ifs
    · exact .zero
    · exact .withSuffix (by decide) ((of_announcedBase? hbase).add (of_basedRun _ _))
  · exact .zero

lemma of_decimalLength (l : List Char) : BareUpTo (decimalLength l) l := by
  unfold decimalLength
  have hwhole := of_digitRun false l
  dsimp only
  split
  · next places hplaces =>
    split_ifs
    · exact .zero
    · refine .withSuffix (by decide) (.withExponent ?_)
      split at hplaces
      · next r hr =>
        obtain rfl := Option.some.inj hplaces
        rw [Nat.add_assoc, Nat.add_comm 1]
        exact hwhole.add (hr ▸ .succ (by decide) (of_digitRun _ _))
      · cases hplaces
  · split_ifs
    · exact .zero
    · exact .withSuffix (by decide) (.withExponent hwhole)

lemma of_numeralLength (l : List Char) : BareUpTo (numeralLength l) l := by
  unfold numeralLength
  rcases Nat.le_total (basedLength l) (decimalLength l) with h | h
  · rw [Nat.max_eq_right h]
    exact of_decimalLength l
  · rw [Nat.max_eq_left h]
    exact of_basedLength l

end BareUpTo

namespace Margin

variable {m m₁ m' : Margin} {l : List Char}

def TakesBare (m m' : Margin) (l : List Char) : Prop :=
  ∃ a r, l = a ++ r ∧ m'.length = m.length + a.length ∧ ∀ x ∈ a, isBare x = true

lemma TakesBare.append {u : List Char} (h : TakesBare m₁ m' l) (hlength : m₁.length = m.length + u.length)
    (hu : u.all isBare = true) : TakesBare m m' (u ++ l) := by
  obtain ⟨a, r, rfl, ha, hbare⟩ := h
  refine ⟨u ++ a, r, by simp, by simp [ha, hlength, Nat.add_assoc], fun x hx => ?_⟩
  exact (List.mem_append.mp hx).elim (List.all_eq_true.mp hu x) (hbare x)

lemma read?_bare {comments inComment : Bool} (h : read? comments inComment m l = some m') (hm' : m'.comment = none)
    (hin : inComment = false) : TakesBare m m' l := by
  fun_induction read? comments inComment m l with
  | case1 =>
    obtain rfl := Option.some.inj h
    exact ⟨[], [], rfl, rfl, by simp⟩
  | case2 _ _ _ ih => exact (ih h rfl).append (u := ['\n']) rfl (by decide)
  | case3 | case5 | case7 | case8 => cases hin
  | case4 _ _ _ _ ih => exact (ih h rfl).append (u := ['\\', '\n']) rfl (by decide)
  | case6 _ _ _ _ ih => exact (ih h rfl).append (u := ['\\', '\r', '\n']) rfl (by decide)
  | case9 _ _ _ _ _ _ _ ih => exact (ih h rfl).append (u := [' ']) rfl (by decide)
  | case10 _ _ _ _ _ _ _ _ ih => exact (ih h rfl).append (u := ['\t']) rfl (by decide)
  | case11 _ _ c _ _ _ _ _ _ _ hc ih =>
    refine (ih h rfl).append (u := [c]) rfl ?_
    simpa using isBare_of_isGap (isGap_of_feed hc)
  | case12 =>
    obtain ⟨_, _, _, ht⟩ := read?_takes h
    exact absurd (ht.comment hm') (by simp)
  | case13 | case15 => cases h
  | case14 _ _ r _ hr =>
    obtain rfl := Option.some.inj h
    refine ⟨'\\' :: r, [], by simp, by simp; omega, ?_⟩
    rcases hr with rfl | rfl <;> exact List.all_eq_true.mp (by decide)
  | case16 _ _ c r =>
    obtain rfl := Option.some.inj h
    exact ⟨[], c :: r, rfl, rfl, by simp⟩

end Margin

end SourceBlocks.Lexis

namespace SourceBlocks.Lexis.Source

open Grammar Grammar.Parser

variable {S : Source} {c d : Cursor} {i j k : Nat}

def Token (S : Source) (i : Nat) (p : Piece) (j : Nat) : Prop :=
  ∃ bound n c d, S.Has c ∧ c.index = i ∧ stringPiece (rules bound n : Rules Tree.Node) c = .ok (p, d) ∧ d.index = j

def Next (S : Source) (i j : Nat) : Prop :=
  ∃ follow string c d, S.Has c ∧ c.index = i ∧ look follow string c = .ok (true, d) ∧ d.index = j

def Ends (S : Source) (i : Nat) : Prop :=
  (∃ follow string c d, S.Has c ∧ c.index = i ∧ look follow string c = .ok (false, d)) ∨
    ∃ j, S.Next i j ∧ Quote.atStart? (S.chars.drop j) = none

inductive IsRun (S : Source) : Nat → List Piece → Nat → Prop
  | last {i j : Nat} {p : Piece} : S.Token i p j → S.Ends j → IsRun S i [p] j
  | more {i j k m : Nat} {p : Piece} {ps : List Piece} : S.Token i p j → S.Next j k → IsRun S k ps m →
      IsRun S i (p :: ps) m

inductive Scans (S : Source) : Nat → List (List Piece) → Nat → Prop
  | nil {i : Nat} : Scans S i [] i
  | char {i j : Nat} {x : Char} {rs : List (List Piece)} : S.chars[i]? = some x → isBare x = true →
      Scans S (i + 1) rs j → Scans S i rs j
  | comment {i j k : Nat} {rs : List (List Piece)} : S.chars[i]? = some '#' → i < k → '\n' ∉ S.between i k →
      AtRowEnd (S.chars.drop k) → Scans S k rs j → Scans S i rs j
  | run {i j k : Nat} {ps : List Piece} {rs : List (List Piece)} : S.IsRun i ps k → Scans S k rs j →
      Scans S i (ps :: rs) j

lemma Scans.append {rs rs' : List (List Piece)} (h : S.Scans i rs j) (h' : S.Scans j rs' k) :
    S.Scans i (rs ++ rs') k := by
  induction h with
  | nil => exact h'
  | char hx hbare _ ih => exact .char hx hbare (ih h')
  | comment hx hlt hrow hend _ ih => exact .comment hx hlt hrow hend (ih h')
  | run hps _ ih => exact .run hps (ih h')

abbrev Passes (S : Source) (i j : Nat) : Prop := S.Scans i [] j

lemma Passes.trans (h : S.Passes i j) (h' : S.Passes j k) : S.Passes i k := Scans.append h h'

lemma Has.getElem?_index (hc : S.Has c) : S.chars[c.index]? = c.rest.head? := by
  rw [hc.rest, List.head?_drop]

lemma Has.passes_skip (hc : S.Has c) {n : Nat} (h : BareUpTo n c.rest) : S.Passes c.index (c.skip n).index := by
  induction n generalizing c with
  | zero => exact .nil
  | succ n ih =>
    rw [Cursor.skip]
    cases hr : c.rest with
    | nil =>
      have hstep : c.step = c := by simp [Cursor.step, hr]
      rw [hstep]
      exact ih hc (by simp [BareUpTo, hr])
    | cons x r =>
      have hstep : c.step.rest = r := by rw [Cursor.rest_step, hr, List.tail_cons]
      have hindex : c.step.index = c.index + 1 := by simp [Cursor.index_step, hr]
      have hx : S.chars[c.index]? = some x := by rw [hc.getElem?_index, hr, List.head?_cons]
      rw [hr] at h
      refine .char hx (h x (by simp)) (hindex ▸ ih hc.step fun y hy => h y ?_)
      rw [hstep] at hy
      simp [hy]

lemma Has.passes_comment (hc : S.Has c) {r : List Char} (hr : c.rest = '#' :: r) :
    S.Passes c.index (c.skip ((r.takeWhile (· ≠ '\n')).length + 1)).index := by
  have hx : S.chars[c.index]? = some '#' := by rw [hc.getElem?_index, hr, List.head?_cons]
  refine .comment hx (lt_index_skip (by simp [hr]) (by simp)) ?_ ?_ .nil
  · rw [between_skip hc, hr, List.take_succ_cons, take_takeWhile]
    simpa using not_mem_takeWhile (by simp) r
  · rw [← (hc.skip _).rest, Cursor.rest_skip, hr, List.drop_succ_cons, drop_takeWhile]
    cases hd : r.dropWhile (· ≠ '\n') with
    | nil => exact .inl rfl
    | cons y r' =>
      have hy := List.head?_dropWhile_not (· ≠ '\n') r
      rw [hd] at hy
      exact .inr (by simpa using hy)

lemma Has.passes_filler (hc : S.Has c) {n : Nat} (h : filler? c.rest = some n) :
    S.Passes c.index (c.skip n).index := by
  unfold filler? at h
  split at h
  · next r hr =>
    obtain rfl := Option.some.inj h
    exact hc.passes_comment hr
  · next hr =>
    obtain rfl := Option.some.inj h
    exact hc.passes_skip (hr ▸ .succ (by decide) (.succ (by decide) .zero))
  · next hr =>
    obtain rfl := Option.some.inj h
    exact hc.passes_skip (hr ▸ .succ (by decide) (.succ (by decide) (.succ (by decide) .zero)))
  · next x r _ _ hr =>
    split_ifs at h with hx
    obtain rfl := Option.some.inj h
    have hbare : isBare x = true := isBare_of_mem (p := fun y => y.toNat = 0) (by simpa using hx) (by decide)
    exact hc.passes_skip (hr ▸ .succ (by decide) (.succ hbare .zero))
  · cases h

lemma Has.passes_ahead {e : Expectation} {n : Nat} (hc : S.Has c) (h : ahead e n c = .token d) :
    S.Passes c.index d.index := by
  induction n generalizing c with
  | zero =>
    obtain rfl : c = d := by simpa [ahead] using h
    exact .nil
  | succ n ih =>
    have hgaps : S.Passes c.index c.skipGaps.index := by
      refine hc.passes_skip fun x hx => isBare_of_isGap ?_
      rw [take_takeWhile] at hx
      exact List.all_eq_true.mp List.all_takeWhile x hx
    rcases ahead_succ_token h with ⟨m, hm, hcomment, -, rfl⟩ | ⟨-, rfl⟩ | ⟨k, hk, h⟩
    · obtain ⟨a, r, hr, hlength, hbare⟩ := Margin.read?_bare hm hcomment rfl
      refine hc.passes_skip fun x hx => hbare x ?_
      rwa [hr, hlength, show Margin.start.length = 0 from rfl, Nat.zero_add, List.take_left] at hx
    · exact hgaps
    · have hskip : S.Has c.skipGaps := hc.skip _
      exact hgaps.trans ((hskip.passes_filler hk).trans (ih (hskip.skip k) h))

end SourceBlocks.Lexis.Source
