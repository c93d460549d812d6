import SourceBlocks.Lexis.Layout
import SourceBlocks.Proofs.Text.Extent

namespace SourceBlocks.Lexis

structure Source where
  margin : Nat
  chars : List Char

namespace Source

variable (S : Source)

def placeAt (i : Nat) : Position :=
  ⟨(Text.extent (S.chars.take i)).row, S.margin + (Text.extent (S.chars.take i)).offset⟩

structure Has (c : Cursor) : Prop where
  rest : c.rest = S.chars.drop c.index
  place : c.place = S.placeAt c.index
  margin : c.margin = S.margin
  le : c.index ≤ S.chars.length

variable {S}

lemma placeAt_lt {i j : Nat} (hij : i < j) (hj : j ≤ S.chars.length) : S.placeAt i < S.placeAt j := by
  have h := Text.extent_take_lt hij hj
  simp only [placeAt, Position.lt_def] at *
  omega

lemma placeAt_le {i j : Nat} (hij : i ≤ j) (hj : j ≤ S.chars.length) : S.placeAt i ≤ S.placeAt j := by
  rcases Nat.eq_or_lt_of_le hij with rfl | hlt
  · exact Position.le_refl _
  · exact Position.le_of_lt (placeAt_lt hlt hj)

lemma has_ofSource (S : Source) : S.Has (.ofSource S.margin S.chars) where
  rest := rfl
  place := by simp [Cursor.ofSource, placeAt, Text.extent_nil, Position.start]
  margin := rfl
  le := Nat.zero_le _

lemma placeAt_succ {i : Nat} {x : Char} {r : List Char} (h : S.chars.drop i = x :: r) :
    S.placeAt (i + 1) = if x = '\n' then ⟨(S.placeAt i).row + 1, S.margin⟩
      else ⟨(S.placeAt i).row, (S.placeAt i).offset + 1⟩ := by
  have htake : S.chars.take (i + 1) = S.chars.take i ++ [x] := by
    have hx : S.chars[i]? = some x := by
      rw [← List.head?_drop, h, List.head?_cons]
    rw [List.take_add_one, hx, Option.toList_some]
  simp only [placeAt, htake, Text.extent_append, Text.extent_cons, Text.extent_nil,
    Position.plus_start, Text.charExtent]
  split_ifs <;> simp [Position.plus, Position.advance, Nat.add_assoc]

lemma Has.step {c : Cursor} (h : S.Has c) : S.Has c.step := by
  cases hr : c.rest with
  | nil => simpa [Cursor.step, hr] using h
  | cons x r =>
    have hd : S.chars.drop c.index = x :: r := by rw [← h.rest, hr]
    have hlt : c.index < S.chars.length := by
      by_contra hge
      rw [List.drop_eq_nil_of_le (by omega)] at hd
      exact absurd hd (by simp)
    simp only [Cursor.step, hr]
    refine ⟨?_, ?_, h.margin, hlt⟩
    · dsimp only
      rw [← List.drop_drop, hd, List.drop_one, List.tail_cons]
    · dsimp only
      rw [placeAt_succ hd, h.place, h.margin]

lemma Has.skip {c : Cursor} (h : S.Has c) (n : Nat) : S.Has (c.skip n) := by
  induction n generalizing c with
  | zero => exact h
  | succ n ih => exact ih h.step

lemma Has.of_eq {c d : Cursor} (h : S.Has c) (hr : d.rest = c.rest) (hi : d.index = c.index)
    (hp : d.place = c.place) (hm : d.margin = c.margin) : S.Has d where
  rest := by rw [hr, hi, h.rest]
  place := by rw [hp, hi, h.place]
  margin := by rw [hm, h.margin]
  le := by rw [hi]; exact h.le

end Source

namespace Cursor

lemma index_step (c : Cursor) : c.step.index = if c.rest = [] then c.index else c.index + 1 := by
  cases hr : c.rest <;> simp [step, hr]

lemma rest_step (c : Cursor) : c.step.rest = c.rest.tail := by
  cases hr : c.rest <;> simp [step, hr]

lemma index_skip (c : Cursor) (n : Nat) : (c.skip n).index = c.index + min n c.rest.length := by
  induction n generalizing c with
  | zero => simp [skip]
  | succ n ih =>
    rw [skip, ih, index_step, rest_step, List.length_tail]
    cases hr : c.rest with
    | nil => simp
    | cons x r => simp; omega

lemma le_index_skip (c : Cursor) (n : Nat) : c.index ≤ (c.skip n).index := by
  rw [index_skip]
  omega

lemma indents_skip (c : Cursor) (n : Nat) : (c.skip n).indents = c.indents := by
  induction n generalizing c with
  | zero => rfl
  | succ n ih =>
    rw [skip, ih]
    cases hr : c.rest <;> simp [step, hr]

lemma inFields_skip (c : Cursor) (n : Nat) : (c.skip n).inFields = c.inFields := by
  induction n generalizing c with
  | zero => rfl
  | succ n ih =>
    rw [skip, ih]
    cases hr : c.rest <;> simp [step, hr]

lemma total_skip (c : Cursor) (n : Nat) : (c.skip n).total = c.total := by
  induction n generalizing c with
  | zero => rfl
  | succ n ih =>
    rw [skip, ih]
    cases hr : c.rest <;> simp [step, hr]

end Cursor

lemma ahead_token {S : Source} {e : Expectation} {n : Nat} {c d : Cursor} (hc : S.Has c)
    (h : ahead e n c = .token d) : S.Has d ∧ c.index ≤ d.index := by
  induction n generalizing c with
  | zero =>
    obtain rfl : c = d := by simpa [ahead] using h
    exact ⟨hc, Nat.le_refl _⟩
  | succ n ih =>
    rw [ahead] at h
    dsimp only at h
    split at h
    · next a ha =>
      -- a row event is never a token
      subst h
      obtain ⟨m, -, hm⟩ := Option.bind_eq_some_iff.mp ha
      simp only [rowEvent?] at hm
      split_ifs at hm <;> cases hm
    · split at h
      · obtain rfl := Ahead.token.inj h
        exact ⟨hc.skip _, c.le_index_skip _⟩
      · split at h
        · obtain ⟨hd, hle⟩ := ih ((hc.skip _).skip _) h
          exact ⟨hd, Nat.le_trans (Nat.le_trans (c.le_index_skip _) (Cursor.le_index_skip _ _)) hle⟩
        · obtain rfl := Ahead.token.inj h
          exact ⟨hc.skip _, c.le_index_skip _⟩

end SourceBlocks.Lexis
