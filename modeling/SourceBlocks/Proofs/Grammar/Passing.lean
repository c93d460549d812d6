import SourceBlocks.Proofs.Grammar.Widened

namespace SourceBlocks

namespace Lexis

namespace Cursor

variable {c d e : Cursor} {v w : List Char}

lemma skip_add (c : Cursor) (m n : Nat) : c.skip (m + n) = (c.skip m).skip n := by
  induction m generalizing c with
  | zero => rw [Nat.zero_add, skip]
  | succ m ih => rw [Nat.succ_add, skip, ih, skip]

structure Past (c d : Cursor) (w : List Char) : Prop where
  rest : c.rest = w ++ d.rest
  eq : d = c.skip w.length

lemma past_skip {s : List Char} (h : c.rest = w ++ s) : c.Past (c.skip w.length) w where
  rest := by rw [rest_skip, h, List.drop_left]
  eq := rfl

lemma Past.refl (c : Cursor) : c.Past c [] := ⟨rfl, rfl⟩

lemma Past.trans (h : c.Past d w) (h' : d.Past e v) : c.Past e (w ++ v) where
  rest := by rw [h.rest, h'.rest, List.append_assoc]
  eq := by rw [h'.eq, h.eq, List.length_append, skip_add]

lemma Past.index (h : c.Past d w) : d.index = c.index + w.length := by
  rw [h.eq, index_skip, h.rest]
  simp

lemma Past.textTo (h : c.Past d w) : c.textTo d.index = w := by
  rw [Cursor.textTo, h.index, h.rest, Nat.add_sub_cancel_left, List.take_left]

lemma Past.unique (h : c.Past d w) (h' : c.Past e v) (hrest : d.rest = e.rest) : d = e := by
  have hlength := congrArg List.length (h.rest.symm.trans h'.rest)
  rw [List.length_append, List.length_append, hrest, Nat.add_right_cancel_iff] at hlength
  rw [h.eq, h'.eq, hlength]

lemma Past.of_suffix (h : c.Past d w) (h' : c.Past e v) (hrest : d.rest <:+ e.rest) : ∃ u, e.Past d u := by
  obtain ⟨u, hu⟩ := hrest
  have hskip := past_skip hu.symm
  have heq := h.unique (h'.trans hskip) (List.append_cancel_left (hu.trans hskip.rest))
  exact ⟨u, heq ▸ hskip⟩

lemma past_skipGaps (c : Cursor) : c.Past c.skipGaps (c.rest.takeWhile isGap) :=
  past_skip List.takeWhile_append_dropWhile.symm

end Cursor

lemma filler?_le {s : List Char} {n : Nat} (h : filler? s = some n) : 0 < n ∧ n ≤ s.length := by
  unfold filler? at h
  split at h
  · next r =>
    obtain rfl := Option.some.inj h
    have hle := (List.takeWhile_prefix (l := r) (· ≠ '\n')).length_le
    simp only [List.length_cons]
    omega
  · obtain rfl := Option.some.inj h
    simp
  · obtain rfl := Option.some.inj h
    simp
  · split_ifs at h
    obtain rfl := Option.some.inj h
    simp
  · cases h

end Lexis

namespace Grammar

open Lexis Grammar.Parser

variable {f : Follow} {c c' d : Cursor} {σ : Option Margin} {n : Nat} {s r : List Char}
  {o : Option (List Char)}

/-! From cursor to cursor. -/

structure Alongside (c c' : Cursor) : Prop where
  indents : c'.indents = c.indents
  inFields : c'.inFields = c.inFields

lemma alongside_past {w : List Char} (h : c.Past d w) : Alongside c d :=
  ⟨by rw [h.eq, Cursor.indents_skip], by rw [h.eq, Cursor.inFields_skip]⟩

lemma Alongside.rowSays (h : Alongside c c') (f : Follow) (m : Margin) (s : List Char) :
    rowSays f c' m s = Grammar.rowSays f c m s := by
  have hindent : c'.indent = c.indent := by rw [Cursor.indent, h.indents, Cursor.indent]
  have hevent : rowEvent? (f.expect false) c' = rowEvent? (f.expect false) c := by
    funext m
    cases f with
    | line => rw [rowEvent?_line, rowEvent?_line]
    | bracket => rw [rowEvent?_bracket, rowEvent?_bracket]
    | inner => rw [rowEvent?_inner, rowEvent?_inner, hindent, h.inFields]
  rw [Grammar.rowSays, hevent, Grammar.rowSays]

lemma Alongside.leads (h : Alongside c c') (hl : Leads f c σ s o) : Leads f c' σ s o := by
  induction hl with
  | token hq hf => exact .token (fun m hm => (h.rowSays f m _).trans (hq m hm)) hf
  | filler hq hf _ ih => exact .filler (fun m hm => (h.rowSays f m _).trans (hq m hm)) hf ih
  | lineEnd hend => exact .lineEnd ((h.rowSays f _ _).trans hend)

lemma ahead_event {a : Ahead} (h : rowSays f c .start c.rest = some a) : ahead (f.expect false) (n + 1) c = a := by
  rw [rowSays, ← readsComments_expect] at h
  simp only [ahead, h]

lemma ahead_quiet (h : rowSays f c .start c.rest = none) : ahead (f.expect false) (n + 1) c =
    (filler? c.skipGaps.rest).elim (.token c.skipGaps) fun j => ahead (f.expect false) n (c.skipGaps.skip j) := by
  have hstring : (f.expect false).string = false := rfl
  rw [rowSays, ← readsComments_expect] at h
  simp only [ahead, h, hstring, Bool.and_false, Bool.false_and]
  rw [show c.skip (c.rest.takeWhile isGap).length = c.skipGaps from rfl]
  cases Margin.read? (f.expect false).readsComments false .start c.rest with
  | none => cases filler? c.skipGaps.rest <;> rfl
  | some m => cases filler? c.skipGaps.rest <;> rfl

lemma past_filler {j : Nat} (h : filler? c.skipGaps.rest = some j) :
    (∃ w, c.Past (c.skipGaps.skip j) w) ∧ (c.skipGaps.skip j).rest.length < c.rest.length := by
  obtain ⟨hpos, hle⟩ := filler?_le h
  have htake : (c.skipGaps.rest.take j).length = j := List.length_take_of_le hle
  have hskip := Cursor.past_skip (List.take_append_drop j c.skipGaps.rest).symm
  rw [htake] at hskip
  have hway := c.past_skipGaps.trans hskip
  refine ⟨⟨_, hway⟩, ?_⟩
  have hlength := congrArg List.length hway.rest
  rw [List.length_append, List.length_append, htake] at hlength
  omega

lemma leads_past_filler {j : Nat} (h : filler? c.skipGaps.rest = some j) (hrow : rowSays f c .start c.rest = none) :
    Leads f c (some .start) c.rest o ↔ Leads f (c.skipGaps.skip j) (some .start) (c.skipGaps.skip j).rest o := by
  obtain ⟨⟨w, hw⟩, -⟩ := past_filler h
  have hbeside := alongside_past hw
  have hback : Alongside (c.skipGaps.skip j) c := ⟨hbeside.indents.symm, hbeside.inFields.symm⟩
  rw [leads_some, leads_none, ← Cursor.rest_skipGaps, h, hrow, Cursor.rest_skip]
  simp only [Option.some.injEq, reduceCtorEq, false_and, false_or, true_and, exists_eq_left']
  exact ⟨hbeside.leads, hback.leads⟩

lemma leads_here (h : filler? c.skipGaps.rest = none) (hrow : rowSays f c .start c.rest = none) :
    Leads f c (some .start) c.rest o ↔ o = some c.skipGaps.rest := by
  rw [leads_some, leads_none, ← Cursor.rest_skipGaps, h, hrow]
  simp

lemma Leads.suffix (h : Leads f c σ s (some r)) : r <:+ s := by
  generalize ho : some r = o at h
  induction h with
  | token =>
    obtain rfl := Option.some.inj ho
    exact List.dropWhile_suffix _
  | filler _ _ _ ih => exact ((ih ho).trans (List.drop_suffix _ _)).trans (List.dropWhile_suffix _)
  | lineEnd => cases ho

lemma ahead_token_iff (hn : c.rest.length < n) :
    ahead (f.expect false) n c = .token d ↔ (∃ w, c.Past d w) ∧ Leads f c (some .start) c.rest (some d.rest) := by
  induction n generalizing c with
  | zero => omega
  | succ n ih =>
    cases hrow : rowSays f c .start c.rest with
    | some a =>
      have hne : a ≠ .token d := by
        rintro rfl
        obtain ⟨m, -, hm⟩ := Option.bind_eq_some_iff.mp hrow
        exact rowEvent?_ne_token hm
      rw [ahead_event hrow, leads_some, hrow]
      simp [hne]
    | none =>
      rw [ahead_quiet hrow]
      cases hfiller : filler? c.skipGaps.rest with
      | none =>
        rw [leads_here hfiller hrow, Option.elim_none, Ahead.token.injEq, Option.some.injEq]
        constructor
        · rintro rfl
          exact ⟨⟨_, c.past_skipGaps⟩, rfl⟩
        · rintro ⟨⟨w, hw⟩, hrest⟩
          exact (hw.unique c.past_skipGaps hrest).symm
      | some j =>
        obtain ⟨⟨w, hw⟩, hlt⟩ := past_filler hfiller
        rw [leads_past_filler hfiller hrow, Option.elim_some, ih (by omega)]
        constructor
        · rintro ⟨⟨v, hv⟩, hl⟩
          exact ⟨⟨_, hw.trans hv⟩, hl⟩
        · rintro ⟨⟨v, hv⟩, hl⟩
          exact ⟨hv.of_suffix hw hl.suffix, hl⟩

lemma ahead_lineEnd_iff (hn : c.rest.length < n) :
    ahead (f.expect false) n c = .lineEnd ↔ Leads f c (some .start) c.rest none := by
  induction n generalizing c with
  | zero => omega
  | succ n ih =>
    cases hrow : rowSays f c .start c.rest with
    | some a =>
      rw [ahead_event hrow, leads_some, hrow]
      simp
    | none =>
      rw [ahead_quiet hrow]
      cases hfiller : filler? c.skipGaps.rest with
      | none =>
        rw [leads_here hfiller hrow]
        simp
      | some j =>
        obtain ⟨-, hlt⟩ := past_filler hfiller
        rw [leads_past_filler hfiller hrow, Option.elim_some, ih (by omega)]

lemma look_eq_ok_iff {b : Bool} : look f false c = .ok (b, d) ↔
    b = true ∧ ahead (f.expect false) (c.total + 1) c = .token d ∨
      b = false ∧ d = c ∧ ahead (f.expect false) (c.total + 1) c = .lineEnd := by
  simp only [look, aheadHere, Bind.bind, StateT.bind, Except.bind]
  cases ahead (f.expect false) (c.total + 1) c with
  | token e =>
    change (Except.ok (true, e) : Except Position (Bool × Cursor)) = _ ↔ _
    simp [eq_comm]
  | lineEnd =>
    change (Except.ok (false, c) : Except Position (Bool × Cursor)) = _ ↔ _
    simp [eq_comm]
  | deeper n =>
    change (Except.error c.place : Except Position (Bool × Cursor)) = _ ↔ _
    simp
  | shallower =>
    change (Except.error c.place : Except Position (Bool × Cursor)) = _ ↔ _
    simp

lemma look_true_iff (hc : c.rest.length ≤ c.total) : look f false c = .ok (true, d) ↔
    (∃ w, c.Past d w) ∧ Leads f c (some .start) c.rest (some d.rest) := by
  rw [← ahead_token_iff (Nat.lt_succ_of_le hc), look_eq_ok_iff]
  simp

lemma look_false_iff (hc : c.rest.length ≤ c.total) : look f false c = .ok (false, d) ↔
    d = c ∧ Leads f c (some .start) c.rest none := by
  rw [← ahead_lineEnd_iff (Nat.lt_succ_of_le hc), look_eq_ok_iff]
  simp

end Grammar

end SourceBlocks
