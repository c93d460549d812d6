import SourceBlocks.Proofs.Grammar.Reaches
import SourceBlocks.Proofs.Lexis.Layout

/-! Blanks that are put between two tokens. -/

namespace SourceBlocks

namespace Lexis

def InMargin (c : Char) : Prop := c = ' ' ∨ c = '\t' ∨ c = '\n' ∨ c = '\r' ∨ c.toNat = 12

instance (c : Char) : Decidable (InMargin c) := inferInstanceAs (Decidable (_ ∨ _))

def Continues (u : List Char) : Prop := u = ['\\', '\n'] ∨ u = ['\\', '\r', '\n']

lemma Continues.mem {u : List Char} (hu : Continues u) : '\n' ∈ u := by
  rcases hu with rfl | rfl <;> simp

def CommentBody (s : List Char) : Prop := ∀ x ∈ s, x ≠ '\n' ∧ x.toNat ≠ 0

lemma InMargin.isGap {c : Char} (hc : InMargin c) : isGap c = true := by
  rcases hc with rfl | rfl | rfl | rfl | hc
  · rfl
  · rfl
  · rfl
  · rfl
  · simp [Lexis.isGap, hc]

namespace Margin

variable {comments : Bool} {m : Margin} {c : Char} {s u : List Char}

def pass (m : Margin) (c : Char) : Margin :=
  { m with
    rowEnded := m.rowEnded || c = '\n'
    column := if c = ' ' then m.column + 1 else if c = '\t' then m.column + 8 else 0
    length := m.length + 1 }

lemma read?_pass (hc : InMargin c) : read? comments false m (c :: s) = read? comments false (m.pass c) s := by
  rcases hc with rfl | rfl | rfl | rfl | hc
  · rw [read?] <;> simp [pass]
  · rw [read?] <;> simp [pass]
  · simp [read?, pass]
  · rw [read?] <;> simp [pass]
  · have hne : ∀ d : Char, d.toNat ≠ 12 → c ≠ d := by
      rintro d hd rfl
      exact hd hc
    rw [read?]
    · simp [pass, hc, hne ' ' (by decide), hne '\t' (by decide), hne '\n' (by decide)]
    · exact hne _ (by decide)
    · exact fun r h => absurd h (hne _ (by decide))
    · exact fun r h => absurd h (hne _ (by decide))

lemma read?_continues (hu : Continues u) :
    read? comments false m (u ++ s) = read? comments false { m with length := m.length + u.length } s := by
  rcases hu with rfl | rfl <;> simp [read?]

lemma read?_odd (hgap : isGap c = true) (hc : ¬ InMargin c) :
    read? comments false m (c :: s) = some { m with rest := c :: s } := by
  simp only [InMargin, not_or] at hc
  have hhash : c ≠ '#' := by
    rintro rfl
    exact absurd hgap (by decide)
  have hslash : c ≠ '\\' := by
    rintro rfl
    exact absurd hgap (by decide)
  rw [read?]
  · simp [hc, hhash, hslash]
  · exact hc.2.2.1
  · exact fun r h => absurd h hslash
  · exact fun r h => absurd h hslash

lemma read?_hash : read? comments false m ('#' :: s) =
    if comments then
      if m.rowEnded then
        read? comments true { m with comment := some (m.comment.getD m.column), length := m.length + 1 } s
      else none
    else some { m with rest := '#' :: s } := by
  rw [read?]
  · cases comments <;> simp
  all_goals simp

lemma read?_commentBody (hs : CommentBody s) (m : Margin) :
    ∃ m', (m.rowEnded = true → m'.rowEnded = true) ∧
      ∀ r, read? comments true m (s ++ '\n' :: r) = read? comments false m' r := by
  induction s generalizing m with
  | nil => exact ⟨{ m with rowEnded := true, column := 0, length := m.length + 1 }, fun _ => rfl, fun r => by simp [read?]⟩
  | cons c s ih =>
    by_cases hslash : c = '\\' ∧ s = []
    · obtain ⟨rfl, rfl⟩ := hslash
      exact ⟨{ m with column := 0, length := m.length + 2 }, id, fun r => by simp [read?]⟩
    by_cases hreturn : c = '\\' ∧ s = ['\r']
    · obtain ⟨rfl, rfl⟩ := hreturn
      exact ⟨{ m with column := 0, length := m.length + 3 }, id, fun r => by simp [read?]⟩
    have hc := hs c List.mem_cons_self
    have hbody : CommentBody s := fun x hx => hs x (List.mem_cons_of_mem c hx)
    have hhead : ∀ x t, s ++ '\n' :: t = '\n' :: x → s = [] := by
      intro x t heq
      cases s with
      | nil => rfl
      | cons y s => exact absurd (List.cons.inj heq).1 (hbody y List.mem_cons_self).1
    obtain ⟨m', hrow, hread⟩ := ih hbody { m with length := m.length + 1 }
    refine ⟨m', hrow, fun r => ?_⟩
    rw [List.cons_append, read?, if_pos rfl, if_neg hc.2]
    · exact hread r
    · exact hc.1
    · exact fun x hx heq => hslash ⟨hx, hhead x r heq⟩
    · intro x hx heq
      cases s with
      | nil => cases heq
      | cons y s =>
        obtain ⟨rfl, htail⟩ := List.cons.inj heq
        cases s with
        | nil => exact hreturn ⟨hx, rfl⟩
        | cons z s =>
          obtain ⟨rfl, -⟩ := List.cons.inj htail
          exact (hbody '\n' (by simp)).1 rfl

end Margin

end Lexis

namespace Grammar

open Lexis

variable {f : Follow} {k : Cursor} {m m' : Margin} {s t l : List Char} {o : Option (List Char)}

/-! Rows that end. -/

def rowSays (f : Follow) (k : Cursor) (m : Margin) (s : List Char) : Option Ahead :=
  (Margin.read? (decide (f = .line)) false m s).bind (rowEvent? (f.expect false) k)

lemma readsComments_expect (f : Follow) : (f.expect false).readsComments = decide (f = .line) := by
  cases f <;> rfl

lemma rowEvent?_line (k : Cursor) (m : Margin) :
    rowEvent? (Follow.line.expect false) k m = if m.rowEnded then some .lineEnd else none := by
  cases h : m.rowEnded <;> simp [rowEvent?, Follow.expect, Expectation.nothing, h]

lemma rowEvent?_bracket (k : Cursor) (m : Margin) : rowEvent? (Follow.bracket.expect false) k m = none := by
  simp [rowEvent?, Follow.expect, Expectation.nothing]

lemma rowEvent?_inner (k : Cursor) (m : Margin) :
    rowEvent? (Follow.inner.expect false) k m =
      if m.rowEnded ∧ m.column < k.indent ∧ k.inFields = false ∧ (m.comment.map fun n => decide (n < k.indent)).getD true
      then some .shallower else none := by
  cases h : m.rowEnded <;> simp [rowEvent?, Follow.expect, Expectation.nothing, h, and_assoc]

lemma rowSays_lineEnd {a : Ahead} (h : rowSays .line k m s = some a) : a = .lineEnd := by
  obtain ⟨n, -, hn⟩ := Option.bind_eq_some_iff.mp h
  rw [rowEvent?_line] at hn
  split_ifs at hn
  exact (Option.some.inj hn).symm

lemma eq_line_of_rowEvent? (h : rowEvent? (f.expect false) k m = some .lineEnd) : f = .line := by
  cases f with
  | line => rfl
  | bracket => simp [rowEvent?_bracket] at h
  | inner =>
    rw [rowEvent?_inner] at h
    split_ifs at h
    cases h

lemma eq_line_of_rowSays (h : rowSays f k m s = some .lineEnd) : f = .line := by
  obtain ⟨n, -, hn⟩ := Option.bind_eq_some_iff.mp h
  exact eq_line_of_rowEvent? hn

structure Safer (f : Follow) (m m' : Margin) : Prop where
  rowEnded : m.rowEnded = true → m'.rowEnded = true
  column : f ≠ .line → m.rowEnded = true → m'.column ≤ m.column
  comment : f ≠ .line → m'.comment = none

lemma Safer.rowEvent? (h : Safer f m m') (hm : rowEvent? (f.expect false) k m' = none) :
    Lexis.rowEvent? (f.expect false) k m = none := by
  cases f with
  | line =>
    rw [rowEvent?_line, ite_eq_right_iff] at hm ⊢
    intro hrow
    exact hm (h.rowEnded hrow)
  | bracket => exact rowEvent?_bracket k m
  | inner =>
    rw [rowEvent?_inner, ite_eq_right_iff] at hm ⊢
    rintro ⟨hrow, hcolumn, hfields, -⟩
    have hle := h.column (by simp) hrow
    refine hm ⟨h.rowEnded hrow, by omega, hfields, ?_⟩
    rw [h.comment (by simp)]
    rfl

lemma Safer.read? {b : Bool} {n : Margin} (h : Safer f m m')
    (hm : Margin.read? (decide (f = .line)) b m s = some n) :
    ∃ n', Margin.read? (decide (f = .line)) b m' s = some n' ∧ Safer f n n' := by
  generalize hcomments : decide (f = .line) = comments at hm ⊢
  fun_induction Margin.read? comments b m s generalizing m' with
  | case1 m =>
    obtain rfl := Option.some.inj hm
    exact ⟨_, rfl, fun _ => rfl, fun _ _ => Nat.le_refl 0, h.comment⟩
  | case2 m b r ih =>
    rw [Margin.read?]
    exact ih ⟨fun _ => rfl, fun _ _ => Nat.le_refl 0, h.comment⟩ hm
  | case3 m r ih =>
    rw [Margin.read?]
    exact ih ⟨h.rowEnded, fun _ _ => Nat.le_refl 0, h.comment⟩ hm
  | case4 m b r hb ih =>
    rw [Margin.read?, if_neg hb]
    exact ih ⟨h.rowEnded, h.column, h.comment⟩ hm
  | case5 m r ih =>
    rw [Margin.read?]
    exact ih ⟨h.rowEnded, fun _ _ => Nat.le_refl 0, h.comment⟩ hm
  | case6 m b r hb ih =>
    rw [Margin.read?, if_neg hb]
    exact ih ⟨h.rowEnded, h.column, h.comment⟩ hm
  | case7 m c r h1 h2 h3 hc ih =>
    rw [Margin.read?, if_pos rfl, if_pos hc]
    · exact ih ⟨h.rowEnded, fun _ _ => Nat.le_refl 0, h.comment⟩ hm
    all_goals assumption
  | case8 m c r h1 h2 h3 hc ih =>
    rw [Margin.read?, if_pos rfl, if_neg hc]
    · exact ih ⟨h.rowEnded, h.column, h.comment⟩ hm
    all_goals assumption
  | case9 b m r hb h1 h2 h3 ih =>
    rw [Margin.read?, if_neg hb, if_pos rfl]
    · exact ih ⟨h.rowEnded, fun hf hrow => Nat.succ_le_succ (h.column hf hrow), h.comment⟩ hm
    all_goals assumption
  | case10 b m r hb h1 h2 h3 hspace ih =>
    rw [Margin.read?, if_neg hb, if_neg hspace, if_pos rfl]
    · exact ih ⟨h.rowEnded, fun hf hrow => Nat.add_le_add_right (h.column hf hrow) 8, h.comment⟩ hm
    all_goals assumption
  | case11 b m c r h1 h2 h3 hb hspace htab hfeed ih =>
    rw [Margin.read?, if_neg hb, if_neg hspace, if_neg htab, if_pos hfeed]
    · exact ih ⟨h.rowEnded, fun _ _ => Nat.le_refl 0, h.comment⟩ hm
    all_goals assumption
  | case12 b m c r h1 h2 h3 hb hspace htab hfeed hhash hrow ih =>
    have hline : f = .line := by simpa [hhash.2] using hcomments
    rw [Margin.read?, if_neg hb, if_neg hspace, if_neg htab, if_neg hfeed, if_pos hhash, if_pos (h.rowEnded hrow)]
    · exact ih ⟨h.rowEnded, fun hf => absurd hline hf, fun hf => absurd hline hf⟩ hm
    all_goals assumption
  | case13 | case15 => cases hm
  | case14 b m r hb hend h1 h2 h3 hspace htab hfeed hhash =>
    obtain rfl := Option.some.inj hm
    rw [Margin.read?, if_neg hb, if_neg hspace, if_neg htab, if_neg hfeed, if_neg hhash, if_pos rfl, if_pos hend]
    · exact ⟨_, rfl, fun _ => rfl, fun _ _ => Nat.le_refl 0, h.comment⟩
    all_goals assumption
  | case16 b m c r h1 h2 h3 hb hspace htab hfeed hhash hslash =>
    obtain rfl := Option.some.inj hm
    rw [Margin.read?, if_neg hb, if_neg hspace, if_neg htab, if_neg hfeed, if_neg hhash, if_neg hslash]
    · exact ⟨_, rfl, h.rowEnded, h.column, h.comment⟩
    all_goals assumption

lemma Safer.rowSays (h : Safer f m m') (hm : rowSays f k m' s = none) : Grammar.rowSays f k m s = none := by
  by_contra hne
  obtain ⟨a, ha⟩ := Option.ne_none_iff_exists'.mp hne
  obtain ⟨n, hn, hevent⟩ := Option.bind_eq_some_iff.mp ha
  obtain ⟨n', hn', hsafer⟩ := h.read? hn
  rw [Grammar.rowSays, hn', Option.bind_some] at hm
  rw [hsafer.rowEvent? hm] at hevent
  cases hevent

lemma rowSays_line (h : m.rowEnded = m'.rowEnded) (k : Cursor) (s : List Char) :
    rowSays .line k m s = rowSays .line k m' s := by
  have hsafer : Safer .line m' m := ⟨fun hm => h.trans hm, fun hf => absurd rfl hf, fun hf => absurd rfl hf⟩
  have hsafer' : Safer .line m m' := ⟨fun hm => h.symm.trans hm, fun hf => absurd rfl hf, fun hf => absurd rfl hf⟩
  cases hm : rowSays .line k m s with
  | none => exact (hsafer.rowSays hm).symm
  | some a =>
    cases hm' : rowSays .line k m' s with
    | none =>
      rw [hsafer'.rowSays hm'] at hm
      cases hm
    | some b => rw [rowSays_lineEnd hm, rowSays_lineEnd hm']

def Uncommented (f : Follow) (m : Margin) : Prop := f ≠ .line → m.comment = none

lemma safer_start (hm : Uncommented f m) : Safer f .start m :=
  ⟨fun h => absurd h Bool.false_ne_true, fun _ h => absurd h Bool.false_ne_true, hm⟩

/-! Where a gap leads. -/

inductive Leads (f : Follow) (k : Cursor) : Option Margin → List Char → Option (List Char) → Prop
  | token {σ : Option Margin} {s : List Char} : (∀ m ∈ σ, rowSays f k m s = none) →
      filler? (s.dropWhile isGap) = none → Leads f k σ s (some (s.dropWhile isGap))
  | filler {σ : Option Margin} {s : List Char} {n : Nat} {o : Option (List Char)} : (∀ m ∈ σ, rowSays f k m s = none) →
      filler? (s.dropWhile isGap) = some n → Leads f k (some .start) ((s.dropWhile isGap).drop n) o → Leads f k σ s o
  | lineEnd {m : Margin} {s : List Char} : rowSays f k m s = some .lineEnd → Leads f k (some m) s none

lemma leads_some : Leads f k (some m) s o ↔
    rowSays f k m s = some .lineEnd ∧ o = none ∨ rowSays f k m s = none ∧ Leads f k none s o := by
  constructor
  · intro h
    cases h with
    | token hq hf => exact .inr ⟨hq m rfl, .token (by simp) hf⟩
    | filler hq hf ht => exact .inr ⟨hq m rfl, .filler (by simp) hf ht⟩
    | lineEnd h => exact .inl ⟨h, rfl⟩
  · rintro (⟨h, rfl⟩ | ⟨hq, h⟩)
    · exact .lineEnd h
    · have hquiet : ∀ m' ∈ some m, rowSays f k m' s = none := by
        rintro m' hm'
        rwa [← Option.some.inj hm']
      cases h with
      | token _ hf => exact .token hquiet hf
      | filler _ hf ht => exact .filler hquiet hf ht

lemma leads_none : Leads f k none s o ↔
    filler? (s.dropWhile isGap) = none ∧ o = some (s.dropWhile isGap) ∨
      ∃ n, filler? (s.dropWhile isGap) = some n ∧ Leads f k (some .start) ((s.dropWhile isGap).drop n) o := by
  constructor
  · intro h
    cases h with
    | token _ hf => exact .inl ⟨hf, rfl⟩
    | filler _ hf ht => exact .inr ⟨_, hf, ht⟩
  · rintro (⟨hf, rfl⟩ | ⟨n, hf, ht⟩)
    · exact .token (by simp) hf
    · exact .filler (by simp) hf ht

lemma leads_gap {c : Char} (hc : isGap c = true) : Leads f k none (c :: s) o ↔ Leads f k none s o := by
  rw [leads_none, leads_none, List.dropWhile_cons_of_pos hc]

lemma leads_filler {x : Char} {n : Nat} (hx : isGap x = false) (hn : filler? (x :: s) = some n) :
    Leads f k none (x :: s) o ↔ Leads f k (some .start) ((x :: s).drop n) o := by
  rw [leads_none, List.dropWhile_cons_of_neg (by simp [hx]), hn]
  simp

lemma leads_pass {c : Char} (hc : InMargin c) : Leads f k (some m) (c :: s) o ↔ Leads f k (some (m.pass c)) s o := by
  rw [leads_some, leads_some, leads_gap hc.isGap, rowSays, Margin.read?_pass hc, rowSays]

lemma Leads.safer (h : Safer f m m') (hrow : m.rowEnded = m'.rowEnded) (hl : Leads f k (some m') s o) :
    Leads f k (some m) s o := by
  rw [leads_some] at hl ⊢
  refine hl.imp (fun hend => ⟨?_, hend.2⟩) fun hquiet => ⟨h.rowSays hquiet.1, hquiet.2⟩
  obtain rfl := eq_line_of_rowSays hend.1
  rw [rowSays_line hrow, hend.1]

lemma leads_continues {u : List Char} (hu : Continues u) : Leads f k none (u ++ s) o ↔ Leads f k (some .start) s o := by
  rcases hu with rfl | rfl
  · exact @leads_filler f k ('\n' :: s) o '\\' 2 (by decide) rfl
  · exact @leads_filler f k ('\r' :: '\n' :: s) o '\\' 3 (by decide) rfl

lemma leads_continues_some {u : List Char} (hu : Continues u) (hm : Uncommented f m) :
    Leads f k (some m) (u ++ s) o ↔ Leads f k (some { m with length := m.length + u.length }) s o := by
  rw [leads_some, leads_some, leads_continues hu, rowSays, Margin.read?_continues hu, ← rowSays]
  refine or_congr Iff.rfl (and_congr_right fun hquiet => ?_)
  rw [leads_some, (safer_start (m := { m with length := m.length + u.length }) hm).rowSays hquiet]
  simp

lemma rowEvent?_rest (f : Follow) (k : Cursor) (m : Margin) (r : List Char) :
    rowEvent? (f.expect false) k { m with rest := r } = rowEvent? (f.expect false) k m := by
  cases f <;> rfl

lemma leads_odd {c : Char} (hgap : isGap c = true) (hc : ¬ InMargin c) : Leads f k (some m) (c :: s) o ↔
    rowEvent? (f.expect false) k m = some .lineEnd ∧ o = none ∨
      rowEvent? (f.expect false) k m = none ∧ Leads f k none s o := by
  rw [leads_some, leads_gap hgap, rowSays, Margin.read?_odd hgap hc, Option.bind_some, rowEvent?_rest]

lemma leads_solid (hs : Solid s) : Leads f k none s o ↔ o = some s := by
  have hdrop : s.dropWhile isGap = s := by
    obtain ⟨x, r, rfl, hgap, -, -⟩ := hs
    exact List.dropWhile_cons_of_neg (by simp [hgap])
  rw [leads_none, hdrop, filler?_solid hs]
  simp

lemma leads_solid_some (hs : Solid s) : Leads f k (some m) s o ↔
    rowEvent? (f.expect false) k m = some .lineEnd ∧ o = none ∨
      rowEvent? (f.expect false) k m = none ∧ o = some s := by
  rw [leads_some, leads_solid hs, rowSays, read?_solid hs, Option.bind_some, rowEvent?_rest]

lemma filler?_comment {b : List Char} (hb : CommentBody b) (s : List Char) :
    filler? ('#' :: (b ++ '\n' :: s)) = some (b.length + 1) := by
  have htake : (b ++ '\n' :: s).takeWhile (· ≠ '\n') = b := by
    rw [List.takeWhile_append_of_pos (by simpa using fun x hx => (hb x hx).1)]
    simp
  rw [filler?, htake]

lemma leads_comment {b : List Char} (hb : CommentBody b) :
    Leads f k none ('#' :: (b ++ '\n' :: s)) o ↔ Leads f k (some (Margin.start.pass '\n')) s o := by
  rw [leads_filler (by decide) (filler?_comment hb s), List.drop_succ_cons, List.drop_left,
    leads_pass (.inr (.inr (.inl rfl)))]

lemma leads_comment_some {b : List Char} (hb : CommentBody b) : Leads f k (some m) ('#' :: (b ++ '\n' :: s)) o ↔
    (f ≠ .line → rowEvent? (f.expect false) k m = none) ∧ Leads f k (some (Margin.start.pass '\n')) s o := by
  rw [leads_some, leads_comment hb, rowSays, Margin.read?_hash]
  by_cases hf : f = .line
  · subst hf
    simp only [ne_eq, not_true_eq_false, false_implies, true_and, decide_true, if_true]
    by_cases hrow : m.rowEnded = true
    · obtain ⟨m', hended, hread⟩ := @Margin.read?_commentBody true b hb
        { m with comment := some (m.comment.getD m.column), length := m.length + 1 }
      have hevent : (Margin.read? true false m' s).bind (rowEvent? (Follow.line.expect false) k) =
          rowSays .line k (Margin.start.pass '\n') s := rowSays_line (hended hrow) k s
      rw [if_pos hrow, hread, hevent, leads_some (m := Margin.start.pass '\n')]
      tauto
    · simp [hrow]
  · have hne : rowEvent? (f.expect false) k m ≠ some .lineEnd := fun h => hf (eq_line_of_rowEvent? h)
    simp [hf, rowEvent?_rest, hne]

/-! Gaps that are widened. -/

/-- The gap `g'` is the gap `g` with blanks and continued lines put into it, outside of its comments. No line is
continued before a line break that is hidden by a character that the margin is not made of. -/
inductive Widened : Bool → List Char → List Char → Prop
  | nil {hidden : Bool} : Widened hidden [] []
  | blank {hidden : Bool} {c : Char} {g g' : List Char} : c = ' ' ∨ c = '\t' → Widened hidden g g' →
      Widened hidden g (c :: g')
  | continued {hidden : Bool} {u g g' : List Char} : Continues u → (hidden = true → '\n' ∉ g) → Widened hidden g g' →
      Widened hidden g (u ++ g')
  | kept {hidden : Bool} {c : Char} {g g' : List Char} : InMargin c → Widened hidden g g' →
      Widened hidden (c :: g) (c :: g')
  | keptOdd {hidden : Bool} {c : Char} {g g' : List Char} : isGap c = true → ¬ InMargin c → Widened true g g' →
      Widened hidden (c :: g) (c :: g')
  | keptContinued {hidden : Bool} {u g g' : List Char} : Continues u → Widened false g g' →
      Widened hidden (u ++ g) (u ++ g')
  | keptComment {hidden : Bool} {b g g' : List Char} : CommentBody b → Widened false g g' →
      Widened hidden ('#' :: (b ++ '\n' :: g)) ('#' :: (b ++ '\n' :: g'))

lemma Widened.rowSays {hidden : Bool} {g g' : List Char} (h : Widened hidden g g') (hg : '\n' ∉ g) (ht : Solid t)
    (hm : m.rowEnded = false) : rowSays f k m (g' ++ t) = none := by
  have hnone : ∀ m : Margin, m.rowEnded = false → rowEvent? (f.expect false) k m = none := by
    intro m hm
    simp [rowEvent?, hm]
  induction h generalizing m with
  | nil =>
    rw [List.nil_append, Grammar.rowSays, read?_solid ht]
    exact hnone _ hm
  | @blank _ c _ _ hc _ ih =>
    have hmargin : InMargin c := hc.elim .inl fun hc => .inr (.inl hc)
    rw [List.cons_append, Grammar.rowSays, Margin.read?_pass hmargin]
    refine ih hg ?_
    rcases hc with rfl | rfl <;> simp [Margin.pass, hm]
  | continued hu _ _ ih =>
    rw [List.append_assoc, Grammar.rowSays, Margin.read?_continues hu]
    exact ih hg hm
  | kept hc _ ih =>
    simp only [List.mem_cons, not_or] at hg
    rw [List.cons_append, Grammar.rowSays, Margin.read?_pass hc]
    exact ih hg.2 (by simp [Margin.pass, hm, Ne.symm hg.1])
  | keptOdd hgap hc _ ih =>
    rw [List.cons_append, Grammar.rowSays, Margin.read?_odd hgap hc]
    exact hnone _ hm
  | keptContinued hu => exact absurd (List.mem_append_left _ hu.mem) hg
  | keptComment => simp at hg

lemma uncommented_start (f : Follow) : Uncommented f .start := fun _ => rfl

lemma Uncommented.pass (hm : Uncommented f m) (c : Char) : Uncommented f (m.pass c) := hm

lemma safer_pass {c : Char} (hc : c = ' ' ∨ c = '\t') (hm : Uncommented f m) : Safer f (m.pass c) m := by
  refine ⟨?_, fun _ _ => ?_, hm⟩
  · rcases hc with rfl | rfl <;> simp [Margin.pass]
  · rcases hc with rfl | rfl <;> simp [Margin.pass]

lemma Widened.leads {hidden : Bool} {g g' : List Char} (h : Widened hidden g g') (hs : Solid s) (ht : Solid t)
    {σ : Option Margin} (hl : Leads f k σ (g ++ s) o) (hσ : hidden = σ.isNone) (hm : ∀ m, σ = some m → Uncommented f m) :
    (o = none ∨ o = some s) ∧ Leads f k σ (g' ++ t) (o.map fun _ => t) := by
  induction h generalizing σ with
  | nil =>
    cases σ with
    | none =>
      obtain rfl := (leads_solid hs).mp hl
      exact ⟨.inr rfl, (leads_solid ht).mpr rfl⟩
    | some m =>
      rcases (leads_solid_some hs).mp hl with ⟨hevent, rfl⟩ | ⟨hevent, rfl⟩
      · exact ⟨.inl rfl, (leads_solid_some ht).mpr (.inl ⟨hevent, rfl⟩)⟩
      · exact ⟨.inr rfl, (leads_solid_some ht).mpr (.inr ⟨hevent, rfl⟩)⟩
  | @blank _ c _ _ hc _ ih =>
    have hmargin : InMargin c := hc.elim .inl fun hc => .inr (.inl hc)
    obtain ⟨ho, hl'⟩ := ih hl hσ hm
    refine ⟨ho, ?_⟩
    cases σ with
    | none => exact (leads_gap hmargin.isGap).mpr hl'
    | some m =>
      have hrow : (m.pass c).rowEnded = m.rowEnded := by rcases hc with rfl | rfl <;> simp [Margin.pass]
      exact (leads_pass hmargin).mpr (hl'.safer (safer_pass hc (hm m rfl)) hrow)
  | @continued _ u g g' hu hhidden hg ih =>
    obtain ⟨ho, hl'⟩ := ih hl hσ hm
    refine ⟨ho, ?_⟩
    rw [List.append_assoc]
    cases σ with
    | none => exact (leads_continues hu).mpr (leads_some.mpr (.inr ⟨hg.rowSays (hhidden hσ) ht rfl, hl'⟩))
    | some m =>
      have hsafer : Safer f { m with length := m.length + u.length } m := ⟨id, fun _ _ => Nat.le_refl _, hm m rfl⟩
      exact (leads_continues_some hu (hm m rfl)).mpr (hl'.safer hsafer rfl)
  | @kept _ c _ _ hc _ ih =>
    cases σ with
    | none =>
      obtain ⟨ho, hl'⟩ := ih ((leads_gap hc.isGap).mp hl) hσ hm
      exact ⟨ho, (leads_gap hc.isGap).mpr hl'⟩
    | some m =>
      have hover : ∀ m', some (m.pass c) = some m' → Uncommented f m' :=
        fun _ h => Option.some.inj h ▸ (hm m rfl).pass c
      obtain ⟨ho, hl'⟩ := ih ((leads_pass hc).mp hl) hσ hover
      exact ⟨ho, (leads_pass hc).mpr hl'⟩
  | keptOdd hgap hc _ ih =>
    cases σ with
    | none =>
      obtain ⟨ho, hl'⟩ := ih ((leads_gap hgap).mp hl) rfl hm
      exact ⟨ho, (leads_gap hgap).mpr hl'⟩
    | some m =>
      rcases (leads_odd hgap hc).mp hl with ⟨hevent, rfl⟩ | ⟨hevent, hl⟩
      · exact ⟨.inl rfl, (leads_odd hgap hc).mpr (.inl ⟨hevent, rfl⟩)⟩
      · obtain ⟨ho, hl'⟩ := ih hl rfl (by simp)
        exact ⟨ho, (leads_odd hgap hc).mpr (.inr ⟨hevent, hl'⟩)⟩
  | keptContinued hu _ ih =>
    rw [List.append_assoc] at hl ⊢
    cases σ with
    | none =>
      obtain ⟨ho, hl'⟩ := ih ((leads_continues hu).mp hl) rfl fun _ h => Option.some.inj h ▸ uncommented_start f
      exact ⟨ho, (leads_continues hu).mpr hl'⟩
    | some m =>
      have hbare : Uncommented f m := hm m rfl
      obtain ⟨ho, hl'⟩ := ih ((leads_continues_some hu hbare).mp hl) rfl fun _ h => Option.some.inj h ▸ hbare
      exact ⟨ho, (leads_continues_some hu hbare).mpr hl'⟩
  | keptComment hb _ ih =>
    rw [List.cons_append, List.append_assoc, List.cons_append] at hl ⊢
    have hstart : ∀ m, some (Margin.start.pass '\n') = some m → Uncommented f m :=
      fun _ h => Option.some.inj h ▸ (uncommented_start f).pass '\n'
    cases σ with
    | none =>
      obtain ⟨ho, hl'⟩ := ih ((leads_comment hb).mp hl) rfl hstart
      exact ⟨ho, (leads_comment hb).mpr hl'⟩
    | some m =>
      obtain ⟨hevent, hl⟩ := (leads_comment_some hb).mp hl
      obtain ⟨ho, hl'⟩ := ih hl rfl hstart
      exact ⟨ho, (leads_comment_some hb).mpr ⟨hevent, hl'⟩⟩

end Grammar

end SourceBlocks
