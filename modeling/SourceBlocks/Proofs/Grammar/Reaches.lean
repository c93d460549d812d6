import SourceBlocks.Proofs.Grammar.Begins

namespace SourceBlocks.Grammar

open Lexis Grammar.Parser

variable {S : Source} {s t u r : List Char}

structure Before (S : Source) (s : List Char) (c : Cursor) : Prop where
  has : S.Has c
  rest : c.rest = s
  indents : c.indents = []
  inFields : c.inFields = false

lemma Before.index {c : Cursor} (hc : Before S s c) : c.index + s.length = S.chars.length := by
  have hle := hc.has.le
  have hlength : s.length = S.chars.length - c.index := by rw [← hc.rest, hc.has.rest, List.length_drop]
  omega

namespace Parser

variable {α β : Type} {p q : Parser α} {P Q : α → Prop}

def Reaches (S : Source) (p : Parser α) (s t : List Char) (Q : α → Prop) : Prop :=
  ∀ c, Before S s c → ∃ a d, p c = .ok (a, d) ∧ Before S t d ∧ Q a

def Stuck (S : Source) (p : Parser α) (s : List Char) : Prop := ∀ c, Before S s c → ∃ e, p c = .error e

namespace Reaches

variable {f : α → Parser β} {R : β → Prop}

lemma mono (h : Reaches S p s t P) (hPQ : ∀ a, P a → Q a) : Reaches S p s t Q := by
  intro c hc
  obtain ⟨a, d, hp, hd, ha⟩ := h c hc
  exact ⟨a, d, hp, hd, hPQ a ha⟩

lemma pure {a : α} (h : Q a) : Reaches S (Pure.pure a) s s Q := fun c hc => ⟨a, c, rfl, hc, h⟩

lemma bind (hp : Reaches S p s t P) (hf : ∀ a, P a → Reaches S (f a) t u R) : Reaches S (p >>= f) s u R := by
  intro c hc
  obtain ⟨a, d, hpc, hd, ha⟩ := hp c hc
  obtain ⟨b, e, hfd, he, hb⟩ := hf a ha d hd
  exact ⟨b, e, by simp only [Bind.bind, StateT.bind, Except.bind, hpc]; exact hfd, he, hb⟩

lemma step {a : α} (hp : Reaches S p s t (· = a)) (hf : Reaches S (f a) t u R) : Reaches S (p >>= f) s u R :=
  hp.bind fun _ h => h ▸ hf

lemma after (hp : Reaches S p s t P) (hf : ∀ a, Reaches S (f a) t u R) : Reaches S (p >>= f) s u R :=
  hp.bind fun a _ => hf a

lemma pos {b : Prop} [Decidable b] (hb : b) (h : Reaches S p s t Q) : Reaches S (if b then p else q) s t Q := by
  rwa [if_pos hb]

lemma neg {b : Prop} [Decidable b] (hb : ¬ b) (h : Reaches S q s t Q) : Reaches S (if b then p else q) s t Q := by
  rwa [if_neg hb]

lemma ite_bind {b : Prop} [Decidable b] (h : Reaches S (if b then p else q) s t P)
    (hf : ∀ a, P a → Reaches S (f a) t u R) : Reaches S (if b then p >>= f else q >>= f) s u R := by
  split_ifs at h ⊢
  · exact h.bind hf
  · exact h.bind hf

lemma get {f : Cursor → Parser β} (h : ∀ c, Before S s c → Reaches S (f c) s t R) :
    Reaches S (MonadState.get >>= f) s t R := fun c hc => h c hc c hc

lemma set {d : Cursor} (hd : Before S t d) {f : PUnit → Parser β} (h : Reaches S (f ()) t u R) :
    Reaches S (MonadStateOf.set d >>= f) s u R := fun _ _ => h d hd

lemma require {b : Bool} {f : Unit → Parser β} (hb : b = true) (h : Reaches S (f ()) s t R) :
    Reaches S (Parser.require b >>= f) s t R := by
  subst hb
  exact h

lemma or_left (h : Reaches S p s t Q) : Reaches S (p.or q) s t Q := by
  intro c hc
  obtain ⟨a, d, hp, hd, ha⟩ := h c hc
  exact ⟨a, d, by rw [Parser.or, hp], hd, ha⟩

lemma or_right (hp : Stuck S p s) (hq : Reaches S q s t Q) : Reaches S (p.or q) s t Q := by
  intro c hc
  obtain ⟨e, he⟩ := hp c hc
  obtain ⟨a, d, hqc, hd, ha⟩ := hq c hc
  exact ⟨a, d, by rw [Parser.or, he, hqc], hd, ha⟩

lemma optional_none (hp : Stuck S p s) : Reaches S (optional p) s s (· = none) := by
  intro c hc
  obtain ⟨e, he⟩ := hp c hc
  exact ⟨none, c, by rw [optional, he], hc, rfl⟩

end Reaches

namespace Stuck

variable {f : α → Parser β}

lemma fail : Stuck S (Parser.fail : Parser α) s := fun c _ => ⟨c.place, rfl⟩

lemma bind (hp : Stuck S p s) : Stuck S (p >>= f) s := by
  intro c hc
  obtain ⟨e, he⟩ := hp c hc
  exact ⟨e, by simp only [Bind.bind, StateT.bind, Except.bind, he]⟩

lemma after (hp : Reaches S p s t P) (hf : ∀ a, P a → Stuck S (f a) t) : Stuck S (p >>= f) s := by
  intro c hc
  obtain ⟨a, d, hpc, hd, ha⟩ := hp c hc
  obtain ⟨e, he⟩ := hf a ha d hd
  exact ⟨e, by simp only [Bind.bind, StateT.bind, Except.bind, hpc]; exact he⟩

lemma step {a : α} (hp : Reaches S p s t (· = a)) (hf : Stuck S (f a) t) : Stuck S (p >>= f) s :=
  after hp fun _ h => h ▸ hf

lemma pos {b : Prop} [Decidable b] (hb : b) (h : Stuck S p s) : Stuck S (if b then p else q) s := by rwa [if_pos hb]

lemma neg {b : Prop} [Decidable b] (hb : ¬ b) (h : Stuck S q s) : Stuck S (if b then p else q) s := by rwa [if_neg hb]

lemma get {f : Cursor → Parser β} (h : ∀ c, Before S s c → Stuck S (f c) s) : Stuck S (MonadState.get >>= f) s :=
  fun c hc => h c hc c hc

lemma require {b : Bool} {f : Unit → Parser β} (hb : b = false) : Stuck S (Parser.require b >>= f) s := by
  subst hb
  exact bind fail

lemma require_bind {b : Bool} {f : Unit → Parser β} (h : Stuck S (f ()) s) : Stuck S (Parser.require b >>= f) s := by
  cases b with
  | false => exact require rfl
  | true => exact h

lemma or (hp : Stuck S p s) (hq : Stuck S q s) : Stuck S (p.or q) s := by
  intro c hc
  obtain ⟨e, he⟩ := hp c hc
  obtain ⟨e', he'⟩ := hq c hc
  exact ⟨max e e', by rw [Parser.or, he, he']⟩

end Stuck

def Stops (S : Source) (p : Parser α) (s t : List Char) (Q : α → Prop) : Prop :=
  ∀ c, Before S s c → Gives c p fun a d => Before S t d ∧ Q a

namespace Stops

variable {f : α → Parser β} {R : β → Prop}

lemma pure {a : α} (h : Q a) : Stops S (Pure.pure a) s s Q := fun _ hc => .pure ⟨hc, h⟩

lemma of_stuck (h : Stuck S p s) : Stops S p s t Q := by
  intro c hc a d hp
  obtain ⟨e, he⟩ := h c hc
  exact nomatch hp.symm.trans he

lemma bind (hp : Stops S p s t P) (hf : ∀ a, P a → Stops S (f a) t u R) : Stops S (p >>= f) s u R :=
  fun c hc => (hp c hc).bind fun a d h => hf a h.2 d h.1

lemma of_reaches (h : Reaches S p s t Q) : Stops S p s t Q := by
  intro c hc a d hp
  obtain ⟨a', d', hp', hd, ha⟩ := h c hc
  obtain ⟨rfl, rfl⟩ := Prod.mk.inj (Except.ok.inj (hp.symm.trans hp'))
  exact ⟨hd, ha⟩

lemma step {a : α} (hp : Reaches S p s t (· = a)) (hf : Stops S (f a) t u R) : Stops S (p >>= f) s u R :=
  (of_reaches hp).bind fun _ h => h ▸ hf

lemma after (hp : Reaches S p s t P) (hf : ∀ a, Stops S (f a) t u R) : Stops S (p >>= f) s u R :=
  (of_reaches hp).bind fun a _ => hf a

lemma or (hp : Stops S p s t Q) (hq : Stops S q s t Q) : Stops S (p.or q) s t Q :=
  fun c hc => (hp c hc).or (hq c hc)

lemma require {b : Bool} {f : Unit → Parser β} (h : Stops S (f ()) s t R) : Stops S (Parser.require b >>= f) s t R := by
  cases b with
  | false => exact of_stuck (.require rfl)
  | true => exact h

lemma get {f : Cursor → Parser β} (h : ∀ c, Before S s c → Stops S (f c) s t R) : Stops S (MonadState.get >>= f) s t R :=
  fun c hc => h c hc c hc

lemma stuck (hp : Stops S p s t P) (hf : ∀ a, P a → Stuck S (f a) t) : Stuck S (p >>= f) s := by
  intro c hc
  simp only [Bind.bind, StateT.bind, Except.bind]
  cases hpc : p c with
  | error e => exact ⟨e, rfl⟩
  | ok r =>
    obtain ⟨hd, ha⟩ := hp c hc r.1 r.2 hpc
    exact hf r.1 ha r.2 hd

end Stops

end Parser

/-! Characters and words. -/

lemma Before.step {c : Cursor} {x : Char} (hc : Before S (x :: s) c) : Before S s c.step := by
  have hrest := hc.rest
  refine ⟨hc.has.step, by rw [Cursor.rest_step, hrest, List.tail_cons], ?_, ?_⟩
  · simp only [Cursor.step, hrest]
    exact hc.indents
  · simp only [Cursor.step, hrest]
    exact hc.inFields

lemma Before.skip {c : Cursor} {n : Nat} (hc : Before S s c) (hn : n ≤ s.length) : Before S (s.drop n) (c.skip n) := by
  induction n generalizing s c with
  | zero => exact hc
  | succ n ih =>
    cases s with
    | nil => simp at hn
    | cons x s => exact ih hc.step (by simpa using hn)

lemma reaches_advance {n : Nat} (hn : n ≤ s.length) : Reaches S (advance n) s (s.drop n) fun _ => True :=
  fun c hc => ⟨(), c.skip n, rfl, hc.skip hn, trivial⟩

lemma reaches_advance_append (n : Nat) (hn : s.length = n) : Reaches S (advance n) (s ++ t) t fun _ => True := by
  have h := reaches_advance (S := S) (s := s ++ t) (n := n) (by simp; omega)
  rwa [List.drop_left' hn] at h

lemma reaches_here : Reaches S here s s (· = S.placeAt (S.chars.length - s.length)) := by
  intro c hc
  have hindex : S.chars.length - s.length = c.index := by
    have := hc.index
    omega
  exact ⟨c.place, c, rfl, hc, by rw [hindex, hc.has.place]⟩

lemma reaches_index : Reaches S index s s fun i => i + s.length = S.chars.length :=
  fun c hc => ⟨c.index, c, rfl, hc, hc.index⟩

lemma reaches_wordHere : Reaches S wordHere s s (· = String.ofList (word s)) :=
  fun c hc => ⟨_, c, rfl, hc, by rw [hc.rest]⟩

lemma reaches_startsWith (w : String) : Reaches S (startsWith w) s s (· = w.toList.isPrefixOf s) :=
  fun c hc => ⟨_, c, rfl, hc, by rw [hc.rest]⟩

lemma reaches_symbol?_none {w : String} (h : w.toList.isPrefixOf s = false) : Reaches S (symbol? w) s s (· = false) := by
  refine (reaches_startsWith w).step ?_
  rw [h]
  exact .pure rfl

lemma reaches_symbol? (w : String) (t : List Char) : Reaches S (symbol? w) (w.toList ++ t) t (· = true) := by
  have hbegins : w.toList.isPrefixOf (w.toList ++ t) = true := by simp
  refine (reaches_startsWith w).step ?_
  rw [hbegins]
  exact (reaches_advance_append _ w.length_toList).after fun _ => .pure rfl

lemma reaches_symbol (w : String) (t : List Char) : Reaches S (symbol w) (w.toList ++ t) t fun _ => True :=
  (reaches_symbol? w t).step (.pure trivial)

lemma stuck_symbol {w : String} (h : w.toList.isPrefixOf s = false) : Stuck S (symbol w) s :=
  .step (reaches_symbol?_none h) .fail

lemma reaches_keyword?_none {w : String} (h : String.ofList (word s) ≠ w) : Reaches S (keyword? w) s s (· = false) :=
  reaches_wordHere.step (.neg h (.pure rfl))

lemma isPrefixOf_eq_false {P : Char → Bool} {w : String} (hs : ∀ x, s.head? = some x → P x = true)
    (hw : (w.toList.head?.any fun x => !P x) = true) : w.toList.isPrefixOf s = false := by
  cases hlist : w.toList with
  | nil => simp [hlist] at hw
  | cons x ws =>
    cases s with
    | nil => rfl
    | cons y r =>
      have hne : x ≠ y := by
        rintro rfl
        simp [hlist, hs x rfl] at hw
      simp [List.isPrefixOf, hne]

lemma find?_isPrefixOf_eq_none {α : Type} {P : Char → Bool} {f : α → String} {ws : List α}
    (hs : ∀ x, s.head? = some x → P x = true) (hws : (ws.all fun a => (f a).toList.head?.any fun x => !P x) = true) :
    ws.find? (fun a => (f a).toList.isPrefixOf s) = none := by
  rw [List.find?_eq_none]
  intro a ha
  simp [isPrefixOf_eq_false hs (List.all_eq_true.mp hws a ha)]

lemma reaches_firstHere (ws : List String) :
    Reaches S (firstHere ws) s s (· = ws.find? fun w => w.toList.isPrefixOf s) :=
  fun c hc => ⟨_, c, rfl, hc, by rw [hc.rest]⟩

/-! Layout. -/

def Solid (s : List Char) : Prop := ∃ x r, s = x :: r ∧ isGap x = false ∧ x ≠ '#' ∧ x ≠ '\\'

lemma read?_solid (hs : Solid s) (comments : Bool) (m : Margin) :
    Margin.read? comments false m s = some { m with rest := s } := by
  obtain ⟨x, r, rfl, hgap, hhash, hslash⟩ := hs
  have hne : ∀ y, isGap y = true → x ≠ y := by
    rintro y hy rfl
    simp [hgap] at hy
  have hform : x.toNat ≠ 12 := by
    intro h
    simp [isGap, h] at hgap
  unfold Margin.read?
  split
  next heq => cases heq
  next heq => exact absurd (List.cons.inj heq).1 (hne _ rfl)
  next heq => exact absurd (List.cons.inj heq).1 hslash
  next heq => exact absurd (List.cons.inj heq).1 hslash
  next heq =>
    obtain ⟨rfl, rfl⟩ := List.cons.inj heq
    simp [hne ' ' rfl, hne '\t' rfl, hne '\r' rfl, hform, hhash, hslash]

lemma read?_blank (hs : Solid s) (comments : Bool) (m : Margin) :
    Margin.read? comments false m (' ' :: s) =
      some { m with column := m.column + 1, length := m.length + 1, rest := s } := by
  rw [Margin.read?]
  · simp only [Bool.false_eq_true, if_false, if_true]
    exact read?_solid hs comments _
  all_goals simp

lemma filler?_solid (hs : Solid s) : filler? s = none := by
  obtain ⟨x, r, rfl, -, hhash, hslash⟩ := hs
  unfold filler?
  split
  next heq => exact absurd (List.cons.inj heq).1 hhash
  next heq => exact absurd (List.cons.inj heq).1 hslash
  next heq => exact absurd (List.cons.inj heq).1 hslash
  next heq => exact absurd (List.cons.inj heq).1 hslash
  next => rfl

lemma takeWhile_solid (hs : Solid s) : s.takeWhile isGap = [] := by
  obtain ⟨x, r, rfl, hgap, -, -⟩ := hs
  simp [hgap]

lemma ahead_solid {c : Cursor} {e : Expectation} (hs : Solid c.rest) (n : Nat) : ahead e (n + 1) c = .token c := by
  rw [ahead, read?_solid hs, takeWhile_solid hs]
  simp only [Option.bind_some, rowEvent?, Margin.start, Bool.not_false, if_true, List.length_nil, Cursor.skip,
    filler?_solid hs]
  split
  next heq =>
    obtain ⟨-, hn⟩ := Option.ite_none_right_eq_some.mp heq
    obtain rfl := Option.some.inj hn
    rfl
  next => rfl

lemma ahead_blank {c : Cursor} {e : Expectation} (hc : c.rest = ' ' :: s) (hs : Solid s) (n : Nat) :
    ahead e (n + 1) c = .token c.step := by
  have hskip : c.skip 1 = c.step := rfl
  have hrest : c.step.rest = s := by rw [Cursor.rest_step, hc, List.tail_cons]
  have hgaps : (' ' :: s).takeWhile isGap = [' '] := by
    simp [takeWhile_solid hs, show isGap ' ' = true from rfl]
  rw [ahead, hc, read?_blank hs, hgaps]
  simp only [Option.bind_some, rowEvent?, Margin.start, Bool.not_false, if_true, List.length_singleton, Nat.zero_add,
    hskip, hrest, filler?_solid hs]
  split_ifs <;> rfl

lemma ahead_end {c : Cursor} {e : Expectation} (hc : c.rest = []) (hindents : c.indents = []) (he : e.deeper = false)
    (n : Nat) : ahead e (n + 1) c = if e.lineEnd then .lineEnd else .token c := by
  have hindent : c.indent = 0 := by rw [Cursor.indent, hindents]; rfl
  rw [ahead, hc]
  cases hline : e.lineEnd <;>
    simp [Margin.read?, rowEvent?, he, hindent, hline, Quote.atStart?, Quote.opening?, Cursor.skip, hc, filler?]

variable {follow : Follow} {string : Bool}

lemma reaches_look (hs : Solid s) : Reaches S (look follow string) s s (· = true) := by
  intro c hc
  refine ⟨true, c, ?_, hc, rfl⟩
  have hahead := ahead_solid (e := follow.expect string) (hc.rest ▸ hs) c.total
  simp only [look, aheadHere, Bind.bind, StateT.bind, Except.bind, hahead]
  rfl

lemma reaches_look_blank (hs : Solid s) : Reaches S (look follow string) (' ' :: s) s (· = true) := by
  intro c hc
  refine ⟨true, c.step, ?_, hc.step, rfl⟩
  have hahead := ahead_blank (e := follow.expect string) hc.rest hs c.total
  simp only [look, aheadHere, Bind.bind, StateT.bind, Except.bind, hahead]
  rfl

lemma reaches_look_end : Reaches S (look follow string) [] [] (· = decide (follow ≠ .line)) := by
  intro c hc
  have hahead := ahead_end (e := follow.expect string) hc.rest hc.indents rfl c.total
  refine ⟨_, c, ?_, hc, rfl⟩
  simp only [look, aheadHere, Bind.bind, StateT.bind, Except.bind, hahead]
  cases follow <;> rfl

lemma reaches_toToken (hs : Solid s) : Reaches S (toToken follow string) s s fun _ => True :=
  (reaches_look hs).step (.pure trivial)

lemma reaches_toToken_blank (hs : Solid s) : Reaches S (toToken follow string) (' ' :: s) s fun _ => True :=
  (reaches_look_blank hs).step (.pure trivial)

end SourceBlocks.Grammar
