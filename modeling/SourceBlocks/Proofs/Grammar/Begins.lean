import SourceBlocks.Proofs.Grammar.Module

/-! Where statements begin: at the place of a character, unless with a literal over several
rows. -/

namespace SourceBlocks.Grammar

open Lexis Lexis.Source Grammar.Parser
open SourceBlocks.Tree (Mark Node Shape)

def isComposite (n : Node) : Bool := match n.shape with
  | .str _ _ _ => false
  | .expr _ => false
  | _ => true

namespace Parser

variable {α β : Type} {c : Cursor} {p q : Parser α} {P Q : α → Cursor → Prop}

def Gives (c : Cursor) (p : Parser α) (Q : α → Cursor → Prop) : Prop := ∀ a d, p c = .ok (a, d) → Q a d

namespace Gives

variable {f : α → Parser β} {R : β → Cursor → Prop}

lemma mono (h : Gives c p P) (hPQ : ∀ a d, P a d → Q a d) : Gives c p Q := fun a d hd => hPQ a d (h a d hd)

lemma pure {a : α} (h : Q a c) : Gives c (Pure.pure a) Q := by
  intro b d hd
  obtain ⟨rfl, rfl⟩ := Prod.mk.inj (Except.ok.inj hd)
  exact h

lemma bind (hp : Gives c p P) (hf : ∀ a d, P a d → Gives d (f a) R) : Gives c (p >>= f) R := by
  intro b e he
  simp only [Bind.bind, StateT.bind, Except.bind] at he
  split at he
  · cases he
  · next r hr => exact hf r.1 r.2 (hp r.1 r.2 hr) b e he

lemma after (hf : ∀ a d, Gives d (f a) R) : Gives c (p >>= f) R :=
  bind (P := fun _ _ => True) (fun _ _ _ => trivial) fun a d _ => hf a d

lemma skip (hf : ∀ {a d}, Gives d (f a) R) : Gives c (p >>= f) R := after fun _ _ => hf

lemma stay (hp : Stays p) (hf : ∀ a, Gives c (f a) R) : Gives c (p >>= f) R := by
  intro b e he
  simp only [Bind.bind, StateT.bind, Except.bind] at he
  split at he
  · cases he
  · next r hr =>
    obtain rfl := hp c r.1 r.2 hr
    exact hf r.1 b e he

lemma get {f : Cursor → Parser β} (h : Gives c (f c) R) : Gives c (MonadState.get >>= f) R := h

lemma here {f : Position → Parser β} (h : Gives c (f c.place) R) : Gives c (Grammar.here >>= f) R := h

lemma startsWith {s : String} {f : Bool → Parser β} (h : Gives c (f (s.toList.isPrefixOf c.rest)) R) :
    Gives c (Grammar.startsWith s >>= f) R := h

lemma wordHere {f : String → Parser β} (h : Gives c (f (String.ofList (word c.rest))) R) :
    Gives c (Grammar.wordHere >>= f) R := h

lemma fail : Gives c (Parser.fail : Parser α) Q := fun _ _ h => nomatch h

lemma ite {b : Prop} [Decidable b] (hp : b → Gives c p Q) (hq : ¬ b → Gives c q Q) :
    Gives c (if b then p else q) Q := by
  split_ifs with h
  · exact hp h
  · exact hq h

lemma fork {b : Prop} [Decidable b] (hp : Gives c p Q) (hq : Gives c q Q) : Gives c (if b then p else q) Q :=
  .ite (fun _ => hp) fun _ => hq

lemma ite_after {b : Prop} [Decidable b] (hf : ∀ a d, Gives d (f a) R) :
    Gives c (if b then p >>= f else q >>= f) R := .fork (.after hf) (.after hf)

lemma or (hp : Gives c p Q) (hq : Gives c q Q) : Gives c (p.or q) Q := by
  intro a d hd
  simp only [Parser.or] at hd
  split at hd
  · next r hr => exact hp a d (hr.trans hd)
  · split at hd
    · next r hr => exact hq a d (hr.trans hd)
    · cases hd

lemma require {b : Bool} {q : Parser β} (h : b = true → Gives c q R) :
    Gives c (Parser.require b >>= fun _ => q) R := by
  cases b with
  | false => exact (fail (Q := fun _ _ => False)).bind fun _ _ h => h.elim
  | true => exact h rfl

lemma keyword? {s : String} {f : Bool → Parser β}
    (hread : String.ofList (word c.rest) = s → ∀ d, Gives d (f true) R) (hstay : Gives c (f false) R) :
    Gives c (Grammar.keyword? s >>= f) R := by
  simp only [Grammar.keyword?, bind_assoc]
  refine .wordHere ?_
  split_ifs with hw
  · rw [bind_assoc]
    exact .after fun _ d => hread hw d
  · exact hstay

end Gives

end Parser

def AtChar (c : Cursor) : Prop := ∃ x r, c.rest = x :: r ∧ x ≠ '\n'

lemma atChar_of_quote {c : Cursor} (h : (Quote.atStart? c.rest).isSome) : AtChar c := by
  cases hr : c.rest with
  | nil => simp [hr, Quote.atStart?, Quote.opening?] at h
  | cons x r =>
    refine ⟨x, r, hr, ?_⟩
    rintro rfl
    simp [hr, Quote.atStart?, Quote.opening?] at h

lemma atChar_of_word {c : Cursor} (h : word c.rest ≠ []) : AtChar c := by
  cases hr : c.rest with
  | nil => simp [hr, word] at h
  | cons x r =>
    refine ⟨x, r, hr, ?_⟩
    rintro rfl
    simp [hr, word, isWordStart, isAsciiLetter] at h

lemma ne_newline_of_isWordStart {x : Char} (h : isWordStart x = true) : x ≠ '\n' := by
  rintro rfl
  exact absurd h (by decide)

lemma numeralLength_newline (r : List Char) : numeralLength ('\n' :: r) = 0 := by
  have hdigit : Number.isDigit '\n' = false := by decide
  simp [numeralLength, basedLength, announcedBase?, decimalLength, digitRun, hdigit]

def Phrase.front (p : Phrase Node) : Position × Option Nat := (p.start, p.lead)

def IsFront (c : Cursor) (front : Position × Option Nat) : Prop :=
  front.1 = c.place ∧ (front.2 = none ∨ (Quote.atStart? c.rest).isSome)

lemma isFront_of_eq {c : Cursor} {front : Position × Option Nat} (h : front = (c.place, none)) : IsFront c front :=
  h ▸ ⟨rfl, .inl rfl⟩

def Opens (p : Parser (Phrase Node)) : Prop := ∀ c, Gives c p fun a _ => AtChar c ∧ IsFront c a.front

def Phrase.Heads (front : Position × Option Nat) (p : Phrase Node) : Prop := p.front = front ∧ isComposite p.node = true

lemma Phrase.Heads.isFront {c : Cursor} {p : Phrase Node} (h : p.Heads (c.place, none)) : IsFront c p.front :=
  isFront_of_eq h.1

def StartsAt (front : Position × Option Nat) (p : Parser (Phrase Node)) : Prop := ∀ c, Gives c p fun a _ => a.Heads front

lemma front_apply (p : Phrase Node) (ts : List (Trailer Node)) : (ts.foldl Trailer.apply p).front = p.front := by
  induction ts generalizing p with
  | nil => rfl
  | cons t ts ih =>
    rw [List.foldl_cons, ih]
    cases t <;> rfl

lemma isComposite_apply {ts : List (Trailer Node)} {p : Phrase Node} (h : ts ≠ [] ∨ isComposite p.node = true) :
    isComposite (ts.foldl Trailer.apply p).node = true := by
  induction ts generalizing p with
  | nil => exact h.resolve_left fun hne => hne rfl
  | cons t ts ih =>
    refine ih (.inr ?_)
    cases t <;> rfl

lemma Phrase.Heads.apply {front : Position × Option Nat} {p : Phrase Node} (h : p.Heads front) (ts : List (Trailer Node)) :
    (ts.foldl Trailer.apply p).Heads front := ⟨(front_apply p ts).trans h.1, isComposite_apply (.inr h.2)⟩

section Atoms

variable {c : Cursor} (g : Rules Node)

lemma gives_nameAtom : Gives c nameAtom fun a _ => a.Heads (c.place, none) := by
  rw [nameAtom]
  exact .here (.skip <| .skip <| .fork (.pure ⟨rfl, rfl⟩) <| .pure ⟨rfl, rfl⟩)

lemma gives_ellipsis : Gives c ellipsis fun a _ => a.Heads (c.place, none) := by
  rw [ellipsis]
  exact .here (.skip <| .skip <| .pure ⟨rfl, rfl⟩)

lemma gives_numeral : Gives c numeral fun a _ => AtChar c ∧ a.Heads (c.place, none) := by
  rw [numeral]
  refine .get (.require fun hn => .skip <| .pure ⟨?_, rfl, rfl⟩)
  cases hr : c.rest with
  | nil => simp [hr, numeralLength, basedLength, announcedBase?, decimalLength, digitRun] at hn
  | cons x r =>
    refine ⟨x, r, hr, ?_⟩
    rintro rfl
    simp [hr, numeralLength_newline] at hn

lemma gives_stringRun (follow : Follow) : Gives c (stringRun g follow) fun a _ => a.start = c.place := by
  rw [stringRun]
  exact .get (.skip <| .skip <| .skip <| .pure rfl)

lemma gives_close (start : Position) (closing : String) (shape : Shape Node) :
    Gives c (close start closing shape) fun a _ => a.front = (start, none) ∧ a.node = marked start shape := by
  rw [close]
  exact .skip <| .skip <| .skip <| .pure ⟨rfl, rfl⟩

lemma startsAt_close (start : Position) (closing : String) {shape : Shape Node}
    (h : isComposite (marked start shape) = true) : StartsAt (start, none) (close start closing shape) :=
  fun _ => (gives_close start closing shape).mono fun _ _ ha => ⟨ha.1, ha.2 ▸ h⟩

lemma gives_listAtom : Gives c (listAtom g) fun a _ => a.Heads (c.place, none) := by
  rw [listAtom]
  refine .here (.skip <| .skip <| .skip <| .fork ?_ ?_)
  · exact startsAt_close _ _ rfl _
  refine .skip <| .skip <| .skip <| .fork ?_ ?_
  · exact .skip <| startsAt_close _ _ rfl _
  · exact .skip <| startsAt_close _ _ rfl _

lemma gives_braceAtom : Gives c (braceAtom g) fun a _ => a.Heads (c.place, none) := by
  rw [braceAtom]
  refine .here (.skip <| .skip <| .skip <| .fork ?_ ?_)
  · exact startsAt_close _ _ rfl _
  refine .skip <| .fork (startsAt_close _ _ rfl _) ?_
  refine .skip <| .fork ?_ ?_
  · exact .skip <| .skip <| startsAt_close _ _ rfl _
  refine .skip <| .skip <| .skip <| .fork ?_ ?_
  · refine .skip <| .skip <| .skip <| .fork ?_ ?_
    · exact .skip <| startsAt_close _ _ rfl _
    · exact .skip <| startsAt_close _ _ rfl _
  refine .skip <| .fork ?_ ?_
  · exact .skip <| startsAt_close _ _ rfl _
  · exact .skip <| startsAt_close _ _ rfl _

lemma gives_loneStar (follow : Follow) (start : Position) :
    Gives c (loneStar g follow start) fun a _ => a.front = (start, none) := by
  rw [loneStar]
  have htuple : Gives c (do
      let p ← starElement g
      close start ")" (.tuple [p.node])) fun a _ => a.front = (start, none) :=
    .skip <| (gives_close _ _ _).mono fun _ _ h => h.1
  refine .fork (.or ?_ (.or ?_ htuple)) <| .or ?_ htuple
  · exact htuple.bind fun p d hp => .skip <| .skip <| .pure hp
  · exact .skip <| .skip <| .skip <| .skip <| .pure rfl
  · exact .skip <| .skip <| .skip <| .skip <| .pure rfl

lemma gives_parenAtom (follow : Follow) : Gives c (parenAtom g follow) fun a _ => a.front = (c.place, none) := by
  rw [parenAtom]
  have hclose : ∀ {d : Cursor} {shape : Shape Node},
      Gives d (close c.place ")" shape) fun a _ => a.front = (c.place, none) :=
    (gives_close _ _ _).mono fun _ _ h => h.1
  refine .here (.skip <| .skip <| .skip <| .fork ?_ ?_)
  · exact hclose
  refine .after fun d _ => .skip <| .skip <| .skip <| .after fun _ _ => ?_
  refine .fork (.skip hclose) <| .after fun r _ => ?_
  refine .fork hclose <| .fork ?_ ?_
  · exact .skip <| gives_loneStar _ _ _
  · exact .skip <| .skip <| .skip <| .pure rfl

lemma opens_atom (follow : Follow) : Opens (atom g follow) := by
  intro c
  rw [atom]
  refine .get (.ite (fun hq => ?_) fun _ => ?_)
  · exact (gives_stringRun g follow).mono fun _ _ h => ⟨atChar_of_quote hq, h, .inr hq⟩
  split
  · next r hr => exact (gives_parenAtom g follow).mono fun _ _ h => ⟨⟨_, r, hr, by decide⟩, isFront_of_eq h⟩
  · next r hr => exact (gives_listAtom g).mono fun _ _ h => ⟨⟨_, r, hr, by decide⟩, h.isFront⟩
  · next r hr => exact (gives_braceAtom g).mono fun _ _ h => ⟨⟨_, r, hr, by decide⟩, h.isFront⟩
  · next x r _ _ _ hr =>
    refine .ite (fun hx => ?_) fun _ => ?_
    · exact gives_nameAtom.mono fun _ _ h => ⟨⟨x, r, hr, ne_newline_of_isWordStart hx⟩, h.isFront⟩
    refine .startsWith (.ite (fun hdots => ?_) fun _ => gives_numeral.mono fun _ _ h => ⟨h.1, h.2.isFront⟩)
    refine gives_ellipsis.mono fun _ _ h => ⟨⟨x, r, hr, ?_⟩, h.isFront⟩
    rintro rfl
    simp [hr] at hdots
  · exact .fail

lemma opens_primary (follow : Follow) : Opens (primary g follow) := by
  intro c
  rw [primary]
  exact (opens_atom g follow c).bind fun p _ hp => .after fun ts _ => .pure ⟨hp.1, front_apply p ts ▸ hp.2⟩

lemma gives_starPrimary (follow : Follow) (whole : List (Trailer Node) → Parser Bool) :
    Gives c (starPrimary g follow whole) fun a _ => a.Heads (c.place, none) := by
  rw [starPrimary]
  refine .here (.skip <| .skip <| .skip <| .fork ?_ ?_)
  · refine .after fun p _ => .after fun ts _ => .skip <| .fork (.pure ⟨rfl, rfl⟩) <| .pure ?_
    exact Phrase.Heads.apply ⟨rfl, rfl⟩ ts
  · exact .skip <| .pure ⟨rfl, rfl⟩

lemma gives_targetGroup (opening closing : String) (shape : List Node → Shape Node) :
    Gives c (targetGroup g opening closing shape) fun a _ => a.front = (c.place, none) := by
  have hclose : ∀ {d : Cursor} {ns : List Node},
      Gives d (close c.place closing (shape ns)) fun a _ => a.front = (c.place, none) :=
    (gives_close _ _ _).mono fun _ _ h => h.1
  rw [targetGroup]
  refine .here (.skip <| .skip <| .skip <| .fork hclose ?_)
  exact .skip <| .skip hclose

lemma opens_simpleTarget (follow : Follow) : Opens (simpleTarget g follow) := by
  intro c
  rw [simpleTarget]
  refine (opens_atom g follow c).bind fun p _ hp => .after fun ts _ => ?_
  have hfront : IsFront c (ts.foldl Trailer.apply p).front := front_apply p ts ▸ hp.2
  split <;> exact .skip <| .pure ⟨hp.1, hfront⟩

lemma opens_target (follow : Follow) : Opens (target g follow) := by
  intro c
  rw [target]
  refine .get ?_
  split
  · next r hr =>
    rw [starTarget]
    refine (gives_starPrimary g follow _).bind fun p _ hp => ?_
    split
    · exact .fail
    · exact .pure ⟨⟨_, r, hr, by decide⟩, hp.isFront⟩
  · next r hr =>
    refine .or ?_ (opens_simpleTarget g follow c)
    exact (gives_targetGroup g _ _ _).bind fun p _ hp => .skip <| .pure ⟨⟨_, r, hr, by decide⟩, isFront_of_eq hp⟩
  · next r hr =>
    refine .or ?_ (opens_simpleTarget g follow c)
    exact (gives_targetGroup g _ _ _).bind fun p _ hp => .skip <| .pure ⟨⟨_, r, hr, by decide⟩, isFront_of_eq hp⟩
  · exact opens_simpleTarget g follow c

end Atoms

section Operators

variable {c : Cursor} (g : Rules Node) (site : Site) (level : Int)

lemma startsAt_conditional (p : Phrase Node) : StartsAt p.front (conditional g site p) := by
  intro c
  rw [conditional]
  exact .skip <| .skip <| .skip <| .skip <| .pure ⟨rfl, rfl⟩

lemma startsAt_aliased (p : Phrase Node) : StartsAt p.front (aliased g site p) := by
  intro c
  rw [aliased]
  exact .skip <| .skip <| .skip <| .pure ⟨rfl, rfl⟩

lemma gives_operators (n : Nat) (p : Phrase Node) :
    Gives c (operators g site level n p) fun a _ => a = p ∨ a.Heads p.front := by
  induction n generalizing p c with
  | zero => exact .fail
  | succ n ih =>
    have hother : ∀ {q : Phrase Node} {d : Cursor}, q.Heads p.front →
        Gives d (operators g site level n q) fun a _ => a = p ∨ a.Heads p.front := by
      intro q d hq
      refine (ih q).mono fun a _ ha => .inr ?_
      rcases ha with rfl | ha
      · exact hq
      · exact hq.1 ▸ ha
    dsimp only [operators]
    refine .skip <| .fork (.pure (.inl rfl)) <| .after fun o _ => ?_
    split
    · exact .fork (.pure (.inl rfl)) <| .skip <| .skip <| hother ⟨rfl, rfl⟩
    · refine .ite_after fun cs _ => ?_
      split
      · exact hother ⟨rfl, rfl⟩
      refine .skip <| .fork ?_ <| .fork ?_ <| .fork ?_ ?_
      · exact .skip <| .after fun q _ => hother ⟨rfl, rfl⟩
      · exact .skip <| .after fun q _ => hother ⟨rfl, rfl⟩
      · exact .skip <| (startsAt_aliased g site p _).bind fun q d hq => hother hq
      · refine .fork ?_ <| .pure (.inl rfl)
        exact .skip <| (startsAt_conditional g site p _).bind fun q d hq => hother hq

lemma startsAt_lambda (start : Position) : StartsAt (start, none) (lambda g site start) := by
  intro c
  rw [lambda]
  exact .skip <| .skip <| .skip <| .skip <| .skip <| .pure ⟨rfl, rfl⟩

lemma gives_nameOperand : Gives c (nameOperand g site level) fun a _ => a.Heads (c.place, none) := by
  dsimp only [nameOperand]
  refine gives_nameAtom.bind fun p _ hp => .ite_after fun _ _ => .fork ?_ ?_
  · exact .skip <| .pure ⟨hp.1, rfl⟩
  · exact .after fun ts _ => .pure (hp.apply ts)

lemma opens_operand : Opens (operand g site level) := by
  intro c
  rw [operand]
  refine .get (.fork (opens_primary g _ c) ?_)
  split
  · exact .fail
  · next x r hr =>
    refine .ite (fun hx => ?_) fun _ => .ite (fun hx => ?_) fun _ => .ite (fun hx => ?_) fun _ => ?_
    · have hchar : AtChar c := ⟨x, r, hr, by rcases hx with rfl | rfl | rfl <;> decide⟩
      exact .skip <| .skip <| .pure ⟨hchar, isFront_of_eq rfl⟩
    · refine (gives_starPrimary g _ _).mono fun _ _ h => ⟨⟨x, r, hr, ?_⟩, h.isFront⟩
      rintro rfl
      exact absurd hx (by decide)
    · have hchar : AtChar c := ⟨x, r, hr, ne_newline_of_isWordStart hx⟩
      refine .wordHere (.fork ?_ <| .fork ?_ <| .fork ?_ ?_)
      · exact .skip <| .skip <| .pure ⟨hchar, isFront_of_eq rfl⟩
      · exact .after fun _ d => (startsAt_lambda g site c.place d).mono fun _ _ h => ⟨hchar, h.isFront⟩
      · rw [awaited]
        refine .stay (stays_peek _) fun _ => .fork ?_ ?_
        · exact .skip <| .skip <| .pure ⟨hchar, isFront_of_eq rfl⟩
        · exact (gives_nameOperand g site level).mono fun _ _ h => ⟨hchar, h.isFront⟩
      · exact (gives_nameOperand g site level).mono fun _ _ h => ⟨hchar, h.isFront⟩
    · exact opens_primary g _ c

lemma opens_expression : Opens (expression g site level) := by
  intro c
  rw [expression]
  refine (opens_operand g site level c).bind fun p d hp => ?_
  refine (gives_operators g site level _ p).mono fun a _ h => ⟨hp.1, ?_⟩
  rcases h with rfl | h
  · exact hp.2
  · exact h.1 ▸ hp.2

end Operators

structure Rules.Open (g : Rules Node) : Prop where
  expr : ∀ site level, Opens (g.expr site level)
  target : ∀ follow, Opens (g.target follow)

lemma open_rules (bound n : Nat) : (rules bound n).Open := by
  cases n with
  | zero => exact ⟨fun _ _ _ => .fail, fun _ _ => .fail⟩
  | succ n => exact ⟨opens_expression _, opens_target _⟩

def BeginsAt (c : Cursor) (n : Node) : Prop :=
  AtChar c ∧ (n.mark = some (.known c.place) ∨
    (Quote.atStart? c.rest).isSome ∧ ∃ row, n.mark = some (.endsOn row))

section Statements

variable {c : Cursor} {g : Rules Node}

lemma beginsAt_phrase {p : Phrase Node} (hc : AtChar c) (hp : IsFront c p.front) (shape : Shape Node) :
    BeginsAt c (.mk (some p.mark) shape) := by
  obtain ⟨hstart, hlead⟩ : p.start = c.place ∧ (p.lead = none ∨ (Quote.atStart? c.rest).isSome) := hp
  refine ⟨hc, ?_⟩
  cases hl : p.lead with
  | none => exact .inl (by simp [Node.mark, Phrase.mark, markOf, hl, hstart])
  | some row =>
    exact .inr ⟨hlead.resolve_left (by simp [hl]), row, by simp [Node.mark, Phrase.mark, markOf, hl]⟩

lemma beginsAt_marked (hc : AtChar c) (shape : Shape Node) : BeginsAt c (marked c.place shape) :=
  ⟨hc, .inl rfl⟩

lemma opens_assignmentTargets (hg : g.Open) (isNested : Bool) : Opens (assignmentTargets g isNested) := by
  intro c
  dsimp only [assignmentTargets]
  refine .get (.require fun _ => (hg.target _ c).bind fun first _ hf => .skip <| .after fun _ _ => ?_)
  refine .fork (.pure hf) <| .after fun second _ => ?_
  split <;> exact .skip <| .pure hf

lemma gives_assignment (hg : g.Open) (isNested : Bool) (n : Nat) :
    Gives c (assignment g isNested n) fun a _ => BeginsAt c a.statement := by
  cases n with
  | zero => exact .fail
  | succ n =>
    dsimp only [assignment]
    refine (opens_assignmentTargets hg isNested c).bind fun p _ hp => .skip <| .fork ?_ ?_
    · exact .skip <| .skip <| .pure (beginsAt_phrase hp.1 hp.2 _)
    refine .after fun _ _ => ?_
    split
    · exact .skip <| .skip <| .pure (beginsAt_phrase hp.1 hp.2 _)
    · refine .skip <| .skip <| .skip <| .skip <| .skip <| .after fun _ _ => ?_
      refine .fork ?_ <| .pure (beginsAt_phrase hp.1 hp.2 _)
      exact .skip <| .skip <| .pure (beginsAt_phrase hp.1 hp.2 _)

lemma gives_whole {α : Type} {p : Parser α} {Q : α → Prop} (hp : Gives c p fun n _ => Q n) :
    Gives c (whole p) fun n _ => Q n := by
  rw [whole]
  exact hp.bind fun n _ hn => .skip <| .pure hn

lemma startsAt_yieldValue (g : Rules Node) (site : Site) (start : Position) :
    StartsAt (start, none) (yieldValue g site start) := by
  intro c
  rw [yieldValue]
  refine .skip <| .skip <| .fork (.pure ⟨rfl, rfl⟩) <| .after fun _ _ => ?_
  refine .fork (.skip <| .skip <| .pure ⟨rfl, rfl⟩) <| .after fun _ _ => ?_
  exact .fork (.skip <| .pure ⟨rfl, rfl⟩) <| .pure ⟨rfl, rfl⟩

lemma gives_valueStatement (hg : g.Open) : Gives c (valueStatement g) fun n _ => BeginsAt c n := by
  rw [valueStatement]
  refine .here (.keyword? (fun hw d => ?_) ?_)
  · have hchar : AtChar c := atChar_of_word fun hnil => absurd hw (by rw [hnil]; decide)
    exact (startsAt_yieldValue g _ _ d).bind fun p _ hp => .pure (beginsAt_phrase hchar hp.isFront _)
  · refine (hg.expr _ _ c).bind fun first _ hf => .after fun r _ => ?_
    obtain ⟨ps, _⟩ := r
    dsimp only
    split <;> exact .pure (beginsAt_phrase hf.1 hf.2 _)

lemma gives_expressionStatement (hg : g.Open) : Gives c (expressionStatement g) fun n _ => BeginsAt c n := by
  rw [expressionStatement]
  refine .or (gives_whole ?_) (gives_whole (gives_valueStatement hg))
  exact (gives_assignment hg false _).bind fun a _ ha => .pure ha

def MarkedAt (start : Position) (n : Node) : Prop := n.mark = some (.known start) ∧ isComposite n = true

def MarksAt (start : Position) (p : Parser Node) : Prop := ∀ c, Gives c p fun n _ => MarkedAt start n

lemma MarksAt.begins {p : Parser Node} (h : MarksAt c.place p) (hc : AtChar c) {d : Cursor} :
    Gives d p fun n _ => BeginsAt c n := (h d).mono fun _ _ hn => ⟨hc, .inl hn.1⟩

lemma marksAt_deletion (g : Rules Node) (start : Position) : MarksAt start (deletion g start) := by
  intro c
  rw [deletion]
  exact .skip <| .skip <| .skip <| .pure ⟨rfl, rfl⟩

lemma marksAt_raising (g : Rules Node) (start : Position) : MarksAt start (raising g start) := by
  intro c
  dsimp only [raising]
  refine .skip <| .ite_after fun _ _ => .skip <| .fork ?_ <| .pure ⟨rfl, rfl⟩
  exact .skip <| .skip <| .pure ⟨rfl, rfl⟩

lemma marksAt_asserting (g : Rules Node) (start : Position) : MarksAt start (asserting g start) := by
  intro c
  rw [asserting]
  refine .after fun ps _ => ?_
  split
  · exact .pure ⟨rfl, rfl⟩
  · exact .fail

lemma marksAt_plainImport (g : Rules Node) (start : Position) : MarksAt start (plainImport g start) := by
  intro c
  rw [plainImport]
  exact .skip <| .skip <| .pure ⟨rfl, rfl⟩

lemma marksAt_fromImport (g : Rules Node) (start : Position) : MarksAt start (fromImport g start) := by
  intro c
  dsimp only [fromImport]
  refine .skip <| .after fun w _ => ?_
  have himport : ∀ (r : Option String × Nat) (d : Cursor), Gives d (do
      toToken .inner false
      keyword "import"
      toToken .inner false
      if ← startsWith "*" then do
        require (!decide (w = futureModule))
        let spot ← here
        symbol "*"
        pure (marked start (.importFrom r.1 [unmarked (.importAlias "*" none spot)] r.2))
      else do
        let names ← importList g
        pure (marked start (.importFrom r.1 names r.2))) fun n _ => MarkedAt start n := by
    intro r d
    refine .skip <| .skip <| .skip <| .skip <| .fork ?_ ?_
    · exact .skip <| .skip <| .skip <| .pure ⟨rfl, rfl⟩
    · exact .skip <| .pure ⟨rfl, rfl⟩
  exact .fork (.skip <| .after himport) <| .after himport

lemma gives_printing (g : Rules Node) : Gives c (printing g) fun n _ => MarkedAt c.place n := by
  rw [printing]
  refine .here (.skip <| .skip <| .skip <| .fork ?_ ?_)
  · exact .skip <| .skip <| .after fun r _ => .pure ⟨rfl, rfl⟩
  · exact .skip <| .skip <| .skip <| .after fun r _ => .pure ⟨rfl, rfl⟩

lemma gives_executing (g : Rules Node) : Gives c (executing g) fun n _ => MarkedAt c.place n := by
  dsimp only [executing]
  refine .here (.skip <| .skip <| .skip <| .fork ?_ ?_)
  · exact .skip <| .skip <| .ite_after fun _ _ => .pure ⟨rfl, rfl⟩
  · refine .skip <| .skip <| .skip <| .skip <| .skip <| .after fun _ _ => ?_
    exact .ite_after fun _ _ => .pure ⟨rfl, rfl⟩

lemma gives_typeAlias (g : Rules Node) : Gives c (typeAlias g) fun n _ => MarkedAt c.place n := by
  rw [typeAlias]
  refine .here (.skip <| .skip <| .skip <| .skip <| .after fun _ _ => ?_)
  exact .skip <| .skip <| .skip <| .skip <| .pure ⟨rfl, rfl⟩

lemma gives_simpleStatement (hg : g.Open) : Gives c (simpleStatement g) fun n _ => BeginsAt c n := by
  dsimp only [simpleStatement]
  refine .get (.fork (gives_expressionStatement hg) <| .wordHere ?_)
  have hexpr : Gives c (expressionStatement g) fun n _ => BeginsAt c n := gives_expressionStatement hg
  have hchar : ∀ {w : String}, w ≠ "" → String.ofList (word c.rest) = w → AtChar c := fun hne hw =>
    atChar_of_word fun hnil => hne (by rw [← hw, hnil])
  split
  · next hw => exact .skip <| .pure (beginsAt_marked (hchar (by decide) hw) _)
  · next hw => exact .skip <| .pure (beginsAt_marked (hchar (by decide) hw) _)
  · next hw => exact .skip <| .pure (beginsAt_marked (hchar (by decide) hw) _)
  · next hw => exact .skip <| .skip <| .pure (beginsAt_marked (hchar (by decide) hw) _)
  · next hw => exact .skip <| (marksAt_deletion g _).begins (hchar (by decide) hw)
  · next hw => exact .skip <| (marksAt_raising g _).begins (hchar (by decide) hw)
  · next hw => exact .skip <| (marksAt_asserting g _).begins (hchar (by decide) hw)
  · next hw => exact .skip <| .skip <| .pure (beginsAt_marked (hchar (by decide) hw) _)
  · next hw => exact .skip <| .skip <| .pure (beginsAt_marked (hchar (by decide) hw) _)
  · next hw => exact .skip <| (marksAt_plainImport g _).begins (hchar (by decide) hw)
  · next hw => exact .skip <| (marksAt_fromImport g _).begins (hchar (by decide) hw)
  · next hw =>
    have hprint := (gives_printing (c := c) g).mono fun n _ hn => (⟨hchar (by decide) hw, .inl hn.1⟩ : BeginsAt c n)
    exact .stay (stays_peek _) fun _ => .fork hprint <| .or hexpr (gives_whole hprint)
  · next hw =>
    refine .or (gives_whole ?_) hexpr
    exact (gives_executing g).mono fun n _ hn => ⟨hchar (by decide) hw, .inl hn.1⟩
  · next hw =>
    refine .or (gives_whole ?_) hexpr
    exact (gives_typeAlias g).mono fun n _ hn => ⟨hchar (by decide) hw, .inl hn.1⟩
  · exact hexpr

lemma marksAt_branch (start : Position) : MarksAt start (branch g start) := by
  intro c
  rw [branch]
  exact .skip <| .skip <| .skip <| .skip <| .pure ⟨rfl, rfl⟩

lemma marksAt_whileLoop (start : Position) : MarksAt start (whileLoop g start) := by
  intro c
  rw [whileLoop]
  exact .skip <| .skip <| .skip <| .skip <| .pure ⟨rfl, rfl⟩

lemma marksAt_forLoop (start : Position) (isAsync : Bool) : MarksAt start (forLoop g start isAsync) := by
  intro c
  rw [forLoop]
  refine .skip <| .skip <| .skip <| .skip <| .skip <| .after fun _ _ => ?_
  exact .skip <| .skip <| .pure ⟨rfl, rfl⟩

lemma marksAt_withBlock (start : Position) (isAsync : Bool) : MarksAt start (withBlock g start isAsync) := by
  intro c
  dsimp only [withBlock]
  exact .skip <| .skip <| .ite_after fun _ _ => .skip <| .pure ⟨rfl, rfl⟩

lemma marksAt_functionDef (start : Position) (decorators : List Node) (isAsync : Bool) :
    MarksAt start (functionDef g start decorators isAsync) := by
  intro c
  rw [functionDef]
  refine .skip <| .skip <| .skip <| .skip <| .skip <| .after fun _ _ => ?_
  exact .skip <| .skip <| .skip <| .skip <| .pure ⟨rfl, rfl⟩

lemma marksAt_classDef (start : Position) (decorators : List Node) : MarksAt start (classDef g start decorators) := by
  intro c
  dsimp only [classDef]
  exact .skip <| .skip <| .skip <| .skip <| .ite_after fun _ _ =>
    .skip <| .pure ⟨rfl, rfl⟩

lemma marksAt_decorated (start : Position) : MarksAt start (decorated g start) := by
  intro c
  rw [decorated]
  refine .after fun ds d => ?_
  rw [definition]
  refine .skip <| .fork (marksAt_classDef _ _ _) <| .after fun _ _ => ?_
  refine .fork (marksAt_functionDef _ _ _ _) ?_
  exact .skip <| .skip <| .skip <| marksAt_functionDef _ _ _ _

lemma marksAt_tryBlock (start : Position) : MarksAt start (tryBlock g start) := by
  intro c
  rw [tryBlock]
  refine .skip <| .after fun a _ => ?_
  split
  · split
    · exact .skip <| .skip <| .skip <| .pure ⟨rfl, rfl⟩
    · exact .skip <| .skip <| .skip <| .skip <| .pure ⟨rfl, rfl⟩
  · exact .fail

lemma marksAt_choice (start : Position) : MarksAt start (choice g start) := by
  intro c
  rw [choice]
  exact .skip <| .skip <| .skip <| .skip <| .skip <| .pure ⟨rfl, rfl⟩

lemma gives_statement {Q : List Node → Cursor → Prop} (hline : Gives c (statementLine g) Q)
    (hsingle : ∀ {p : Parser Node} {start : Position} {d : Cursor}, MarksAt start p →
      Gives d (p >>= fun n => pure [n]) Q) : Gives c (statement g) Q := by
  dsimp only [statement]
  refine .get (.fork hline <| .startsWith (.fork (hsingle (marksAt_decorated _)) ?_))
  refine .wordHere ?_
  split
  · exact .skip <| hsingle (marksAt_branch _)
  · exact .skip <| hsingle (marksAt_forLoop _ _)
  · exact .skip <| hsingle (marksAt_whileLoop _)
  · exact .skip <| hsingle (marksAt_tryBlock _)
  · exact .skip <| hsingle (marksAt_withBlock _ _)
  · exact .skip <| hsingle (marksAt_functionDef _ _ _)
  · exact .skip <| hsingle (marksAt_classDef _ _)
  · dsimp only [asyncStatement]
    refine .stay (stays_peek _) fun w => ?_
    split
    · exact .skip <| .skip <| .skip <| hsingle (marksAt_functionDef _ _ _)
    · exact .skip <| .skip <| .skip <| hsingle (marksAt_forLoop _ _)
    · exact .skip <| .skip <| .skip <| hsingle (marksAt_withBlock _ _)
    · exact hline
  · exact .or (.skip <| hsingle (marksAt_choice _)) hline
  · exact hline

end Statements

end SourceBlocks.Grammar

namespace SourceBlocks.Lexis.Source

open Grammar Grammar.Parser
open SourceBlocks.Tree (Mark Node)

variable {S : Source} {g : Rules Node}

def Begins (S : Source) (n : Node) : Prop :=
  (∃ i x, n.mark = some (.known (S.placeAt i)) ∧ S.chars[i]? = some x ∧ x ≠ '\n') ∨
    ∃ row, n.mark = some (.endsOn row)

lemma Has.begins {c : Cursor} {n : Node} (hc : S.Has c) (h : BeginsAt c n) : S.Begins n := by
  obtain ⟨⟨x, r, hr, hx⟩, hm | ⟨-, hm⟩⟩ := h
  · refine .inl ⟨c.index, x, hc.place ▸ hm, ?_, hx⟩
    rw [← List.head?_drop, ← hc.rest, hr, List.head?_cons]
  · exact .inr hm

lemma reads_begins {p : Parser Node} (hp : S.Reads p S.NodeIn) (h : ∀ c, Gives c p fun n _ => BeginsAt c n) :
    S.Reads p fun _ n _ => S.Begins n :=
  fun i c hc hi n d hd => ⟨(hp i c hc hi n d hd).1, hc.begins (h c n d hd)⟩

lemma Chained.forall_mem {α : Type} {P : α → Prop} {i j : Nat} {as : List α}
    (h : Chained (fun _ a _ => P a) i as j) : ∀ a ∈ as, P a := by
  induction h with
  | nil => simp
  | cons ha _ ih => exact List.forall_mem_cons.mpr ⟨ha, ih⟩

lemma begins_statementLine (hg : g.Sound S) (ho : g.Open) :
    S.Reads (statementLine g) fun _ ns _ => ∀ n ∈ ns, S.Begins n := by
  have hsimple := reads_begins (reads_simpleStatement hg) fun _ => gives_simpleStatement ho
  intro i
  dsimp only [statementLine]
  refine (hsimple i).bind fun first j hf => ?_
  refine (reads_series (R := fun _ n _ => S.Begins n) (fun k => ?_) _ j).bind fun (more, _) m hm => .pure ?_
  · refine (reads_look _ _ k).bind fun _ k₁ h₁ => .fork (.pure h₁) ?_
    refine .symbol (by decide) fun k₂ h₂ => (reads_look _ _ k₂).bind fun _ k₃ h₃ => ?_
    refine .fork ?_ <| .pure (show k ≤ k₃ by omega)
    exact (hsimple k₃).bind fun n k₄ hn => .pure hn
  · exact List.forall_mem_cons.mpr ⟨hf, hm.forall_mem⟩

lemma yields_startsWith {β : Type} {s : String} {i : Nat} {c : Cursor} (hc : S.Has c) (hi : c.index = i)
    {f : Bool → Parser β} {Q : β → Nat → Prop} (h : S.Yields i (f (s.toList.isPrefixOf c.rest)) Q) :
    S.Yields i (startsWith s >>= f) Q := by
  intro d hd hdi b e he
  have hrest : d.rest = c.rest := by rw [hd.rest, hdi, ← hi, ← hc.rest]
  exact h d hd hdi b e (hrest ▸ he)

lemma begins_single {p : Parser Node} {i j : Nat} {c : Cursor} (hc : S.Has c) (hchar : AtChar c)
    (hp : S.Yields j p (S.NodeIn i)) (h : MarksAt c.place p) :
    S.Yields j (p >>= fun n => pure [n]) fun ns _ => ∀ n ∈ ns, S.Begins n := by
  have hboth : S.Yields j p fun n _ => S.Begins n := fun d hd hi n e he =>
    ⟨(hp d hd hi n e he).1, hc.begins ⟨hchar, .inl (h d n e he).1⟩⟩
  exact hboth.bind fun n k hn => .pure (by simpa using hn)

lemma begins_asyncStatement (hg : g.Sound S) (ho : g.Open) {c : Cursor} (hc : S.Has c) (hchar : AtChar c) :
    S.Yields c.index (asyncStatement g c.place) fun ns _ => ∀ n ∈ ns, S.Begins n := by
  dsimp only [asyncStatement]
  refine .stay (stays_peek _) fun w => ?_
  have behind : ∀ {p : Parser Node} {w : String}, w ≠ "" →
      (∀ j, c.index < j → S.Yields j p (S.NodeIn c.index)) → MarksAt c.place p → S.Yields c.index (do
        keyword "async"
        toToken .inner false
        keyword w
        let n ← p
        pure [n]) fun ns _ => ∀ n ∈ ns, S.Begins n := by
    intro p w hw hp hm
    refine .keyword (by decide) fun j h => .token fun j₁ h₁ => ?_
    exact (reads_keyword hw j₁).bind fun _ j₂ h₂ => begins_single hc hchar (hp j₂ (by omega)) hm
  rw [hc.place] at behind ⊢
  split
  · refine behind (by decide) (fun j hj => ?_) (marksAt_functionDef _ _ _)
    exact yields_functionDef hg (Nat.le_of_lt hj) (.nil (Nat.le_of_lt hj)) true
  · exact behind (by decide) (fun j hj => yields_forLoop hg hj true) (marksAt_forLoop _ _)
  · exact behind (by decide) (fun j hj => yields_withBlock hg hj true) (marksAt_withBlock _ _)
  · exact begins_statementLine hg ho _

lemma begins_statement (hg : g.Sound S) (ho : g.Open) :
    S.Reads (statement g) fun _ ns _ => ∀ n ∈ ns, S.Begins n := by
  intro i
  dsimp only [statement]
  have hline := begins_statementLine hg ho i
  refine .get fun c hc hi => .fork hline <| yields_startsWith hc hi (.ite (fun hat => ?_) fun _ => ?_)
  · have hchar : AtChar c := by
      cases hr : c.rest with
      | nil => simp [hr] at hat
      | cons x r =>
        refine ⟨x, r, hr, ?_⟩
        rintro rfl
        simp [hr] at hat
    obtain rfl := hi
    exact begins_single hc hchar (hc.place ▸ reads_decorated hg) (marksAt_decorated _)
  refine yields_wordHere hc hi ?_
  have behind : ∀ {p : Parser Node} {w : String}, w ≠ "" → String.ofList (word c.rest) = w →
      (∀ j, i < j → S.Yields j p (S.NodeIn i)) → MarksAt c.place p → S.Yields i (do
        advance (String.ofList (word c.rest)).length
        let n ← p
        pure [n]) fun ns _ => ∀ n ∈ ns, S.Begins n := by
    intro p w hne hw hp hm
    have hchar : AtChar c := atChar_of_word fun hnil => hne (by rw [← hw, hnil])
    exact (yields_advanceWord hc hi (hw ▸ hne)).bind fun _ j hj => begins_single hc hchar (hp j hj) hm
  have hplace : c.place = S.placeAt i := hi ▸ hc.place
  split
  · next hw => exact behind (by decide) hw (fun j hj => hplace ▸ yields_branch hg hj) (marksAt_branch _)
  · next hw => exact behind (by decide) hw (fun j hj => hplace ▸ yields_forLoop hg hj false) (marksAt_forLoop _ _)
  · next hw => exact behind (by decide) hw (fun j hj => hplace ▸ yields_whileLoop hg hj) (marksAt_whileLoop _)
  · next hw => exact behind (by decide) hw (fun j hj => hplace ▸ yields_tryBlock hg hj) (marksAt_tryBlock _)
  · next hw => exact behind (by decide) hw (fun j hj => hplace ▸ yields_withBlock hg hj false) (marksAt_withBlock _ _)
  · next hw =>
    refine behind (by decide) hw (fun j hj => hplace ▸ ?_) (marksAt_functionDef _ _ _)
    exact yields_functionDef hg (Nat.le_of_lt hj) (.nil (Nat.le_of_lt hj)) false
  · next hw =>
    refine behind (by decide) hw (fun j hj => hplace ▸ ?_) (marksAt_classDef _ _)
    exact yields_classDef hg (Nat.le_of_lt hj) (.nil (Nat.le_of_lt hj))
  · next hw =>
    have hchar : AtChar c := atChar_of_word fun hnil => absurd hw (by rw [hnil]; decide)
    exact hi ▸ begins_asyncStatement hg ho hc hchar
  · next hw => exact .or (behind (by decide) hw (fun j hj => hplace ▸ yields_choice hg hj) (marksAt_choice _)) hline
  · exact hline

lemma begins_block (hg : g.Sound S) (ho : g.Open) : S.Reads (block g) fun _ ns _ => ∀ n ∈ ns, S.Begins n := by
  intro i
  rw [block]
  refine (reads_collect (R := fun _ ns _ => ∀ n ∈ ns, S.Begins n) (fun k => ?_) _ i).bind fun nss j hns => .pure ?_
  · rw [blockStep]
    refine yields_aheadHere fun a ha => ?_
    cases a with
    | shallower => exact (reads_closeBlock k).bind fun _ m hm => .pure hm
    | token c =>
      obtain ⟨hc, hle⟩ := ha c rfl
      refine .set hc (.fork (.pure hle) ?_)
      exact (begins_statement hg ho _).bind fun ns m hns => .pure hns
    | lineEnd => exact .fail
    | deeper n => exact .fail
  · intro n hn
    obtain ⟨ns, hmem, hn⟩ := List.mem_flatten.mp hn
    exact hns.forall_mem ns hmem n hn

end SourceBlocks.Lexis.Source

namespace SourceBlocks.Grammar

open SourceBlocks.Lexis (Source)

lemma read_begins {S : Source} {ns : List Tree.Node} (h : read S.margin S.chars = .ok (Tree.Node.mk none (.module ns))) :
    ∀ n ∈ ns, S.Begins n := by
  simp only [read] at h
  split at h
  · next ns' d hd =>
    obtain rfl : ns' = ns := by simpa [unmarked] using h
    exact (Source.begins_block (sound_rules S _ _) (open_rules _ _) 0 _ S.has_ofSource rfl _ d hd).2
  · cases h

end SourceBlocks.Grammar
