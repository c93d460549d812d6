import Mathlib.Data.List.Forall2
import SourceBlocks.Grammar.Rules
import SourceBlocks.Proofs.Agreement
import SourceBlocks.Proofs.Tree.Inset

/-! Two parsers side by side, the second on a source whose rows begin farther to the right. -/

namespace SourceBlocks

namespace Lexis

variable (w : Nat)

def Cursor.inset (c : Cursor) : Cursor := { c with place := c.place.inset w, margin := c.margin + w }

def Ahead.inset : Ahead → Ahead
  | lineEnd => lineEnd
  | deeper column => deeper column
  | shallower => shallower
  | token c => token (c.inset w)

variable {w}

lemma Cursor.step_inset (c : Cursor) : (c.inset w).step = c.step.inset w := by
  obtain ⟨rest, index, place, margin, indents, inFields, total⟩ := c
  cases rest with
  | nil => rfl
  | cons x r =>
    simp only [Cursor.step, Cursor.inset, Position.inset]
    split_ifs
    · rfl
    · simp only [Nat.add_right_comm]

lemma Cursor.skip_inset (c : Cursor) (n : Nat) : (c.inset w).skip n = (c.skip n).inset w := by
  induction n generalizing c with
  | zero => rfl
  | succ n ih => rw [skip, skip, step_inset, ih]

lemma inset_of_rowEvent? {e : Expectation} {c : Cursor} {m : Margin} {a : Ahead} (h : rowEvent? e c m = some a) :
    a.inset w = a := by
  cases a with
  | token d =>
    simp only [rowEvent?] at h
    split_ifs at h <;> cases h
  | _ => rfl

lemma ahead_inset (e : Expectation) (n : Nat) (c : Cursor) : ahead e n (c.inset w) = (ahead e n c).inset w := by
  induction n generalizing c with
  | zero => rfl
  | succ n ih =>
    have hrest : (c.inset w).rest = c.rest := rfl
    have hevent : rowEvent? e (c.inset w) = rowEvent? e c := rfl
    simp only [ahead, hrest, hevent, Cursor.skip_inset]
    generalize Margin.read? e.readsComments false Margin.start c.rest = m
    cases hm : m.bind (rowEvent? e c) with
    | some a =>
      obtain ⟨margin, -, ha⟩ := Option.bind_eq_some_iff.mp hm
      exact (inset_of_rowEvent? ha).symm
    | none =>
      dsimp only
      split
      · rfl
      · have hfiller : filler? ((c.skip (c.rest.takeWhile isGap).length).inset w).rest =
            filler? (c.skip (c.rest.takeWhile isGap).length).rest := rfl
        rw [hfiller]
        cases filler? (c.skip (c.rest.takeWhile isGap).length).rest with
        | some k => exact ih _
        | none => rfl

end Lexis

namespace Grammar

open Lexis Outcome

namespace Parser

variable {α β γ δ : Type} {w : Nat} {R : α → β → Prop} {Q : γ → δ → Prop} {p q : Parser α} {p' q' : Parser β}

def Linked (w : Nat) (R : α → β → Prop) (p : Parser α) (p' : Parser β) : Prop :=
  ∀ c : Cursor, Agree (fun e e' => e' = e.inset w) (fun r r' => R r.1 r'.1 ∧ r'.2 = r.2.inset w) (p c) (p' (c.inset w))

abbrev Insets (w : Nat) (m : α → β) (p : Parser α) (p' : Parser β) : Prop := Linked w (fun a b => b = m a) p p'

namespace Linked

lemma mono {R' : α → β → Prop} (h : Linked w R p p') (hR : ∀ a b, R a b → R' a b) : Linked w R' p p' :=
  fun c => (h c).mono fun _ _ hr => ⟨hR _ _ hr.1, hr.2⟩

lemma pure {a : α} {b : β} (h : R a b) : Linked w R (Pure.pure a) (Pure.pure b) := fun _ => .ok ⟨h, rfl⟩

lemma bind {k : α → Parser γ} {k' : β → Parser δ} (hp : Linked w R p p')
    (hk : ∀ a b, R a b → Linked w Q (k a) (k' b)) : Linked w Q (p >>= k) (p' >>= k') := by
  intro c
  refine (hp c).bind ?_
  rintro ⟨a, d⟩ ⟨b, _⟩ ⟨hR, rfl⟩
  exact hk a b hR d

lemma step {m : α → β} {k : α → Parser γ} {k' : β → Parser δ} (hp : Insets w m p p')
    (hk : ∀ a, Linked w Q (k a) (k' (m a))) : Linked w Q (p >>= k) (p' >>= k') := by
  refine hp.bind ?_
  rintro a _ rfl
  exact hk a

lemma map {f : α → γ} {f' : β → δ} (hp : Linked w R p p') (hf : ∀ a b, R a b → Q (f a) (f' b)) :
    Linked w Q (f <$> p) (f' <$> p') := by
  rw [map_eq_pure_bind, map_eq_pure_bind]
  exact hp.bind fun a b h => .pure (hf a b h)

lemma fail : Linked w R Parser.fail Parser.fail := fun _ => .error rfl

lemma ite_of_iff {b b' : Prop} [Decidable b] [Decidable b'] (h : b' ↔ b) (hp : Linked w R p p')
    (hq : Linked w R q q') : Linked w R (if b then p else q) (if b' then p' else q') := by
  by_cases hb : b
  · rwa [if_pos hb, if_pos (h.mpr hb)]
  · rwa [if_neg hb, if_neg (mt h.mp hb)]

lemma ite {b : Prop} [Decidable b] (hp : Linked w R p p') (hq : Linked w R q q') :
    Linked w R (if b then p else q) (if b then p' else q') := ite_of_iff Iff.rfl hp hq

lemma ite_bind {b : Prop} [Decidable b] {k : α → Parser γ} {k' : β → Parser δ} (hp : Linked w R p p')
    (hq : Linked w R q q') (hk : ∀ a b, R a b → Linked w Q (k a) (k' b)) :
    Linked w Q (if b then p >>= k else q >>= k) (if b then p' >>= k' else q' >>= k') := ite (hp.bind hk) (hq.bind hk)

lemma ite_step {b : Prop} [Decidable b] {m : α → β} {k : α → Parser γ} {k' : β → Parser δ} (hp : Insets w m p p')
    (hq : Insets w m q q') (hk : ∀ a, Linked w Q (k a) (k' (m a))) :
    Linked w Q (if b then p >>= k else q >>= k) (if b then p' >>= k' else q' >>= k') := ite (hp.step hk) (hq.step hk)

lemma or (hp : Linked w R p p') (hq : Linked w R q q') : Linked w R (p.or q) (p'.or q') := by
  intro c
  have hp := hp c
  have hq := hq c
  simp only [Parser.or]
  generalize p c = x, p' (c.inset w) = x', q c = y, q' (c.inset w) = y' at hp hq
  cases hp with
  | ok h => exact .ok h
  | error h =>
    cases hq with
    | ok h' => exact .ok h'
    | error h' =>
      refine .error ?_
      rw [h, h', Position.max_inset]

lemma optional (hp : Linked w R p p') : Linked w (Option.Rel R) (Parser.optional p) (Parser.optional p') := by
  intro c
  have hp := hp c
  simp only [Parser.optional]
  generalize p c = x, p' (c.inset w) = x' at hp
  cases hp with
  | ok h => exact .ok ⟨.some h.1, h.2⟩
  | error => exact .ok ⟨.none, rfl⟩

lemma peek (hp : Linked w R p p') : Linked w R (Parser.peek p) (Parser.peek p') := by
  intro c
  have hp := hp c
  simp only [Parser.peek]
  generalize p c = x, p' (c.inset w) = x' at hp
  cases hp with
  | ok h => exact .ok ⟨h.1, rfl⟩
  | error h => exact .error h

lemma collect {p : Parser (Option α)} {p' : Parser (Option β)} (hp : Linked w (Option.Rel R) p p') {fuel fuel' : Nat}
    (hfuel : fuel' = fuel) : Linked w (List.Forall₂ R) (Parser.collect p fuel) (Parser.collect p' fuel') := by
  subst hfuel
  induction fuel' with
  | zero => exact .fail
  | succ fuel ih =>
    rw [Parser.collect, Parser.collect]
    refine .bind hp fun a b h => ?_
    cases h with
    | none => exact .pure .nil
    | some h => exact .bind ih fun as bs hs => .pure (.cons h hs)

lemma series {p : Parser (Option (Option α))} {p' : Parser (Option (Option β))}
    (hp : Linked w (Option.Rel (Option.Rel R)) p p') {fuel fuel' : Nat} (hfuel : fuel' = fuel) :
    Linked w (fun r r' => List.Forall₂ R r.1 r'.1 ∧ r'.2 = r.2) (Parser.series p fuel) (Parser.series p' fuel') := by
  subst hfuel
  induction fuel' with
  | zero => exact .fail
  | succ fuel ih =>
    rw [Parser.series, Parser.series]
    refine .bind hp fun a b h => ?_
    cases h with
    | none => exact .pure ⟨.nil, rfl⟩
    | some h =>
      cases h with
      | none => exact .pure ⟨.nil, rfl⟩
      | some h => exact .bind ih fun r r' hr => .pure ⟨.cons h hr.1, hr.2⟩

end Linked

lemma insets_require (w : Nat) (b : Bool) : Insets w (fun u => u) (Parser.require b) (Parser.require b) := by
  cases b with
  | false => exact .fail
  | true => exact .pure rfl

lemma insets_get (w : Nat) : Insets w (Cursor.inset w) (MonadState.get : Parser Cursor) MonadState.get :=
  fun _ => .ok ⟨rfl, rfl⟩

lemma insets_set (c : Cursor) :
    Insets w (fun u => u) (MonadStateOf.set c : Parser PUnit) (MonadStateOf.set (c.inset w)) := fun _ => .ok ⟨rfl, rfl⟩

lemma insets_modify {f : Cursor → Cursor} (h : ∀ c, f (c.inset w) = (f c).inset w) :
    Insets w (fun u => u) (MonadState.modifyGet fun c => (PUnit.unit, f c) : Parser PUnit)
      (MonadState.modifyGet fun c => (PUnit.unit, f c)) :=
  fun c => .ok ⟨rfl, h c⟩

abbrev Alike (w : Nat) (p : Parser α) : Prop := Insets w (fun a => a) p p

lemma alike_optional (hp : Alike w p) : Alike w (Parser.optional p) := by
  refine hp.optional.mono fun a b h => ?_
  cases h with
  | none => rfl
  | some h => rw [h]

omit w in
lemma eq_map_of_forall₂ {f : α → β} {as : List α} {bs : List β} (h : List.Forall₂ (fun a b => b = f a) as bs) :
    bs = as.map f := by
  induction h with
  | nil => rfl
  | cons h _ ih => rw [h, ih, List.map_cons]

lemma insets_collect {m : α → β} {p : Parser (Option α)} {p' : Parser (Option β)} (hp : Insets w (Option.map m) p p')
    {fuel fuel' : Nat} (hfuel : fuel' = fuel) : Insets w (List.map m) (Parser.collect p fuel) (Parser.collect p' fuel') := by
  refine (Linked.collect (R := fun a b => b = m a) (hp.mono ?_) hfuel).mono fun as bs => eq_map_of_forall₂
  rintro (_ | a) _ rfl
  · exact .none
  · exact .some rfl

lemma alike_both {p q : Parser Bool} (hp : Alike w p) (hq : Alike w q) : Alike w (Parser.both p q) :=
  .step hp fun _ => .ite hq (.pure rfl)

end Parser

section Tokens

open Grammar.Parser

variable {w : Nat}

lemma insets_here : Insets w (Position.inset w) here here := fun _ => .ok ⟨rfl, rfl⟩

lemma alike_index : Alike w index := fun _ => .ok ⟨rfl, rfl⟩

lemma alike_next? : Alike w next? := fun _ => .ok ⟨rfl, rfl⟩

lemma alike_wordHere : Alike w wordHere := fun _ => .ok ⟨rfl, rfl⟩

lemma alike_startsWith (s : String) : Alike w (startsWith s) := fun _ => .ok ⟨rfl, rfl⟩

lemma alike_firstHere (ss : List String) : Alike w (firstHere ss) := fun _ => .ok ⟨rfl, rfl⟩

lemma alike_nextIn (cs : List Char) : Alike w (nextIn cs) := fun _ => .ok ⟨rfl, rfl⟩

lemma alike_advance (n : Nat) : Alike w (advance n) := fun c => .ok ⟨rfl, c.skip_inset n⟩

lemma insets_aheadHere (e : Expectation) : Insets w (Ahead.inset w) (aheadHere e) (aheadHere e) :=
  fun c => .ok ⟨ahead_inset e _ c, rfl⟩

lemma alike_look (f : Follow) (string : Bool) : Alike w (look f string) := by
  refine .step (insets_aheadHere _) fun a => ?_
  cases a with
  | token c => exact .step (insets_set c) fun _ => .pure rfl
  | lineEnd => exact .pure rfl
  | deeper | shallower => exact .fail

lemma alike_toToken (f : Follow) (string : Bool) : Alike w (toToken f string) :=
  .step (alike_look f string) fun found => insets_require w found

lemma alike_symbol? (s : String) : Alike w (symbol? s) :=
  .step (alike_startsWith s) fun _ => .ite (.step (alike_advance _) fun _ => .pure rfl) (.pure rfl)

lemma alike_symbol (s : String) : Alike w (symbol s) := .step (alike_symbol? s) fun found => insets_require w found

lemma alike_keyword? (s : String) : Alike w (keyword? s) :=
  .step alike_wordHere fun _ => .ite (.step (alike_advance _) fun _ => .pure rfl) (.pure rfl)

lemma alike_keyword (s : String) : Alike w (keyword s) := .step (alike_keyword? s) fun found => insets_require w found

namespace Parser.Linked

variable {α β : Type} {R : α → β → Prop} {q : Parser α} {q' : Parser β}

lemma token {f : Follow} {string : Bool} (h : Linked w R q q') :
    Linked w R (toToken f string >>= fun _ => q) (toToken f string >>= fun _ => q') :=
  .step (alike_toToken f string) fun _ => h

lemma toOperand (h : Linked w R q q') :
    Linked w R (Grammar.toOperand >>= fun _ => q) (Grammar.toOperand >>= fun _ => q') := .token h

lemma symbol {s : String} (h : Linked w R q q') :
    Linked w R (Grammar.symbol s >>= fun _ => q) (Grammar.symbol s >>= fun _ => q') := .step (alike_symbol s) fun _ => h

lemma keyword {s : String} (h : Linked w R q q') :
    Linked w R (Grammar.keyword s >>= fun _ => q) (Grammar.keyword s >>= fun _ => q') := .step (alike_keyword s) fun _ => h

lemma require {b : Bool} (h : Linked w R q q') :
    Linked w R (Parser.require b >>= fun _ => q) (Parser.require b >>= fun _ => q') := .step (insets_require w b) fun _ => h

lemma get {k : Cursor → Parser α} {k' : Cursor → Parser β} (hk : ∀ c, Linked w R (k c) (k' (c.inset w))) :
    Linked w R (MonadState.get >>= k) (MonadState.get >>= k') := .step (insets_get w) hk

variable {k : Bool → Parser α} {k' : Bool → Parser β}

lemma startsWith {s : String} (hk : ∀ b, Linked w R (k b) (k' b)) :
    Linked w R (Grammar.startsWith s >>= k) (Grammar.startsWith s >>= k') := .step (alike_startsWith s) hk

lemma look {f : Follow} {string : Bool} (hk : ∀ b, Linked w R (k b) (k' b)) :
    Linked w R (Grammar.look f string >>= k) (Grammar.look f string >>= k') := .step (alike_look f string) hk

lemma symbol? {s : String} (hk : ∀ b, Linked w R (k b) (k' b)) :
    Linked w R (Grammar.symbol? s >>= k) (Grammar.symbol? s >>= k') := .step (alike_symbol? s) hk

end Parser.Linked

lemma alike_name : Alike w name :=
  .step alike_wordHere fun _ => .step (insets_require w _) fun _ => .step (alike_advance _) fun _ => .pure rfl

end Tokens

end Grammar

end SourceBlocks
