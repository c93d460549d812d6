import SourceBlocks.Proofs.Grammar.Passing
import SourceBlocks.Proofs.Grammar.Respaced

/-! Reading texts with the same tokens. -/

namespace SourceBlocks.Grammar

open Lexis Grammar.Parser

variable {f : Follow} {c c' d : Cursor} {σ : Option Margin} {s r : List Char} {o : Option (List Char)}

/-! Two cursors that stand between the same tokens. -/

lemma dropWhile_isGap (s : List Char) : (s.dropWhile isGap).dropWhile isGap = s.dropWhile isGap := by
  induction s with
  | nil => rfl
  | cons x s ih => by_cases hx : isGap x = true <;> simp [hx, ih]

def Arrived (s : List Char) : Prop := s.dropWhile isGap = s ∧ filler? s = none

lemma Leads.arrived (h : Leads f c σ s (some r)) : Arrived r := by
  generalize ho : some r = o at h
  induction h with
  | token _ hf =>
    obtain rfl := Option.some.inj ho
    exact ⟨dropWhile_isGap _, hf⟩
  | filler _ _ _ ih => exact ih ho
  | lineEnd => cases ho

lemma leads_arrived (h : Arrived s) : Leads f c none s o ↔ o = some s := by
  rw [leads_none, h.1, h.2]
  simp

structure Abreast (c c' : Cursor) : Prop extends Alongside c c' where
  room : c.rest.length ≤ c.total
  room_wide : c'.rest.length ≤ c'.total
  respaced : Respaced c.rest c'.rest

structure Facing (c c' d d' : Cursor) (g g' : List Char) : Prop where
  past : c.Past d g
  past_wide : c'.Past d' g'
  spread : Spread g g'
  aligned : Aligned d.rest d'.rest
  arrived : Arrived d.rest

lemma room_past {w : List Char} (h : c.Past d w) (hc : c.rest.length ≤ c.total) : d.rest.length ≤ d.total := by
  have hlength := congrArg List.length h.rest
  rw [List.length_append] at hlength
  rw [h.eq, Cursor.total_skip, ← h.eq]
  omega

lemma Abreast.past {d' : Cursor} {w w' : List Char} (h : Abreast c c') (hd : c.Past d w) (hd' : c'.Past d' w')
    (hrest : Respaced d.rest d'.rest) : Abreast d d' := by
  have hc := alongside_past hd
  have hc' := alongside_past hd'
  exact ⟨⟨by rw [hc'.indents, h.indents, hc.indents], by rw [hc'.inFields, h.inFields, hc.inFields]⟩,
    room_past hd h.room, room_past hd' h.room_wide, hrest⟩

lemma Facing.abreast {d' : Cursor} {g g' : List Char} (h : Facing c c' d d' g g') (hc : Abreast c c') : Abreast d d' :=
  hc.past h.past h.past_wide h.aligned.respaced

lemma begins_of_leads {g : List Char} (h : Leads f c (some .start) (g ++ r) (some r)) : ∀ x ∈ g.head?, BeginsGap x := by
  intro x hx
  obtain ⟨u, rfl⟩ := List.head?_eq_some_iff.mp hx
  by_contra hnot
  simp only [BeginsGap, not_or, Bool.not_eq_true] at hnot
  have hsolid : Solid (x :: u ++ r) := ⟨x, u ++ r, rfl, hnot⟩
  rcases (leads_solid_some hsolid).mp h with ⟨-, hnone⟩ | ⟨-, hsome⟩
  · cases hnone
  · have hlength := congrArg List.length (Option.some.inj hsome)
    simp at hlength
    omega

lemma Abreast.look_false (h : Abreast c c') (hl : look f false c = .ok (false, d)) : d = c ∧ look f false c' = .ok (false, c') := by
  obtain ⟨rfl, hleads⟩ := (look_false_iff h.room).mp hl
  refine ⟨rfl, (look_false_iff h.room_wide).mpr ⟨rfl, ?_⟩⟩
  have hleads' := h.toAlongside.leads hleads
  have hrest := h.respaced
  generalize d.rest = s, c'.rest = s' at hrest hleads'
  cases hrest with
  | same => exact hleads'
  | token hwide ht _ => exact (hwide.leads (ht.solid _) (ht.solid _) hleads' rfl fun _ hm => Option.some.inj hm ▸ uncommented_start f).2

lemma Abreast.look_true (h : Abreast c c') (hl : look f false c = .ok (true, d)) :
    ∃ d' g g', look f false c' = .ok (true, d') ∧ Facing c c' d d' g g' := by
  obtain ⟨⟨w, hw⟩, hleads⟩ := (look_true_iff h.room).mp hl
  have hleads' := h.toAlongside.leads hleads
  have hrest := h.respaced
  generalize hs : c.rest = s, hs' : c'.rest = s' at hrest hleads'
  cases hrest with
  | same =>
    have hd' : c'.Past (c'.skip w.length) w := Cursor.past_skip (s := d.rest) (by rw [hs', ← hs, hw.rest])
    have hsame : (c'.skip w.length).rest = d.rest := by
      have hcancel := hd'.rest.symm.trans (hs'.trans (hs.symm.trans hw.rest))
      exact List.append_cancel_left hcancel
    have hbegins := hw.rest ▸ hleads
    refine ⟨_, w, w, (look_true_iff h.room_wide).mpr ⟨⟨w, hd'⟩, ?_⟩, hw, hd', ⟨.inl rfl, begins_of_leads hbegins⟩, ?_,
      hleads.arrived⟩
    · rw [hs', hsame]
      exact hleads'
    · rw [hsame]
      exact .same
  | @token g g' t u u' hwide ht hu =>
    obtain ⟨ho, hwided⟩ := hwide.leads (ht.solid u) (ht.solid u') hleads' rfl
      fun _ hm => Option.some.inj hm ▸ uncommented_start f
    have hd : d.rest = t ++ u := Option.some.inj (ho.resolve_left (by simp))
    have hd' : c'.Past (c'.skip g'.length) g' := Cursor.past_skip hs'
    have hrest' : (c'.skip g'.length).rest = t ++ u' := List.append_cancel_left (hd'.rest.symm.trans hs')
    obtain rfl : w = g := by
      have hcancel := hw.rest.symm.trans hs
      rw [hd] at hcancel
      exact List.append_cancel_right hcancel
    refine ⟨_, w, g', (look_true_iff h.room_wide).mpr ⟨⟨g', hd'⟩, ?_⟩, hw, hd', ⟨.inr hwide, hwide.beginsGap.1⟩, ?_,
      hleads.arrived⟩
    · rw [hs', hrest']
      exact hwided
    · rw [hd, hrest']
      exact .token ht hu

lemma Facing.look {e e' : Cursor} {g g' : List Char} {b : Bool} (h : Facing e e' c c' g g') (he : Abreast e e')
    (hl : look f false c = .ok (b, d)) : d = c ∧ Grammar.look f false c' = .ok (b, c') := by
  have hc := h.abreast he
  cases b with
  | false => exact hc.look_false hl
  | true =>
    obtain ⟨⟨w, hw⟩, hleads⟩ := (look_true_iff hc.room).mp hl
    have hrest : d.rest = c.rest := by
      rcases leads_some.mp hleads with ⟨-, hnone⟩ | ⟨-, hsome⟩
      · cases hnone
      · exact Option.some.inj ((leads_arrived h.arrived).mp hsome)
    refine ⟨hw.unique (.refl c) hrest, (look_true_iff hc.room_wide).mpr ⟨⟨[], .refl c'⟩, ?_⟩⟩
    have hleads' := hc.toAlongside.leads hleads
    have haligned := h.aligned
    rw [hrest] at hleads'
    generalize c.rest = s, c'.rest = s' at haligned hleads'
    cases haligned with
    | same => exact hleads'
    | token ht _ => exact (leads_solid_some (ht.solid _)).mpr (.inr ⟨by simp [rowEvent?, Margin.start], rfl⟩)

def Poised (c c' d d' : Cursor) : Prop := d = c ∧ d' = c' ∨ ∃ g g', Facing c c' d d' g g'

namespace Parser

variable {α β γ δ : Type} {p q : Parser α} {p' q' : Parser β} {P Q : α → Cursor → β → Cursor → Prop}

def Replays (c c' : Cursor) (p : Parser α) (p' : Parser β) (Q : α → Cursor → β → Cursor → Prop) : Prop :=
  ∀ a d, p c = .ok (a, d) → ∃ b d', p' c' = .ok (b, d') ∧ Q a d b d'

namespace Replays

variable {k : α → Parser γ} {k' : β → Parser δ} {R : γ → Cursor → δ → Cursor → Prop}

lemma mono (h : Replays c c' p p' P) (hPQ : ∀ a d b d', P a d b d' → Q a d b d') : Replays c c' p p' Q := by
  intro a d hd
  obtain ⟨b, d', hd', hb⟩ := h a d hd
  exact ⟨b, d', hd', hPQ _ _ _ _ hb⟩

lemma pure {a : α} {b : β} (h : Q a c b c') : Replays c c' (Pure.pure a) (Pure.pure b) Q := by
  intro x d hd
  obtain ⟨rfl, rfl⟩ := Prod.mk.inj (Except.ok.inj hd)
  exact ⟨b, c', rfl, h⟩

lemma bind (hp : Replays c c' p p' Q) (hk : ∀ a d b d', Q a d b d' → Replays d d' (k a) (k' b) R) :
    Replays c c' (p >>= k) (p' >>= k') R := by
  intro r e he
  simp only [Bind.bind, StateT.bind, Except.bind] at he ⊢
  split at he
  · cases he
  · next x hx =>
    obtain ⟨b, d', hb, hQ⟩ := hp x.1 x.2 hx
    obtain ⟨r', e', he', hR⟩ := hk _ _ _ _ hQ r e he
    refine ⟨r', e', ?_, hR⟩
    rw [hb]
    exact he'

lemma fail : Replays c c' (Parser.fail : Parser α) p' Q := fun _ _ h => by cases h

lemma ite {b b' : Prop} [Decidable b] [Decidable b'] (hb : b' ↔ b) (hp : b → Replays c c' p p' Q)
    (hq : ¬ b → Replays c c' q q' Q) : Replays c c' (if b then p else q) (if b' then p' else q') Q := by
  by_cases h : b
  · rw [if_pos h, if_pos (hb.mpr h)]
    exact hp h
  · rw [if_neg h, if_neg (mt hb.mp h)]
    exact hq h

lemma ite_bind {b b' : Prop} [Decidable b] [Decidable b'] {x : Parser γ} {x' : Parser δ} (hb : b' ↔ b)
    (hx : b → (∀ a d b d', Q a d b d' → Replays d d' (k a) (k' b) R) → Replays c c' x x' R)
    (hp : ¬ b → Replays c c' p p' Q) (hk : ∀ a d b d', Q a d b d' → Replays d d' (k a) (k' b) R) :
    Replays c c' (if b then x else p >>= k) (if b' then x' else p' >>= k') R :=
  ite hb (fun h => hx h hk) fun h => (hp h).bind hk

lemma known {a : α} {b : β} (hp : p c = .ok (a, c)) (hp' : p' c' = .ok (b, c')) (hk : Replays c c' (k a) (k' b) R) :
    Replays c c' (p >>= k) (p' >>= k') R := by
  intro r e he
  simp only [Bind.bind, StateT.bind, Except.bind, hp, hp'] at he ⊢
  exact hk r e he

lemma require {b b' : Bool} {k : Unit → Parser γ} {k' : Unit → Parser δ} (hb : b' = b)
    (h : b = true → Replays c c' (k ()) (k' ()) R) :
    Replays c c' (Parser.require b >>= k) (Parser.require b' >>= k') R := by
  subst hb
  cases b' with
  | false => exact bind (Q := fun _ _ _ _ => False) fail fun _ _ _ _ h => h.elim
  | true => exact h rfl

end Replays

end Parser

section Tokens

variable {e e' d' : Cursor} {g g' w : List Char}

structure Taken (c c' d d' : Cursor) (w : List Char) : Prop where
  past : c.Past d w
  past_wide : c'.Past d' w
  abreast : Abreast d d'

lemma replays_look (he : Abreast e e') (hc : Poised e e' c c') (f : Follow) :
    Replays c c' (look f false) (look f false) fun b d b' d' =>
      b' = b ∧ Poised e e' d d' ∧ (b = true → ∃ g g', Facing e e' d d' g g') := by
  intro b d hl
  rcases hc with ⟨rfl, rfl⟩ | ⟨g, g', hc⟩
  · cases b with
    | false =>
      obtain ⟨rfl, hl'⟩ := he.look_false hl
      exact ⟨false, c', hl', rfl, .inl ⟨rfl, rfl⟩, by simp⟩
    | true =>
      obtain ⟨d', g, g', hl', hd⟩ := he.look_true hl
      exact ⟨true, d', hl', rfl, .inr ⟨g, g', hd⟩, fun _ => ⟨g, g', hd⟩⟩
  · obtain ⟨rfl, hl'⟩ := hc.look he hl
    exact ⟨b, c', hl', rfl, .inr ⟨g, g', hc⟩, fun _ => ⟨g, g', hc⟩⟩

lemma replays_toToken (he : Abreast e e') (hc : Poised e e' c c') (f : Follow) :
    Replays c c' (toToken f false) (toToken f false) fun _ d _ d' => ∃ g g', Facing e e' d d' g g' := by
  refine (replays_look he hc f).bind ?_
  rintro _ d b d' ⟨rfl, -, hd⟩
  cases b with
  | false => exact .fail
  | true => exact .pure (hd rfl)

lemma Aligned.isPrefixOf {s s' : List Char} (h : Aligned s s') (w : String) (x : Char) (hw : w.toList = [x]) :
    w.toList.isPrefixOf s' = w.toList.isPrefixOf s := by
  have hhead := h.head
  rw [hw]
  cases s <;> cases s' <;> simp_all [List.isPrefixOf]

lemma word_prefix (s : List Char) : word s <+: s := by
  cases s with
  | nil => exact List.nil_prefix
  | cons x s =>
    rw [word]
    split_ifs
    · exact List.cons_prefix_cons.mpr ⟨rfl, List.takeWhile_prefix _⟩
    · exact List.nil_prefix

lemma taken_word (hc : Abreast c c') (ha : Aligned c.rest c'.rest) (hne : word c.rest ≠ []) :
    Taken c c' (c.skip (word c.rest).length) (c'.skip (word c.rest).length) (word c.rest) := by
  have hpast : c.Past (c.skip (word c.rest).length) (word c.rest) := by
    obtain ⟨r, hr⟩ := word_prefix c.rest
    exact Cursor.past_skip hr.symm
  have hpast' : c'.Past (c'.skip (word c.rest).length) (word c.rest) := by
    obtain ⟨r, hr⟩ := word_prefix c'.rest
    rw [ha.word] at hr
    exact Cursor.past_skip hr.symm
  refine ⟨hpast, hpast', hc.past hpast hpast' ?_⟩
  rw [Cursor.rest_skip, Cursor.rest_skip]
  exact ha.drop_word hne

lemma replays_name (hc : Abreast c c') (ha : Aligned c.rest c'.rest) :
    Replays c c' name name fun a d b d' => b = a ∧ Taken c c' d d' a.toList := by
  refine .known rfl rfl (.require (by rw [ha.word]) fun hword => ?_)
  have hne : word c.rest ≠ [] := by
    intro hnil
    simp [hnil] at hword
  have htaken := taken_word hc ha hne
  intro a d h
  obtain ⟨rfl, rfl⟩ := Prod.mk.inj (Except.ok.inj h)
  refine ⟨_, _, rfl, by rw [ha.word], ?_⟩
  simpa [ha.word] using htaken

lemma replays_keyword? (hc : Abreast c c') (ha : Aligned c.rest c'.rest) (s : String) (hs : s ≠ "") :
    Replays c c' (keyword? s) (keyword? s) fun a d b d' =>
      b = a ∧ (a = true → Taken c c' d d' s.toList) ∧ (a = false → d = c ∧ d' = c') := by
  refine .known rfl rfl (.ite (by rw [ha.word]) (fun hword => ?_) fun _ => .pure ⟨rfl, by simp, fun _ => ⟨rfl, rfl⟩⟩)
  have hlist : word c.rest = s.toList := by rw [← hword, String.toList_ofList]
  have htaken := taken_word hc ha (by simpa [hlist] using hs)
  rw [hlist] at htaken
  intro a d h
  obtain ⟨rfl, rfl⟩ := Prod.mk.inj (Except.ok.inj h)
  exact ⟨_, _, rfl, rfl, fun _ => htaken, by simp⟩

lemma replays_symbol? (hc : Abreast c c') (ha : Aligned c.rest c'.rest) (s : String) (x : Char)
    (hs : s.toList = [x]) (hx : x ∈ symbols) : Replays c c' (symbol? s) (symbol? s) fun a d b d' =>
      b = a ∧ (a = true → Taken c c' d d' [x]) ∧ (a = false → d = c ∧ d' = c') := by
  refine .known rfl rfl (.ite (by rw [ha.isPrefixOf s x hs]) (fun hbegins => ?_)
    fun _ => .pure ⟨rfl, by simp, fun _ => ⟨rfl, rfl⟩⟩)
  rw [hs, List.isPrefixOf_iff_prefix] at hbegins
  obtain ⟨r, hr⟩ := hbegins
  rw [← hr] at ha
  obtain ⟨r', hr', hrest⟩ := ha.tail hx
  have hlength : s.length = [x].length := by rw [← String.length_toList, hs]
  have hpast : c.Past (c.skip s.length) [x] := hlength ▸ Cursor.past_skip hr.symm
  have hpast' : c'.Past (c'.skip s.length) [x] := hlength ▸ Cursor.past_skip (w := [x]) hr'
  have hr₁ : (c.skip s.length).rest = r := List.append_cancel_left (hpast.rest.symm.trans hr.symm)
  have hr₂ : (c'.skip s.length).rest = r' := List.append_cancel_left (hpast'.rest.symm.trans hr')
  have htaken : Taken c c' (c.skip s.length) (c'.skip s.length) [x] :=
    ⟨hpast, hpast', hc.past hpast hpast' (by rwa [hr₁, hr₂])⟩
  intro a d h
  obtain ⟨rfl, rfl⟩ := Prod.mk.inj (Except.ok.inj h)
  exact ⟨_, _, rfl, rfl, fun _ => htaken, by simp⟩

lemma replays_keyword (hc : Abreast c c') (ha : Aligned c.rest c'.rest) (s : String) (hs : s ≠ "") :
    Replays c c' (keyword s) (keyword s) fun _ d _ d' => Taken c c' d d' s.toList := by
  refine (replays_keyword? hc ha s hs).bind ?_
  rintro _ d b d' ⟨rfl, htaken, -⟩
  cases b with
  | false => exact .fail
  | true => exact .pure (htaken rfl)

lemma replays_symbol (hc : Abreast c c') (ha : Aligned c.rest c'.rest) (s : String) (x : Char)
    (hs : s.toList = [x]) (hx : x ∈ symbols) : Replays c c' (symbol s) (symbol s) fun _ d _ d' => Taken c c' d d' [x] := by
  refine (replays_symbol? hc ha s x hs hx).bind ?_
  rintro _ d b d' ⟨rfl, htaken, -⟩
  cases b with
  | false => exact .fail
  | true => exact .pure (htaken rfl)

end Tokens

end SourceBlocks.Grammar
