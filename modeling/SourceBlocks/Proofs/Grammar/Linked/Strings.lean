import SourceBlocks.Proofs.Grammar.Begins
import SourceBlocks.Proofs.Grammar.Linked.Links

namespace SourceBlocks.Grammar

open Lexis Grammar.Parser Outcome
open SourceBlocks.Tree (Node Shape)

lemma rel_getLast? {α β : Type} {R : α → β → Prop} {as : List α} {bs : List β} (h : List.Forall₂ R as bs) :
    Option.Rel R as.getLast? bs.getLast? := by
  induction h with
  | nil => exact .none
  | cons hab h ih =>
    cases h with
    | nil => exact .some hab
    | cons _ _ => simpa [List.getLast?_cons_cons] using ih

lemma isEmpty_of_forall₂ {α β : Type} {R : α → β → Prop} {as : List α} {bs : List β} (h : List.Forall₂ R as bs) :
    bs.isEmpty = as.isEmpty := by
  cases h <;> rfl

variable {τ : Type} {L : Links τ}

namespace Links

lemma values_of_phrases {ps : List (Phrase τ)} {ps' : List (Phrase Node)} (h : List.Forall₂ L.Phrases ps ps') :
    L.values (ps.map Phrase.node) (ps'.map Phrase.node) :=
  List.rel_map (fun _ _ h => h.value) h

lemma stop_getLast? {p : Phrase τ} {p' : Phrase Node} {ps : List (Phrase τ)} {ps' : List (Phrase Node)}
    (h : L.Phrases p p') (hs : List.Forall₂ L.Phrases ps ps') :
    (ps'.getLast?.map Phrase.stop).getD p'.stop = (ps.getLast?.map Phrase.stop).getD p.stop := by
  have hlast := rel_getLast? hs
  generalize ps.getLast? = x, ps'.getLast? = x' at hlast
  cases hlast with
  | none => exact h.stop
  | some hlast => exact hlast.stop

variable [Builder τ]

variable (hL : L.Lawful)

include hL

lemma Lawful.all_phrases {ps : List (Phrase τ)} {ps' : List (Phrase Node)}
    (h : List.Forall₂ L.operand ps ps') : List.Forall₂ L.Phrases ps ps' := h.imp fun _ _ => hL.phrases

lemma Lawful.values_of_operands {ps : List (Phrase τ)} {ps' : List (Phrase Node)}
    (h : List.Forall₂ L.operand ps ps') : L.values (ps.map Phrase.node) (ps'.map Phrase.node) :=
  values_of_phrases (hL.all_phrases h)

lemma Lawful.value {p : Phrase τ} {p' : Phrase Node} (h : L.operand p p') : L.value p.node p'.node :=
  (hL.phrases h).value

lemma Lawful.value_marked {s : Shape τ} {s' : Shape Node} (start : Position) (h : L.ValueForm s s') :
    L.value (marked start s) (marked (start.inset L.shift) s') := hL.value (hL.leaf start 0 h)

lemma Lawful.phrases_tuple {p : Phrase τ} {p' : Phrase Node} {ps : List (Phrase τ)}
    {ps' : List (Phrase Node)} (h : L.operand p p') (hs : List.Forall₂ L.operand ps ps') :
    L.Phrases (p.extend ((ps.getLast?.map Phrase.stop).getD p.stop) (.tuple (ps.map Phrase.node)))
      (p'.extend ((ps'.getLast?.map Phrase.stop).getD p'.stop) (.tuple (ps'.map Phrase.node))) where
  value := hL.openTuple (hL.phrases h) (hL.values_of_operands hs)
  start := (hL.phrases h).start
  stop := stop_getLast? (hL.phrases h) (hL.all_phrases hs)
  lead := (hL.phrases h).lead

end Links

variable [Builder τ] {g : Rules τ} {g' : Rules Node}

lemma alike_operandHere {w : Nat} : Alike w operandHere := fun _ => .ok ⟨rfl, rfl⟩

omit [Builder τ] in
lemma linked_commaList (hg : g.Linked L g') (site : Site) (first : Phrase τ) (first' : Phrase Node) :
    Linked L.shift (fun r r' => ∃ more more', r.1 = first :: more ∧ r'.1 = first' :: more' ∧
      List.Forall₂ L.operand more more' ∧ r'.2 = r.2) (commaList g site first) (commaList g' site first') := by
  refine .bind (.series (R := L.operand) ?_ hg.bound) fun r r' hr => .pure ⟨r.1, r'.1, rfl, rfl, hr.1, ?_⟩
  · refine .look fun _ => .ite (.pure .none) (.symbol? fun _ => .ite (.pure .none) ?_)
    refine .look fun _ => .ite (.pure (.some .none)) (.step alike_operandHere fun _ => ?_)
    exact .ite (.bind (hg.expr _ _) fun p p' hp => .pure (.some (.some hp))) (.pure (.some .none))
  · simp [hr.2, isEmpty_of_forall₂ hr.1]

section

variable (hL : L.Lawful) (hg : g.Linked L g')

include hL hg

lemma linked_expressions (site : Site) :
    Linked L.shift L.Phrases (expressions g site) (expressions g' site) := by
  refine .bind (hg.expr _ _) fun first first' h => .bind (linked_commaList hg _ first first') ?_
  rintro ⟨_, comma⟩ ⟨_, _⟩ ⟨more, more', rfl, rfl, hs, rfl⟩
  exact .ite (.pure (hL.phrases_tuple h (.cons h hs))) (.pure (hL.phrases h))

lemma linked_yieldValue (site : Site) (start : Position) :
    Linked L.shift L.operand (yieldValue g site start) (yieldValue g' site (start.inset L.shift)) := by
  refine .step alike_index fun bare => .look fun _ => .ite (.pure (hL.leaf _ _ (.yieldValue .none))) ?_
  refine .step (alike_keyword? _) fun _ => .ite ?_ (.step alike_operandHere fun _ => .ite ?_ ?_)
  · refine .toOperand <| .bind (hg.expr _ _) fun p p' hp => .pure ?_
    rw [(hL.phrases hp).stop]
    exact hL.leaf _ _ (.yieldFrom (hL.value hp))
  · refine .bind (linked_expressions hL hg _) fun p p' hp => .pure ?_
    rw [hp.stop]
    exact hL.leaf _ _ (.yieldValue (.some hp.value))
  · exact .pure (hL.leaf _ _ (.yieldValue .none))

lemma linked_orYield (site : Site) {R : Phrase τ → Phrase Node → Prop}
    (hR : ∀ q q', L.operand q q' → R q q') {p : Parser (Phrase τ)} {p' : Parser (Phrase Node)}
    (hp : Linked L.shift R p p') : Linked L.shift R (orYield g site p) (orYield g' site p') :=
  .step insets_here fun _ => .step (alike_keyword? _) fun _ => .ite ((linked_yieldValue hL hg _ _).mono hR) hp

end

lemma alike_conversion? {w : Nat} : Alike w conversion? := by
  intro c
  have hrest : (c.inset w).rest = c.rest := rfl
  simp only [conversion?, hrest, Cursor.skip_inset]
  split
  · split_ifs <;> exact .ok ⟨rfl, rfl⟩
  · exact .ok ⟨rfl, rfl⟩

abbrev Silent (w : Nat) (p p' : Parser Unit) : Prop := Insets w (fun u => u) p p'

lemma silent_formatText {w : Nat} {field field' : Parser Unit} (hfield : Silent w field field') (fuel : Nat) :
    Silent w (formatText field fuel) (formatText field' fuel) := by
  induction fuel with
  | zero => exact .fail
  | succ fuel ih =>
    refine .step alike_next? fun x => ?_
    cases x with
    | none => exact .fail
    | some x => exact .ite (.pure rfl) (.ite (.step hfield fun _ => ih) (.step (alike_advance _) fun _ => ih))

section

variable (hL : L.Lawful) (hg : g.Linked L g')

include hL hg

lemma silent_field (fuel : Nat) :
    Silent L.shift (field g fuel) (field g' fuel) := by
  induction fuel with
  | zero => exact .fail
  | succ fuel ih =>
    have hvalue := linked_orYield hL hg .bracket (fun _ _ => hL.phrases) (linked_expressions hL hg .bracket)
    refine .symbol <| .toOperand <| .bind hvalue fun _ _ _ => ?_
    refine .token <| .symbol? fun _ => .token <| ?_
    refine .step alike_conversion? fun _ => .token <| .symbol? fun _ => ?_
    rw [hg.bound]
    exact .ite (.step (silent_formatText ih _) fun _ => alike_symbol _) (alike_symbol _)

lemma silent_bodyRemainder :
    Silent L.shift (bodyRemainder g) (bodyRemainder g') := by
  refine .get fun c => ?_
  dsimp only [Cursor.inset]
  split
  · exact alike_advance _
  · refine .step (alike_advance _) fun _ => .get fun d => ?_
    dsimp only [Cursor.inset]
    cases filler? d.rest with
    | some n => exact alike_advance n
    | none =>
      rw [hg.bound]
      exact silent_field hL hg _

lemma silent_stringBody (q : Quote) (fuel : Nat) :
    Silent L.shift (stringBody g q fuel) (stringBody g' q fuel) := by
  induction fuel with
  | zero => exact .fail
  | succ fuel ih =>
    rw [stringBody, stringBody, hg.bound]
    refine .get fun c => .ite (.step (alike_advance _) fun _ => ih) ?_
    refine .ite (.step (silent_field hL hg _) fun _ => ih) ?_
    dsimp only [Cursor.inset]
    cases run q false 0 c.rest with
    | closed n => exact .step (alike_advance n) fun _ => insets_modify fun _ => rfl
    | content n => exact .step (alike_advance n) fun _ => ih
    | stuck => exact .step (silent_bodyRemainder hL hg) fun _ => ih

lemma insets_stringPiece :
    Insets L.shift (Piece.inset L.shift) (stringPiece g) (stringPiece g') := by
  refine .get fun c => ?_
  have hquote : Quote.atStart? (c.inset L.shift).rest = Quote.atStart? c.rest := rfl
  simp only [hquote, Cursor.skip_inset, hg.bound]
  cases Quote.atStart? c.rest with
  | none => exact .fail
  | some q =>
    refine .step (insets_set { c.skip q.2 with inFields := q.1.fields }) fun _ => ?_
    exact .step (silent_stringBody hL hg q.1 _) fun _ => .get fun _ => .pure rfl

end

lemma gives_piece (g : Rules τ) (c : Cursor) :
    Gives c (stringPiece g) fun p d => p.start = c.place ∧ p.text = c.textTo d.index := by
  rw [stringPiece]
  refine .get ?_
  split
  · exact .fail
  · exact .skip <| .skip <| .get (.pure ⟨rfl, rfl⟩)

lemma linked_behindPiece (hL : L.Lawful) (hg : g.Linked L g') {α β : Type} {R : α → β → Prop}
    {k : Cursor → Piece → Nat → Parser α} {k' : Cursor → Piece → Nat → Parser β}
    (hk : ∀ c p stop, p.start = c.place ∧ p.text = c.textTo stop →
      Linked L.shift R (k c p stop) (k' (c.inset L.shift) (p.inset L.shift) stop)) :
    Linked L.shift R
      (do
        let c ← get
        let p ← stringPiece g
        let stop ← index
        k c p stop)
      (do
        let c ← get
        let p ← stringPiece g'
        let stop ← index
        k' c p stop) := by
  intro c
  refine (insets_stringPiece hL hg c).bind_of_ok ?_
  rintro ⟨p, d⟩ ⟨_, _⟩ hp - ⟨rfl, rfl⟩
  exact hk c p d.index (gives_piece g c p d hp) d

lemma leadOf?_inset {w : Nat} (ps : List Piece) : leadOf? (ps.map (Piece.inset w)) = leadOf? ps := by
  simp only [leadOf?, List.all_map, List.head?_map]
  cases ps.head? <;> rfl

lemma Links.Lawful.stringPhrase (hL : L.Lawful) (c : Cursor) (stop : Nat) (ps : List Piece)
    (h : ∀ p, ps = [p] → p.start = c.place ∧ p.text = c.textTo stop) :
    L.operand (stringPhrase c stop ps) (stringPhrase (c.inset L.shift) stop (ps.map (Piece.inset L.shift))) := by
  rw [Grammar.stringPhrase, Grammar.stringPhrase, leadOf?_inset]
  exact hL.string c.place stop _ ps h

lemma linked_singleString (hL : L.Lawful) (hg : g.Linked L g') :
    Linked L.shift L.operand (singleString g) (singleString g') :=
  linked_behindPiece hL hg fun c p stop hp => .pure (hL.stringPhrase c stop [p] (by simpa using hp))

lemma linked_stringRun (hL : L.Lawful) (hg : g.Linked L g') (follow : Follow) :
    Linked L.shift L.operand (stringRun g follow) (stringRun g' follow) := by
  refine linked_behindPiece hL hg fun c first stop hfirst => ?_
  refine .step (insets_collect (m := Prod.map (Piece.inset L.shift) id) ?_ hg.bound) fun more => ?_
  · refine .look fun _ => .ite (.pure rfl) (.get fun d => .ite ?_ (.pure rfl))
    exact .step (insets_stringPiece hL hg) fun _ => .step alike_index fun _ => .pure rfl
  · have hstop : ((more.map (Prod.map (Piece.inset L.shift) id)).getLast?.map Prod.snd).getD stop =
        (more.getLast?.map Prod.snd).getD stop := by
      rw [List.getLast?_map, Option.map_map]
      rfl
    have hpieces : first.inset L.shift :: (more.map (Prod.map (Piece.inset L.shift) id)).map Prod.fst =
        (first :: more.map Prod.fst).map (Piece.inset L.shift) := by simp
    rw [hstop, hpieces]
    refine .pure (hL.stringPhrase c _ _ fun p hp => ?_)
    obtain ⟨rfl, hmore⟩ := List.cons_eq_cons.mp hp
    rw [List.map_eq_nil_iff.mp hmore]
    exact hfirst

end SourceBlocks.Grammar
