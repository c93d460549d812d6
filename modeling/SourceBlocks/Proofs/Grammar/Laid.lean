import SourceBlocks.Grammar.Strings
import SourceBlocks.Proofs.Grammar.Reads

/-! Trees as they are laid out in a source: the children of a node lie in the part of the node,
and a mark says where in its part a node begins. -/

namespace SourceBlocks

lemma Tree.Node.children_of_str {n : Node} {value : String} {bytes : Bool} {written : Extent}
    (h : n.shape = .str value bytes written) : n.children = [] := by
  simp [Node.children, h, Shape.children, Shape.fieldNodes, Shape.fields, Field.nodes]

namespace Lexis.Source

open Grammar
open SourceBlocks.Tree (Extent Field Mark Node Shape)

def PieceIn (S : Source) (lo : Nat) (p : Piece) (hi : Nat) : Prop :=
  ∃ a b, lo ≤ a ∧ a < b ∧ b ≤ hi ∧ p.start = S.placeAt a ∧ p.stop = S.placeAt b ∧
    p.text = (S.chars.drop a).take (b - a) ∧ (Quote.atStart? (S.chars.drop a)).isSome

def pieceValue (p : Piece) : List Char := ((Literal.decode p.text).toOption.map (·.value)).getD []

def IsPlain (p : Piece) : Prop := ∃ d, Literal.decode p.text = .ok d ∧ d.formatted = false

def LiteralIn (S : Source) (lo hi row : Nat) (value : String) (written : Extent) : Prop :=
  ∃ first rest, Chained S.PieceIn lo (first :: rest) hi ∧ (∀ p ∈ first :: rest, IsPlain p) ∧
    value = String.ofList ((first :: rest).flatMap pieceValue) ∧
    written = ⟨first.start, ((first :: rest).getLast (by simp)).stop⟩ ∧
    first.start.row ≠ first.stop.row ∧ row = first.stop.row

inductive Laid (S : Source) : Nat → List Node → Nat → Prop
  | nil {lo hi : Nat} : lo ≤ hi → Laid S lo [] hi
  | bare {lo k hi : Nat} {n : Node} {ns : List Node} : n.mark = none → Laid S lo n.children k →
      Laid S k ns hi → Laid S lo (n :: ns) hi
  | known {lo i k hi : Nat} {n : Node} {ns : List Node} : n.mark = some (.known (S.placeAt i)) →
      lo ≤ i → i < k → Laid S i n.children k → Laid S k ns hi → Laid S lo (n :: ns) hi
  | led {lo k hi row : Nat} {n c : Node} {cs ns : List Node} : n.mark = some (.endsOn row) →
      n.children = c :: cs → c.mark = some (.endsOn row) → Laid S lo n.children k →
      Laid S k ns hi → Laid S lo (n :: ns) hi
  | literal {lo k hi row : Nat} {n : Node} {ns : List Node} {value : String} {bytes : Bool}
      {written : Extent} : n.mark = some (.endsOn row) → n.shape = .str value bytes written →
      LiteralIn S lo k row value written → Laid S k ns hi → Laid S lo (n :: ns) hi

variable {S : Source} {lo hi k : Nat}

lemma PieceIn.mono {lo' hi' : Nat} {p : Piece} (h : S.PieceIn lo p hi) (hlo : lo' ≤ lo) (hhi : hi ≤ hi') :
    S.PieceIn lo' p hi' := by
  obtain ⟨a, b, ha, hab, hb, h⟩ := h
  exact ⟨a, b, by omega, hab, by omega, h⟩

namespace Chained

variable {α : Type} {R : Nat → α → Nat → Prop} {as : List α}

lemma mono_lo (hR : Lowers R) {lo' : Nat} (h : Chained R lo as hi) (hlo : lo' ≤ lo) :
    Chained R lo' as hi := by
  cases h with
  | nil h => exact .nil (by omega)
  | cons ha has => exact .cons (hR ha hlo) has

lemma mono_hi {hi' : Nat} (h : Chained R lo as hi) (hhi : hi ≤ hi') : Chained R lo as hi' := by
  induction h with
  | nil h => exact .nil (by omega)
  | cons ha _ ih => exact .cons ha (ih hhi)

lemma le (hR : ∀ {i j a}, R i a j → i ≤ j) (h : Chained R lo as hi) : lo ≤ hi := by
  induction h with
  | nil h => exact h
  | cons ha _ ih => exact Nat.le_trans (hR ha) ih

end Chained

lemma PieceIn.lt {p : Piece} (h : S.PieceIn lo p hi) : lo < hi := by
  obtain ⟨a, b, ha, hab, hb, -⟩ := h
  omega

lemma LiteralIn.mono {lo' hi' row : Nat} {value : String} {written : Extent}
    (h : S.LiteralIn lo hi row value written) (hlo : lo' ≤ lo) (hhi : hi ≤ hi') :
    S.LiteralIn lo' hi' row value written := by
  obtain ⟨first, rest, hchain, h⟩ := h
  refine ⟨first, rest, ?_, h⟩
  exact (hchain.mono_lo (fun _ _ _ _ h hle => h.mono hle (Nat.le_refl _)) hlo).mono_hi hhi

lemma LiteralIn.lt {row : Nat} {value : String} {written : Extent}
    (h : S.LiteralIn lo hi row value written) : lo < hi := by
  obtain ⟨first, rest, hchain, -⟩ := h
  cases hchain with
  | cons hp hps => exact Nat.lt_of_lt_of_le hp.lt (hps.le fun h => Nat.le_of_lt h.lt)

namespace Laid

variable {ns ms : List Node} {n : Node}

lemma le (h : S.Laid lo ns hi) : lo ≤ hi := by
  induction h with
  | nil h => exact h
  | bare _ _ _ ih ih' => exact Nat.le_trans ih ih'
  | known _ _ _ _ _ _ ih' => omega
  | led _ _ _ _ _ ih ih' => exact Nat.le_trans ih ih'
  | literal _ _ hl _ ih => exact Nat.le_trans (Nat.le_of_lt hl.lt) ih

lemma mono_lo {lo' : Nat} (h : S.Laid lo ns hi) (hlo : lo' ≤ lo) : S.Laid lo' ns hi := by
  induction h generalizing lo' with
  | nil h => exact .nil (by omega)
  | bare hm _ hns ih _ => exact .bare hm (ih hlo) hns
  | known hm hi hk hc hns => exact .known hm (by omega) hk hc hns
  | led hm hcs hc _ hns ih _ => exact .led hm hcs hc (ih hlo) hns
  | literal hm hs hl hns _ => exact .literal hm hs (hl.mono hlo (Nat.le_refl _)) hns

lemma append (h : S.Laid lo ns k) (h' : S.Laid k ms hi) : S.Laid lo (ns ++ ms) hi := by
  induction h with
  | nil h => exact h'.mono_lo h
  | bare hm hc _ _ ih => exact .bare hm hc (ih h')
  | known hm hi hk hc _ _ ih => exact .known hm hi hk hc (ih h')
  | led hm hcs hc hcc _ _ ih => exact .led hm hcs hc hcc (ih h')
  | literal hm hs hl _ ih => exact .literal hm hs hl (ih h')

lemma mono_hi {hi' : Nat} (h : S.Laid lo ns hi) (hhi : hi ≤ hi') : S.Laid lo ns hi' := by
  simpa using h.append (.nil hhi)

lemma mono {lo' hi' : Nat} (h : S.Laid lo ns hi) (hlo : lo' ≤ lo) (hhi : hi ≤ hi') :
    S.Laid lo' ns hi' := (h.mono_lo hlo).mono_hi hhi

lemma uncons (h : S.Laid lo (n :: ns) hi) : ∃ k, S.Laid lo [n] k ∧ S.Laid k ns hi := by
  cases h with
  | bare hm hc hns => exact ⟨_, .bare hm hc (.nil (Nat.le_refl _)), hns⟩
  | known hm hi hk hc hns => exact ⟨_, .known hm hi hk hc (.nil (Nat.le_refl _)), hns⟩
  | led hm hcs hc hcc hns => exact ⟨_, .led hm hcs hc hcc (.nil (Nat.le_refl _)), hns⟩
  | literal hm hs hl hns => exact ⟨_, .literal hm hs hl (.nil (Nat.le_refl _)), hns⟩

lemma of_append (h : S.Laid lo (ns ++ ms) hi) : S.Laid lo ns hi := by
  induction ns generalizing lo with
  | nil => exact .nil h.le
  | cons n ns ih =>
    obtain ⟨k, hn, hns⟩ := h.uncons
    exact hn.append (ih hns)

lemma cons (h : S.Laid lo [n] k) (h' : S.Laid k ns hi) : S.Laid lo (n :: ns) hi := h.append h'

lemma children (h : S.Laid lo [n] hi) : S.Laid lo n.children hi := by
  cases h with
  | bare _ hc hns => exact hc.mono_hi hns.le
  | known _ hi _ hc hns => exact hc.mono hi hns.le
  | led _ _ _ hc hns => exact hc.mono_hi hns.le
  | literal _ hs hl hns =>
    exact Node.children_of_str hs ▸ .nil (Nat.le_trans (Nat.le_of_lt hl.lt) hns.le)

lemma from_known {p : Position} (h : S.Laid lo [n] hi) (hm : n.mark = some (.known p)) :
    ∃ i, lo ≤ i ∧ i < hi ∧ p = S.placeAt i ∧ S.Laid i [n] hi := by
  cases h with
  | bare hm' => simp [hm'] at hm
  | @known _ i _ _ _ _ hm' hi hk hc hns =>
    obtain rfl : S.placeAt i = p := by simpa [hm'] using hm
    exact ⟨i, hi, Nat.lt_of_lt_of_le hk hns.le, rfl, .known hm' (Nat.le_refl i) hk hc hns⟩
  | led hm' => simp [hm'] at hm
  | literal hm' => simp [hm'] at hm

lemma head_led {row : Nat} (h : S.Laid lo [n] hi) (hm : n.mark = some (.endsOn row))
    (hs : ∀ value bytes written, n.shape ≠ .str value bytes written) :
    ∃ c cs, n.children = c :: cs ∧ c.mark = some (.endsOn row) := by
  cases h with
  | bare hm' => simp [hm'] at hm
  | known hm' => simp [hm'] at hm
  | led hm' hcs hc =>
    obtain rfl : _ = row := by simpa [hm'] using hm
    exact ⟨_, _, hcs, hc⟩
  | literal _ hs' => exact absurd hs' (hs _ _ _)

end Laid

lemma laid_marked {i : Nat} {shape : Shape Node} (hlo : lo ≤ i) (hlt : i < hi)
    (h : S.Laid i shape.children hi) : S.Laid lo [marked (S.placeAt i) shape] hi :=
  .known rfl hlo hlt h (.nil (Nat.le_refl _))

lemma laid_unmarked {shape : Shape Node} (h : S.Laid lo shape.children hi) :
    S.Laid lo [unmarked shape] hi :=
  .bare rfl h (.nil (Nat.le_refl _))

lemma Chained.laid {α : Type} {R : Nat → α → Nat → Prop} {f : α → List Node} {as : List α}
    (h : Chained R lo as hi) (hR : ∀ i a j, R i a j → S.Laid i (f a) j) :
    S.Laid lo (as.flatMap f) hi := by
  induction h with
  | nil h => exact .nil h
  | cons ha _ ih => exact (hR _ _ _ ha).append ih

abbrev NodeIn (S : Source) (lo : Nat) (n : Node) (hi : Nat) : Prop := S.Laid lo [n] hi

lemma lowers_nodeIn : Lowers S.NodeIn := fun _ _ _ _ h => h.mono_lo

lemma Maybe.laid {o : Option Node} (h : Maybe S.NodeIn lo o hi) : S.Laid lo o.toList hi := by
  cases o with
  | none => exact .nil h
  | some n => exact h

lemma Chained.laid_self {ns : List Node} (h : Chained S.NodeIn lo ns hi) : S.Laid lo ns hi := by
  have := h.laid (f := fun n => [n]) fun _ _ _ h => h
  rwa [List.flatMap_singleton'] at this

def PhraseIn (S : Source) (lo : Nat) (p : Phrase Node) (hi : Nat) : Prop :=
  ∃ i, lo ≤ i ∧ i < hi ∧ p.start = S.placeAt i ∧ S.Laid i [p.node] hi ∧
    ∀ row, p.lead = some row → p.node.mark = some (.endsOn row)

namespace PhraseIn

variable {p : Phrase Node}

lemma mono {lo' hi' : Nat} (h : S.PhraseIn lo p hi) (hlo : lo' ≤ lo) (hhi : hi ≤ hi') :
    S.PhraseIn lo' p hi' := by
  obtain ⟨i, hi, hlt, hs, hn, hl⟩ := h
  exact ⟨i, by omega, by omega, hs, hn.mono_hi hhi, hl⟩

lemma lowers : Lowers S.PhraseIn := fun _ _ _ _ h hle => h.mono hle (Nat.le_refl _)

lemma lt (h : S.PhraseIn lo p hi) : lo < hi := by
  obtain ⟨i, hi, hlt, -⟩ := h
  omega

lemma laid (h : S.PhraseIn lo p hi) : S.Laid lo [p.node] hi := by
  obtain ⟨i, hi, hlt, hs, hn, hl⟩ := h
  exact hn.mono_lo hi

lemma leaf {i stop : Nat} {shape : Shape Node} (hlo : lo ≤ i) (hlt : i < hi)
    (h : S.Laid i shape.children hi) : S.PhraseIn lo (.leaf (S.placeAt i) stop shape) hi :=
  ⟨i, hlo, hlt, rfl, .known rfl (Nat.le_refl i) hlt h (.nil (Nat.le_refl _)), nofun⟩

lemma at_start {shape : Shape Node} (h : S.PhraseIn lo p k) (hk : k ≤ hi)
    (hc : ∀ i, S.Laid i [p.node] k → S.Laid i shape.children hi)
    (hlead : ∀ row, p.lead = some row → ∃ c cs, shape.children = c :: cs ∧ c.mark = some (.endsOn row)) :
    ∃ i, lo ≤ i ∧ i < hi ∧ p.start = S.placeAt i ∧ S.Laid i [.mk (some p.mark) shape] hi := by
  obtain ⟨i, hlo, hlt, hs, hn, hl⟩ := h
  refine ⟨i, hlo, by omega, hs, ?_⟩
  simp only [Phrase.mark, markOf]
  cases hp : p.lead with
  | none =>
    have hm : some (Mark.known p.start) = some (.known (S.placeAt i)) := by rw [hs]
    exact .known hm (Nat.le_refl i) (by omega) (hc i hn) (.nil (Nat.le_refl _))
  | some row =>
    obtain ⟨c, cs, hcs, hm⟩ := hlead row hp
    exact .led rfl hcs hm (hc i hn) (.nil (Nat.le_refl _))

lemma extend_of {stop : Nat} {shape : Shape Node} (h : S.PhraseIn lo p k) (hk : k ≤ hi)
    (hc : ∀ i, S.Laid i [p.node] k → S.Laid i shape.children hi)
    (hlead : ∀ row, p.lead = some row → ∃ c cs, shape.children = c :: cs ∧ c.mark = some (.endsOn row)) :
    S.PhraseIn lo (p.extend stop shape) hi := by
  obtain ⟨i, hlo, hlt, hs, hn⟩ := h.at_start hk hc hlead
  refine ⟨i, hlo, hlt, hs, hn, fun row hrow => ?_⟩
  simp only [Phrase.extend] at hrow
  simp [Phrase.extend, Node.mark, Phrase.mark, markOf, hrow]

lemma lead_cons {shape : Shape Node} {ns : List Node} (h : S.PhraseIn lo p k)
    (hc : shape.children = p.node :: ns) (row : Nat) (hrow : p.lead = some row) :
    ∃ c cs, shape.children = c :: cs ∧ c.mark = some (.endsOn row) := by
  obtain ⟨i, -, -, -, -, hl⟩ := h
  exact ⟨_, _, hc, hl row hrow⟩

lemma extend {stop : Nat} {shape : Shape Node} {ns : List Node} (h : S.PhraseIn lo p k)
    (hc : shape.children = p.node :: ns) (hns : S.Laid k ns hi) :
    S.PhraseIn lo (p.extend stop shape) hi :=
  h.extend_of hns.le (fun _ hn => hc ▸ hn.cons hns) (h.lead_cons hc)

lemma laid_mark {shape : Shape Node} {ns : List Node} (h : S.PhraseIn lo p k)
    (hc : shape.children = p.node :: ns) (hns : S.Laid k ns hi) :
    S.Laid lo [.mk (some p.mark) shape] hi := by
  obtain ⟨i, hlo, -, -, hn⟩ := h.at_start hns.le (fun _ hn => hc ▸ hn.cons hns) (h.lead_cons hc)
  exact hn.mono_lo hlo

lemma group {i stop : Nat} (h : S.PhraseIn k p hi) (hlo : lo ≤ i) (hik : i ≤ k) :
    S.PhraseIn lo (p.group (S.placeAt i) stop) hi := by
  have hlt := h.lt
  exact ⟨i, hlo, by omega, rfl, h.laid.mono_lo hik, nofun⟩

end PhraseIn

lemma Chained.laid_nodes {ps : List (Phrase Node)} (h : Chained S.PhraseIn lo ps hi) :
    S.Laid lo (ps.map Phrase.node) hi := by
  rw [List.map_eq_flatMap]
  exact h.laid fun _ _ _ h => h.laid

end Lexis.Source

namespace Grammar

structure Rules.Sound (S : Lexis.Source) (g : Rules Tree.Node) : Prop where
  expr : ∀ site level, S.Reads (g.expr site level) S.PhraseIn
  target : ∀ follow, S.Reads (g.target follow) S.PhraseIn
  hint : ∀ site colon, S.Reads (g.hint site colon) S.PhraseIn
  casePattern : ∀ follow, S.Reads (g.casePattern follow) S.PhraseIn
  block : S.Reads g.block S.Laid

end Grammar

end SourceBlocks
