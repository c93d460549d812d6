import SourceBlocks.Proofs.Grammar.Module
import SourceBlocks.Proofs.Placement.Placed
import SourceBlocks.Proofs.Text.Margin
import SourceBlocks.Reading

/-! When the tree of a text can be placed in it. -/

namespace SourceBlocks

namespace Literal

lemma getLast?_openingQuotes {rest : List Char} (h : openingQuotes rest ≠ []) :
    ∃ q, (openingQuotes rest).getLast? = some q ∧ Placement.isQuote q = true := by
  unfold openingQuotes at *
  split at h
  all_goals simp_all [Placement.isQuote]

lemma getLast?_of_decode {token : List Char} {d : Decoded} (h : decode token = .ok d) :
    ∃ q, token.getLast? = some q ∧ Placement.isQuote q = true := by
  have hne : openingQuotes (token.dropWhile isMarkLetter) ≠ [] := by
    intro hnil
    simp [decode, hnil] at h
  have hend : openingQuotes (token.dropWhile isMarkLetter) <:+ token.dropWhile isMarkLetter := by
    by_contra hend
    simp [decode, hne, List.isSuffixOf_iff_suffix, hend] at h
  obtain ⟨q, hq, hquote⟩ := getLast?_openingQuotes hne
  obtain ⟨u, hu⟩ := hend.trans (List.dropWhile_suffix _)
  refine ⟨q, ?_, hquote⟩
  rw [← hu, List.getLast?_append, hq, Option.some_or]

end Literal

namespace Lexis.Source

open SourceBlocks.Tree (Extent)

variable {S : Source} {lo hi row : Nat}

lemma row_le_row {i j : Nat} (hij : i ≤ j) (hj : j ≤ S.chars.length) :
    (S.placeAt i).row ≤ (S.placeAt j).row :=
  Position.row_le (placeAt_le hij hj)

lemma LiteralIn.quote {value : String} {written : Extent} (h : S.LiteralIn lo hi row value written)
    (hhi : hi ≤ S.chars.length) :
    ∃ i q, lo ≤ i ∧ i < hi ∧ S.chars[i]? = some q ∧ Placement.isQuote q = true ∧ (S.placeAt i).row = row := by
  obtain ⟨first, rest, hchain, hplain, -, -, -, rfl⟩ := h
  cases hchain with
  | @cons _ k _ _ _ hfirst hrest =>
    obtain ⟨a, b, ha, hab, hb, -, hstop, htext, -⟩ := hfirst
    have hk : k ≤ hi := hrest.le fun h => Nat.le_of_lt h.lt
    obtain ⟨d, hd, -⟩ := hplain first List.mem_cons_self
    obtain ⟨q, hq, hquote⟩ := Literal.getLast?_of_decode hd
    have hchar : S.chars[b - 1]? = some q := by
      rw [htext, List.getLast?_eq_getElem?, List.getElem?_take, List.getElem?_drop] at hq
      simp only [List.length_take, List.length_drop] at hq
      have hindex : a + (min (b - a) (S.chars.length - a) - 1) = b - 1 := by omega
      rw [hindex] at hq
      split_ifs at hq
      exact hq
    refine ⟨b - 1, q, by omega, by omega, hchar, hquote, ?_⟩
    have hdrop : S.chars.drop (b - 1) = q :: S.chars.drop b := by
      rw [List.drop_eq_getElem_cons (by omega), Nat.sub_add_cancel (by omega)]
      rw [List.getElem?_eq_getElem (by omega)] at hchar
      rw [Option.some.inj hchar]
    have hsucc := placeAt_succ hdrop
    rw [Nat.sub_add_cancel (by omega)] at hsucc
    rw [hstop, hsucc, if_neg (by rintro rfl; simp [Placement.isQuote] at hquote)]

lemma LiteralIn.row_bounds {value : String} {written : Extent} (h : S.LiteralIn lo hi row value written)
    (hhi : hi ≤ S.chars.length) : (S.placeAt lo).row ≤ row ∧ row ≤ (S.placeAt hi).row := by
  obtain ⟨i, q, hlo, hlt, -, -, rfl⟩ := h.quote hhi
  exact ⟨row_le_row hlo (by omega), row_le_row (by omega) hhi⟩

lemma Laid.row_le {n : Tree.Node} {ns : List Tree.Node} (h : S.Laid lo (n :: ns) hi)
    (hhi : hi ≤ S.chars.length) (hm : n.mark = some (.endsOn row)) : row ≤ (S.placeAt hi).row := by
  induction n using Tree.Node.ind generalizing lo ns hi with
  | h n ih =>
    cases h with
    | bare hm' => simp [hm'] at hm
    | known hm' => simp [hm'] at hm
    | led hm' hcs hc hchildren hns =>
      obtain rfl : _ = row := by simpa [hm'] using hm
      have hk := hns.le
      rw [hcs] at hchildren ih
      exact Nat.le_trans (ih _ List.mem_cons_self hchildren (by omega) hc) (row_le_row hk hhi)
    | literal hm' _ hl hns =>
      obtain rfl : _ = row := by simpa [hm'] using hm
      have hk := hns.le
      exact Nat.le_trans (hl.row_bounds (by omega)).2 (row_le_row hk hhi)

end Lexis.Source

namespace Placement

open SourceBlocks.Tree (Extent Mark Node Shape)
open Outcome

variable {s : Setting} {floor : Position}

def IsLiteral (n : Node) : Prop :=
  ∃ row value bytes written, n.mark = some (.endsOn row) ∧ n.shape = .str value bytes written

inductive LeadFound (s : Setting) (floor : Position) : Node → Extent → Prop
  | literal {row : Nat} {n : Node} {value : String} {bytes : Bool} {written e : Extent} :
      n.mark = some (.endsOn row) → n.shape = .str value bytes written →
      (tried s value.toList floor (s.text.start.row + row)).find? (isMatch s value.toList) = some e →
      LeadFound s floor n e
  | led {row : Nat} {n c : Node} {cs : List Node} {e : Extent} : n.mark = some (.endsOn row) →
      n.children = c :: cs → LeadFound s floor c e → LeadFound s floor n e

inductive Recovers (s : Setting) : Position → Bool → List Node → Prop
  | nil {floor : Position} {guessed : Bool} : Recovers s floor guessed []
  | bare {floor : Position} {guessed : Bool} {n : Node} {ns : List Node} : n.mark = none →
      Recovers s floor guessed n.children → Recovers s floor guessed ns → Recovers s floor guessed (n :: ns)
  | known {floor p : Position} {guessed : Bool} {n : Node} {ns : List Node} : n.mark = some (.known p) →
      (guessed = true → floor ≤ s.text.start.plus p) → Recovers s floor guessed n.children →
      Recovers s (s.text.start.plus p) false ns → Recovers s floor guessed (n :: ns)
  | led {floor : Position} {guessed : Bool} {n : Node} {ns : List Node} {e : Extent} :
      LeadFound s floor n e → Recovers s floor guessed n.children → Recovers s e.start true ns →
      Recovers s floor guessed (n :: ns)

lemma LeadFound.mark {n : Node} {e : Extent} (h : LeadFound s floor n e) :
    ∃ row, n.mark = some (.endsOn row) := by
  cases h with
  | literal hm => exact ⟨_, hm⟩
  | led hm => exact ⟨_, hm⟩

lemma LeadFound.unique {n : Node} {e e' : Extent} (h : LeadFound s floor n e) (h' : LeadFound s floor n e') :
    e = e' := by
  induction h with
  | literal hm hs hfind =>
    cases h' with
    | literal hm' hs' hfind' =>
      obtain rfl := Option.some.inj (hm.symm.trans hm') |> Mark.endsOn.inj
      obtain ⟨rfl, -, -⟩ := Shape.str.inj (hs.symm.trans hs')
      exact Option.some.inj (hfind.symm.trans hfind')
    | led _ hcs => simp [Node.children_of_str hs] at hcs
  | led _ hcs _ ih =>
    cases h' with
    | literal _ hs => simp [Node.children_of_str hs] at hcs
    | led _ hcs' hc =>
      obtain ⟨rfl, rfl⟩ := List.cons.inj (hcs.symm.trans hcs')
      exact ih hc

lemma PlacedFrom.node_head {n : Node} {ns : List Node} {p : Placed} {ps : List Placed}
    (h : PlacedFrom s floor (n :: ns) (p :: ps)) : p.node = n := by
  cases h <;> rfl

lemma isStringLed_iff {n : Node} : isStringLed n = true ↔ ∃ row, n.mark = some (.endsOn row) := by
  simp only [isStringLed]
  split <;> simp_all

lemma PlacedFrom.leadFound {n : Node} {ns : List Node} {p : Placed} {ps : List Placed}
    (h : PlacedFrom s floor (n :: ns) (p :: ps)) (hled : isStringLed n = true) :
    ∃ e, LeadFound s floor n e ∧ p.start = some e.start := by
  induction n using Node.ind generalizing ns p ps with
  | h n ih =>
    cases h with
    | bare hm => simp [isStringLed, hm] at hled
    | known hm => simp [isStringLed, hm] at hled
    | led hm hcs hfirst hq =>
      cases hchildren : n.children with
      | nil =>
        rw [hchildren] at hcs
        cases hcs
      | cons c cs =>
        rw [hchildren] at hcs ih
        rw [hcs.node_head] at hfirst
        obtain ⟨e, he, hstart⟩ := ih c List.mem_cons_self hcs hfirst
        exact ⟨e, .led hm hchildren he, hq ▸ hstart⟩
    | literal hm hs _ he => exact ⟨_, .literal hm hs (locate_eq_ok.mp he).2, rfl⟩

def Behind (s : Setting) (floor : Position) (guessed : Bool) (i : Nat) : Prop :=
  floor.row ≤ (s.text.placeAt i).row ∧ (guessed = false → floor ≤ s.text.placeAt i)

lemma Behind.mono {guessed : Bool} {i j : Nat} (h : Behind s floor guessed i) (hij : i ≤ j)
    (hj : j ≤ s.text.source.chars.length) : Behind s floor guessed j := by
  have hle := Text.placeAt_le hij hj
  exact ⟨Nat.le_trans h.1 (Position.row_le hle), fun hg => Position.le_trans (h.2 hg) hle⟩

lemma behind_placeAt {i j : Nat} (hij : i ≤ j) (hj : j ≤ s.text.source.chars.length) :
    Behind s (s.text.placeAt i) false j := by
  have hle := Text.placeAt_le hij hj
  exact ⟨Position.row_le hle, fun _ => hle⟩

lemma LeadFound.row_le {n : Node} {e : Extent} {row : Nat} (h : LeadFound s floor n e)
    {ns : List Node} {lo hi : Nat} (hl : s.text.source.Laid lo (n :: ns) hi)
    (hm : n.mark = some (.endsOn row)) : e.start.row ≤ s.text.start.row + row := by
  induction h generalizing lo hi ns with
  | literal hm' _ hfind =>
    obtain rfl : _ = row := by simpa [hm'] using hm
    exact (foundAt_of_tried (List.mem_of_find?_eq_some hfind)).row_le
  | led _ hcs _ ih =>
    cases hl with
    | bare hm' => simp [hm'] at hm
    | known hm' => simp [hm'] at hm
    | led hm' hcs' hc hchildren =>
      obtain rfl : _ = row := by simpa [hm'] using hm
      obtain ⟨rfl, rfl⟩ := List.cons.inj (hcs.symm.trans hcs')
      exact ih (hcs ▸ hchildren) hc
    | literal _ hs => simp [Node.children_of_str hs] at hcs

lemma LeadFound.behind {n : Node} {e : Extent} (h : LeadFound s floor n e) {lo k : Nat}
    (hl : s.text.source.Laid lo [n] k) (hk : k ≤ s.text.source.chars.length) : Behind s e.start true k := by
  obtain ⟨row, hm⟩ := h.mark
  refine ⟨?_, nofun⟩
  have hrow := hl.row_le hk hm
  have hfound := h.row_le hl hm
  rw [Text.placeAt, Position.row_plus]
  omega

lemma Behind.literal {guessed : Bool} {lo k row : Nat} {value : String} {written : Extent}
    (h : Behind s floor guessed lo) (hl : s.text.source.LiteralIn lo k row value written)
    (hk : k ≤ s.text.source.chars.length) :
    floor.row ≤ s.text.start.row + row ∧ closePlaces s.text (s.text.start.row + row) ≠ [] := by
  constructor
  · have hrow := (hl.row_bounds hk).1
    have hfloor := h.1
    rw [Text.placeAt, Position.row_plus] at hfloor
    omega
  · obtain ⟨i, q, -, -, hchar, hquote, rfl⟩ := hl.quote hk
    have hmem := Text.mem_rowChars_placeAt hchar (by rintro rfl; simp [isQuote] at hquote)
    rw [Text.placeAt, Position.row_plus] at hmem
    exact closePlaces_ne_nil hmem hquote

section step

variable {n : Node} {ns : List Node}

lemma exists_placed_bare (hm : n.mark = none) : (∃ ps, PlacedFrom s floor (n :: ns) ps) ↔
    (∃ cs, PlacedFrom s floor n.children cs) ∧ ∃ ps, PlacedFrom s floor ns ps := by
  constructor
  · rintro ⟨ps, hps⟩
    cases hps with
    | bare _ hcs hps => exact ⟨⟨_, hcs⟩, _, hps⟩
    | known hm' => simp [hm] at hm'
    | led hm' => simp [hm] at hm'
    | literal hm' => simp [hm] at hm'
  · rintro ⟨⟨cs, hcs⟩, ps, hps⟩
    exact ⟨_, .bare hm hcs hps⟩

lemma exists_placed_known {p : Position} (hm : n.mark = some (.known p)) :
    (∃ ps, PlacedFrom s floor (n :: ns) ps) ↔ floor ≤ s.text.start.plus p ∧
      (∃ cs, PlacedFrom s floor n.children cs) ∧ ∃ ps, PlacedFrom s (s.text.start.plus p) ns ps := by
  constructor
  · rintro ⟨ps, hps⟩
    cases hps with
    | bare hm' => simp [hm] at hm'
    | known hm' hcs hle hps =>
      obtain rfl := Mark.known.inj (Option.some.inj (hm.symm.trans hm'))
      exact ⟨hle, ⟨_, hcs⟩, _, hps⟩
    | led hm' => simp [hm] at hm'
    | literal hm' => simp [hm] at hm'
  · rintro ⟨hle, ⟨cs, hcs⟩, ps, hps⟩
    exact ⟨_, .known hm hcs hle hps⟩

lemma exists_placed_led {row : Nat} {c : Node} {cs : List Node} (hm : n.mark = some (.endsOn row))
    (hcs : n.children = c :: cs) (hc : c.mark = some (.endsOn row)) :
    (∃ ps, PlacedFrom s floor (n :: ns) ps) ↔ ∃ e, LeadFound s floor n e ∧
      (∃ cs, PlacedFrom s floor n.children cs) ∧ ∃ ps, PlacedFrom s e.start ns ps := by
  have hled : isStringLed c = true := isStringLed_iff.mpr ⟨row, hc⟩
  constructor
  · rintro ⟨ps, hps⟩
    cases hps with
    | bare hm' => simp [hm] at hm'
    | known hm' => simp [hm] at hm'
    | led _ hparts _ hq _ hps =>
      have hparts' := hparts
      rw [hcs] at hparts'
      obtain ⟨e, he, hstart⟩ := hparts'.leadFound hled
      obtain rfl := Option.some.inj (hq.symm.trans hstart)
      exact ⟨e, .led hm hcs he, ⟨_, hparts⟩, _, hps⟩
    | literal _ hs => simp [Node.children_of_str hs] at hcs
  · rintro ⟨e, he, ⟨qs, hqs⟩, ps, hps⟩
    have hqs' := hqs
    rw [hcs] at hqs'
    cases qs with
    | nil => cases hqs'
    | cons q qs =>
      have hq : isStringLed q.node = true := hqs'.node_head ▸ hled
      obtain ⟨e', he', hstart⟩ := hqs'.leadFound hled
      obtain rfl := he.unique (.led hm hcs he')
      obtain ⟨x, hx, hle⟩ := hqs.start_led hq
      obtain rfl := Option.some.inj (hx.symm.trans hstart)
      exact ⟨_, .led hm hqs hq hx hle hps⟩

lemma exists_placed_literal {row : Nat} {value : String} {bytes : Bool} {written : Extent}
    (hm : n.mark = some (.endsOn row)) (hs : n.shape = .str value bytes written)
    (hrow : floor.row ≤ s.text.start.row + row) (hquote : closePlaces s.text (s.text.start.row + row) ≠ []) :
    (∃ ps, PlacedFrom s floor (n :: ns) ps) ↔ ∃ e, LeadFound s floor n e ∧
      (∃ cs, PlacedFrom s floor n.children cs) ∧ ∃ ps, PlacedFrom s e.start ns ps := by
  have hnil : n.children = [] := Node.children_of_str hs
  constructor
  · rintro ⟨ps, hps⟩
    cases hps with
    | bare hm' => simp [hm] at hm'
    | known hm' => simp [hm] at hm'
    | led _ hparts =>
      rw [hnil] at hparts
      cases hparts
    | literal hm' hs' _ he hps =>
      exact ⟨_, .literal hm' hs' (locate_eq_ok.mp he).2, ⟨[], hnil ▸ .nil⟩, _, hps⟩
  · rintro ⟨e, he, -, ps, hps⟩
    cases he with
    | literal hm' hs' hfind =>
      obtain rfl := Mark.endsOn.inj (Option.some.inj (hm.symm.trans hm'))
      obtain ⟨rfl, rfl, rfl⟩ := Shape.str.inj (hs.symm.trans hs')
      exact ⟨_, .literal hm hs hrow (locate_eq_ok.mpr ⟨fun _ => hquote, hfind⟩) hps⟩
    | led _ hcs => simp [hnil] at hcs

variable {guessed : Bool}

lemma recovers_bare (hm : n.mark = none) : Recovers s floor guessed (n :: ns) ↔
    Recovers s floor guessed n.children ∧ Recovers s floor guessed ns := by
  constructor
  · intro h
    cases h with
    | bare _ hc hns => exact ⟨hc, hns⟩
    | known hm' => simp [hm] at hm'
    | led he =>
      obtain ⟨row, hm'⟩ := he.mark
      simp [hm] at hm'
  · exact fun ⟨hc, hns⟩ => .bare hm hc hns

lemma recovers_known {p : Position} (hm : n.mark = some (.known p)) :
    Recovers s floor guessed (n :: ns) ↔ (guessed = true → floor ≤ s.text.start.plus p) ∧
      Recovers s floor guessed n.children ∧ Recovers s (s.text.start.plus p) false ns := by
  constructor
  · intro h
    cases h with
    | bare hm' => simp [hm] at hm'
    | known hm' hle hc hns =>
      obtain rfl := Mark.known.inj (Option.some.inj (hm.symm.trans hm'))
      exact ⟨hle, hc, hns⟩
    | led he =>
      obtain ⟨row, hm'⟩ := he.mark
      simp [hm] at hm'
  · exact fun ⟨hle, hc, hns⟩ => .known hm hle hc hns

lemma recovers_led {row : Nat} (hm : n.mark = some (.endsOn row)) : Recovers s floor guessed (n :: ns) ↔
    ∃ e, LeadFound s floor n e ∧ Recovers s floor guessed n.children ∧ Recovers s e.start true ns := by
  constructor
  · intro h
    cases h with
    | bare hm' => simp [hm] at hm'
    | known hm' => simp [hm] at hm'
    | led he hc hns => exact ⟨_, he, hc, hns⟩
  · exact fun ⟨e, he, hc, hns⟩ => .led he hc hns

end step

lemma placedFrom_iff_recovers {guessed : Bool} {ns : List Node} {lo hi : Nat}
    (hl : s.text.source.Laid lo ns hi) (hhi : hi ≤ s.text.source.chars.length)
    (hb : Behind s floor guessed lo) : (∃ ps, PlacedFrom s floor ns ps) ↔ Recovers s floor guessed ns := by
  induction hl generalizing floor guessed with
  | nil => exact ⟨fun _ => .nil, fun _ => ⟨[], .nil⟩⟩
  | bare hm hchildren hns ihc ih =>
    have hk := Nat.le_trans hns.le hhi
    rw [exists_placed_bare hm, recovers_bare hm, ihc hk hb, ih hhi (hb.mono hchildren.le hk)]
  | @known lo i k hi n ns hm hlo hik hchildren hns ihc ih =>
    have hk := Nat.le_trans hns.le hhi
    have hbi := hb.mono hlo (Nat.le_trans (Nat.le_of_lt hik) hk)
    have hle : floor ≤ s.text.placeAt i ↔ (guessed = true → floor ≤ s.text.placeAt i) := by
      cases guessed with
      | false => exact iff_of_true (hbi.2 rfl) nofun
      | true => simp
    rw [exists_placed_known hm, recovers_known hm, ihc hk hbi]
    exact and_congr hle (and_congr_right fun _ => ih hhi (behind_placeAt (Nat.le_of_lt hik) hk))
  | led hm hcs hc hchildren hns ihc ih =>
    have hk := Nat.le_trans hns.le hhi
    have hlaid := Lexis.Source.Laid.led hm hcs hc hchildren (.nil (Nat.le_refl _))
    rw [exists_placed_led hm hcs hc, recovers_led hm, ihc hk hb]
    exact exists_congr fun e => and_congr_right fun he => and_congr_right fun _ => ih hhi (he.behind hlaid hk)
  | literal hm hs hlit hns ih =>
    have hk := Nat.le_trans hns.le hhi
    have hlaid := Lexis.Source.Laid.literal hm hs hlit (.nil (Nat.le_refl _))
    obtain ⟨hrow, hquote⟩ := hb.literal hlit hk
    rw [exists_placed_literal hm hs hrow hquote, recovers_led hm, Node.children_of_str hs]
    refine exists_congr fun e => and_congr_right fun he => and_congr ?_ (ih hhi (he.behind hlaid hk))
    exact iff_of_true ⟨[], .nil⟩ .nil

end Placement

end SourceBlocks
