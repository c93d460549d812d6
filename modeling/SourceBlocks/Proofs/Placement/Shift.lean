import Mathlib.Data.List.Find
import SourceBlocks.Placement.Tree
import SourceBlocks.Proofs.Agreement
import SourceBlocks.Proofs.Placement.Search

/-! Placing the same tree in two texts whose places belong together. -/

namespace SourceBlocks

open SourceBlocks.Tree (Extent Mark Node Shape)

def Tree.Extent.move (m : Position → Position) (e : Extent) : Extent := ⟨m e.start, m e.stop⟩

namespace Placement

def QuotePlace.move (m : Position → Position) (q : QuotePlace) : QuotePlace := ⟨q.quote, m q.place⟩

structure Shift (s s' : Setting) (m : Position → Position) (rows : Nat) : Prop where
  reader : s'.reader = s.reader
  lt_iff : ∀ p q, m p < m q ↔ p < q
  row : ∀ p, (m p).row = rows + p.row
  start_row : s'.text.start.row = rows + s.text.start.row
  stop_row : s'.text.stop.row = rows + s.text.stop.row
  start_le : ∀ p, s.text.start ≤ p → s'.text.start ≤ m p
  opens : ∀ row, placed s'.text (rows + row) (openings (s'.text.rowChars (rows + row))) =
    (placed s.text row (openings (s.text.rowChars row))).map (QuotePlace.move m)
  closes : ∀ row, closePlaces s'.text (rows + row) = (closePlaces s.text row).map (QuotePlace.move m)
  fragment : ∀ e : Extent, s.text.HasPlace e.start → s.text.HasPlace e.stop → e.start < e.stop →
    fragment s' (e.move m) = fragment s e

namespace Shift

variable {s s' : Setting} {m : Position → Position} {rows : Nat} {value : List Char} {floor floor' : Position}

lemma le_iff (h : Shift s s' m rows) (p q : Position) : m p ≤ m q ↔ p ≤ q := by
  rw [← Position.not_lt, ← Position.not_lt, h.lt_iff]

lemma inj (h : Shift s s' m rows) {p q : Position} : m p = m q ↔ p = q := by
  constructor
  · intro heq
    apply Position.le_antisymm
    · rw [← h.le_iff, heq]
      exact Position.le_refl _
    · rw [← h.le_iff, heq]
      exact Position.le_refl _
  · rintro rfl
    rfl

lemma pairs_move (h : Shift s s' m rows) (opens closes : List QuotePlace) :
    pairs (opens.map (QuotePlace.move m)) (closes.map (QuotePlace.move m)) =
      (pairs opens closes).map (Extent.move m) := by
  have hwith : ∀ c : QuotePlace, pairsWith (opens.map (QuotePlace.move m)) (c.move m) =
      (pairsWith opens c).map (Prod.map id (Extent.move m)) := by
    intro c
    have hfilter : opens.filter ((fun o => decide (o.place < (c.move m).place)) ∘ QuotePlace.move m) =
        opens.filter (fun o => decide (o.place < c.place)) := by
      apply List.filter_congr
      intro o _
      simp [QuotePlace.move, h.lt_iff]
    rw [pairsWith, pairsWith, List.filter_map, hfilter, List.map_map, List.map_map]
    rfl
  have hall : (closes.map (QuotePlace.move m)).reverse.flatMap (pairsWith (opens.map (QuotePlace.move m))) =
      (closes.reverse.flatMap (pairsWith opens)).map (Prod.map id (Extent.move m)) := by
    rw [← List.map_reverse, List.flatMap_map, List.map_flatMap]
    congr 1
    funext c
    exact hwith c
  simp only [pairs, hall, List.filter_map, List.map_map, List.map_append]
  rfl

variable {opens : List QuotePlace} {row : Nat}

lemma hasPlace_of_mem_pairs (hopens : ∀ o ∈ opens, s.text.HasPlace o.place) {e : Extent}
    (he : e ∈ pairs opens (closePlaces s.text row)) :
    s.text.HasPlace e.start ∧ s.text.HasPlace e.stop ∧ e.start < e.stop := by
  obtain ⟨o, ho, c, hc, hlt, rfl⟩ := mem_pairs he
  exact ⟨hopens o ho, (mem_closePlaces hc).2.2, hlt⟩

lemma reads (h : Shift s s' m rows) (hopens : ∀ o ∈ opens, s.text.HasPlace o.place) :
    ∀ e ∈ pairs opens (closePlaces s.text row), s'.reader (Placement.fragment s' (e.move m)) =
      s.reader (Placement.fragment s e) := by
  intro e he
  obtain ⟨hstart, hstop, hlt⟩ := hasPlace_of_mem_pairs hopens he
  rw [h.reader, h.fragment e hstart hstop hlt]

lemma hopeful_move (h : Shift s s' m rows) (hopens : ∀ o ∈ opens, s.text.HasPlace o.place) :
    hopeful s' value (opens.map (QuotePlace.move m)) (rows + row) =
      (hopeful s value opens row).map (QuotePlace.move m) := by
  have hfilter : (pairs opens (closePlaces s.text row)).filter (isPartial s' value ∘ Extent.move m) =
      (pairs opens (closePlaces s.text row)).filter (isPartial s value) := by
    apply List.filter_congr
    intro e he
    simp only [Function.comp, isPartial, h.reads hopens e he]
  have hstarts : (((pairs opens (closePlaces s.text row)).map (Extent.move m)).filter (isPartial s' value)).map
      Extent.start = (((pairs opens (closePlaces s.text row)).filter (isPartial s value)).map Extent.start).map m := by
    rw [List.filter_map, hfilter, List.map_map, List.map_map]
    rfl
  rw [hopeful, hopeful, h.closes, h.pairs_move, hstarts, List.filter_map]
  apply congrArg (List.map (QuotePlace.move m))
  apply List.filter_congr
  intro o _
  simp only [Function.comp, QuotePlace.move, List.mem_map_of_injective fun p q heq => h.inj.mp heq]

lemma attempts_move (h : Shift s s' m rows) {below : List Nat} (hopens : ∀ o ∈ opens, s.text.HasPlace o.place) :
    attempts s' value (opens.map (QuotePlace.move m)) (below.map (rows + ·)) =
      (attempts s value opens below).map (Extent.move m) := by
  induction below generalizing opens with
  | nil => rfl
  | cons row below ih =>
    have hopens' : ∀ o ∈ hopeful s value opens row, s.text.HasPlace o.place :=
      fun o ho => hopens o (List.mem_filter.mp ho).1
    rw [List.map_cons, attempts, attempts, h.closes, h.hopeful_move hopens, ih hopens, ih hopens', h.pairs_move,
      ← List.map_append]
    by_cases hnil : closePlaces s.text row = []
    · rw [if_pos hnil, if_pos (List.map_eq_nil_iff.mpr hnil)]
    · rw [if_neg hnil, if_neg (mt List.map_eq_nil_iff.mp hnil)]

structure Floor (s : Setting) (m : Position → Position) (rows : Nat) (floor floor' : Position) : Prop where
  row : floor'.row = rows + floor.row
  lt_iff : ∀ p, s.text.start ≤ p → (m p < floor' ↔ p < floor)

lemma floor_self (h : Shift s s' m rows) (p : Position) : Floor s m rows p (m p) := ⟨h.row p, fun q _ => h.lt_iff q p⟩

lemma floor_start (h : Shift s s' m rows) : Floor s m rows s.text.start s'.text.start where
  row := h.start_row
  lt_iff p hp := by
    constructor
    · exact fun hlt => absurd (h.start_le p hp) (Position.not_le.mpr hlt)
    · exact fun hlt => absurd hp (Position.not_le.mpr hlt)

lemma rowsFrom_shift (first last : Nat) : rowsFrom (rows + first) (rows + last) = (rowsFrom first last).map (rows + ·) := by
  rw [rowsFrom, rowsFrom, List.map_add_range', Nat.add_assoc, Nat.add_sub_add_left]

lemma openPlaces_move (h : Shift s s' m rows) (hf : Floor s m rows floor floor') (last : Nat) :
    openPlaces s'.text floor' (rows + last) = (openPlaces s.text floor last).map (QuotePlace.move m) := by
  rw [openPlaces, openPlaces, hf.row, rowsFrom_shift, List.flatMap_map]
  simp only [h.opens]
  rw [← List.map_flatMap, List.filter_map]
  apply congrArg (List.map (QuotePlace.move m))
  apply List.filter_congr
  intro o ho
  obtain ⟨row, -, ho⟩ := List.mem_flatMap.mp ho
  have hplace : s.text.HasPlace o.place := by
    refine hasPlace_of_mem_placed ho (fun x hx => ?_) (fun hnil => by rw [hnil]; rfl)
    simpa using Nat.le_of_lt (openingsFrom_lt hx)
  apply decide_eq_decide.mpr
  rw [← Position.not_lt, ← Position.not_lt]
  exact not_congr (hf.lt_iff _ hplace.start_le)

lemma tried_move (h : Shift s s' m rows) (hf : Floor s m rows floor floor') (last : Nat) :
    tried s' value floor' (rows + last) = (tried s value floor last).map (Extent.move m) := by
  rw [tried, tried, h.openPlaces_move hf, h.stop_row, rowsFrom_shift]
  exact h.attempts_move fun o ho => (mem_openPlaces ho).2.2

lemma locate_agree (h : Shift s s' m rows) (hf : Floor s m rows floor floor') (last : Nat) :
    Outcome.Agree (fun _ _ => True) (fun e e' => e' = e.move m) (locate s value floor last)
      (locate s' value floor' (rows + last)) := by
  have hfind : (tried s' value floor' (rows + last)).find? (isMatch s' value) =
      ((tried s value floor last).find? (isMatch s value)).map (Extent.move m) := by
    rw [h.tried_move hf, List.find?_map]
    refine congrArg _ (List.find?_congr fun e he => ?_)
    have hfound := foundAt_of_tried he
    rw [Function.comp_apply, isMatch, isMatch, h.reader, h.fragment e hfound.start_place hfound.stop_place hfound.lt]
  have hquote : (rows + last ≤ s'.text.stop.row → closePlaces s'.text (rows + last) ≠ []) ↔
      (last ≤ s.text.stop.row → closePlaces s.text last ≠ []) := by
    rw [h.stop_row, h.closes, Nat.add_le_add_iff_left, Ne, List.map_eq_nil_iff]
  cases hloc : locate s value floor last with
  | ok e =>
    obtain ⟨hclose, hmatch⟩ := locate_eq_ok.mp hloc
    have hloc' : locate s' value floor' (rows + last) = .ok (e.move m) :=
      locate_eq_ok.mpr ⟨hquote.mpr hclose, by rw [hfind, hmatch, Option.map_some]⟩
    rw [hloc']
    exact .ok rfl
  | error miss =>
    cases hloc' : locate s' value floor' (rows + last) with
    | error => exact .error trivial
    | ok e' =>
      obtain ⟨hclose, hmatch⟩ := locate_eq_ok.mp hloc'
      rw [hfind, Option.map_eq_some_iff] at hmatch
      obtain ⟨e, he, -⟩ := hmatch
      cases hloc.symm.trans (locate_eq_ok.mpr ⟨hquote.mp hclose, he⟩)

end Shift

mutual

def Placed.move (m : Position → Position) (f : Node → Node) : Placed → Placed
  | .mk n start stop cs => .mk (f n) (start.map m) (stop.map m) (Placed.moveAll m f cs)

def Placed.moveAll (m : Position → Position) (f : Node → Node) : List Placed → List Placed
  | [] => []
  | c :: cs => Placed.move m f c :: Placed.moveAll m f cs

end

section Trees

variable {m : Position → Position} {f : Node → Node}

lemma Placed.moveAll_eq (cs : List Placed) : moveAll m f cs = cs.map (move m f) := by
  induction cs with
  | nil => rfl
  | cons c cs ih => rw [moveAll, ih, List.map_cons]

lemma Placed.node_move (p : Placed) : (p.move m f).node = f p.node := by
  cases p
  rfl

lemma Placed.start_move (p : Placed) : (p.move m f).start = p.start.map m := by
  cases p
  rfl

lemma Placed.stop_move (p : Placed) : (p.move m f).stop = p.stop.map m := by
  cases p
  rfl

def isExprStatement (n : Node) : Bool := match n.shape with
  | .expr _ => true
  | _ => false

lemma placeAbove_endsOn {s : Setting} {floor : Position} {n : Node} {ps : List Placed} {row : Nat}
    (h : n.mark = some (.endsOn row)) : placeAbove s floor n ps =
      match leadingPart? ps with
      | some first => .ok (.mk n first.start (if isExprStatement n then first.stop else none) ps)
      | none => match n.shape.stringValue? with
        | some value => placeString s floor n value row ps
        | none => .error (.notAString n) := by
  obtain ⟨mark, shape⟩ := n
  obtain rfl : mark = some (.endsOn row) := h
  simp only [placeAbove, Node.mark]
  cases leadingPart? ps with
  | some first => cases shape <;> rfl
  | none => cases shape <;> rfl

structure Remarks (f : Node → Node) (k : Position → Position) : Prop where
  children : ∀ n, (f n).children = n.children.map f
  known : ∀ n p, n.mark = some (.known p) → (f n).mark = some (.known (k p))
  endsOn : ∀ n row, n.mark = some (.endsOn row) → (f n).mark = some (.endsOn row)
  bare : ∀ n, n.mark = none → (f n).mark = none
  stringValue : ∀ n, (f n).shape.stringValue? = n.shape.stringValue?
  isExpr : ∀ n, isExprStatement (f n) = isExprStatement n

end Trees

namespace Shift

open Outcome

variable {s s' : Setting} {m k : Position → Position} {f : Node → Node} {rows : Nat} {floor floor' : Position}

def Beside (s : Setting) (m : Position → Position) (f : Node → Node) (p p' : Placed) : Prop :=
  p' = p.move m f ∧ ∀ x ∈ p.start, s.text.start ≤ x

lemma forall₂_beside {ps ps' : List Placed} (h : List.Forall₂ (Beside s m f) ps ps') :
    ps' = ps.map (Placed.move m f) ∧ ∀ p ∈ ps, ∀ x ∈ p.start, s.text.start ≤ x := by
  induction h with
  | nil => exact ⟨rfl, nofun⟩
  | cons hp _ ih =>
    obtain ⟨rfl, hps⟩ := ih
    exact ⟨by rw [hp.1, List.map_cons], List.forall_mem_cons.mpr ⟨hp.2, hps⟩⟩

lemma inOrder_agree (h : Shift s s' m rows) {step step' : Position → Node → Except Fault Placed}
    {complain complain' : List (Option Position) → Fault} {found found' : List (Option Position)} {ns : List Node}
    (hstep : ∀ n ∈ ns, ∀ floor floor', Floor s m rows floor floor' →
      Agree (fun _ _ => True) (Beside s m f) (step floor n) (step' floor' (f n)))
    (hf : Floor s m rows floor floor') :
    Agree (fun _ _ => True) (List.Forall₂ (Beside s m f)) (inOrder step complain floor found ns)
      (inOrder step' complain' floor' found' (ns.map f)) := by
  induction ns generalizing floor floor' found found' with
  | nil => exact .ok .nil
  | cons n ns ih =>
    obtain ⟨hn, hns⟩ := List.forall_mem_cons.mp hstep
    simp only [List.map_cons, inOrder]
    refine (hn floor floor' hf).bind fun p p' hp => ?_
    obtain ⟨rfl, hstart⟩ := hp
    rw [Placed.start_move]
    cases hq : p.start with
    | none => exact (ih hns hf).bind fun ps ps' hps => .ok (.cons ⟨rfl, hstart⟩ hps)
    | some q =>
      simp only [Option.map_some, hf.lt_iff q (hstart q hq)]
      split_ifs
      · exact .error trivial
      · exact (ih hns (h.floor_self q)).bind fun ps ps' hps => .ok (.cons ⟨rfl, hstart⟩ hps)

lemma leadingPart?_move (hr : Remarks f k) (ps : List Placed) :
    leadingPart? (ps.map (Placed.move m f)) = (leadingPart? ps).map (Placed.move m f) := by
  have hled : ∀ p : Placed, isStringLed (p.move m f).node = isStringLed p.node := by
    intro p
    rw [Placed.node_move, isStringLed, isStringLed]
    cases hm : p.node.mark with
    | none => rw [hr.bare _ hm]
    | some mark =>
      cases mark with
      | known q => rw [hr.known _ _ hm]
      | endsOn row => rw [hr.endsOn _ _ hm]
  cases ps with
  | nil => rfl
  | cons p ps =>
    simp only [leadingPart?, List.map_cons, List.head?_cons, Option.filter_some, hled]
    split_ifs <;> rfl

lemma placeString_agree (h : Shift s s' m rows) (hf : Floor s m rows floor floor') {n : Node} {value : String}
    {row : Nat} {ps : List Placed} :
    Agree (fun _ _ => True) (Beside s m f) (placeString s floor n value row ps)
      (placeString s' floor' (f n) value row (ps.map (Placed.move m f))) := by
  simp only [placeString]
  rw [h.start_row, Nat.add_assoc, hf.row]
  simp only [Nat.add_lt_add_iff_left]
  split_ifs
  · exact .error trivial
  · have hloc : Agree (fun _ _ => True) (fun e e' => e' = e.move m)
        (locate s value.toList floor (s.text.start.row + row))
        (locate s' value.toList floor' (rows + (s.text.start.row + row))) := h.locate_agree hf _
    cases he : locate s value.toList floor (s.text.start.row + row) with
    | ok e =>
      rw [he] at hloc
      generalize locate s' value.toList floor' (rows + (s.text.start.row + row)) = y at hloc ⊢
      cases hloc with
      | ok heq =>
        refine .ok ⟨?_, fun x hx => ?_⟩
        · rw [heq, Placed.move, Placed.moveAll_eq]
          rfl
        · obtain rfl := Option.some.inj hx
          exact (foundAt_of_locate he).start_place.start_le
    | error miss =>
      rw [he] at hloc
      generalize locate s' value.toList floor' (rows + (s.text.start.row + row)) = y at hloc ⊢
      cases hloc with
      | @error _ miss' =>
        cases miss <;> cases miss' <;> exact .error trivial

lemma placeAbove_agree (h : Shift s s' m rows) (hr : Remarks f k)
    (hk : ∀ p, s'.text.start.plus (k p) = m (s.text.start.plus p)) (hf : Floor s m rows floor floor') {n : Node}
    {ps : List Placed} (hps : ∀ p ∈ ps, ∀ x ∈ p.start, s.text.start ≤ x) :
    Agree (fun _ _ => True) (Beside s m f) (placeAbove s floor n ps)
      (placeAbove s' floor' (f n) (ps.map (Placed.move m f))) := by
  cases hm : n.mark with
  | none =>
    rw [placeAbove, placeAbove, hm, hr.bare n hm]
    exact .ok ⟨by rw [Placed.move, Placed.moveAll_eq]; rfl, nofun⟩
  | some mark =>
    cases mark with
    | known p =>
      rw [placeAbove, placeAbove, hm, hr.known n p hm]
      refine .ok ⟨?_, fun x hx => ?_⟩
      · rw [Placed.move, Placed.moveAll_eq, hk]
        rfl
      · obtain rfl := Option.some.inj hx
        exact Position.le_plus _ _
    | endsOn row =>
      rw [placeAbove_endsOn hm, placeAbove_endsOn (hr.endsOn n row hm), leadingPart?_move hr, hr.stringValue, hr.isExpr]
      cases hfirst : leadingPart? ps with
      | some first =>
        refine .ok ⟨?_, ?_⟩
        · rw [Placed.move, Placed.moveAll_eq, Placed.start_move, Placed.stop_move]
          split_ifs <;> rfl
        · have hmem : first ∈ ps := by
            rw [leadingPart?, Option.filter_eq_some_iff] at hfirst
            exact List.mem_of_head? hfirst.1
          exact hps first hmem
      | none =>
        simp only [Option.map_none]
        cases n.shape.stringValue? with
        | some value => exact h.placeString_agree hf
        | none => exact .error trivial

lemma place_agree (h : Shift s s' m rows) (hr : Remarks f k)
    (hk : ∀ p, s'.text.start.plus (k p) = m (s.text.start.plus p)) (hf : Floor s m rows floor floor') (n : Node) :
    Agree (fun _ _ => True) (Beside s m f) (place s floor n) (place s' floor' (f n)) := by
  induction n using Node.ind generalizing floor floor' with
  | h n ih =>
    rw [place_eq, place_eq, hr.children]
    refine (h.inOrder_agree (fun c hc floor floor' hf => ih c hc hf) hf).bind fun ps ps' hps => ?_
    obtain ⟨rfl, hstart⟩ := forall₂_beside hps
    exact h.placeAbove_agree hr hk hf hstart

end Shift

end Placement

end SourceBlocks
