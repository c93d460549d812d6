import SourceBlocks.Placement.Tree
import SourceBlocks.Proofs.Grammar.Laid
import SourceBlocks.Proofs.Outcome
import SourceBlocks.Proofs.Placement.Search

namespace SourceBlocks.Placement

open SourceBlocks.Tree (Extent Mark Node Shape)
open Outcome

variable {s : Setting}

@[simp] lemma Placed.node_mk (n : Node) (start stop : Option Position) (cs : List Placed) :
    (Placed.mk n start stop cs).node = n := rfl

@[simp] lemma Placed.start_mk (n : Node) (start stop : Option Position) (cs : List Placed) :
    (Placed.mk n start stop cs).start = start := rfl

@[simp] lemma Placed.stop_mk (n : Node) (start stop : Option Position) (cs : List Placed) :
    (Placed.mk n start stop cs).stop = stop := rfl

@[simp] lemma Placed.children_mk (n : Node) (start stop : Option Position) (cs : List Placed) :
    (Placed.mk n start stop cs).children = cs := rfl

def ledStop (n : Node) (first : Placed) : Option Position := match n.shape with
  | .expr _ => first.stop
  | _ => none

inductive PlacedFrom (s : Setting) : Position → List Node → List Placed → Prop
  | nil {floor : Position} : PlacedFrom s floor [] []
  | bare {floor : Position} {n : Node} {ns : List Node} {cs ps : List Placed} : n.mark = none →
      PlacedFrom s floor n.children cs → PlacedFrom s floor ns ps →
      PlacedFrom s floor (n :: ns) (.mk n none none cs :: ps)
  | known {floor p : Position} {n : Node} {ns : List Node} {cs ps : List Placed} :
      n.mark = some (.known p) → PlacedFrom s floor n.children cs → floor ≤ s.text.start.plus p →
      PlacedFrom s (s.text.start.plus p) ns ps →
      PlacedFrom s floor (n :: ns) (.mk n (some (s.text.start.plus p)) none cs :: ps)
  | led {floor q : Position} {row : Nat} {n : Node} {ns : List Node} {first : Placed}
      {cs ps : List Placed} : n.mark = some (.endsOn row) → PlacedFrom s floor n.children (first :: cs) →
      isStringLed first.node = true → first.start = some q → floor ≤ q → PlacedFrom s q ns ps →
      PlacedFrom s floor (n :: ns) (.mk n (some q) (ledStop n first) (first :: cs) :: ps)
  | literal {floor : Position} {row : Nat} {n : Node} {ns : List Node} {value : String} {bytes : Bool}
      {written e : Extent} {ps : List Placed} : n.mark = some (.endsOn row) →
      n.shape = .str value bytes written → floor.row ≤ s.text.start.row + row →
      locate s value.toList floor (s.text.start.row + row) = .ok e → PlacedFrom s e.start ns ps →
      PlacedFrom s floor (n :: ns) (.mk n (some e.start) (some e.stop) [] :: ps)

lemma inOrder_cons {α : Type} {step : Position → α → Except Fault Placed}
    {complain : List (Option Position) → Fault} {floor : Position} {found : List (Option Position)} {a : α}
    {as : List α} {ps : List Placed} : inOrder step complain floor found (a :: as) = .ok ps ↔
      ∃ p more, step floor a = .ok p ∧ (∀ q, p.start = some q → floor ≤ q) ∧
        inOrder step complain (p.start.getD floor) (found ++ [p.start]) as = .ok more ∧ ps = p :: more := by
  simp only [inOrder, bind_eq_ok]
  refine exists_congr fun p => ?_
  cases hp : p.start with
  | none => simp only [bind_eq_ok, pure_eq_ok, reduceCtorEq, false_implies, implies_true, true_and,
      Option.getD_none, exists_and_left, @eq_comm _ ps]
  | some q =>
    simp only [Option.some.injEq, forall_eq', Option.getD_some]
    split_ifs with hlt
    · simp [Position.not_le.mpr hlt]
    · simp only [Position.not_lt.mp hlt, true_and, bind_eq_ok, pure_eq_ok, exists_and_left, @eq_comm _ ps]

lemma leadingPart?_eq_some {cs : List Placed} {first : Placed} :
    leadingPart? cs = some first ↔ isStringLed first.node = true ∧ ∃ more, cs = first :: more := by
  cases cs with
  | nil => simp [leadingPart?]
  | cons c cs =>
    simp only [leadingPart?, List.head?_cons, Option.filter_eq_some_iff, Option.some.injEq, List.cons.injEq]
    constructor
    · rintro ⟨rfl, h⟩
      exact ⟨h, cs, rfl, rfl⟩
    · rintro ⟨h, _, rfl, _⟩
      exact ⟨rfl, h⟩

lemma PlacedFrom.start_led {floor : Position} {ns : List Node} {first : Placed} {ps : List Placed}
    (h : PlacedFrom s floor ns (first :: ps)) (hled : isStringLed first.node = true) :
    ∃ q, first.start = some q ∧ floor ≤ q := by
  cases h with
  | bare hm => simp [isStringLed, hm] at hled
  | known hm => simp [isStringLed, hm] at hled
  | led _ _ _ _ hle => exact ⟨_, rfl, hle⟩
  | literal _ _ _ he => exact ⟨_, rfl, (foundAt_of_locate he).floor_le⟩

lemma PlacedFrom.above_of_known {floor : Position} {n : Node} {ns : List Node} {p : Placed} {cs ps : List Placed}
    (hcs : PlacedFrom s floor n.children cs) (hp : placeAbove s floor n cs = .ok p)
    (hle : ∀ q, n.mark = some (.known q) → floor ≤ s.text.start.plus q)
    (hns : PlacedFrom s (p.start.getD floor) ns ps) : PlacedFrom s floor (n :: ns) (p :: ps) := by
  simp only [placeAbove] at hp
  split at hp
  · next hm =>
    obtain rfl := Except.ok.inj hp
    exact .bare hm hcs hns
  · next q hm =>
    obtain rfl := Except.ok.inj hp
    exact .known hm hcs (hle q hm) hns
  · next row hm =>
    split at hp
    · next first hfirst =>
      obtain ⟨hled, more, rfl⟩ := leadingPart?_eq_some.mp hfirst
      obtain rfl := Except.ok.inj hp
      obtain ⟨q, hq, hfloor⟩ := hcs.start_led hled
      simp only [Placed.start_mk, hq, Option.getD_some] at hns
      rw [hq]
      exact .led hm hcs hled hq hfloor hns
    · next hnone =>
      split at hp
      · next value bytes written hs =>
        have hnil : n.children = [] := Node.children_of_str hs
        rw [hnil] at hcs
        cases hcs
        simp only [placeString] at hp
        split_ifs at hp with hrow
        split at hp
        · next e he =>
          obtain rfl := Except.ok.inj hp
          exact .literal hm hs (by omega) he hns
        · cases hp
        · cases hp
      · cases hp

lemma PlacedFrom.above {floor : Position} {n : Node} {ns : List Node} {p : Placed} {cs ps : List Placed}
    (hcs : PlacedFrom s floor n.children cs) (hp : placeAbove s floor n cs = .ok p)
    (hle : ∀ q, p.start = some q → floor ≤ q) (hns : PlacedFrom s (p.start.getD floor) ns ps) :
    PlacedFrom s floor (n :: ns) (p :: ps) := by
  refine hcs.above_of_known hp (fun q hm => ?_) hns
  simp only [placeAbove, hm] at hp
  obtain rfl := Except.ok.inj hp
  exact hle _ rfl

lemma PlacedFrom.map_node {floor : Position} {ns : List Node} {ps : List Placed} (h : PlacedFrom s floor ns ps) :
    ps.map Placed.node = ns := by
  induction h with
  | nil => rfl
  | bare _ _ _ _ ih => rw [List.map_cons, ih, Placed.node_mk]
  | known _ _ _ _ _ ih => rw [List.map_cons, ih, Placed.node_mk]
  | led _ _ _ _ _ _ _ ih => rw [List.map_cons, ih, Placed.node_mk]
  | literal _ _ _ _ _ ih => rw [List.map_cons, ih, Placed.node_mk]

lemma placedFrom_of_inOrder {complain : List (Option Position) → Fault} {floor : Position}
    {found : List (Option Position)} {ns : List Node} {ps : List Placed}
    (hns : ∀ n ∈ ns, ∀ floor p, place s floor n = .ok p →
      ∃ cs, PlacedFrom s floor n.children cs ∧ placeAbove s floor n cs = .ok p)
    (h : inOrder (place s) complain floor found ns = .ok ps) : PlacedFrom s floor ns ps := by
  induction ns generalizing floor found ps with
  | nil =>
    obtain rfl : [] = ps := by simpa [inOrder] using h
    exact .nil
  | cons n ns ih =>
    obtain ⟨p, more, hp, hle, hmore, rfl⟩ := inOrder_cons.mp h
    obtain ⟨cs, hcs, habove⟩ := hns n List.mem_cons_self floor p hp
    exact hcs.above habove hle (ih (fun m hm => hns m (List.mem_cons_of_mem n hm)) hmore)

lemma exists_of_place {floor : Position} {n : Node} {p : Placed} (h : place s floor n = .ok p) :
    ∃ cs, PlacedFrom s floor n.children cs ∧ placeAbove s floor n cs = .ok p := by
  induction n using Node.ind generalizing floor p with
  | h n ih =>
    rw [place_eq, bind_eq_ok] at h
    obtain ⟨cs, hcs, hp⟩ := h
    exact ⟨cs, placedFrom_of_inOrder (fun c hc _ _ => ih c hc) hcs, hp⟩

lemma placedFrom_of_placeTree {n : Node} {root : Placed} (h : placeTree s n = .ok root) :
    PlacedFrom s s.text.start [n] [root] := by
  obtain ⟨cs, hcs, habove⟩ := exists_of_place h
  exact hcs.above_of_known habove (fun q _ => Position.le_plus _ q) .nil

lemma inOrder_eq_ok {complain : List (Option Position) → Fault} {floor : Position}
    {found : List (Option Position)} {ns : List Node} {ps : List Placed} :
    inOrder (place s) complain floor found ns = .ok ps ↔ PlacedFrom s floor ns ps := by
  constructor
  · exact placedFrom_of_inOrder fun n _ _ _ => exists_of_place
  · intro h
    induction h generalizing complain found with
    | nil => rfl
    | bare hm _ _ ihc ih =>
      refine inOrder_cons.mpr ⟨_, _, ?_, by simp, ih, rfl⟩
      rw [place_eq, ihc]
      simp [placeAbove, hm, bind, Except.bind]
    | known hm _ hle _ ihc ih =>
      refine inOrder_cons.mpr ⟨_, _, ?_, ?_, ih, rfl⟩
      · rw [place_eq, ihc]
        simp [placeAbove, hm, bind, Except.bind]
      · simpa using hle
    | @led _ q _ n _ first cs _ hm _ hled hq hle _ ihc ih =>
      refine inOrder_cons.mpr ⟨_, _, ?_, ?_, ih, rfl⟩
      · rw [place_eq, ihc]
        have hlead : leadingPart? (first :: cs) = some first := leadingPart?_eq_some.mpr ⟨hled, cs, rfl⟩
        simp only [placeAbove, hm, hlead, hq, bind, Except.bind]
        rfl
      · simpa using hle
    | literal hm hs hrow he _ ih =>
      refine inOrder_cons.mpr ⟨_, _, ?_, ?_, ih, rfl⟩
      · rw [place_eq, Node.children_of_str hs]
        have hlt : ¬ s.text.start.row + _ < _ := Nat.not_lt.mpr hrow
        simp [inOrder, placeAbove, hm, leadingPart?, hs, placeString, he, hlt, bind, Except.bind]
      · simpa using (foundAt_of_locate he).floor_le

end SourceBlocks.Placement
