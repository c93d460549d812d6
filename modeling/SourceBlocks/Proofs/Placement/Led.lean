import Mathlib.Logic.Relation
import SourceBlocks.Proofs.Placement.Faults

namespace SourceBlocks

open Outcome
open SourceBlocks.Tree (Mark Node Shape)

namespace Tree.Node

def IsLiteralOn (row : Nat) (n : Node) : Prop :=
  n.mark = some (.endsOn row) ∧ ∃ value bytes written, n.shape = .str value bytes written

def BeginsWith (n c : Node) : Prop := ∃ cs, n.children = c :: cs

def HandsOn (n : Node) : Prop := ∀ row, n.mark = some (.endsOn row) →
  (∃ value bytes written, n.shape = .str value bytes written) ∨ ∃ c, n.BeginsWith c ∧ c.mark = some (.endsOn row)

lemma mem_walk_self (n : Node) : n ∈ n.walk := by
  rw [walk_eq]
  exact List.mem_cons_self

lemma mem_walk_of_mem_children {n c m : Node} (hc : c ∈ n.children) (hm : m ∈ c.walk) : m ∈ n.walk := by
  rw [walk_eq]
  exact List.mem_cons_of_mem _ (List.mem_flatMap.mpr ⟨c, hc, hm⟩)

lemma walk_trans {n m k : Node} (hm : m ∈ n.walk) (hk : k ∈ m.walk) : k ∈ n.walk := by
  induction n using ind with
  | h n ih =>
    rw [walk_eq] at hm
    rcases List.mem_cons.mp hm with rfl | hm
    · exact hk
    · obtain ⟨c, hc, hm⟩ := List.mem_flatMap.mp hm
      exact mem_walk_of_mem_children hc (ih c hc hm)

lemma reaches_literal {n : Node} {row : Nat} (h : ∀ m ∈ n.walk, m.HandsOn) (hn : n.mark = some (.endsOn row)) :
    ∃ m, Relation.ReflTransGen BeginsWith n m ∧ m.IsLiteralOn row := by
  induction n using ind with
  | h n ih =>
    rcases h n n.mem_walk_self row hn with hstr | ⟨c, hbegins, hc⟩
    · exact ⟨n, .refl, hn, hstr⟩
    · obtain ⟨cs, hcs⟩ := hbegins
      have hmem : c ∈ n.children := hcs ▸ List.mem_cons_self
      obtain ⟨m, hm, hlit⟩ := ih c hmem (fun m hm => h m (mem_walk_of_mem_children hmem hm)) hc
      exact ⟨m, .head ⟨cs, hcs⟩ hm, hlit⟩

end Tree.Node

lemma Lexis.Source.Laid.handsOn {S : Source} {ns : List Node} {lo hi : Nat} (h : S.Laid lo ns hi) :
    ∀ n ∈ ns.flatMap Node.walk, n.HandsOn := by
  have step : ∀ {n : Node} {ns : List Node}, n.HandsOn → (∀ m ∈ n.children.flatMap Node.walk, m.HandsOn) →
      (∀ m ∈ ns.flatMap Node.walk, m.HandsOn) → ∀ m ∈ (n :: ns).flatMap Node.walk, m.HandsOn := by
    intro n ns hn hchildren hns m hm
    rcases Placement.mem_walk_cons.mp hm with rfl | hm | hm
    · exact hn
    · exact hchildren m hm
    · exact hns m hm
  induction h with
  | nil => nofun
  | bare hm _ _ ihc ih => exact step (fun row hrow => by simp [hm] at hrow) ihc ih
  | known hm _ _ _ _ ihc ih => exact step (fun row hrow => by simp [hm] at hrow) ihc ih
  | led hm hcs hc _ _ ihc ih =>
    refine step (fun row hrow => .inr ⟨_, ⟨_, hcs⟩, ?_⟩) ihc ih
    obtain rfl := Mark.endsOn.inj (Option.some.inj (hm.symm.trans hrow))
    exact hc
  | literal _ hs _ _ ih => exact step (fun _ _ => .inl ⟨_, _, _, hs⟩) (by simp [Node.children_of_str hs]) ih

namespace Placement

variable {s : Setting} {floor : Position}

lemma placeAbove_ne_notAString {n m : Node} {cs : List Placed} (hn : n.HandsOn)
    (hcs : PlacedFrom s floor n.children cs) : placeAbove s floor n cs ≠ .error (.notAString m) := by
  intro h
  cases hm : n.mark with
  | none => simp [placeAbove, hm] at h
  | some mark =>
    cases mark with
    | known p => simp [placeAbove, hm] at h
    | endsOn row =>
      rcases hn row hm with ⟨value, bytes, written, hs⟩ | ⟨c, ⟨ns, hchildren⟩, hc⟩
      · rw [Node.children_of_str hs] at hcs
        cases hcs
        simp only [placeAbove, hm, leadingPart?, List.head?_nil, Option.filter_none, hs, placeString] at h
        split_ifs at h
        · cases h
        · split at h <;> cases h
      · -- the first part has been placed, and it begins with the literal as well
        rw [hchildren] at hcs
        cases cs with
        | nil => cases hcs
        | cons p cs =>
          have hlead : leadingPart? (p :: cs) = some p := by
            refine leadingPart?_eq_some.mpr ⟨?_, cs, rfl⟩
            rw [hcs.node_head]
            exact isStringLed_iff.mpr ⟨row, hc⟩
          simp [placeAbove, hm, hlead] at h

lemma inOrder_ne_notAString {parent m : Node} {top : Position} {found : List (Option Position)} {ns : List Node}
    (hns : ∀ n ∈ ns, ∀ floor, place s floor n ≠ .error (.notAString m)) :
    inOrder (place s) (.outOfOrder parent top) floor found ns ≠ .error (.notAString m) := by
  induction ns generalizing floor found with
  | nil => simp [inOrder]
  | cons n ns ih =>
    intro h
    rcases inOrder_eq_error h with hn | ⟨p, q, -, -, -, hcomplain⟩ | ⟨p, -, hrest⟩
    · exact hns n List.mem_cons_self floor hn
    · cases hcomplain
    · exact ih (fun k hk => hns k (List.mem_cons_of_mem n hk)) hrest

lemma place_ne_notAString {n m : Node} (h : ∀ k ∈ n.walk, k.HandsOn) : place s floor n ≠ .error (.notAString m) := by
  induction n using Node.ind generalizing floor with
  | h n ih =>
    intro hplace
    rcases place_eq_error hplace with hchildren | ⟨cs, hcs, habove⟩
    · refine inOrder_ne_notAString (fun c hc floor => ?_) hchildren
      exact ih c hc fun k hk => h k (Node.mem_walk_of_mem_children hc hk)
    · exact placeAbove_ne_notAString (h n n.mem_walk_self) hcs habove

end Placement

namespace Reading

variable {t : Text} {f : Features} {r : Reading}

lemma handsOn_of_ofText (h : ofText t f = .ok r) : ∀ n ∈ r.tree.walk, n.HandsOn := by
  obtain ⟨-, ns, htree, hlaid⟩ := ofText_eq_ok h
  intro n hn
  rw [htree, Node.walk_eq, children_module] at hn
  rcases List.mem_cons.mp hn with rfl | hn
  · intro row hrow
    cases hrow
  · exact hlaid.handsOn n hn

/-- In the tree of a text, a node that is known by a row alone is a string literal or begins with a
part that is known by the same row. -/
theorem led_to_literal (h : ofText t f = .ok r) :
    (∀ n ∈ r.tree.walk, ∀ row, n.mark = some (.endsOn row) →
      ((∃ value bytes written, n.shape = .str value bytes written) ∨
        ∃ c cs, n.children = c :: cs ∧ c.mark = some (.endsOn row)) ∧
      ∃ m, Relation.ReflTransGen Node.BeginsWith n m ∧ m.IsLiteralOn row) ∧
    ∀ n ∈ r.tree.walk, ∀ (s : Placement.Setting) (floor : Position) (m : Node),
      Placement.place s floor n ≠ .error (.notAString m) := by
  have hall := handsOn_of_ofText h
  have hbelow : ∀ n ∈ r.tree.walk, ∀ m ∈ n.walk, m.HandsOn := fun n hn m hm => hall m (Node.walk_trans hn hm)
  refine ⟨fun n hn row hrow => ⟨?_, Node.reaches_literal (hbelow n hn) hrow⟩, fun n hn s floor m => ?_⟩
  · rcases hall n hn row hrow with hstr | ⟨c, ⟨cs, hcs⟩, hc⟩
    · exact .inl hstr
    · exact .inr ⟨c, cs, hcs, hc⟩
  · exact Placement.place_ne_notAString (hbelow n hn)

theorem led_to_literal_nested : ∃ r, ofText (.ofString "'''a\nb'''.c[0], 1\n('''d\n''')\n") .none = .ok r ∧
    r.tree.walk.countP (fun n => n.mark = some (.endsOn 1)) = 5 ∧
    r.tree.walk.countP (fun n => n.mark = some (.endsOn 3)) = 1 ∧
    ∀ n ∈ r.tree.walk, n.mark = some (.endsOn 1) →
      ∃ m, Relation.ReflTransGen Node.BeginsWith n m ∧ m.IsLiteralOn 1 := by
  have hread : (ofText (.ofString "'''a\nb'''.c[0], 1\n('''d\n''')\n") .none).map (fun r =>
      (r.tree.walk.countP (fun n => n.mark = some (.endsOn 1)),
        r.tree.walk.countP (fun n => n.mark = some (.endsOn 3)))) = .ok (5, 1) := by decide +kernel
  obtain ⟨r, hr, heq⟩ := map_eq_ok.mp hread
  obtain ⟨hfirst, hsecond⟩ := Prod.mk.inj heq
  exact ⟨r, hr, hfirst, hsecond, fun n hn hrow => ((led_to_literal hr).1 n hn 1 hrow).2⟩

end Reading

end SourceBlocks
