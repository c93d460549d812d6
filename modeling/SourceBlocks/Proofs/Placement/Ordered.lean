import SourceBlocks.Proofs.Placement.Places

namespace SourceBlocks.Placement

open Outcome
open SourceBlocks.Tree (Node)

variable {s : Setting} {floor : Position} {ns : List Node} {ps : List Placed}

namespace PlacedFrom

lemma floor_le_start (h : PlacedFrom s floor ns ps) : ∀ p ∈ ps, ∀ x ∈ p.start, floor ≤ x :=
  fun p hp => h.floor_le p (List.mem_flatMap.mpr ⟨p, hp, p.mem_walk_self⟩)

lemma pairwise_start (h : PlacedFrom s floor ns ps) : (ps.filterMap Placed.start).Pairwise (· ≤ ·) := by
  induction ps generalizing floor ns with
  | nil => exact .nil
  | cons p ps ih =>
    obtain ⟨_, _, -, -, hps⟩ := h.uncons
    cases hp : p.start with
    | none => rw [List.filterMap_cons_none hp]; exact ih hps
    | some x =>
      rw [List.filterMap_cons_some hp, List.pairwise_cons]
      refine ⟨fun y hy => ?_, ih hps⟩
      obtain ⟨q, hq, hy⟩ := List.mem_filterMap.mp hy
      rw [hp] at hps
      exact hps.floor_le_start q hq y hy

lemma children {n : Node} {p : Placed} (h : PlacedFrom s floor [n] [p]) :
    p.node = n ∧ PlacedFrom s floor p.node.children p.children := by
  cases h with
  | bare _ hcs => exact ⟨rfl, hcs⟩
  | known _ hcs => exact ⟨rfl, hcs⟩
  | led _ hcs => exact ⟨rfl, hcs⟩
  | literal _ hs => exact ⟨rfl, by simpa [Node.children_of_str hs] using .nil⟩

lemma children_at {c : Placed} {earlier later : List Placed} (h : PlacedFrom s floor ns (earlier ++ c :: later)) :
    ∃ floor', floor ≤ floor' ∧ (∀ a ∈ earlier, ∀ x ∈ a.start, x ≤ floor') ∧
      PlacedFrom s floor' c.node.children c.children := by
  induction earlier generalizing floor ns with
  | nil =>
    obtain ⟨n, _, -, hc, -⟩ := h.uncons
    exact ⟨floor, Position.le_refl _, by simp, hc.children.2⟩
  | cons a earlier ih =>
    obtain ⟨_, _, -, -, hrest⟩ := h.uncons
    obtain ⟨floor', hle, hearlier, hc⟩ := ih hrest
    cases ha : a.start with
    | none =>
      rw [ha] at hle
      exact ⟨floor', hle, List.forall_mem_cons.mpr ⟨by simp [ha], hearlier⟩, hc⟩
    | some x =>
      rw [ha] at hle
      have hx := h.floor_le_start a List.mem_cons_self x ha
      refine ⟨floor', Position.le_trans hx hle, List.forall_mem_cons.mpr ⟨?_, hearlier⟩, hc⟩
      rintro y hy
      obtain rfl := Option.some.inj (ha.symm.trans hy)
      exact hle

end PlacedFrom

/-- A node that is reached by going down from the root, and the parts that are passed on the way: those in front of the
node and of each node above it. -/
inductive Placed.Reached (root : Placed) : List Placed → Placed → Prop
  | root : Reached root [] root
  | part {passed earlier later : List Placed} {p c : Placed} : Reached root passed p →
      p.children = earlier ++ c :: later → Reached root (passed ++ earlier) c

lemma Placed.Reached.placedFrom {n : Node} {root p : Placed} {passed : List Placed} (hp : root.Reached passed p)
    (h : PlacedFrom s floor [n] [root]) : ∃ floor', floor ≤ floor' ∧ (∀ a ∈ passed, ∀ x ∈ a.start, x ≤ floor') ∧
      PlacedFrom s floor' p.node.children p.children := by
  induction hp with
  | root => exact ⟨floor, Position.le_refl _, by simp, h.children.2⟩
  | part _ hc ih =>
    obtain ⟨floor₁, hle₁, hpassed, hchildren⟩ := ih
    rw [hc] at hchildren
    obtain ⟨floor₂, hle₂, hearlier, hparts⟩ := hchildren.children_at
    refine ⟨floor₂, Position.le_trans hle₁ hle₂, List.forall_mem_append.mpr ⟨fun a ha x hx => ?_, hearlier⟩, hparts⟩
    exact Position.le_trans (hpassed a ha x hx) hle₂

/-- In a placed tree the parts of each node are the node's own in their order, and the places of
those that have one do not go back. -/
theorem placed_in_order {n : Node} {root : Placed} (h : placeTree s n = .ok root) :
    root.node = n ∧ ∀ passed p, root.Reached passed p →
      p.children.map Placed.node = p.node.children ∧
      (p.children.filterMap Placed.start).Pairwise (· ≤ ·) ∧
      ∀ c ∈ p.children, ∀ x ∈ c.start, s.text.start ≤ x ∧ ∀ a ∈ passed, ∀ y ∈ a.start, y ≤ x := by
  have hroot := placedFrom_of_placeTree h
  refine ⟨hroot.children.1, fun passed p hp => ?_⟩
  obtain ⟨floor, hfloor, hpassed, hparts⟩ := hp.placedFrom hroot
  refine ⟨hparts.map_node, hparts.pairwise_start, fun c hc x hx => ?_⟩
  have hle := hparts.floor_le_start c hc x hx
  exact ⟨Position.le_trans hfloor hle, fun a ha y hy => Position.le_trans (hpassed a ha y hy) hle⟩

theorem placed_in_order_calls : ∃ r root first second,
    Reading.ofText (Text.ofString "\nf('''a\n''')\ng('''a\n''')\n") .none = .ok r ∧
      placeTree (r.setting (Text.ofString "\nf('''a\n''')\ng('''a\n''')\n")) r.tree = .ok root ∧
      root.children = [first, second] ∧ first.start = some ⟨1, 0⟩ ∧
      ∀ c ∈ second.children, ∀ x ∈ c.start, (⟨1, 0⟩ : Position) ≤ x := by
  have hstarts : (Reading.ofText (Text.ofString "\nf('''a\n''')\ng('''a\n''')\n") .none >>= fun r =>
      (r.placeIn (Text.ofString "\nf('''a\n''')\ng('''a\n''')\n")).map fun root => root.children.map Placed.start) =
        .ok [some ⟨1, 0⟩, some ⟨3, 0⟩] := by decide +kernel
  obtain ⟨r, hr, hstarts⟩ := bind_eq_ok.mp hstarts
  obtain ⟨root, hroot, hstarts⟩ := map_eq_ok.mp hstarts
  have htree := mapError_eq_ok.mp hroot
  obtain ⟨first, more, hchildren, hfirst, hmore⟩ := List.map_eq_cons_iff.mp hstarts
  obtain ⟨second, _, rfl, -, hnil⟩ := List.map_eq_cons_iff.mp hmore
  obtain rfl := List.map_eq_nil_iff.mp hnil
  have hsecond : root.Reached ([] ++ [first]) second := .part .root hchildren
  refine ⟨r, root, first, second, hr, htree, hchildren, hfirst, fun c hc x hx => ?_⟩
  exact (((placed_in_order htree).2 _ _ hsecond).2.2 c hc x hx).2 first List.mem_cons_self _ hfirst

end SourceBlocks.Placement
