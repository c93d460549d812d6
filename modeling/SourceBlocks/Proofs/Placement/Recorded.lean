import SourceBlocks.Proofs.Placement.Ordered

namespace SourceBlocks.Placement

open Outcome
open SourceBlocks.Tree (Extent Mark Node Shape)

variable {s : Setting} {floor : Position} {ns : List Node} {ps : List Placed} {n : Node} {row : Nat}

namespace Placed

def foremost : Placed → Placed
  | mk n start stop [] => mk n start stop []
  | mk _ _ _ (c :: _) => foremost c

def IsString (p : Placed) : Prop := ∃ value bytes written, p.node.shape = .str value bytes written

def IsExpression (p : Placed) : Prop := ∃ v, p.node.shape = .expr v

structure Recorded (s : Setting) (p : Placed) : Prop where
  parts : p.children.map node = p.node.children
  start_iff : p.start.isSome = true ↔ p.node.mark.isSome = true
  known : ∀ q, p.node.mark = some (.known q) → p.start = some (s.text.start.plus q) ∧ p.stop = none
  led : isStringLed p.node = true → p.foremost.IsString ∧ p.start = p.foremost.start
  stop_iff : p.stop.isSome = true ↔ isStringLed p.node = true ∧
    (p.IsString ∨ p.IsExpression ∧ ∃ v ∈ p.children, v.stop.isSome = true)
  value : isStringLed p.node = true → ∀ v, p.node.shape = .expr v →
    ∃ c, p.children = [c] ∧ c.node = v ∧ p.stop = c.stop

lemma children_of_expr {v : Node} (h : n.shape = .expr v) : n.children = [v] := by
  simp [Node.children, h, Shape.children, Shape.fieldNodes, Shape.fields, Tree.Field.nodes]

lemma recorded_bare {cs : List Placed} (hm : n.mark = none) (hcs : cs.map node = n.children) :
    (mk n none none cs).Recorded s where
  parts := hcs
  start_iff := by simp [hm]
  known := by simp [hm]
  led := by simp [isStringLed, hm]
  stop_iff := by simp [isStringLed, hm]
  value := by simp [isStringLed, hm]

lemma recorded_known {p : Position} {cs : List Placed} (hm : n.mark = some (.known p))
    (hcs : cs.map node = n.children) : (mk n (some (s.text.start.plus p)) none cs).Recorded s where
  parts := hcs
  start_iff := by simp [hm]
  known := by simp [hm]
  led := by simp [isStringLed, hm]
  stop_iff := by simp [isStringLed, hm]
  value := by simp [isStringLed, hm]

lemma recorded_literal {value : String} {bytes : Bool} {written e : Extent} (hm : n.mark = some (.endsOn row))
    (hs : n.shape = .str value bytes written) : (mk n (some e.start) (some e.stop) []).Recorded s where
  parts := (Node.children_of_str hs).symm
  start_iff := by simp [hm]
  known := by simp [hm]
  led _ := ⟨⟨value, bytes, written, hs⟩, rfl⟩
  stop_iff := by simp [isStringLed, hm, IsString, hs]
  value := by simp [hs]

lemma recorded_led {q : Position} {first : Placed} {cs : List Placed} (hm : n.mark = some (.endsOn row))
    (hcs : PlacedFrom s floor n.children (first :: cs)) (hled : isStringLed first.node = true)
    (hq : first.start = some q) (hfirst : first.Recorded s) :
    (mk n (some q) (ledStop n first) (first :: cs)).Recorded s := by
  have hstring : ¬ (mk n (some q) (ledStop n first) (first :: cs)).IsString := by
    rintro ⟨value, bytes, written, hs⟩
    exact hcs.children_ne_nil (Node.children_of_str hs)
  have hvalue : ∀ v, n.shape = .expr v → first.node = v ∧ cs = [] ∧ ledStop n first = first.stop := by
    intro v hs
    have hnodes := hcs.map_node
    rw [children_of_expr hs, List.map_cons, List.cons.injEq, List.map_eq_nil_iff] at hnodes
    exact ⟨hnodes.1, hnodes.2, by simp [ledStop, hs]⟩
  constructor
  · exact hcs.map_node
  · simp [hm]
  · simp [hm]
  · intro _
    obtain ⟨hstr, hstart⟩ := hfirst.led hled
    exact ⟨hstr, hq.symm.trans hstart⟩
  · rw [or_iff_right hstring, and_iff_right (by simp [isStringLed, hm])]
    constructor
    · intro hstop
      obtain ⟨y, hy⟩ := Option.isSome_iff_exists.mp hstop
      obtain ⟨hexpr, hy⟩ := stop_of_ledStop hy
      exact ⟨hexpr, first, List.mem_cons_self, by simp [hy]⟩
    · rintro ⟨⟨v, hs⟩, w, hw, hstop⟩
      obtain ⟨-, rfl, hend⟩ := hvalue v hs
      obtain rfl := List.mem_singleton.mp hw
      rwa [stop_mk, hend]
  · intro _ v hs
    obtain ⟨hnode, rfl, hend⟩ := hvalue v hs
    exact ⟨first, rfl, hnode, hend⟩

end Placed

lemma PlacedFrom.recorded (h : PlacedFrom s floor ns ps) : ∀ p ∈ ps.flatMap Placed.walk, p.Recorded s := by
  induction h with
  | nil => simp
  | bare hm hcs _ ihc ih => exact Placed.forall_mem_walk_cons.mpr ⟨Placed.recorded_bare hm hcs.map_node, ihc, ih⟩
  | known hm hcs _ _ ihc ih => exact Placed.forall_mem_walk_cons.mpr ⟨Placed.recorded_known hm hcs.map_node, ihc, ih⟩
  | led hm hcs hled hq _ _ ihc ih =>
    have hfirst := ihc _ (List.mem_append_left _ (Placed.mem_walk_self _))
    exact Placed.forall_mem_walk_cons.mpr ⟨Placed.recorded_led hm hcs hled hq hfirst, ihc, ih⟩
  | literal hm hs _ _ _ ih =>
    exact Placed.forall_mem_walk_cons.mpr ⟨Placed.recorded_literal hm hs, by simp, ih⟩

/-- What is recorded when a tree is placed, for each of its nodes. -/
theorem recorded_of_placeTree {root : Placed} (h : placeTree s n = .ok root) :
    root.walk.map Placed.node = n.walk ∧ ∀ p ∈ root.walk, p.Recorded s := by
  have hroot := placedFrom_of_placeTree h
  constructor
  · simpa using hroot.map_node_walk
  · simpa using hroot.recorded

theorem recorded_of_placeTree_sum : ∃ r root,
    Reading.ofText (Text.ofString "x = 1\n'''foo\nbar'''\n'''a\nb''' + c\n") .none = .ok r ∧
      placeTree (r.setting (Text.ofString "x = 1\n'''foo\nbar'''\n'''a\nb''' + c\n")) r.tree = .ok root ∧
      root.children.map (fun p => (p.start, p.stop)) =
        [(some ⟨0, 0⟩, none), (some ⟨1, 0⟩, some ⟨2, 6⟩), (some ⟨3, 0⟩, none)] ∧
      ∀ p ∈ root.walk, isStringLed p.node = true → p.foremost.IsString ∧ p.start = p.foremost.start := by
  have hplaces : (Reading.ofText (Text.ofString "x = 1\n'''foo\nbar'''\n'''a\nb''' + c\n") .none >>= fun r =>
      (r.placeIn (Text.ofString "x = 1\n'''foo\nbar'''\n'''a\nb''' + c\n")).map fun root =>
        root.children.map fun p => (p.start, p.stop)) =
        .ok [(some ⟨0, 0⟩, none), (some ⟨1, 0⟩, some ⟨2, 6⟩), (some ⟨3, 0⟩, none)] := by decide +kernel
  obtain ⟨r, hr, hplaces⟩ := bind_eq_ok.mp hplaces
  obtain ⟨root, hroot, hplaces⟩ := map_eq_ok.mp hplaces
  have htree := mapError_eq_ok.mp hroot
  exact ⟨r, root, hr, htree, hplaces, fun p hp => ((recorded_of_placeTree htree).2 p hp).led⟩

end SourceBlocks.Placement
