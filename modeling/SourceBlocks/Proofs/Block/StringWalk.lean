import SourceBlocks.Proofs.Block.Inherited
import SourceBlocks.Proofs.Block.Strings
import SourceBlocks.Proofs.Tree.OneTree
import SourceBlocks.Proofs.Tree.PreOrder

namespace SourceBlocks

open Outcome
open SourceBlocks.Placement
open SourceBlocks.Tree

namespace Placement.PlacedFrom

variable {s : Setting} {floor : Position} {ns : List Node} {ps : List Placed}

lemma map_node_walk_of_mem (h : PlacedFrom s floor ns ps) : ∀ p ∈ ps, p.walk.map Placed.node = p.node.walk := by
  have hparts : ∀ {floor : Position} {n : Node} {cs : List Placed} (start stop : Option Position),
      PlacedFrom s floor n.children cs → (Placed.mk n start stop cs).walk.map Placed.node = n.walk := by
    intro floor n cs start stop hcs
    rw [Placed.walk_mk, List.map_cons, hcs.map_node_walk, Placed.node_mk, ← Node.walk_eq]
  induction h with
  | nil => simp
  | bare _ hcs _ _ ih => exact List.forall_mem_cons.mpr ⟨hparts _ _ hcs, ih⟩
  | known _ hcs _ _ _ ih => exact List.forall_mem_cons.mpr ⟨hparts _ _ hcs, ih⟩
  | led _ hcs _ _ _ _ _ ih => exact List.forall_mem_cons.mpr ⟨hparts _ _ hcs, ih⟩
  | @literal floor _ n _ _ _ _ _ _ _ hs _ _ _ ih =>
    have hcs : PlacedFrom s floor n.children [] := by
      rw [Node.children_of_str hs]
      exact .nil
    exact List.forall_mem_cons.mpr ⟨hparts _ _ hcs, ih⟩

end Placement.PlacedFrom

def Root.IsRead (root : Root) : Prop :=
  ∃ t f r p, Reading.ofText t f = .ok r ∧ r.placeIn t = .ok p ∧ root.placed ∈ p.children

namespace Root

variable {root : Root}

lemma IsRead.map_node_walk (h : root.IsRead) : root.placed.walk.map Placed.node = root.node.walk := by
  obtain ⟨t, f, r, p, hr, hp, hroot⟩ := h
  obtain ⟨-, ns, htree, -⟩ := Reading.ofText_eq_ok hr
  obtain ⟨cs, hcs, rfl⟩ := (Reading.placeIn_eq_ok htree).mp hp
  exact hcs.map_node_walk_of_mem _ hroot

lemma IsRead.defaultsLast (h : root.IsRead) : ∀ m ∈ root.node.walk, m.shape.DefaultsLast := by
  obtain ⟨t, f, r, p, hr, hp, hroot⟩ := h
  obtain ⟨-, hcheck, -⟩ := Reading.ofText_iff.mp hr
  have hlast := Dialect.defaultsLast_of_mem_walk (Dialect.meetable_of_meetAll hcheck)
  obtain ⟨-, ns, htree, -⟩ := Reading.ofText_eq_ok hr
  obtain ⟨cs, hcs, rfl⟩ := (Reading.placeIn_eq_ok htree).mp hp
  have hmem : root.node ∈ r.tree.children := by
    rw [htree, Reading.children_module, ← hcs.map_node]
    exact List.mem_map_of_mem hroot
  intro m hm
  apply hlast
  rw [Node.walk_eq]
  exact List.mem_cons_of_mem _ (List.mem_flatMap.mpr ⟨_, hmem, hm⟩)

lemma IsRead.exists_ref (h : root.IsRead) : ∃ r : Ref, r.node = root.node := by
  obtain ⟨i, a, -, htree, hnode⟩ := Node.exists_lower h.defaultsLast
  refine ⟨⟨⟨a, htree.children_below⟩, i⟩, ?_⟩
  rw [← hnode, htree.last]
  rfl

lemma IsRead.map_node_strings (h : root.IsRead) {r : Ref} (hr : r.node = root.node) :
    (root.placed.walk.filter fun p => p.stringValue?.isSome).map Placed.node = r.strings.map Ref.node := by
  have hstring : (fun p : Placed => p.stringValue?.isSome) = (fun n => n.shape.stringValue?.isSome) ∘ Placed.node := rfl
  rw [r.map_node_strings, hr, ← h.map_node_walk, hstring, List.filter_map]

end Root

namespace Block

variable {b : Block} {roots : List Root}

def Sourced (b : Block) : Prop := ∀ n roots, b.outcome n = .ok roots → ∀ root ∈ roots, root.IsRead

lemma sourced_ofText (t : Text) (f : Features) : (ofText t f).Sourced := by
  intro n roots hroots root hroot
  simp only [outcome, ofText, readRoots, bind_eq_ok, mapError_eq_ok, pure_eq_ok] at hroots
  obtain ⟨r, hr, p, hp, rfl⟩ := hroots
  obtain ⟨c, hc, rfl⟩ := List.mem_map.mp hroot
  exact ⟨t, f, r, p, hr, hp, List.fst_mem_of_mem_zipIdx hc⟩

lemma sourced_concat {bs : List Block} (h : ∀ a ∈ bs, a.Sourced) (hb : concat bs = .ok b) : b.Sourced := by
  rcases concat_eq_ok hb with rfl | ⟨a, rest, parts, f, -, hparts, -, rfl⟩
  · exact h b List.mem_cons_self
  · rintro n roots ⟨⟩ root hroot
    obtain ⟨part, hpart, hroot⟩ := List.mem_flatten.mp hroot
    obtain ⟨c, hc, hbody⟩ := exists_of_mem_mapM hparts hpart
    exact h c hc 0 part hbody root hroot

lemma Sourced.statement {ss : List Statement} {s : Statement} (hb : b.Sourced) (h : b.statements = .ok ss)
    (hs : s ∈ ss) : s.block.Sourced := by
  rcases mem_statements h hs with hself | ⟨roots, _, _, f, c, -, hroots, -, -, -, rfl⟩
  · rw [hself]
    exact hb
  · rintro n roots' ⟨⟩ root hroot
    obtain ⟨j, -, hj⟩ := Option.bind_eq_some_iff.mp (Option.mem_toList.mp hroot)
    exact hb 0 roots hroots root (List.mem_of_getElem? hj)

lemma Reachable.sourced (h : b.Reachable) : b.Sourced := by
  induction h with
  | ofText t f => exact sourced_ofText t f
  | afterReading n _ ih => exact fun _ => ih n
  | ofInput _ _ hb ihb ihs =>
    rcases ofInput_eq_ok hb with ⟨t, f, rfl⟩ | hi | ⟨s, hi, rfl⟩
    · exact sourced_ofText t f
    · exact ihb _ hi
    · exact ihs s hi
  | concat _ hb ih => exact sourced_concat ih hb
  | statement _ hss hs ih => exact ih.statement hss hs
  | group _ hgs hg ih =>
    obtain ⟨ss, run, hss, hrun, hconcat⟩ := mem_groupBy hgs hg
    refine sourced_concat (fun a ha => ?_) hconcat
    obtain ⟨s, hs, rfl⟩ := List.mem_map.mp ha
    exact ih.statement hss (hrun s hs)

lemma map_node_strings {refs : List Ref} (h : ∀ root ∈ roots, root.IsRead)
    (hrefs : refs.map Ref.node = roots.map Root.node) :
    (roots.flatMap fun r => r.placed.walk.filter fun p => p.stringValue?.isSome).map Placed.node =
      (Pending.literals.toList ⟨refs, []⟩).map Ref.node := by
  rw [Pending.toList_literals_start]
  induction roots generalizing refs with
  | nil =>
    obtain rfl : refs = [] := List.map_eq_nil_iff.mp hrefs
    rfl
  | cons root roots ih =>
    obtain ⟨hroot, hroots⟩ := List.forall_mem_cons.mp h
    obtain ⟨r, refs, rfl, hr, hrest⟩ := List.map_eq_cons_iff.mp hrefs
    rw [List.flatMap_cons, List.flatMap_cons, List.map_append, List.map_append, ih hroots hrest,
      hroot.map_node_strings hr]

lemma exists_refs (h : ∀ root ∈ roots, root.IsRead) : ∃ refs : List Ref, refs.map Ref.node = roots.map Root.node := by
  induction roots with
  | nil => exact ⟨[], rfl⟩
  | cons root roots ih =>
    obtain ⟨hroot, hroots⟩ := List.forall_mem_cons.mp h
    obtain ⟨r, hr⟩ := hroot.exists_ref
    obtain ⟨refs, hrefs⟩ := ih hroots
    exact ⟨r :: refs, by rw [List.map_cons, List.map_cons, hr, hrefs]⟩

/-- A walk with a stack comes to an end and gives the nodes in pre-order, and the strings of
statements are those of their walks, one statement after the other. -/
theorem walk_in_preorder :
    (∀ (t : Ranked) (i : Nat), t.walk.toList [i] = t.preorder i ∧ (∀ j ∈ t.preorder i, j ≤ i) ∧
      (t.preorder i).map t.node = (t.node i).walk) ∧
    (∀ statements : List Ref, Pending.literals.toList ⟨statements, []⟩ = statements.flatMap fun s =>
      ((s.tree.preorder s.id).map (Ref.mk s.tree)).filter fun m => m.stringValue?.isSome) ∧
    ∀ (b : Block) (roots : List Root), b.Reachable → b.body = .ok roots →
      (∃ refs : List Ref, refs.map Ref.node = roots.map Root.node) ∧
      ∀ refs : List Ref, refs.map Ref.node = roots.map Root.node → ∃ ps, b.strings = .ok ps ∧
        ps.map Placed.node = (Pending.literals.toList ⟨refs, []⟩).map Ref.node := by
  refine ⟨fun t i => ?_, fun statements => ?_, fun b roots hb hroots => ?_⟩
  · exact ⟨t.toList_walk_singleton i, fun j => t.le_of_mem_preorder, t.map_node_preorder i⟩
  · rw [Pending.toList_literals_start]
    exact List.flatMap_congr fun s _ => s.strings_eq
  · have hread := hb.sourced 0 roots hroots
    refine ⟨exists_refs hread, fun refs hrefs => ⟨_, ?_, map_node_strings hread hrefs⟩⟩
    rw [strings, hroots]
    rfl

theorem walk_in_preorder_concat : ∃ b roots refs,
    concat [ofText (.ofString "f('a', b)\n") .none, ofText (.ofString "x = 'c' + g('d')\n") .none] = .ok b ∧
      b.body = .ok roots ∧ refs.map Ref.node = roots.map Root.node ∧
      (Pending.literals.toList ⟨refs, []⟩).map (fun r => r.node.shape.stringValue?) =
        [some "a", some "c", some "d"] := by
  have hvalues : (concat [ofText (.ofString "f('a', b)\n") .none, ofText (.ofString "x = 'c' + g('d')\n") .none] >>=
      strings).map (List.map fun p => p.node.shape.stringValue?) = .ok [some "a", some "c", some "d"] := by
    decide +kernel
  obtain ⟨ps, hps, hmap⟩ := map_eq_ok.mp hvalues
  obtain ⟨b, hb, hstrings⟩ := bind_eq_ok.mp hps
  obtain ⟨roots, hroots, -⟩ := bind_eq_ok.mp hstrings
  have hreach : b.Reachable := by
    apply Reachable.concat _ hb
    intro a ha
    simp only [List.mem_cons, List.not_mem_nil, or_false] at ha
    rcases ha with rfl | rfl
    · exact .ofText _ _
    · exact .ofText _ _
  obtain ⟨⟨refs, hrefs⟩, hall⟩ := walk_in_preorder.2.2 b roots hreach hroots
  obtain ⟨ps', hps', hnodes⟩ := hall refs hrefs
  obtain rfl := Except.ok.inj (hps'.symm.trans hstrings)
  refine ⟨b, roots, refs, hb, hroots, hrefs, ?_⟩
  have hshapes := congrArg (List.map fun n => n.shape.stringValue?) hnodes
  rw [List.map_map, List.map_map] at hshapes
  exact hshapes.symm.trans hmap

end Block

end SourceBlocks
