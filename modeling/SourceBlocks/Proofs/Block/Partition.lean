import SourceBlocks.Proofs.Block.Inherited
import SourceBlocks.Proofs.Block.Regrouping
import SourceBlocks.Proofs.Text.Joining

namespace SourceBlocks.Block

open Outcome

variable {b g : Block} {bs : List Block} {ss run : List Statement}

section Runs

variable {κ : Type} [BEq κ]

lemma isChain_runs [LawfulBEq κ] (ps : List (κ × Statement)) : (runs ps).IsChain fun r r' => r.1 ≠ r'.1 := by
  induction ps with
  | nil => exact .nil
  | cons p ps ih =>
    obtain ⟨k, s⟩ := p
    rw [runs]
    split
    · next l ss more hruns =>
      rw [hruns] at ih
      split_ifs with hkey
      · -- the run grows at its front and keeps its key
        obtain rfl := eq_of_beq hkey
        exact List.isChain_cons.mpr (List.isChain_cons.mp ih)
      · exact List.isChain_cons_cons.mpr ⟨fun heq => hkey (beq_iff_eq.mpr heq), ih⟩
    · exact .singleton _

end Runs

section Concat

lemma concat?_of_concat (h : concat bs = .ok g) : Text.concat? (bs.map Block.text) = some g.text := by
  rcases concat_eq_ok h with rfl | ⟨a, rest, parts, f, rfl, -, -, rfl⟩
  · simp [Text.concat?]
  · simp only [List.map_cons, Text.concat?, carved, List.flatMap_map]

lemma body_of_concat (h : concat bs = .ok g) : g.body = (bs.mapM body).map List.flatten := by
  rcases concat_eq_ok h with rfl | ⟨a, rest, parts, f, -, hparts, -, rfl⟩
  · cases hbody : g.body <;> simp [hbody, Except.map, bind, Except.bind, pure, Except.pure]
  · rw [hparts]
    rfl

end Concat

lemma tiles_of_statements (h : b.statements = .ok ss) : b.text.Tiles (ss.map Statement.text) := by
  cases hsingle : b.isSingle with
  | true =>
    obtain rfl : [⟨b⟩] = ss := by simpa [statements, hsingle] using h
    exact Text.tiles_self b.text
  | false =>
    obtain ⟨roots, spans, chunks, -, -, hchunks, ⟨c, -, rfl⟩ | ⟨f, -, rfl⟩⟩ := statements_eq_ok hsingle h
    · exact Text.tiles_self b.text
    · rw [List.map_map]
      exact (Split.chunks_tile hchunks).1

/-- A block that some statements are put together to: it stands where they stand, and has their text and all their
nodes in their order. -/
structure Gathers (g : Block) (run : List Statement) : Prop where
  text : Text.concat? (run.map Statement.text) = some g.text
  tiles : g.text.Tiles (run.map Statement.text)
  body : g.body = (run.mapM fun s : Statement => s.block.body).map List.flatten

lemma gathers_of_concat (hss : b.statements = .ok ss) (hrun : run <:+: ss)
    (h : concat (run.map Statement.block) = .ok g) : g.Gathers run := by
  have hfollow := (tiles_of_statements hss).follow
  have hchain := hfollow.infix (hrun.map Statement.text)
  have htext := concat?_of_concat h
  rw [List.map_map] at htext
  refine ⟨htext, Text.tiles_of_concat? hchain htext, ?_⟩
  rw [body_of_concat h, List.mapM_map]
  rfl

lemma body_of_root? {s : Statement} {root : Option Root} (h : s.root? = .ok root) :
    s.block.body = .ok root.toList := by
  simp only [Statement.root?, bind_eq_ok] at h
  obtain ⟨roots, hroots, h⟩ := h
  rw [hroots]
  split at h
  · exact congrArg _ (Except.ok.inj h ▸ rfl)
  · exact congrArg _ (Except.ok.inj h ▸ rfl)
  · cases h

lemma Gathers.tiled (h : g.Gathers run) (hroots : ∀ s ∈ run, ∃ root, s.root? = .ok root) : g.Tiled run := by
  obtain ⟨nodes, hnodes⟩ := exists_mapM_eq_ok hroots
  have hbodies : (run.mapM fun s : Statement => s.block.body) = .ok (nodes.map Option.toList) := by
    rw [mapM_eq_ok, List.forall₂_map_right_iff]
    exact (mapM_eq_ok.mp hnodes).imp fun s root => body_of_root?
  refine ⟨h.tiles, ?_, nodes, hnodes, ?_⟩
  · have hjoin := join_joined (run.map Statement.text)
    rwa [h.tiles.chars, List.map_map] at hjoin
  · rw [h.body, hbodies, List.reduceOption, List.filterMap_eq_flatMap_toList, List.flatMap_def]
    rfl

section Groups

variable {κ : Type} [BEq κ] [LawfulBEq κ] {key : Statement → Except Error κ} {gs : List (κ × Block)}

lemma exists_runs (hss : b.statements = .ok ss) (h : b.groupBy key = .ok gs) : ∃ rs : List (List Statement),
    rs.flatten = ss ∧ (gs.IsChain fun g g' => g.1 ≠ g'.1) ∧
      List.Forall₂ (fun g run => run <:+: ss ∧ run ≠ [] ∧ (∀ s ∈ run, key s = .ok g.1) ∧
        concat (run.map Statement.block) = .ok g.2) gs rs := by
  obtain ⟨ps, hps, hflat, hruns⟩ := groupBy_eq_ok hss h
  refine ⟨(runs ps).map Prod.snd, hflat, ?_, ?_⟩
  · have hkeys : (runs ps).map Prod.fst = gs.map Prod.fst := by
      rw [← List.forall₂_eq_eq_eq, List.forall₂_map_left_iff, List.forall₂_map_right_iff]
      exact hruns.imp fun r g hrg => hrg.1
    have hchain : (gs.map Prod.fst).IsChain (· ≠ ·) := by
      rw [← hkeys, List.isChain_map]
      exact isChain_runs ps
    rwa [List.isChain_map] at hchain
  · rw [List.forall₂_map_right_iff]
    refine ((List.forall₂_and_left _ _).mpr ⟨fun r hr => hr, hruns⟩).flip.imp ?_
    rintro g r ⟨hr, hkey, hconcat⟩
    have hrun : r.2 <:+: ss := hflat ▸ List.infix_of_mem_flatten (List.mem_map_of_mem hr)
    refine ⟨hrun, ne_nil_of_mem_runs hr, fun s hs => ?_, hconcat⟩
    rw [← hkey]
    exact key_of_mem_mapM hps (key_mem_of_mem_runs hr hs)

/-- The groups of a block are a partition of its statements that keeps their order. -/
theorem groupBy_partition (h : b.groupBy key = .ok gs) : ∃ ss rs, b.statements = .ok ss ∧ rs.flatten = ss ∧
    (gs.IsChain fun g g' => g.1 ≠ g'.1) ∧
    List.Forall₂ (fun g run => run ≠ [] ∧ (∀ s ∈ run, key s = .ok g.1) ∧ g.2.Gathers run) gs rs ∧
    b.text.Tiles (gs.map fun g => g.2.text) ∧
    (b.Reachable → List.Forall₂ (fun g run => g.2.Tiled run) gs rs) := by
  obtain ⟨ss, hss⟩ := exists_statements_of_groupBy h
  obtain ⟨rs, hflat, hkeys, hruns⟩ := exists_runs hss h
  have hgathers : List.Forall₂ (fun g run => run <:+: ss ∧ g.2.Gathers run) gs rs :=
    hruns.imp fun g run hrun => ⟨hrun.1, gathers_of_concat hss hrun.1 hrun.2.2.2⟩
  refine ⟨ss, rs, hss, hflat, hkeys, ?_, ?_, fun hb => ?_⟩
  · exact hruns.imp fun g run hrun => ⟨hrun.2.1, hrun.2.2.1, gathers_of_concat hss hrun.1 hrun.2.2.2⟩
  · have htiles := tiles_of_statements hss
    rw [← hflat, List.map_flatten] at htiles
    apply htiles.of_runs
    rw [List.forall₂_map_left_iff, List.forall₂_map_right_iff]
    exact hgathers.imp fun g run hrun => hrun.2.tiles
  · refine hgathers.imp fun g run hrun => hrun.2.tiled fun s hs => ?_
    have hmem := hrun.1.subset hs
    obtain ⟨root, hroot⟩ := singleHolds_statement hb.singleHolds hss s hmem (isSingle_of_mem hss hmem) 0
    exact ⟨root, root?_of_body hroot⟩

end Groups

theorem groupBy_partition_kinds : ∃ ss gs rs,
    (ofText (Text.ofString "x = 1\ny = 2\n# c\nimport z\n") .none).statements = .ok ss ∧
      (ofText (Text.ofString "x = 1\ny = 2\n# c\nimport z\n") .none).groupBy Statement.kind = .ok gs ∧
      ss.length = 4 ∧ gs.map Prod.fst = [.code, .comment, .imports] ∧ rs.flatten = ss ∧
      (Text.ofString "x = 1\ny = 2\n# c\nimport z\n").Tiles (gs.map fun g => g.2.text) ∧
      List.Forall₂ (fun g run => g.2.Tiled run) gs rs := by
  have hlength : (ofText (Text.ofString "x = 1\ny = 2\n# c\nimport z\n") .none).statements.map List.length =
      .ok 4 := by decide +kernel
  have hgroups : ((ofText (Text.ofString "x = 1\ny = 2\n# c\nimport z\n") .none).groupBy Statement.kind).map
      (List.map Prod.fst) = .ok [.code, .comment, .imports] := by decide +kernel
  obtain ⟨ss, hss, hfour⟩ := map_eq_ok.mp hlength
  obtain ⟨gs, hgs, hkinds⟩ := map_eq_ok.mp hgroups
  obtain ⟨ss', rs, hss', hflat, -, -, htiles, htiled⟩ := groupBy_partition hgs
  obtain rfl := Except.ok.inj (hss.symm.trans hss')
  exact ⟨ss, gs, rs, hss, hgs, hfour, hkinds, hflat, htiles, htiled (.ofText _ _)⟩

end SourceBlocks.Block
