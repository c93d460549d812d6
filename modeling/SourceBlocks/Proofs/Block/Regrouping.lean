import Mathlib.Algebra.GroupWithZero.Nat
import SourceBlocks.Proofs.Block.Anchored

namespace SourceBlocks.Block

open Outcome

variable {b g : Block} {roots : List Root} {spans : List Split.Span} {f : Features}

/-- Whether a group falls into the statements that were put together: there is only one, or each of them that
has a node keeps its end in the text of the group. -/
def Regroups (g : Block) (run : List Statement) : Prop :=
  run.length = 1 ∨ ∀ s ∈ run, ∀ root, s.root? = .ok (some root) → ∀ start ∈ root.placed.start,
    Split.Keeps g.text ⟨start, root.placed.stop⟩ s.text.stop

lemma statements_eq_ok_iff {ss : List Statement} (hg : g.isSingle = false) (hroots : g.body = .ok roots)
    (hspans : roots.mapM spanOf = .ok spans) (hf : g.features = .ok f) (hlen : 2 ≤ ss.length) :
    g.statements = .ok ss ↔ ∃ cs, Split.chunks g.text spans = .ok cs ∧ cs.map (ofChunk roots f) = ss := by
  constructor
  · intro h
    obtain ⟨roots', spans', cs, hroots', hspans', hcs, ⟨_, -, rfl⟩ | ⟨f', hf', rfl⟩⟩ := statements_eq_ok hg h
    · simp at hlen
    · obtain rfl := Except.ok.inj (hroots.symm.trans hroots')
      obtain rfl := Except.ok.inj (hspans.symm.trans hspans')
      obtain rfl := Except.ok.inj (hf.symm.trans hf')
      exact ⟨cs, hcs, rfl⟩
  · rintro ⟨cs, hcs, rfl⟩
    simp only [statements, hg, Bool.false_eq_true, if_false, hroots, hspans, hcs, hf, bind, Except.bind,
      Except.mapError, pure, Except.pure]
    split
    · simp at hlen
    · rfl

section Carved

variable {run : List Split.Chunk}

lemma concat_chunks {u : Text} (hlen : 2 ≤ run.length) (hu : Text.concat? (run.map Split.Chunk.text) = some u) :
    concat ((run.map (ofChunk roots f)).map Statement.block) =
      .ok (carved u (run.filterMap fun c => c.node.bind fun i => roots[i]?) f false) := by
  have hbodies : ((run.map (ofChunk roots f)).map Statement.block).mapM body =
      .ok (run.map fun c => (c.node.bind fun i => roots[i]?).toList) := by
    rw [mapM_eq_ok, List.map_map, List.forall₂_map_left_iff, List.forall₂_map_right_iff, List.forall₂_same]
    exact fun c _ => rfl
  obtain ⟨c, c', rest, rfl⟩ : ∃ c c' rest, run = c :: c' :: rest := by
    match run, hlen with
    | c :: c' :: rest, _ => exact ⟨c, c', rest, rfl⟩
  obtain rfl := Option.some.inj hu
  rw [List.filterMap_eq_flatMap_toList, List.flatMap_def]
  simp only [List.map_cons, concat] at hbodies ⊢
  rw [hbodies]
  simp only [bind, Except.bind, pure, Except.pure, features, ofChunk, carved, List.flatMap_def, List.map_map,
    List.map_cons]
  rfl

lemma ofChunk_lower {d m : Nat} {c : Split.Chunk} (h : ∀ j ∈ c.node, d ≤ j ∧ j < d + m) :
    ofChunk ((roots.drop d).take m) f (c.lower d) = ofChunk roots f c := by
  obtain ⟨node, x⟩ := c
  cases node with
  | none => rfl
  | some j =>
    obtain ⟨hle, hlt⟩ := h j rfl
    have hget : ((roots.drop d).take m)[j - d]? = roots[j]? := by
      rw [List.getElem?_take_of_lt (by omega), List.getElem?_drop, Nat.add_sub_cancel' hle]
    simp only [ofChunk, Split.Chunk.lower, Option.map_some, Option.bind_some, hget]

lemma getElem?_spans (hspans : roots.mapM spanOf = .ok spans) {j : Nat} {s : Split.Span} : spans[j]? = some s ↔
    ∃ root start, roots[j]? = some root ∧ root.placed.start = some start ∧ s = ⟨start, root.placed.stop⟩ := by
  induction mapM_eq_ok.mp hspans generalizing j with
  | nil => simp
  | cons hspan hrest ih =>
    cases j with
    | zero =>
      obtain ⟨start, hstart, rfl⟩ := spanOf_eq_ok.mp hspan
      simp [hstart, eq_comm]
    | succ j => exact ih (mapM_eq_ok.mpr hrest)

lemma statements_concat_iff {pre post : List Split.Chunk} (hb : b.Anchored) (hroots : b.body = .ok roots)
    (hspans : roots.mapM spanOf = .ok spans) (hchunks : Split.chunks b.text spans = .ok (pre ++ (run ++ post)))
    (hlen : 2 ≤ run.length) (hg : concat ((run.map (ofChunk roots f)).map Statement.block) = .ok g) :
    g.statements = .ok (run.map (ofChunk roots f)) ↔ Regroups g (run.map (ofChunk roots f)) := by
  have hholds := holds_of_mem_spans (hb 0 roots hroots) hspans
  obtain ⟨before, mid, rest, u, rfl, hnodes, hu, hsplit, hkeeps⟩ := Split.chunks_of_run hchunks hholds hlen
  have hsame := (mapM_eq_ok.mp hspans).length_eq
  simp only [List.length_append] at hsame
  have hmid : ((roots.drop before.length).take mid.length).mapM spanOf = .ok mid :=
    mapM_eq_ok.mpr (List.forall₂_take_append _ _ _ (List.forall₂_drop_append _ _ _ (mapM_eq_ok.mp hspans)))
  have hindex : ∀ c ∈ run, ∀ j ∈ c.node, before.length ≤ j ∧ j < before.length + mid.length := by
    intro c hc j hj
    rw [← List.mem_range'_1, ← hnodes]
    exact List.mem_filterMap.mpr ⟨c, hc, hj⟩
  have hget : ∀ {j}, j < mid.length → ((roots.drop before.length).take mid.length)[j]? = roots[before.length + j]? := by
    intro j hj
    rw [List.getElem?_take_of_lt hj, List.getElem?_drop]
  rw [concat_chunks hlen hu, ← List.filterMap_filterMap, hnodes, filterMap_range' _ (by omega),
    Except.ok.injEq] at hg
  subst hg
  rw [statements_eq_ok_iff rfl rfl hmid rfl (by simpa using hlen)]
  constructor
  · rintro ⟨cs, hcs, heq⟩
    have htexts : cs.map Split.Chunk.text = run.map Split.Chunk.text := by
      have := congrArg (List.map Statement.text) heq
      rwa [List.map_map, List.map_map] at this
    refine .inr fun s hs root hroot start hstart => ?_
    obtain ⟨⟨node, x⟩, hc, rfl⟩ := List.mem_map.mp hs
    have hbody : (ofChunk roots f ⟨node, x⟩).root? = .ok (node.bind fun i => roots[i]?) := root?_of_body rfl
    obtain ⟨j, rfl, hj⟩ := Option.bind_eq_some_iff.mp (Except.ok.inj (hbody.symm.trans hroot))
    obtain ⟨hle, hlt⟩ := hindex _ hc j rfl
    obtain ⟨j, rfl⟩ := Nat.exists_eq_add_of_le hle
    refine hkeeps cs hcs htexts j x hc _ ((getElem?_spans hmid).mpr ⟨root, start, ?_, hstart, rfl⟩)
    rw [hget (by omega), hj]
  · rintro (hone | hall)
    · rw [List.length_map] at hone
      omega
    · refine ⟨_, hsplit fun j x hx s hs => ?_, ?_⟩
      · obtain ⟨root, start, hroot, hstart, rfl⟩ := (getElem?_spans hmid).mp hs
        rw [hget (List.getElem?_eq_some_iff.mp hs).1] at hroot
        refine hall _ (List.mem_map_of_mem hx) root ?_ start hstart
        rw [← hroot]
        exact root?_of_body rfl
      · rw [List.map_map]
        exact List.map_congr_left fun c hc => ofChunk_lower (hindex c hc)

end Carved

lemma isSingle_of_mem {ss : List Statement} {s : Statement} (h : b.statements = .ok ss) (hs : s ∈ ss) :
    s.block.isSingle = true := by
  cases hsingle : b.isSingle with
  | true =>
    obtain rfl : [⟨b⟩] = ss := by simpa [statements, hsingle] using h
    obtain rfl := List.mem_singleton.mp hs
    exact hsingle
  | false =>
    obtain ⟨_, _, _, -, -, -, ⟨c, -, rfl⟩ | ⟨f, -, rfl⟩⟩ := statements_eq_ok hsingle h
    · obtain rfl := List.mem_singleton.mp hs
      rfl
    · obtain ⟨c, -, rfl⟩ := List.mem_map.mp hs
      rfl

lemma statements_run_iff {ss run : List Statement} (hb : b.Anchored) (hss : b.statements = .ok ss)
    (hrun : run <:+: ss) (hne : run ≠ []) (hg : concat (run.map Statement.block) = .ok g) :
    g.statements = .ok run ↔ Regroups g run := by
  obtain ⟨s, run, rfl⟩ := List.exists_cons_of_ne_nil hne
  cases run with
  | nil =>
    obtain rfl := Except.ok.inj hg
    have hsingle := isSingle_of_mem hss (hrun.subset List.mem_cons_self)
    simp [statements, hsingle, Regroups]
  | cons s' run =>
    have hlen : 2 ≤ ss.length := Nat.le_trans (by simp) hrun.length_le
    have hsingle : b.isSingle = false := by
      by_contra h
      rw [Bool.not_eq_false] at h
      obtain rfl : [⟨b⟩] = ss := by simpa [statements, h] using hss
      simp at hlen
    obtain ⟨roots, spans, chunks, hroots, hspans, hchunks, ⟨c, -, rfl⟩ | ⟨f, -, rfl⟩⟩ :=
      statements_eq_ok hsingle hss
    · simp at hlen
    · obtain ⟨pre, post, heq⟩ := hrun
      rw [List.append_assoc] at heq
      obtain ⟨pre, rest, rfl, rfl, hrest⟩ := List.map_eq_append_iff.mp heq.symm
      obtain ⟨run', post, rfl, hrun, rfl⟩ := List.map_eq_append_iff.mp hrest
      rw [← hrun] at hg ⊢
      refine statements_concat_iff hb hroots hspans hchunks ?_ hg
      have := congrArg List.length hrun
      simp at this
      omega

lemma key_of_mem_mapM {κ : Type} {key : Statement → Except Error κ} {ss : List Statement} {ps : List (κ × Statement)}
    {k : κ} {s : Statement} (h : ss.mapM (keyed key) = .ok ps) (hs : (k, s) ∈ ps) : key s = .ok k := by
  obtain ⟨s', -, hkey⟩ := exists_of_mem_mapM h hs
  simp only [keyed, bind_eq_ok, pure_eq_ok, Prod.mk.injEq] at hkey
  obtain ⟨k, hk, rfl, rfl⟩ := hkey
  exact hk

/-- The groups of a block are its statements in runs of equal keys. -/
theorem group_statements_iff {κ : Type} [BEq κ] [LawfulBEq κ] {key : Statement → Except Error κ}
    {ss : List Statement} {gs : List (κ × Block)} (hb : b.Contiguous) (hss : b.statements = .ok ss)
    (hgs : b.groupBy key = .ok gs) : ∃ runs : List (List Statement), runs.flatten = ss ∧
      List.Forall₂ (fun g run => run ≠ [] ∧ (∀ s ∈ run, key s = .ok g.1) ∧
        concat (run.map Statement.block) = .ok g.2 ∧ (g.2.statements = .ok run ↔ Regroups g.2 run)) gs runs ∧
      (List.Forall₂ (fun g run => Regroups g.2 run) gs runs →
        (gs.mapM fun g : κ × Block => g.2.statements.map List.length).map List.sum = .ok ss.length) := by
  obtain ⟨ps, hps, hflat, hruns⟩ := groupBy_eq_ok hss hgs
  have hall : List.Forall₂ (fun g run => run ≠ [] ∧ (∀ s ∈ run, key s = .ok g.1) ∧
      concat (run.map Statement.block) = .ok g.2 ∧ (g.2.statements = .ok run ↔ Regroups g.2 run)) gs
      ((runs ps).map Prod.snd) := by
    rw [List.forall₂_map_right_iff]
    refine ((List.forall₂_and_left _ _).mpr ⟨fun r hr => hr, hruns⟩).flip.imp ?_
    rintro g r ⟨hr, hkey, hconcat⟩
    have hne := ne_nil_of_mem_runs hr
    have hrun : r.2 <:+: ss := hflat ▸ List.infix_of_mem_flatten (List.mem_map_of_mem hr)
    refine ⟨hne, fun s hs => ?_, hconcat, statements_run_iff hb.anchored hss hrun hne hconcat⟩
    rw [← hkey]
    exact key_of_mem_mapM hps (key_mem_of_mem_runs hr hs)
  refine ⟨(runs ps).map Prod.snd, hflat, hall, fun hregroups => ?_⟩
  have hcounts : (gs.mapM fun g : κ × Block => g.2.statements.map List.length) =
      .ok (((runs ps).map Prod.snd).map List.length) := by
    rw [mapM_eq_ok, List.forall₂_map_right_iff]
    refine List.Forall₂.mp (fun g run h hregroup => ?_) hall hregroups
    exact map_eq_ok.mpr ⟨run, h.2.2.2.mpr hregroup, rfl⟩
  rw [hcounts, Except.map, ← List.length_flatten, hflat]

theorem group_statements_assignments : ∃ ss gs runs,
    (ofText (Text.ofString "x = 1\ny = 2\nimport z\n") .none).statements = .ok ss ∧
      (ofText (Text.ofString "x = 1\ny = 2\nimport z\n") .none).groupBy Statement.kind = .ok gs ∧
      gs.length = 2 ∧ runs.flatten = ss ∧
      List.Forall₂ (fun g run => g.2.statements = .ok run ↔ Regroups g.2 run) gs runs := by
  obtain ⟨ss, hss⟩ : ∃ ss, (ofText (Text.ofString "x = 1\ny = 2\nimport z\n") .none).statements = .ok ss :=
    isOk_iff.mp (by decide +kernel)
  have hlength : ((ofText (Text.ofString "x = 1\ny = 2\nimport z\n") .none).groupBy Statement.kind).map
      List.length = .ok 2 := by decide +kernel
  obtain ⟨gs, hgs, hlen⟩ := map_eq_ok.mp hlength
  obtain ⟨runs, hflat, hall, -⟩ := group_statements_iff (.ofText _ _) hss hgs
  exact ⟨ss, gs, runs, hss, hgs, hlen, hflat, hall.imp fun _ _ h => h.2.2.2⟩

theorem group_statements_indented :
    ((ofText (Text.ofString "  x = 1\n  y = 2\n  import y\n") .none).groupBy Statement.kind).map
        (List.map fun g => (g.1, g.2.text.joined)) =
      .ok [(.comment, "  "), (.code, "x = 1\n  y = 2\n  "), (.imports, "import y\n")] ∧
    (ofText (Text.ofString "  x = 1\n  y = 2\n  import y\n") .none).statements.map
        (List.map fun s => s.text.joined) = .ok ["  ", "x = 1\n  ", "y = 2\n  ", "import y\n"] ∧
    ((ofText (Text.ofString "  x = 1\n  y = 2\n  import y\n") .none).groupBy Statement.kind >>= fun gs =>
        gs.mapM fun g => g.2.statements.map (List.map fun s => s.text.joined)) =
      .ok [["  "], ["x = 1\n  ", "y = 2\n", "  "], ["import y\n"]] := by
  decide +kernel

end SourceBlocks.Block
