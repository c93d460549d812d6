import Mathlib.Data.List.ReduceOption
import SourceBlocks.Block.Group
import SourceBlocks.Block.Input
import SourceBlocks.Proofs.Split.Tiling

/-! The statements of a block make it up, with all its nodes in their order and at most one in each. -/

namespace SourceBlocks

open Outcome

namespace Block

structure Tiled (b : Block) (ss : List Statement) : Prop where
  texts : b.text.Tiles (ss.map Statement.text)
  joined : String.join (ss.map (fun s => s.text.joined)) = b.text.joined
  nodes : ∃ nodes, ss.mapM Statement.root? = .ok nodes ∧ b.body = .ok nodes.reduceOption

/-- The blocks that can be made: from a text, by reading, from an input with changes, by putting blocks
together, and as statements and groups of other blocks. -/
inductive Reachable : Block → Prop
  | ofText (t : Text) (f : Features) : Reachable (ofText t f)
  | afterReading {b : Block} (n : Nat) : Reachable b → Reachable (b.afterReading n)
  | ofInput {i : Input} {c : Changes} {b : Block} : (∀ a, i = .block a → Reachable a) →
      (∀ s, i = .statement s → Reachable s.block) → ofInput i c = .ok b → Reachable b
  | concat {bs : List Block} {b : Block} : (∀ a ∈ bs, Reachable a) → concat bs = .ok b → Reachable b
  | statement {b : Block} {ss : List Statement} {s : Statement} : Reachable b →
      b.statements = .ok ss → s ∈ ss → Reachable s.block
  | group {κ : Type} [BEq κ] {key : Statement → Except Error κ} {b : Block} {gs : List (κ × Block)}
      {g : κ × Block} : Reachable b → b.groupBy key = .ok gs → g ∈ gs → Reachable g.2

lemma changed_eq_ok {a b : Block} {c : Changes} (h : a.changed c = .ok b) : ∃ t f, b = Block.ofText t f := by
  simp only [changed, bind_eq_ok, pure_eq_ok] at h
  obtain ⟨f, -, rfl⟩ := h
  exact ⟨_, _, rfl⟩

lemma ofInput_eq_ok {i : Input} {c : Changes} {b : Block} (h : ofInput i c = .ok b) :
    (∃ t f, b = Block.ofText t f) ∨ i = .block b ∨ ∃ s, i = .statement s ∧ s.block = b := by
  cases i with
  | text t => exact .inl ⟨_, _, (Except.ok.inj h).symm⟩
  | block a =>
    simp only [ofInput] at h
    split_ifs at h
    · exact .inr (.inl (congrArg Input.block (Except.ok.inj h)))
    · exact .inl (changed_eq_ok h)
  | statement s =>
    simp only [ofInput] at h
    split_ifs at h
    · exact .inr (.inr ⟨s, rfl, Except.ok.inj h⟩)
    · exact .inl (changed_eq_ok h)

lemma concat_eq_ok {bs : List Block} {b : Block} (h : concat bs = .ok b) : bs = [b] ∨
    ∃ a rest parts f, bs = a :: rest ∧ bs.mapM body = .ok parts ∧ a.features = .ok f ∧
      b = carved { a.text with chars := a.text.chars ++ rest.flatMap fun r => r.text.chars } parts.flatten f false := by
  match bs with
  | [] => cases h
  | [a] => exact .inl (congrArg (fun a => [a]) (Except.ok.inj h))
  | a :: a' :: rest =>
    simp only [concat, bind_eq_ok, pure_eq_ok] at h
    obtain ⟨parts, hparts, f, hf, rfl⟩ := h
    exact .inr ⟨a, a' :: rest, parts, f, rfl, hparts, hf, rfl⟩

def SingleHolds (b : Block) : Prop :=
  b.isSingle = true → ∀ n, ∃ root : Option Root, b.outcome n = .ok root.toList

lemma singleHolds_carved (t : Text) (root : Option Root) (f : Features) :
    (carved t root.toList f true).SingleHolds := fun _ _ => ⟨root, rfl⟩

lemma singleHolds_concat {bs : List Block} {b : Block} (h : ∀ a ∈ bs, a.SingleHolds)
    (hb : concat bs = .ok b) : b.SingleHolds := by
  rcases concat_eq_ok hb with rfl | ⟨a, rest, parts, f, -, -, -, rfl⟩
  · exact h b List.mem_cons_self
  · exact fun hsingle => absurd hsingle (by simp [carved])

lemma map_node_outcome (b : Block) (m n : Nat) :
    (b.outcome m).map (List.map Root.node) = (b.outcome n).map (List.map Root.node) := by
  obtain ⟨t, f, content, under, single⟩ := b
  cases content with
  | read o => rfl
  | unread =>
    simp only [outcome, readRoots]
    cases (Reading.ofText t f).mapError (inFileOf t) with
    | error e => rfl
    | ok r =>
      change (((r.placeIn t).mapError (inFileOf t)) >>= _).map _ =
        (((r.placeIn t).mapError (inFileOf t)) >>= _).map _
      cases (r.placeIn t).mapError (inFileOf t) with
      | error e => rfl
      | ok p => simp [bind, Except.bind, pure, Except.pure, Except.map, Root.node, Function.comp_def]

lemma length_outcome (b : Block) (m n : Nat) :
    (b.outcome m).map List.length = (b.outcome n).map List.length := by
  have hnodes := congrArg (Except.map List.length) (b.map_node_outcome m n)
  cases hm : b.outcome m <;> cases hn : b.outcome n <;> simp_all [Except.map]

lemma exists_option_of_length_le_one {α : Type} {xs : List α} (h : xs.length ≤ 1) :
    ∃ x : Option α, xs = x.toList := by
  match xs with
  | [] => exact ⟨none, rfl⟩
  | [a] => exact ⟨some a, rfl⟩
  | a :: b :: r => simp at h

lemma outcome_single {b : Block} {roots : List Root} (h : b.body = .ok roots) (hl : roots.length ≤ 1)
    (n : Nat) : ∃ root : Option Root, b.outcome n = .ok root.toList := by
  have hn := b.length_outcome n 0
  rw [show b.outcome 0 = .ok roots from h] at hn
  cases ho : b.outcome n with
  | error e => simp [ho, Except.map] at hn
  | ok rs =>
    simp only [ho, Except.map, Except.ok.injEq] at hn
    obtain ⟨root, rfl⟩ := exists_option_of_length_le_one (hn ▸ hl)
    exact ⟨root, rfl⟩

lemma statements_eq_ok {b : Block} {ss : List Statement} (hb : b.isSingle = false)
    (h : b.statements = .ok ss) : ∃ roots spans chunks, b.body = .ok roots ∧
      roots.mapM spanOf = .ok spans ∧ Split.chunks b.text spans = .ok chunks ∧
      ((∃ c, chunks = [c] ∧ ss = [⟨{ b with isSingle := true }⟩]) ∨
        ∃ f, b.features = .ok f ∧ ss = chunks.map (ofChunk roots f)) := by
  simp only [statements, hb, Bool.false_eq_true, if_false, bind_eq_ok, mapError_eq_ok] at h
  obtain ⟨roots, hroots, spans, hspans, chunks, hchunks, h⟩ := h
  refine ⟨roots, spans, chunks, hroots, hspans, hchunks, ?_⟩
  split at h
  · next c => exact .inl ⟨c, rfl, (pure_eq_ok.mp h).symm⟩
  · simp only [bind_eq_ok, pure_eq_ok] at h
    obtain ⟨f, hf, rfl⟩ := h
    exact .inr ⟨f, hf, rfl⟩

lemma mem_statements {b : Block} {ss : List Statement} {s : Statement} (h : b.statements = .ok ss) (hs : s ∈ ss) :
    s.block = { b with isSingle := true } ∨ ∃ roots spans chunks f, ∃ c ∈ chunks, b.body = .ok roots ∧
      roots.mapM spanOf = .ok spans ∧ Split.chunks b.text spans = .ok chunks ∧ b.features = .ok f ∧
      s = ofChunk roots f c := by
  cases hsingle : b.isSingle with
  | true =>
    obtain rfl : [⟨b⟩] = ss := by simpa [statements, hsingle] using h
    obtain rfl := List.mem_singleton.mp hs
    exact .inl (by rw [← hsingle])
  | false =>
    obtain ⟨roots, spans, chunks, hroots, hspans, hchunks, ⟨c, -, rfl⟩ | ⟨f, hf, rfl⟩⟩ :=
      statements_eq_ok hsingle h
    · obtain rfl := List.mem_singleton.mp hs
      exact .inl rfl
    · obtain ⟨c, hc, rfl⟩ := List.mem_map.mp hs
      exact .inr ⟨roots, spans, chunks, f, c, hc, hroots, hspans, hchunks, hf, rfl⟩

lemma length_roots_le_one {b : Block} {roots : List Root} {spans : List Split.Span} {c : Split.Chunk}
    (hspans : roots.mapM spanOf = .ok spans) (hchunks : Split.chunks b.text spans = .ok [c]) :
    roots.length ≤ 1 := by
  have hlen := (mapM_eq_ok.mp hspans).length_eq
  have hnodes := congrArg List.length (Split.chunks_tile hchunks).2
  rw [List.length_range, ← hlen] at hnodes
  rw [← hnodes]
  exact List.length_filterMap_le _ _

lemma singleHolds_statement {b : Block} {ss : List Statement} (hb : b.SingleHolds)
    (h : b.statements = .ok ss) : ∀ s ∈ ss, s.block.SingleHolds := by
  intro s hs
  cases hsingle : b.isSingle with
  | true =>
    obtain rfl : [⟨b⟩] = ss := by simpa [statements, hsingle] using h
    obtain rfl : s = ⟨b⟩ := by simpa using hs
    exact hb
  | false =>
    obtain ⟨roots, spans, chunks, hroots, hspans, hchunks, ⟨c, rfl, rfl⟩ | ⟨f, -, rfl⟩⟩ :=
      statements_eq_ok hsingle h
    · obtain rfl := List.mem_singleton.mp hs
      exact fun _ => outcome_single (b := { b with isSingle := true }) hroots
        (length_roots_le_one hspans hchunks)
    · obtain ⟨c, -, rfl⟩ := List.mem_map.mp hs
      exact singleHolds_carved _ _ _

lemma mem_of_mem_runs {κ : Type} [BEq κ] {ps : List (κ × Statement)} {g : κ × List Statement}
    {s : Statement} (hg : g ∈ runs ps) (hs : s ∈ g.2) : ∃ k, (k, s) ∈ ps := by
  have h : s ∈ (runs ps).flatMap Prod.snd := List.mem_flatMap.mpr ⟨g, hg, hs⟩
  rw [flatMap_runs] at h
  obtain ⟨p, hp, rfl⟩ := List.mem_map.mp h
  exact ⟨p.1, hp⟩

lemma mem_groupBy {κ : Type} [BEq κ] {key : Statement → Except Error κ} {b : Block}
    {gs : List (κ × Block)} {g : κ × Block} (h : b.groupBy key = .ok gs) (hg : g ∈ gs) :
    ∃ (ss run : List Statement), b.statements = .ok ss ∧ (∀ s ∈ run, s ∈ ss) ∧
      concat (run.map Statement.block) = .ok g.2 := by
  simp only [groupBy, bind_eq_ok] at h
  obtain ⟨ss, hss, pairs, hpairs, h⟩ := h
  obtain ⟨r, hr, hjoin⟩ := exists_of_mem_mapM h hg
  simp only [joinRun, bind_eq_ok, pure_eq_ok] at hjoin
  obtain ⟨b', hb', rfl⟩ := hjoin
  refine ⟨ss, r.2, hss, ?_, hb'⟩
  intro s hs
  obtain ⟨k, hk⟩ := mem_of_mem_runs hr hs
  obtain ⟨s', hs', he⟩ := exists_of_mem_mapM hpairs hk
  simp only [keyed, bind_eq_ok, pure_eq_ok, Prod.mk.injEq] at he
  obtain ⟨_, -, -, rfl⟩ := he
  exact hs'

lemma Reachable.singleHolds {b : Block} (h : b.Reachable) : b.SingleHolds := by
  induction h with
  | ofText t f => exact fun hsingle => absurd hsingle (by simp [Block.ofText])
  | afterReading n _ ih => exact fun hsingle _ => ih hsingle n
  | ofInput _ _ hb ihb ihs =>
    rcases ofInput_eq_ok hb with ⟨t, f, rfl⟩ | hi | ⟨s, hi, rfl⟩
    · exact fun hsingle => absurd hsingle (by simp [Block.ofText])
    · exact ihb _ hi
    · exact ihs s hi
  | concat _ hb ih => exact singleHolds_concat ih hb
  | statement _ hss hs ih => exact singleHolds_statement ih hss _ hs
  | group _ hgs hg ih =>
    obtain ⟨ss, run, hss, hrun, hb⟩ := mem_groupBy hgs hg
    refine singleHolds_concat (fun a ha => ?_) hb
    obtain ⟨s, hs, rfl⟩ := List.mem_map.mp ha
    exact singleHolds_statement ih hss s (hrun s hs)

lemma root?_of_body {s : Statement} {root : Option Root} (h : s.block.body = .ok root.toList) :
    s.root? = .ok root := by
  simp only [Statement.root?, h]
  cases root <;> rfl

lemma tiled_self {b : Block} {single : Bool} {root : Option Root} (h : b.body = .ok root.toList) :
    b.Tiled [⟨{ b with isSingle := single }⟩] where
  texts := Text.tiles_self b.text
  joined := by simp [Statement.text, String.join]
  nodes := ⟨[root], by
    rw [mapM_eq_ok]
    exact .cons (root?_of_body h) .nil, by
    rw [h]
    cases root <;> rfl⟩

lemma join_joined (ts : List Text) :
    String.join (ts.map Text.joined) = String.ofList (ts.flatMap Text.chars) := by
  induction ts with
  | nil => rfl
  | cons t ts ih => simp [ih, Text.joined]

lemma filterMap_range' {α : Type} (xs : List α) {d m : Nat} (h : d + m ≤ xs.length) :
    (List.range' d m).filterMap (fun i => xs[i]?) = (xs.drop d).take m := by
  induction m generalizing d with
  | zero => simp
  | succ m ih =>
    have hget : xs[d]? = some xs[d] := List.getElem?_eq_getElem (by omega)
    rw [List.range'_succ, List.filterMap_cons, hget, ih (by omega), List.drop_eq_getElem_cons (i := d) (by omega),
      List.take_succ_cons]

lemma tiled_carved {b : Block} {roots : List Root} {spans : List Split.Span}
    {chunks : List Split.Chunk} (hroots : b.body = .ok roots) (hspans : roots.mapM spanOf = .ok spans)
    (hchunks : Split.chunks b.text spans = .ok chunks) (f : Features) :
    b.Tiled (chunks.map (ofChunk roots f)) := by
  obtain ⟨htiles, hnodes⟩ := Split.chunks_tile hchunks
  have htexts : (chunks.map (ofChunk roots f)).map Statement.text = chunks.map Split.Chunk.text := by
    rw [List.map_map]
    rfl
  refine ⟨htexts ▸ htiles, ?_, chunks.map (fun c => c.node.bind (fun i => roots[i]?)), ?_, ?_⟩
  · have hjoin := join_joined (chunks.map Split.Chunk.text)
    rw [htiles.chars, List.map_map] at hjoin
    rw [List.map_map]
    exact hjoin
  · rw [mapM_eq_ok, List.forall₂_map_left_iff, List.forall₂_map_right_iff, List.forall₂_same]
    exact fun c _ => root?_of_body rfl
  · rw [hroots, List.reduceOption, List.filterMap_map]
    have hlen := (mapM_eq_ok.mp hspans).length_eq
    have hall : chunks.filterMap (fun c => c.node.bind (fun i => roots[i]?)) = roots := by
      rw [← List.filterMap_filterMap, hnodes, ← hlen, List.range_eq_range', filterMap_range' _ (by omega),
        List.drop_zero, List.take_length]
    exact congrArg _ hall.symm

lemma Reachable.tiled {b : Block} {ss : List Statement} (hb : b.Reachable)
    (h : b.statements = .ok ss) : b.Tiled ss := by
  cases hsingle : b.isSingle with
  | true =>
    obtain rfl : [⟨b⟩] = ss := by simpa [statements, hsingle] using h
    obtain ⟨root, hroot⟩ := hb.singleHolds hsingle 0
    have hself : b.Tiled [⟨{ b with isSingle := b.isSingle }⟩] := tiled_self hroot
    exact hself
  | false =>
    obtain ⟨roots, spans, chunks, hroots, hspans, hchunks, ⟨c, rfl, rfl⟩ | ⟨f, -, rfl⟩⟩ :=
      statements_eq_ok hsingle h
    · obtain ⟨root, rfl⟩ := exists_option_of_length_le_one (length_roots_le_one hspans hchunks)
      exact tiled_self hroots
    · exact tiled_carved hroots hspans hchunks f

/-- Chunks cover the text they are cut from, one for each span, and the statements of every block that can
be made cover the block and hold its nodes. -/
theorem statements_cover : (∀ (t : Text) (spans : List Split.Span) (cs : List Split.Chunk),
      Split.chunks t spans = .ok cs → t.Tiles (cs.map Split.Chunk.text) ∧
        cs.filterMap Split.Chunk.node = List.range spans.length) ∧
    ∀ (b : Block) (ss : List Statement), b.Reachable → b.statements = .ok ss → b.Tiled ss :=
  ⟨fun _ _ _ => Split.chunks_tile, fun _ _ => Reachable.tiled⟩

theorem statements_cover_comment :
    (Text.ofString "a\nb").Tiles [⟨['a'], none, ⟨0, 0⟩⟩, ⟨['\n', 'b'], none, ⟨0, 1⟩⟩] ∧
      ∃ ss, (ofText (Text.ofString "'''a\nb'''; x\n# c") .none).statements = .ok ss ∧
        (ofText (Text.ofString "'''a\nb'''; x\n# c") .none).Tiled ss := by
  refine ⟨(statements_cover.1 (Text.ofString "a\nb") [⟨⟨0, 7⟩, none⟩] _ rfl).1, ?_⟩
  have hok : (ofText (Text.ofString "'''a\nb'''; x\n# c") .none).statements.isOk = true := by
    decide +kernel
  cases h : (ofText (Text.ofString "'''a\nb'''; x\n# c") .none).statements with
  | error e => simp [h, Except.isOk, Except.toBool] at hok
  | ok ss => exact ⟨ss, rfl, statements_cover.2 _ _ (.ofText _ _) h⟩

end Block

end SourceBlocks
