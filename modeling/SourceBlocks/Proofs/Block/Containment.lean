import SourceBlocks.Proofs.Block.Tiling
import SourceBlocks.Proofs.Placement.Places
import SourceBlocks.Proofs.Split.Loose

/-! When the statement of a node holds all of the node. -/

namespace SourceBlocks.Block

open Outcome Placement
open SourceBlocks.Tree (Node)

variable {t : Text} {f : Features} {roots : List Root} {ss : List Statement} {s : Statement} {root : Root}

def startAfter (t : Text) (roots : List Root) (root : Root) : Position :=
  ((roots[root.index + 1]?).bind (fun r => r.placed.start)).getD t.stop

lemma body_ofText_eq_ok (h : (ofText t f).body = .ok roots) : ∃ r ns cs,
    PlacedFrom (Reading.setting r t) t.start ns cs ∧ t.source.Laid 0 ns t.source.chars.length ∧
      roots = cs.zipIdx.map (fun c => ⟨0, c.2, c.1⟩) := by
  simp only [body, outcome, ofText, readRoots, bind_eq_ok, mapError_eq_ok, pure_eq_ok] at h
  obtain ⟨r, hr, p, hp, rfl⟩ := h
  obtain ⟨-, ns, htree, hlaid⟩ := Reading.ofText_eq_ok hr
  obtain ⟨cs, hcs, rfl⟩ := (Reading.placeIn_eq_ok htree).mp hp
  exact ⟨r, ns, cs, hcs, hlaid, rfl⟩

lemma placed_zipIdx (cs : List Placed) :
    (cs.zipIdx.map (fun c => (⟨0, c.2, c.1⟩ : Root))).map Root.placed = cs := by
  rw [List.map_map]
  exact List.zipIdx_map_fst 0 cs

lemma index_of_split {cs : List Placed} {before after : List Root}
    (h : cs.zipIdx.map (fun c => (⟨0, c.2, c.1⟩ : Root)) = before ++ root :: after) :
    root.index = before.length := by
  have hget := congrArg (fun rs => rs[before.length]?) h
  simp only [List.getElem?_map, List.getElem?_zipIdx, List.getElem?_append_right (Nat.le_refl _),
    Nat.sub_self, List.getElem?_cons_zero, Option.map_eq_some_iff] at hget
  obtain ⟨_, ⟨c, -, rfl⟩, rfl⟩ := hget
  exact Nat.zero_add _

lemma cut_of_chunk {spans : List Split.Span} {chunks : List Split.Chunk} {j : Nat} {u : Text}
    (hspans : roots.mapM spanOf = .ok spans) (hchunks : Split.chunks t spans = .ok chunks)
    (hu : ⟨some j, u⟩ ∈ chunks) (hroot : roots[j]? = some root) : ∃ before after start rest stop,
      roots = before ++ root :: after ∧ root.placed.start = some start ∧ after.mapM spanOf = .ok rest ∧
      Split.statementStop t ⟨start, root.placed.stop⟩ (Split.nextStart t rest) = .ok stop ∧
      start < stop ∧ stop ≤ Split.nextStart t rest ∧ u = t.slice start stop := by
  obtain ⟨before, span, rest, stop, rfl, rfl, hstop, hlt, hle, rfl⟩ := Split.mem_chunks hchunks hu
  have hdrop := List.forall₂_drop_append _ _ _ (mapM_eq_ok.mp hspans)
  obtain ⟨root', after, hspan, hafter, hroots⟩ := List.forall₂_cons_right_iff.mp hdrop
  obtain rfl : root' = root := by
    have hget := congrArg (fun rs => rs[0]?) hroots
    simpa [List.getElem?_drop, hroot] using hget.symm
  have hstart : root'.placed.start = some span.start ∧ span = ⟨span.start, root'.placed.stop⟩ := by
    simp only [spanOf] at hspan
    split at hspan
    · next start hstart =>
      obtain rfl := Except.ok.inj hspan
      exact ⟨hstart, rfl⟩
    · cases hspan
  refine ⟨roots.take before.length, after, span.start, rest, stop, ?_, hstart.1, mapM_eq_ok.mpr hafter,
    hstart.2 ▸ hstop, hlt, hle, rfl⟩
  rw [← hroots, List.take_append_drop]

lemma text_of_single_chunk {spans : List Split.Span} {c : Split.Chunk}
    (h : Split.chunks t spans = .ok [c]) (hfile : c.text.file = t.file) : c.text = t := by
  obtain ⟨htiles, -⟩ := Split.chunks_tile h
  have hstart : c.text.start = t.start := htiles.first _ rfl
  have hchars : c.text.chars = t.chars := by simpa using htiles.chars
  calc c.text = ⟨c.text.chars, c.text.file, c.text.start⟩ := rfl
    _ = t := by rw [hstart, hchars, hfile]

lemma cut_of_mem {b : Block} (hb : b.isSingle = false) (h : b.statements = .ok ss) (hs : s ∈ ss)
    (hroot : s.root? = .ok (some root)) : ∃ before after start rest stop,
      b.body = .ok (before ++ root :: after) ∧ root.placed.start = some start ∧
      after.mapM spanOf = .ok rest ∧
      Split.statementStop b.text ⟨start, root.placed.stop⟩ (Split.nextStart b.text rest) = .ok stop ∧
      start < stop ∧ stop ≤ Split.nextStart b.text rest ∧ s.text = b.text.slice start stop := by
  obtain ⟨roots, spans, chunks, hroots, hspans, hchunks, hcases⟩ := statements_eq_ok hb h
  obtain ⟨j, u, hu, hj, htext⟩ : ∃ j u, ⟨some j, u⟩ ∈ chunks ∧ roots[j]? = some root ∧ s.text = u := by
    rcases hcases with ⟨c, rfl, rfl⟩ | ⟨f, -, rfl⟩
    · obtain rfl := List.mem_singleton.mp hs
      obtain ⟨o, rfl⟩ := exists_option_of_length_le_one (length_roots_le_one hspans hchunks)
      have hbody : Statement.root? ⟨{ b with isSingle := true }⟩ = .ok o := root?_of_body hroots
      obtain rfl := Except.ok.inj (hbody.symm.trans hroot)
      have hlen := (mapM_eq_ok.mp hspans).length_eq
      have hnode : c.node = some 0 := by
        have hnodes := (Split.chunks_tile hchunks).2
        rw [← hlen] at hnodes
        cases hc : c.node with
        | none => simp [hc] at hnodes
        | some i => simpa [hc, List.range_succ] using hnodes
      have hmem : ⟨some 0, c.text⟩ ∈ [c] := by rw [← hnode]; exact List.mem_singleton_self c
      obtain ⟨_, _, _, _, _, _, _, _, _, hslice⟩ := Split.mem_chunks hchunks hmem
      exact ⟨0, c.text, hmem, rfl, (text_of_single_chunk hchunks (by rw [hslice]; rfl)).symm⟩
    · obtain ⟨⟨node, u⟩, hc, rfl⟩ := List.mem_map.mp hs
      have hbody : (ofChunk roots f ⟨node, u⟩).root? = .ok (node.bind fun i => roots[i]?) := root?_of_body rfl
      obtain ⟨j, rfl, hj⟩ := Option.bind_eq_some_iff.mp (Except.ok.inj (hbody.symm.trans hroot))
      exact ⟨j, u, hc, hj, rfl⟩
  obtain ⟨before, after, start, rest, stop, rfl, hcut⟩ := cut_of_chunk hspans hchunks hu hj
  exact ⟨before, after, start, rest, stop, hroots, htext ▸ hcut⟩

lemma within_stopBeforeLoose {p : Placed} {lo start next stop : Position}
    (hstop : Split.stopBeforeLoose t start next = .ok stop)
    (hends : ∀ q ∈ p.walk, ∀ y ∈ q.stop, y.offset ≠ 0) (hw : p.Within lo next) :
    p.Within lo stop ↔ ∀ a ∈ p.places, ¬ Split.TrailsLoose t start next a.row := by
  obtain ⟨hshape, htrail⟩ := Split.stopBeforeLoose_eq_ok hstop
  rw [Placed.forall_mem_places, Placed.Within]
  refine forall₂_congr fun q hq => and_congr (forall₂_congr fun x hx => ?_) (forall₂_congr fun y hy => ?_)
  · obtain ⟨hlo, hlt⟩ := (hw q hq).1 x hx
    rw [← htrail x.row (Position.lt_of_le_of_lt (Position.rowStart_le x) hlt), Position.not_le,
      and_iff_right hlo]
    exact Position.lt_iff_rowStart_lt hshape hlt
  · have hle := (hw q hq).2 y hy
    have hrow : (⟨y.row, 0⟩ : Position) < y := Position.rowStart_lt_iff.mpr (.inr ⟨rfl, hends q hq y hy⟩)
    rw [← htrail y.row (Position.lt_of_lt_of_le hrow hle), Position.not_le]
    refine ⟨Position.lt_of_lt_of_le hrow, fun hlt => ?_⟩
    rcases hshape with rfl | h0
    · exact hle
    · exact .inl ((Position.rowStart_lt_iff.mp hlt).resolve_right fun h => h.2 h0)

lemma within_iff {r : Reading} {floor : Position} {n : Node} {p : Placed} {k hi : Nat}
    {start next stop : Position} (hp : PlacedFrom (r.setting t) floor [n] [p])
    (hl : t.source.Laid k [n] hi) (hhi : hi ≤ t.source.chars.length) (hstart : t.start ≤ start)
    (hnext : t.IsLimit next) (hstop : Split.statementStop t ⟨start, p.stop⟩ next = .ok stop)
    (hlt : start < stop) (hle : stop ≤ next) :
    p.Within (t.nearest start) (t.nearest stop) ↔ p.Within (t.nearest start) next ∧
      (Split.IsSettled t p.stop ∨ ∀ a ∈ p.places, ¬ Split.TrailsLoose t start next a.row) := by
  have hends : ∀ q ∈ p.walk, ∀ y ∈ q.stop, y.offset ≠ 0 ∧ t.HasPlace y := by
    have := hp.stop_place
    rwa [List.flatMap_singleton] at this
  have hafter : t.start < stop := Position.lt_of_le_of_lt hstart hlt
  have hnear : ∀ lo, t.IsLimit stop → (p.Within lo (t.nearest stop) ↔ p.Within lo stop) := fun lo hlim =>
    ⟨fun h => h.mono (t.nearest_le (Position.le_of_lt hafter)), hp.within_nearest hl hhi hlim⟩
  rcases Split.statementStop_eq_ok hstop with ⟨e, he, hsettled, -, rfl⟩ | ⟨hsettled, hloose⟩
  · -- the statement is a literal and stops at the end of the line on which the literal does
    obtain ⟨x, hxe, hall⟩ := hp.all_of_stop he
    have hlim : t.IsLimit (min t.stop ⟨e.row + 1, 0⟩) := by
      simp only [min] at hafter ⊢
      split_ifs at hafter ⊢ with hmin
      · exact .inl t.hasPlace_stop
      · exact Text.isLimit_rowStart hafter (Position.row_le (Position.le_of_lt (Position.not_le.mp hmin))) rfl
    have hend : e ≤ min t.stop ⟨e.row + 1, 0⟩ := by
      simp only [min]
      split_ifs
      · exact (hends p p.mem_walk_self e he).2.le_stop
      · exact .inl (Nat.lt_succ_self _)
    rw [hnear _ hlim, and_iff_left (.inl hsettled)]
    refine ⟨fun h => h.mono hle, fun h q hq => ⟨fun z hz => ⟨((h q hq).1 z hz).1, ?_⟩, fun y hy => ?_⟩⟩
    · obtain rfl := Option.some.inj ((hall q hq).1.symm.trans hz)
      exact Position.lt_of_lt_of_le hxe hend
    · obtain rfl := Option.some.inj ((hall q hq).2.symm.trans hy)
      exact hend
  · have hlim : t.IsLimit stop := by
      rcases (Split.stopBeforeLoose_eq_ok hloose).1 with rfl | h0
      · exact hnext
      · exact Text.isLimit_rowStart hafter (Nat.le_trans (Position.row_le hle) hnext.row_le) h0
    rw [hnear _ hlim, or_iff_right hsettled]
    have hloose' : p.Within (t.nearest start) next → (p.Within (t.nearest start) stop ↔ _) :=
      within_stopBeforeLoose hloose fun q hq y hy => (hends q hq y hy).1
    exact ⟨fun h => ⟨h.mono hle, (hloose' (h.mono hle)).mp h⟩, fun h => (hloose' h.1).mpr h.2⟩

lemma nextStart_of_mapM {before after : List Root} {rest : List Split.Span}
    (hrest : after.mapM spanOf = .ok rest) (hindex : root.index = before.length) :
    Split.nextStart t rest = startAfter t (before ++ root :: after) root := by
  have hget : (before ++ root :: after)[root.index + 1]? = after[0]? := by
    rw [hindex, List.getElem?_append_right (by omega)]
    simp
  rw [startAfter, hget]
  cases mapM_eq_ok.mp hrest with
  | nil => rfl
  | cons hspan _ =>
    simp only [spanOf] at hspan
    split at hspan
    · next start hstart =>
      obtain rfl := Except.ok.inj hspan
      simp [Split.nextStart, hstart]
    · cases hspan

lemma startAfter_cases {before after : List Root} (hindex : root.index = before.length) :
    startAfter t (before ++ root :: after) root = t.stop ∨
      ∃ r ∈ after, r.placed.start = some (startAfter t (before ++ root :: after) root) := by
  have hget : (before ++ root :: after)[root.index + 1]? = after[0]? := by
    rw [hindex, List.getElem?_append_right (by omega)]
    simp
  rw [startAfter, hget]
  cases after with
  | nil => exact .inl rfl
  | cons r after =>
    cases hstart : r.placed.start with
    | none => exact .inl (by simp [hstart])
    | some x => exact .inr ⟨r, List.mem_cons_self, by simp [hstart]⟩

lemma within_of_exact {r : Reading} {floor : Position} {n : Node} {p : Placed} {k hi : Nat}
    {start next : Position} (hp : PlacedFrom (r.setting t) floor [n] [p]) (hl : t.source.Laid k [n] hi)
    (hhi : hi ≤ t.source.chars.length) (hexact : ∀ q ∈ p.walk, q.IsExact t) (hstart : p.start = some start)
    (hfrom : t.start ≤ start)
    (hnext : next = t.stop ∨ ∃ a, hi ≤ a ∧ a < t.source.chars.length ∧ next = t.placeAt a) :
    p.Within (t.nearest start) next := by
  have hmem : ∀ q, q ∈ [p].flatMap Placed.walk ↔ q ∈ p.walk := fun q => by rw [List.flatMap_singleton]
  have hread := hp.placeAt_of_exact hl fun q hq => hexact q ((hmem q).mp hq)
  have hbegin := hp.start_le_of_exact hl hhi hexact hstart
  refine fun q hq => ⟨fun x hx => ⟨?_, ?_⟩, fun y hy => ?_⟩
  · exact Position.le_trans (t.nearest_le hfrom) (hbegin q hq x hx)
  · obtain ⟨a, -, ha, rfl⟩ := (hread q ((hmem q).mpr hq)).1 x hx
    rcases hnext with rfl | ⟨b, hb, hblt, rfl⟩
    · exact Position.lt_of_lt_of_le (Text.placeAt_lt_nearest ha hhi) (t.nearest_le_stop _)
    · exact Text.placeAt_lt (Nat.lt_of_lt_of_le ha hb) (Nat.le_of_lt hblt)
  · rcases hnext with rfl | ⟨b, hb, hblt, rfl⟩
    · exact (hp.stop_place q ((hmem q).mpr hq) y hy).2.le_stop
    · obtain ⟨a, ha, rfl⟩ := (hread q ((hmem q).mpr hq)).2 y hy
      exact Text.placeAt_le (Nat.le_trans ha hb) (Nat.le_of_lt hblt)

/-- A statement holds its node exactly if the node is recorded before the next one and has no place
in the loose rows before that, unless it is a literal with at most a comment behind it. -/
theorem statement_within_iff (hss : (ofText t f).statements = .ok ss) (hs : s ∈ ss)
    (hroot : s.root? = .ok (some root)) (hroots : (ofText t f).body = .ok roots) :
    (root.placed.Within s.text.start s.text.stop ↔
      root.placed.Within s.text.start (startAfter t roots root) ∧
        (Split.IsSettled t root.placed.stop ∨ ∀ a ∈ root.placed.places,
          ¬ Split.TrailsLoose t s.text.start (startAfter t roots root) a.row)) ∧
    ((∀ r ∈ roots, ∀ q ∈ r.placed.walk, q.IsExact t) →
      root.placed.Within s.text.start (startAfter t roots root)) := by
  obtain ⟨before, after, start, rest, stop, hbody, hstart, hrest, hstop, hlt, hle, htext⟩ :=
    cut_of_mem rfl hss hs hroot
  obtain rfl := Except.ok.inj (hroots.symm.trans hbody)
  obtain ⟨r, ns, cs, hcs, hlaid, hzip⟩ := body_ofText_eq_ok hroots
  have hindex := index_of_split hzip.symm
  have hplaced : cs = before.map Root.placed ++ root.placed :: after.map Root.placed := by
    rw [← placed_zipIdx cs, ← hzip, List.map_append, List.map_cons]
  rw [hplaced] at hcs
  obtain ⟨floor, n, ns', k, k', hp, hafter, hn, hns'⟩ := hcs.split hlaid
  have hfrom : t.start ≤ start := by
    have hmem : root.placed ∈ before.map Root.placed ++ root.placed :: after.map Root.placed :=
      List.mem_append_right _ List.mem_cons_self
    exact hcs.floor_le _ (List.mem_flatMap.mpr ⟨_, hmem, root.placed.mem_walk_self⟩) _ hstart
  have hbehind : ∀ r ∈ after, r.placed ∈ (after.map Root.placed).flatMap Placed.walk := fun r hr =>
    List.mem_flatMap.mpr ⟨r.placed, List.mem_map_of_mem hr, r.placed.mem_walk_self⟩
  have hnext : startAfter t (before ++ root :: after) root = t.stop ∨ ∃ r ∈ after,
      r.placed.start = some (startAfter t (before ++ root :: after) root) := startAfter_cases hindex
  rw [← nextStart_of_mapM hrest hindex] at hnext ⊢
  have hlimit : t.IsLimit (Split.nextStart t rest) := by
    rcases hnext with hnext | ⟨r', hr', hnext⟩
    · exact hnext ▸ .inl t.hasPlace_stop
    · rcases hafter.start_cases hns' _ (hbehind r' hr') _ hnext with h | h
      · exact .inr h
      · exact .inl h.1
  have hrow : start.row = s.text.start.row := by
    rw [htext, Text.slice_start]
    refine (t.row_nearest hfrom (Nat.le_trans (Position.row_le ?_) hlimit.row_le)).symm
    exact Position.le_trans (Position.le_of_lt hlt) hle
  simp only [← Split.trailsLoose_congr hrow]
  rw [htext, Text.slice_start, Text.slice_stop _ (Position.le_of_lt hlt)]
  refine ⟨within_iff hp hn hns'.le hfrom hlimit hstop hlt hle, fun hexact => ?_⟩
  have hexactp : ∀ q ∈ root.placed.walk, q.IsExact t :=
    hexact root (List.mem_append_right _ List.mem_cons_self)
  have hexacts : ∀ q ∈ (after.map Root.placed).flatMap Placed.walk, q.IsExact t := by
    intro q hq
    obtain ⟨_, hr, hq⟩ := List.mem_flatMap.mp hq
    obtain ⟨r', hr', rfl⟩ := List.mem_map.mp hr
    exact hexact r' (List.mem_append_right _ (List.mem_cons_of_mem _ hr')) q hq
  refine within_of_exact hp hn hns'.le hexactp hstart hfrom ?_
  rcases hnext with hnext | ⟨r', hr', hnext⟩
  · exact .inl hnext
  · exact .inr ((hafter.placeAt_of_exact hns' hexacts _ (hbehind r' hr')).1 _ hnext)

def held (ss : List Statement) : Except Error (List (String × Option Bool)) := ss.mapM fun s =>
  s.root?.map fun root => (s.text.joined, root.map fun r => decide (r.placed.Within s.text.start s.text.stop))

lemma exists_of_held {hs : List (String × Option Bool)} {text : String} {holds : Bool}
    (h : held ss = .ok hs) (hmem : (text, some holds) ∈ hs) :
    ∃ s ∈ ss, ∃ root, s.root? = .ok (some root) ∧ s.text.joined = text ∧
      decide (root.placed.Within s.text.start s.text.stop) = holds := by
  obtain ⟨s, hs, hheld⟩ := exists_of_mem_mapM h hmem
  obtain ⟨root, hroot, heq⟩ := map_eq_ok.mp hheld
  obtain ⟨htext, hholds⟩ := Prod.mk.inj heq
  obtain ⟨r, rfl, hr⟩ := Option.map_eq_some_iff.mp hholds
  exact ⟨s, hs, r, hroot, htext, hr⟩

theorem statement_within_call : ∃ ss s root roots,
    (ofText (Text.ofString "f('''\n''')\n# c\nz") .none).statements = .ok ss ∧ s ∈ ss ∧
      s.root? = .ok (some root) ∧ (ofText (Text.ofString "f('''\n''')\n# c\nz") .none).body = .ok roots ∧
      s.text.joined = "f('''\n''')\n" ∧
      (Split.IsSettled (Text.ofString "f('''\n''')\n# c\nz") root.placed.stop ∨
        ∀ a ∈ root.placed.places, ¬ Split.TrailsLoose (Text.ofString "f('''\n''')\n# c\nz") s.text.start
          (startAfter (Text.ofString "f('''\n''')\n# c\nz") roots root) a.row) := by
  have hheld : ((ofText (Text.ofString "f('''\n''')\n# c\nz") .none).statements >>= held) =
      .ok [("f('''\n''')\n", some true), ("# c\n", none), ("z", some true)] := by decide +kernel
  obtain ⟨ss, hss, hheld⟩ := bind_eq_ok.mp hheld
  obtain ⟨s, hs, root, hroot, htext, hwithin⟩ := exists_of_held hheld List.mem_cons_self
  obtain ⟨roots, _, _, hroots, -⟩ := statements_eq_ok rfl hss
  have hiff := (statement_within_iff hss hs hroot hroots).1
  exact ⟨ss, s, root, roots, hss, hs, hroot, hroots, htext, (hiff.mp (of_decide_eq_true hwithin)).2⟩

theorem statement_within_hash_row : ∃ ss s root,
    (ofText (Text.ofString "x = '''a\n#'''\ny = 1\n") .none).statements = .ok ss ∧ s ∈ ss ∧
      s.root? = .ok (some root) ∧ s.text.joined = "x = '''a\n" ∧
      ¬ root.placed.Within s.text.start s.text.stop := by
  have hheld : ((ofText (Text.ofString "x = '''a\n#'''\ny = 1\n") .none).statements >>= held) =
      .ok [("x = '''a\n", some false), ("#'''\n", none), ("y = 1\n", some true)] := by decide +kernel
  obtain ⟨ss, hss, hheld⟩ := bind_eq_ok.mp hheld
  obtain ⟨s, hs, root, hroot, htext, hwithin⟩ := exists_of_held hheld List.mem_cons_self
  exact ⟨ss, s, root, hss, hs, hroot, htext, of_decide_eq_false hwithin⟩

end SourceBlocks.Block
