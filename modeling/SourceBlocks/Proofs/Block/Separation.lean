import SourceBlocks.Proofs.Block.Containment
import SourceBlocks.Proofs.Grammar.Spaced
import SourceBlocks.Proofs.Split.Checks
import SourceBlocks.Proofs.Text.Rows

namespace SourceBlocks

open Lexis (Source)
open SourceBlocks.Tree (Node)

namespace Placement.PlacedFrom

variable {s : Setting} {floor : Position} {ns : List Node} {ps : List Placed} {p : Placed} {n : Node}

lemma exists_start (h : PlacedFrom s floor ns (p :: ps)) (hm : p.node.mark ≠ none) : ∃ x, p.start = some x := by
  cases h with
  | bare hn => exact absurd hn hm
  | known => exact ⟨_, rfl⟩
  | led => exact ⟨_, rfl⟩
  | literal => exact ⟨_, rfl⟩

lemma start_lt_stop {lo hi : Nat} (h : PlacedFrom s floor ns ps) (hl : s.text.source.Laid lo ns hi)
    (hhi : hi ≤ s.text.source.chars.length) : ∀ q ∈ ps.flatMap Placed.walk, ∀ x ∈ q.start, x < s.text.stop := by
  induction h generalizing lo hi with
  | nil => simp
  | bare _ _ _ ihc ih =>
    obtain ⟨k, hn, hns⟩ := hl.uncons
    exact Placed.forall_mem_walk_cons.mpr ⟨nofun, ihc hn.children (Nat.le_trans hns.le hhi), ih hns hhi⟩
  | known hm _ _ _ ihc ih =>
    obtain ⟨k, hn, hns⟩ := hl.uncons
    have hk := Nat.le_trans hns.le hhi
    refine Placed.forall_mem_walk_cons.mpr ⟨?_, ihc hn.children hk, ih hns hhi⟩
    rintro x ⟨⟩
    obtain ⟨i, -, hik, rfl, -⟩ := hn.from_known hm
    exact Position.lt_of_lt_of_le (Text.placeAt_lt_nearest hik hk) (s.text.nearest_le_stop _)
  | led _ _ _ hq _ _ ihc ih =>
    obtain ⟨k, hn, hns⟩ := hl.uncons
    have ihc := ihc hn.children (Nat.le_trans hns.le hhi)
    refine Placed.forall_mem_walk_cons.mpr ⟨?_, ihc, ih hns hhi⟩
    rintro x ⟨⟩
    exact (Placed.forall_mem_walk_cons.mp ihc).1 _ hq
  | literal _ _ _ he _ ih =>
    obtain ⟨k, -, hns⟩ := hl.uncons
    have hfound := foundAt_of_locate he
    refine Placed.forall_mem_walk_cons.mpr ⟨?_, by simp, ih hns hhi⟩
    rintro x ⟨⟩
    exact Position.lt_of_lt_of_le hfound.lt hfound.stop_place.le_stop

lemma endsAt_of_stop {y : Position} (h : PlacedFrom s floor (n :: ns) (p :: ps))
    (hexact : ∀ q ∈ p.walk, q.IsExact s.text) (hy : p.stop = some y) :
    ∃ e, n.EndsAt e ∧ y = s.text.start.plus e := by
  induction n using Node.ind generalizing floor ns p ps with
  | h n ih =>
    cases h with
    | bare => cases hy
    | known => cases hy
    | led hm hcs =>
      obtain ⟨⟨v, hshape⟩, hstop⟩ := stop_of_ledStop hy
      have hchildren : n.children = [v] := by
        simp [Node.children, hshape, Tree.Shape.children, Tree.Shape.fieldNodes, Tree.Shape.fields, Tree.Field.nodes]
      rw [hchildren] at hcs ih
      rw [Placed.walk_mk, List.forall_mem_cons, List.flatMap_cons, List.forall_mem_append] at hexact
      obtain ⟨e, he, hye⟩ := ih v List.mem_cons_self hcs hexact.2.1 hstop
      exact ⟨e, .expr hm hshape he, hye⟩
    | @literal _ row _ _ value bytes written _ _ hm hs =>
      have hlit := hexact _ (Placed.mem_walk_self _) (value, written) (Placed.searched?_eq_some.mpr ⟨row, bytes, hm, hs⟩)
      exact ⟨_, .literal hm hs, Option.some.inj (hy.symm.trans hlit.2)⟩

end Placement.PlacedFrom

lemma Split.row_lt_of_parted {t : Text} {i a : Nat} (h : t.source.Parted i a)
    (hsettled : IsSettled t (some (t.placeAt i))) : (t.placeAt i).row < (t.placeAt a).row := by
  by_cases hbreak : '\n' ∈ t.source.between i a
  · exact Text.row_placeAt_lt h.le hbreak
  · obtain ⟨k, x, hik, hka, hhash, hx, hcomment, hblank⟩ := h.resolve_left hbreak
    have hlast : t.source.between i (k + 1) = t.source.between i k ++ [x] := by
      rw [Source.between_append hik (Nat.le_succ k)]
      simp [Source.between, List.take_one, hx]
    have hrow : '\n' ∉ t.source.between i (k + 1) := by
      rw [hlast, List.mem_append, List.mem_singleton, not_or]
      refine ⟨fun hmem => hbreak ((Source.mem_between_iff hik hka).mpr (.inl hmem)), ?_⟩
      rintro rfl
      exact absurd hblank (by decide)
    have hlt : k < t.source.chars.length := (List.getElem?_eq_some_iff.mp hx).1
    obtain ⟨r, hr⟩ := Text.prefix_slice (Nat.lt_succ_of_le hik) hlt hrow
    rw [isSettled_some, ← hr, hlast, List.append_assoc, List.singleton_append,
      isCommentOrBlank_of_code hhash hcomment hblank] at hsettled
    cases hsettled

lemma Reading.read_of_ofText {t : Text} {features : Features} {r : Reading} (h : ofText t features = .ok r) :
    Grammar.read t.source.margin t.source.chars = .ok r.tree := (ofText_iff.mp h).1

namespace Block

open Outcome Placement

variable {t : Text} {f : Features} {roots : List Root} {root : Root}

/-- What a check finds wrong with a node of a block, when it is split off before the next node. -/
def FailsAt (t : Text) (roots : List Root) (root : Root) (cause : Split.Cause) : Prop :=
  ∃ start ∈ root.placed.start, Split.Fails t ⟨start, root.placed.stop⟩ (startAfter t roots root) cause

lemma forall₂_append_cons {α β : Type} {R : α → β → Prop} {xs : List α} {before after : List β} {y : β}
    (h : List.Forall₂ R xs (before ++ y :: after)) : ∃ before' x after', xs = before' ++ x :: after' ∧
      before'.length = before.length ∧ R x y ∧ List.Forall₂ R after' after := by
  induction before generalizing xs with
  | nil =>
    obtain ⟨x, after', hx, hafter, rfl⟩ := List.forall₂_cons_right_iff.mp h
    exact ⟨[], x, after', rfl, rfl, hx, hafter⟩
  | cons z before ih =>
    obtain ⟨x', xs', -, hrest, rfl⟩ := List.forall₂_cons_right_iff.mp h
    obtain ⟨before', x, after', rfl, hlen, hx⟩ := ih hrest
    exact ⟨x' :: before', x, after', rfl, by simp [hlen], hx⟩

lemma spanOf_eq_ok {span : Split.Span} :
    spanOf root = .ok span ↔ ∃ start, root.placed.start = some start ∧ span = ⟨start, root.placed.stop⟩ := by
  simp only [spanOf]
  split
  · next start hstart => simp [hstart, eq_comm]
  · next hstart => simp [hstart]

lemma exists_spans (h : ∀ root ∈ roots, ∃ x, root.placed.start = some x) :
    ∃ spans, roots.mapM spanOf = .ok spans := by
  induction roots with
  | nil => exact ⟨[], rfl⟩
  | cons root roots ih =>
    obtain ⟨⟨x, hx⟩, hroots⟩ := List.forall_mem_cons.mp h
    obtain ⟨spans, hspans⟩ := ih hroots
    refine ⟨⟨x, root.placed.stop⟩ :: spans, mapM_eq_ok.mpr (.cons ?_ (mapM_eq_ok.mp hspans))⟩
    exact spanOf_eq_ok.mpr ⟨x, hx, rfl⟩

lemma exists_split (hroots : (ofText t f).body = .ok roots) (hroot : root ∈ roots) :
    ∃ before after r floor n ns k k', roots = before ++ root :: after ∧ root.index = before.length ∧
      (∀ x ∈ root.placed.start, t.start ≤ x) ∧ PlacedFrom (Reading.setting r t) floor [n] [root.placed] ∧
      PlacedFrom (Reading.setting r t) (root.placed.start.getD floor) ns (after.map Root.placed) ∧
      t.source.Laid k [n] k' ∧ t.source.Laid k' ns t.source.chars.length := by
  obtain ⟨before, after, rfl⟩ := List.append_of_mem hroot
  obtain ⟨r, ns, cs, hcs, hlaid, hzip⟩ := body_ofText_eq_ok hroots
  have hplaced : cs = before.map Root.placed ++ root.placed :: after.map Root.placed := by
    rw [← placed_zipIdx cs, ← hzip, List.map_append, List.map_cons]
  rw [hplaced] at hcs
  obtain ⟨floor, n, ns', k, k', hp, hafter, hn, hns'⟩ := hcs.split hlaid
  have hmem : root.placed ∈ before.map Root.placed ++ root.placed :: after.map Root.placed :=
    List.mem_append_right _ List.mem_cons_self
  have hfrom := hcs.floor_le _ (List.mem_flatMap.mpr ⟨_, hmem, root.placed.mem_walk_self⟩)
  exact ⟨before, after, r, floor, n, ns', k, k', rfl, index_of_split hzip.symm, hfrom, hp, hafter, hn, hns'⟩

lemma read_of_body (hroots : (ofText t f).body = .ok roots) :
    Grammar.read t.source.margin t.source.chars =
      .ok (Tree.Node.mk none (.module (roots.map fun root => root.placed.node))) := by
  simp only [body, outcome, ofText, readRoots, bind_eq_ok, mapError_eq_ok, pure_eq_ok] at hroots
  obtain ⟨r, hr, p, hp, rfl⟩ := hroots
  obtain ⟨-, ns, htree, -⟩ := Reading.ofText_eq_ok hr
  obtain ⟨cs, hcs, rfl⟩ := (Reading.placeIn_eq_ok htree).mp hp
  have hnodes : ns = (cs.zipIdx.map fun c => (⟨0, c.2, c.1⟩ : Root)).map fun root => root.placed.node := by
    rw [← hcs.map_node]
    conv_lhs => rw [← placed_zipIdx cs, List.map_map]
    rfl
  rw [Reading.read_of_ofText hr, htree, hnodes, Placed.children_mk]

lemma begins_of_mem (hroots : (ofText t f).body = .ok roots) (hroot : root ∈ roots) :
    t.source.Begins root.placed.node :=
  Grammar.read_begins (read_of_body hroots) _ (List.mem_map_of_mem hroot)

lemma exists_start_of_mem (hroots : (ofText t f).body = .ok roots) (hroot : root ∈ roots) :
    ∃ x, root.placed.start = some x := by
  obtain ⟨_, _, _, _, _, _, _, _, -, -, -, hp, -⟩ := exists_split hroots hroot
  refine hp.exists_start ?_
  rcases begins_of_mem hroots hroot with ⟨_, _, hm, -⟩ | ⟨_, hm⟩ <;> simp [hm]

lemma inside_of_mem {start : Position} (hroots : (ofText t f).body = .ok roots) (hroot : root ∈ roots)
    (hstart : root.placed.start = some start) : Split.Span.Inside t ⟨start, root.placed.stop⟩ := by
  obtain ⟨_, _, _, _, n, _, _, _, -, -, hfrom, hp, -, hn, hns⟩ := exists_split hroots hroot
  have hmem : root.placed ∈ [root.placed].flatMap Placed.walk := by
    rw [List.flatMap_singleton]
    exact root.placed.mem_walk_self
  refine ⟨hfrom start hstart, hp.start_lt_stop hn hns.le _ hmem start hstart, fun e he => ?_⟩
  obtain ⟨hoff, hplace⟩ := hp.stop_place _ hmem e he
  obtain ⟨x, hlt, hall⟩ := hp.all_of_stop he
  obtain rfl := Option.some.inj ((hall _ root.placed.mem_walk_self).1.symm.trans hstart)
  exact ⟨hlt, hoff, hplace.le_stop⟩

lemma index_of_body {before after : List Root} (hroots : (ofText t f).body = .ok (before ++ root :: after)) :
    root.index = before.length := by
  obtain ⟨_, _, _, -, -, hzip⟩ := body_ofText_eq_ok hroots
  exact index_of_split hzip.symm

section Spans

variable {spans : List Split.Span} {cause : Split.Cause}

lemma failsAt_of_span {before rest : List Split.Span} {s : Split.Span} (hroots : (ofText t f).body = .ok roots)
    (hspans : roots.mapM spanOf = .ok spans) (hs : spans = before ++ s :: rest)
    (h : Split.Fails t s (Split.nextStart t rest) cause) :
    ∃ root ∈ roots, root.placed.start = some s.start ∧ FailsAt t roots root cause := by
  subst hs
  obtain ⟨before', root, after, rfl, -, hspan, hrest⟩ := forall₂_append_cons (mapM_eq_ok.mp hspans)
  obtain ⟨start, hstart, rfl⟩ := spanOf_eq_ok.mp hspan
  rw [nextStart_of_mapM (mapM_eq_ok.mpr hrest) (index_of_body hroots)] at h
  exact ⟨root, by simp, hstart, start, hstart, h⟩

lemma span_of_failsAt (hroots : (ofText t f).body = .ok roots) (hspans : roots.mapM spanOf = .ok spans)
    (hroot : root ∈ roots) (h : FailsAt t roots root cause) : ∃ before s rest, spans = before ++ s :: rest ∧
      Split.Fails t s (Split.nextStart t rest) cause := by
  obtain ⟨before, after, rfl⟩ := List.append_of_mem hroot
  obtain ⟨before', s, rest, rfl, -, hspan, hrest⟩ := forall₂_append_cons (mapM_eq_ok.mp hspans).flip
  obtain ⟨start, hstart, rfl⟩ := spanOf_eq_ok.mp hspan
  obtain ⟨start', hstart', hfail⟩ := h
  obtain rfl := Option.some.inj (hstart.symm.trans hstart')
  rw [← nextStart_of_mapM (mapM_eq_ok.mpr hrest.flip) (index_of_body hroots)] at hfail
  exact ⟨before', _, rest, rfl, hfail⟩

lemma inside_of_mem_spans (hroots : (ofText t f).body = .ok roots) (hspans : roots.mapM spanOf = .ok spans) :
    ∀ s ∈ spans, s.Inside t := by
  intro s hs
  obtain ⟨root, hroot, hspan⟩ := exists_of_mem_mapM hspans hs
  obtain ⟨start, hstart, rfl⟩ := spanOf_eq_ok.mp hspan
  exact inside_of_mem hroots hroot hstart

end Spans

lemma startAfter_of_exact {before after : List Root} {r : Reading} {floor : Position} {ns : List Node} {k : Nat}
    (hindex : root.index = before.length) (hafter : PlacedFrom (Reading.setting r t) floor ns (after.map Root.placed))
    (hns : t.source.Laid k ns t.source.chars.length) (hexact : ∀ r ∈ after, ∀ q ∈ r.placed.walk, q.IsExact t) :
    startAfter t (before ++ root :: after) root = t.stop ∨ ∃ a, k ≤ a ∧ a < t.source.chars.length ∧
      startAfter t (before ++ root :: after) root = t.placeAt a := by
  have hexacts : ∀ q ∈ (after.map Root.placed).flatMap Placed.walk, q.IsExact t := by
    intro q hq
    obtain ⟨_, hr, hq⟩ := List.mem_flatMap.mp hq
    obtain ⟨r', hr', rfl⟩ := List.mem_map.mp hr
    exact hexact r' hr' q hq
  obtain hnext | ⟨r', hr', hnext⟩ : startAfter t (before ++ root :: after) root = t.stop ∨ ∃ r' ∈ after,
    r'.placed.start = some (startAfter t (before ++ root :: after) root) := startAfter_cases hindex
  · exact .inl hnext
  · have hmem := List.mem_flatMap.mpr ⟨r'.placed, List.mem_map_of_mem hr', r'.placed.mem_walk_self⟩
    exact .inr ((hafter.placeAt_of_exact hns hexacts _ hmem).1 _ hnext)

lemma within_of_body {start : Position} (hroots : (ofText t f).body = .ok roots) (hroot : root ∈ roots)
    (hexact : ∀ r ∈ roots, ∀ q ∈ r.placed.walk, q.IsExact t) (hstart : root.placed.start = some start) :
    root.placed.Within (t.nearest start) (startAfter t roots root) ∧ start < startAfter t roots root := by
  obtain ⟨before, after, r, floor, n, ns, k, k', rfl, hindex, hfrom, hp, hafter, hn, hns⟩ := exists_split hroots hroot
  have hnext := startAfter_of_exact hindex hafter hns fun r' hr' =>
    hexact r' (List.mem_append_right _ (List.mem_cons_of_mem _ hr'))
  have hwithin := within_of_exact hp hn hns.le (hexact root hroot) hstart (hfrom start hstart) hnext
  exact ⟨hwithin, ((hwithin _ root.placed.mem_walk_self).1 start hstart).2⟩

lemma row_lt_startAfter {e : Position} (hroots : (ofText t f).body = .ok roots) (hroot : root ∈ roots)
    (hexact : ∀ r ∈ roots, ∀ q ∈ r.placed.walk, q.IsExact t) (he : root.placed.stop = some e)
    (hsettled : Split.IsSettled t (some e)) (hlt : startAfter t roots root < t.stop) :
    e.row < (startAfter t roots root).row := by
  have hspaced := Grammar.read_spaced (read_of_body hroots)
  obtain ⟨before, after, r, floor, n, ns, k, k', rfl, hindex, -, hp, hafter, -, -⟩ := exists_split hroots hroot
  obtain ⟨e', hends, rfl⟩ := hp.endsAt_of_stop (hexact root hroot) he
  obtain rfl : root.placed.node = n := by simpa using hp.map_node
  have hnodes : ns = after.map fun r => r.placed.node := by rw [← hafter.map_node, List.map_map]; rfl
  have hne : startAfter t (before ++ root :: after) root ≠ t.stop := fun h => Position.lt_irrefl _ (h ▸ hlt)
  have hexacts : ∀ r ∈ after, ∀ q ∈ r.placed.walk, q.IsExact t := fun r' hr' =>
    hexact r' (List.mem_append_right _ (List.mem_cons_of_mem _ hr'))
  obtain ⟨_, hmem, -⟩ := (startAfter_cases hindex).resolve_left hne
  obtain ⟨next, after, rfl⟩ := List.exists_cons_of_ne_nil (List.ne_nil_of_mem hmem)
  rw [List.map_append, List.map_cons, List.map_cons] at hspaced
  obtain ⟨i, k, rfl, hparted, hlaid⟩ := (hspaced.resolve_left (by simp)).parted hends
  obtain ⟨a, hka, -, ha⟩ := (startAfter_of_exact hindex hafter (by rwa [hnodes]) hexacts).resolve_left hne
  rw [ha]
  exact Split.row_lt_of_parted (hparted.mono hka) hsettled

lemma exists_features {b : Block} (h : b.body = .ok roots) : ∃ features, b.features = .ok features := by
  cases hunder : b.carvedUnder with
  | some under => exact ⟨under, by simp only [features, hunder]⟩
  | none => exact ⟨_, by simp only [features, hunder, sourceFeatures, h]; rfl⟩

lemma statements_of_chunks {b : Block} {spans : List Split.Span} (hb : b.isSingle = false)
    (hroots : b.body = .ok roots) (hspans : roots.mapM spanOf = .ok spans) :
    (∀ fault, Split.chunks b.text spans = .error fault → b.statements = .error (.internal fault.message)) ∧
      ∀ chunks, Split.chunks b.text spans = .ok chunks → ∃ ss, b.statements = .ok ss := by
  obtain ⟨features, hfeatures⟩ := exists_features hroots
  simp only [statements, hb, Bool.false_eq_true, if_false, hroots, hfeatures, bind, Except.bind, hspans]
  refine ⟨fun fault h => by simp [h, Except.mapError], fun chunks h => ?_⟩
  simp only [h, Except.mapError]
  split
  · exact ⟨_, rfl⟩
  · exact ⟨_, rfl⟩

/-- A text that can be read falls into statements exactly if no check of the splitter fails for one
of its nodes, and otherwise the error names such a check. -/
theorem statements_ok_iff_checks (hroots : (ofText t f).body = .ok roots) :
    ((∃ ss, (ofText t f).statements = .ok ss) ↔ ∀ root ∈ roots, ∀ cause, ¬ FailsAt t roots root cause) ∧
    (∀ e, (ofText t f).statements = .error e → ∃ root ∈ roots, ∃ fault : Split.Fault,
      root.placed.start = some fault.start ∧ FailsAt t roots root fault.cause ∧ e = .internal fault.message) ∧
    ((∀ r ∈ roots, ∀ q ∈ r.placed.walk, q.IsExact t) → ∀ root ∈ roots, ∀ cause, FailsAt t roots root cause →
      cause = .commentOnOwnLine) := by
  obtain ⟨spans, hspans⟩ := exists_spans fun root => exists_start_of_mem hroots
  have hinside := inside_of_mem_spans hroots hspans
  obtain ⟨herror, hok⟩ := statements_of_chunks rfl hroots hspans
  refine ⟨?_, fun e he => ?_, ?_⟩
  · have hiff : (∃ ss, (ofText t f).statements = .ok ss) ↔ ∃ cs, Split.chunks t spans = .ok cs := by
      cases h : Split.chunks t spans with
      | ok cs => exact ⟨fun _ => ⟨cs, rfl⟩, fun _ => hok cs h⟩
      | error fault => simp [herror fault h]
    rw [hiff, Split.chunks_eq_ok_iff hinside]
    constructor
    · intro hall root hroot cause hfail
      obtain ⟨before, s, rest, heq, hfail⟩ := span_of_failsAt hroots hspans hroot hfail
      exact hall before s rest heq cause hfail
    · intro hall before s rest heq cause hfail
      obtain ⟨root, hroot, -, hfail⟩ := failsAt_of_span hroots hspans heq hfail
      exact hall root hroot cause hfail
  · cases h : Split.chunks t spans with
    | ok cs =>
      obtain ⟨ss, hss⟩ := hok cs h
      cases hss.symm.trans he
    | error fault =>
      obtain ⟨before, s, rest, heq, hstart, hfail⟩ := Split.chunks_error hinside h
      obtain ⟨root, hroot, hs, hfail⟩ := failsAt_of_span hroots hspans heq hfail
      refine ⟨root, hroot, fault, hstart ▸ hs, hfail, ?_⟩
      exact Except.error.inj (he.symm.trans (herror fault h))
  · intro hexact root hroot cause ⟨start, hstart, hfail⟩
    obtain ⟨hwithin, hlt⟩ := within_of_body hroots hroot hexact hstart
    cases cause with
    | outOfOrder => exact absurd hlt (Position.not_lt.mpr hfail)
    | stringOutsideStatement =>
      obtain ⟨e, he, hlt⟩ := hfail
      exact absurd ((hwithin _ root.placed.mem_walk_self).2 e he) (Position.not_le.mpr hlt)
    | commentOnOwnLine => rfl
    | endOutsideRange =>
      obtain ⟨hsettled, e, he, hlt⟩ := hfail
      obtain ⟨hstop, hline⟩ := Position.lt_min_iff.mp hlt
      obtain he : root.placed.stop = some e := he
      have hrow := row_lt_startAfter hroots hroot hexact he (by rwa [← he]) hstop
      have hle := Position.le_trans (Position.rowStart_le_rowStart.mpr hrow) (Position.rowStart_le _)
      exact absurd hline (Position.not_lt.mpr hle)
    | firstBeforeText => exact hfail.elim
    | lastAfterText => exact hfail.elim
    | stringEndsRow => exact hfail.elim

theorem statements_ok_iff_checks_comment : ∃ roots ss,
    (ofText (Text.ofString "'''a\nb'''; x\n# c") .none).body = .ok roots ∧ roots.length = 2 ∧
      (ofText (Text.ofString "'''a\nb'''; x\n# c") .none).statements = .ok ss ∧
      ∀ root ∈ roots, ∀ cause, ¬ FailsAt (Text.ofString "'''a\nb'''; x\n# c") roots root cause := by
  have hlength : (ofText (Text.ofString "'''a\nb'''; x\n# c") .none).body.map List.length = .ok 2 := by
    decide +kernel
  obtain ⟨roots, hroots, hlen⟩ := map_eq_ok.mp hlength
  obtain ⟨ss, hss⟩ : ∃ ss, (ofText (Text.ofString "'''a\nb'''; x\n# c") .none).statements = .ok ss :=
    isOk_iff.mp (by decide +kernel)
  exact ⟨roots, ss, hroots, hlen, hss, (statements_ok_iff_checks hroots).1.mp ⟨ss, hss⟩⟩

def FailsWith (text fault : String) : Prop :=
  (∃ roots, (ofText (Text.ofString text) .none).body = .ok roots) ∧
    (ofText (Text.ofString text) .none).statements = .error (.internal ("split_code_lines: " ++ fault))

lemma failsWith_of_isOk {text fault : String} (hbody : (ofText (Text.ofString text) .none).body.isOk = true)
    (hstatements : (ofText (Text.ofString text) .none).statements.map (fun _ => ()) =
      .error (.internal ("split_code_lines: " ++ fault))) : FailsWith text fault :=
  ⟨isOk_iff.mp hbody, map_eq_error.mp hstatements⟩

theorem statements_fail :
    FailsWith "'''a\n#'''; x" "trailing comment on the statement's own line (start=(2,7), end=(2,8))" ∧
      FailsWith "'a\\\nb'; 'ab'\n" "statements out of order (start=(2,5), end=(2,5))" ∧
      FailsWith "'''a\nb''' #''\\\n'''c\nd'''\n" "string end outside its statement (start=(1,1), end=(2,9))" ∧
      FailsWith "\"\"\"a\nb\"\"\" # ''\\\n'''c\nd'''\n"
        "statement end outside its range (start=(1,1), end=(3,1))" := by
  refine ⟨failsWith_of_isOk ?_ ?_, failsWith_of_isOk ?_ ?_, failsWith_of_isOk ?_ ?_, failsWith_of_isOk ?_ ?_⟩
  all_goals decide +kernel

end Block

end SourceBlocks
