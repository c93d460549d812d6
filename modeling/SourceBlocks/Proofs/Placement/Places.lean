import SourceBlocks.Proofs.Placement.Exact

namespace SourceBlocks

open SourceBlocks.Tree (Extent Mark Node Shape)

namespace Lexis.Source

open Grammar

variable {S : Source} {lo hi : Nat}

lemma Chained.stop_getLast {p : Piece} {ps : List Piece} (h : Chained S.PieceIn lo (p :: ps) hi) :
    ∃ b, lo < b ∧ b ≤ hi ∧ ((p :: ps).getLast (by simp)).stop = S.placeAt b := by
  induction ps generalizing lo p with
  | nil =>
    cases h with
    | cons hp hps =>
      obtain ⟨a, b, hlo, hab, hb, -, hstop, -⟩ := hp
      have := hps.le fun h => Nat.le_of_lt h.lt
      exact ⟨b, by omega, by omega, hstop⟩
  | cons p' ps ih =>
    cases h with
    | cons hp hps =>
      have := hp.lt
      obtain ⟨b, hlo, hb, hstop⟩ := ih hps
      exact ⟨b, by omega, hb, by rw [List.getLast_cons (by simp), hstop]⟩

lemma LiteralIn.written_eq {row : Nat} {value : String} {written : Extent}
    (h : S.LiteralIn lo hi row value written) :
    ∃ a b, lo ≤ a ∧ a < hi ∧ b ≤ hi ∧ written = ⟨S.placeAt a, S.placeAt b⟩ := by
  obtain ⟨first, rest, hchain, -, -, rfl, -⟩ := h
  obtain ⟨b, -, hb, hstop⟩ := hchain.stop_getLast
  cases hchain with
  | cons hfirst hrest =>
    obtain ⟨a, b', hlo, hab, hb', hstart, -⟩ := hfirst
    have := hrest.le fun h => Nat.le_of_lt h.lt
    exact ⟨a, b, hlo, by omega, hb, by rw [hstart, hstop]⟩

end Lexis.Source

namespace Placement

variable {s : Setting} {floor : Position} {ns : List Node} {ps : List Placed} {p : Placed}

namespace Placed

def places (p : Placed) : List Position := p.walk.flatMap fun q => q.start.toList ++ q.stop.toList

/-- A tree is recorded between two places: each node begins there, and none ends behind the second. -/
def Within (lo hi : Position) (p : Placed) : Prop := ∀ q ∈ p.walk,
  (∀ x ∈ q.start, lo ≤ x ∧ x < hi) ∧ ∀ y ∈ q.stop, y ≤ hi

instance (lo hi : Position) (p : Placed) : Decidable (p.Within lo hi) :=
  inferInstanceAs (Decidable (∀ q ∈ p.walk, _))

lemma Within.mono {lo hi hi' : Position} (h : p.Within lo hi) (hle : hi ≤ hi') : p.Within lo hi' :=
  fun q hq => ⟨fun x hx => ⟨((h q hq).1 x hx).1, Position.lt_of_lt_of_le ((h q hq).1 x hx).2 hle⟩,
    fun y hy => Position.le_trans ((h q hq).2 y hy) hle⟩

lemma mem_walk_self (p : Placed) : p ∈ p.walk := by
  obtain ⟨n, start, stop, cs⟩ := p
  rw [walk_mk]
  exact List.mem_cons_self

lemma mem_walk_children (q : Placed) (h : q ∈ p.children.flatMap walk) : q ∈ (p :: ps).flatMap walk := by
  obtain ⟨n, start, stop, cs⟩ := p
  rw [List.flatMap_cons, walk_mk]
  exact List.mem_append_left _ (List.mem_cons_of_mem _ h)

lemma mem_walk_tail (q : Placed) (h : q ∈ ps.flatMap walk) : q ∈ (p :: ps).flatMap walk :=
  List.mem_append_right _ h

lemma forall_mem_places {P : Position → Prop} :
    (∀ a ∈ p.places, P a) ↔ ∀ q ∈ p.walk, (∀ x ∈ q.start, P x) ∧ ∀ y ∈ q.stop, P y := by
  simp only [places, List.mem_flatMap, List.mem_append, Option.mem_toList]
  constructor
  · exact fun h q hq => ⟨fun x hx => h x ⟨q, hq, .inl hx⟩, fun y hy => h y ⟨q, hq, .inr hy⟩⟩
  · rintro h a ⟨q, hq, ha | ha⟩
    · exact (h q hq).1 a ha
    · exact (h q hq).2 a ha

end Placed

lemma stop_of_ledStop {n : Node} {first : Placed} {y : Position} (h : ledStop n first = some y) :
    (∃ v, n.shape = .expr v) ∧ first.stop = some y := by
  simp only [ledStop] at h
  split at h
  · next v hs => exact ⟨⟨v, hs⟩, h⟩
  · cases h

namespace PlacedFrom

lemma uncons (h : PlacedFrom s floor ns (p :: ps)) : ∃ n ns', ns = n :: ns' ∧
    PlacedFrom s floor [n] [p] ∧ PlacedFrom s (p.start.getD floor) ns' ps := by
  cases h with
  | bare hm hcs hps => exact ⟨_, _, rfl, .bare hm hcs .nil, hps⟩
  | known hm hcs hle hps => exact ⟨_, _, rfl, .known hm hcs hle .nil, hps⟩
  | led hm hcs hled hq hle hps => exact ⟨_, _, rfl, .led hm hcs hled hq hle .nil, hps⟩
  | literal hm hs hrow he hps => exact ⟨_, _, rfl, .literal hm hs hrow he .nil, hps⟩

lemma split {before : List Placed} {lo hi : Nat} (h : PlacedFrom s floor ns (before ++ p :: ps))
    (hl : s.text.source.Laid lo ns hi) : ∃ floor' n ns' k k', PlacedFrom s floor' [n] [p] ∧
      PlacedFrom s (p.start.getD floor') ns' ps ∧ s.text.source.Laid k [n] k' ∧
      s.text.source.Laid k' ns' hi := by
  induction before generalizing floor ns lo with
  | nil =>
    obtain ⟨n, ns', rfl, hp, hps⟩ := h.uncons
    obtain ⟨k', hn, hns⟩ := hl.uncons
    exact ⟨floor, n, ns', lo, k', hp, hps, hn, hns⟩
  | cons q before ih =>
    obtain ⟨n, ns', rfl, -, hps⟩ := h.uncons
    obtain ⟨k, -, hns⟩ := hl.uncons
    exact ih hps hns

lemma floor_le (h : PlacedFrom s floor ns ps) : ∀ q ∈ ps.flatMap Placed.walk, ∀ x ∈ q.start, floor ≤ x := by
  induction h with
  | nil => simp
  | bare _ _ _ ihc ih => exact Placed.forall_mem_walk_cons.mpr ⟨nofun, ihc, ih⟩
  | known _ _ hle _ ihc ih =>
    refine Placed.forall_mem_walk_cons.mpr ⟨?_, ihc, fun q hq x hx => Position.le_trans hle (ih q hq x hx)⟩
    rintro x ⟨⟩
    exact hle
  | led _ _ _ _ hle _ ihc ih =>
    refine Placed.forall_mem_walk_cons.mpr ⟨?_, ihc, fun q hq x hx => Position.le_trans hle (ih q hq x hx)⟩
    rintro x ⟨⟩
    exact hle
  | literal _ _ _ he _ ih =>
    have hle := (foundAt_of_locate he).floor_le
    refine Placed.forall_mem_walk_cons.mpr
      ⟨?_, by simp, fun q hq x hx => Position.le_trans hle (ih q hq x hx)⟩
    rintro x ⟨⟩
    exact hle

lemma start_le_of_led {n : Node} {x : Position} (h : PlacedFrom s floor (n :: ns) (p :: ps))
    (hled : isStringLed n = true) (hx : p.start = some x) : ∀ q ∈ p.walk, ∀ z ∈ q.start, x ≤ z := by
  induction n using Node.ind generalizing floor ns p ps x with
  | h n ih =>
    cases h with
    | bare hm => simp [isStringLed, hm] at hled
    | known hm => simp [isStringLed, hm] at hled
    | led hm hcs hfirst hq =>
      obtain rfl := Option.some.inj hx
      obtain ⟨c, cs, hchildren, -, hrest⟩ := hcs.uncons
      rw [hchildren] at hcs ih
      rw [hcs.node_head] at hfirst
      rw [hq, Option.getD_some] at hrest
      rw [Placed.walk_mk, List.forall_mem_cons, List.flatMap_cons, List.forall_mem_append]
      refine ⟨?_, ih c List.mem_cons_self hcs hfirst hq, hrest.floor_le⟩
      rintro z ⟨⟩
      exact Position.le_refl _
    | literal =>
      obtain rfl := Option.some.inj hx
      rw [Placed.walk_mk, List.forall_mem_cons]
      refine ⟨?_, by simp⟩
      rintro z ⟨⟩
      exact Position.le_refl _

lemma ended_mono {x : Position} {k hi : Nat} {qs rs : List Placed} (hk : k ≤ hi) (hsub : ∀ q ∈ qs, q ∈ rs)
    (h : (∃ a, a ≤ k ∧ x = s.text.placeAt a) ∨ s.text.HasPlace x ∧ ∃ q ∈ qs, ∃ y ∈ q.stop, x < y) :
    (∃ a, a ≤ hi ∧ x = s.text.placeAt a) ∨ s.text.HasPlace x ∧ ∃ q ∈ rs, ∃ y ∈ q.stop, x < y := by
  rcases h with ⟨a, ha, hx⟩ | ⟨hplace, q, hq, hy⟩
  · exact .inl ⟨a, Nat.le_trans ha hk, hx⟩
  · exact .inr ⟨hplace, q, hsub q hq, hy⟩

lemma start_cases {lo hi : Nat} (h : PlacedFrom s floor ns ps) (hl : s.text.source.Laid lo ns hi) :
    ∀ q ∈ ps.flatMap Placed.walk, ∀ x ∈ q.start, (∃ a, a ≤ hi ∧ x = s.text.placeAt a) ∨
      s.text.HasPlace x ∧ ∃ q' ∈ ps.flatMap Placed.walk, ∃ y ∈ q'.stop, x < y := by
  induction h generalizing lo hi with
  | nil => simp
  | bare _ _ _ ihc ih =>
    obtain ⟨k, hn, hns⟩ := hl.uncons
    refine Placed.forall_mem_walk_cons.mpr ⟨nofun, fun q hq x hx => ?_, fun q hq x hx => ?_⟩
    · exact ended_mono hns.le Placed.mem_walk_children (ihc hn.children q hq x hx)
    · exact ended_mono (Nat.le_refl _) Placed.mem_walk_tail (ih hns q hq x hx)
  | known hm _ _ _ ihc ih =>
    obtain ⟨k, hn, hns⟩ := hl.uncons
    refine Placed.forall_mem_walk_cons.mpr ⟨?_, fun q hq x hx => ?_, fun q hq x hx => ?_⟩
    · rintro x ⟨⟩
      obtain ⟨i, -, hik, rfl, -⟩ := hn.from_known hm
      exact .inl ⟨i, Nat.le_trans (Nat.le_of_lt hik) hns.le, rfl⟩
    · exact ended_mono hns.le Placed.mem_walk_children (ihc hn.children q hq x hx)
    · exact ended_mono (Nat.le_refl _) Placed.mem_walk_tail (ih hns q hq x hx)
  | led _ _ _ hq' _ _ ihc ih =>
    obtain ⟨k, hn, hns⟩ := hl.uncons
    have ihc := ihc hn.children
    refine Placed.forall_mem_walk_cons.mpr ⟨?_, fun q hq x hx => ?_, fun q hq x hx => ?_⟩
    · -- the node begins where its first part does
      rintro x ⟨⟩
      exact ended_mono hns.le Placed.mem_walk_children ((Placed.forall_mem_walk_cons.mp ihc).1 _ hq')
    · exact ended_mono hns.le Placed.mem_walk_children (ihc q hq x hx)
    · exact ended_mono (Nat.le_refl _) Placed.mem_walk_tail (ih hns q hq x hx)
  | literal _ _ _ he _ ih =>
    obtain ⟨k, -, hns⟩ := hl.uncons
    have hfound := foundAt_of_locate he
    refine Placed.forall_mem_walk_cons.mpr ⟨?_, by simp, fun q hq x hx => ?_⟩
    · rintro x ⟨⟩
      exact .inr ⟨hfound.start_place, _, List.mem_append_left _ (Placed.mem_walk_self _), _, rfl, hfound.lt⟩
    · exact ended_mono (Nat.le_refl _) Placed.mem_walk_tail (ih hns q hq x hx)

lemma stop_place (h : PlacedFrom s floor ns ps) :
    ∀ q ∈ ps.flatMap Placed.walk, ∀ y ∈ q.stop, y.offset ≠ 0 ∧ s.text.HasPlace y := by
  induction h with
  | nil => simp
  | bare _ _ _ ihc ih => exact Placed.forall_mem_walk_cons.mpr ⟨nofun, ihc, ih⟩
  | known _ _ _ _ ihc ih => exact Placed.forall_mem_walk_cons.mpr ⟨nofun, ihc, ih⟩
  | led _ _ _ _ _ _ ihc ih =>
    refine Placed.forall_mem_walk_cons.mpr ⟨fun y hy => ?_, ihc, ih⟩
    obtain ⟨-, hstop⟩ := stop_of_ledStop hy
    exact (Placed.forall_mem_walk_cons.mp ihc).1 y hstop
  | literal _ _ _ he _ ih =>
    have hfound := foundAt_of_locate he
    refine Placed.forall_mem_walk_cons.mpr ⟨?_, by simp, ih⟩
    rintro y ⟨⟩
    exact ⟨hfound.stop_offset, hfound.stop_place⟩

lemma all_of_stop {n : Node} {y : Position} (h : PlacedFrom s floor (n :: ns) (p :: ps))
    (hy : p.stop = some y) : ∃ x, x < y ∧ ∀ q ∈ p.walk, q.start = some x ∧ q.stop = some y := by
  induction n using Node.ind generalizing floor ns p ps with
  | h n ih =>
    cases h with
    | bare => cases hy
    | known => cases hy
    | led _ hcs _ hq =>
      obtain ⟨⟨v, hshape⟩, hstop⟩ := stop_of_ledStop hy
      have hchildren : n.children = [v] := by
        simp [Node.children, hshape, Shape.children, Shape.fieldNodes, Shape.fields, Tree.Field.nodes]
      rw [hchildren] at hcs ih
      obtain ⟨x, hlt, hall⟩ := ih v List.mem_cons_self hcs hstop
      have hstart := (hall _ (Placed.mem_walk_self _)).1
      refine ⟨x, hlt, ?_⟩
      obtain ⟨_, _, hone, -, hnil⟩ := hcs.uncons
      obtain ⟨-, rfl⟩ := List.cons.inj hone
      cases hnil
      rw [Placed.walk_mk, List.forall_mem_cons, List.flatMap_singleton]
      exact ⟨⟨hq.symm.trans hstart, hy⟩, hall⟩
    | literal _ _ _ he =>
      obtain rfl := Option.some.inj hy
      refine ⟨_, (foundAt_of_locate he).lt, ?_⟩
      rw [Placed.walk_mk, List.forall_mem_cons]
      exact ⟨⟨rfl, rfl⟩, by simp⟩

lemma read_mono {q : Placed} {lo lo' hi hi' : Nat} (hlo : lo' ≤ lo) (hhi : hi ≤ hi')
    (h : (∀ x ∈ q.start, ∃ a, lo ≤ a ∧ a < hi ∧ x = s.text.placeAt a) ∧
      ∀ y ∈ q.stop, ∃ b, b ≤ hi ∧ y = s.text.placeAt b) :
    (∀ x ∈ q.start, ∃ a, lo' ≤ a ∧ a < hi' ∧ x = s.text.placeAt a) ∧
      ∀ y ∈ q.stop, ∃ b, b ≤ hi' ∧ y = s.text.placeAt b := by
  refine ⟨fun x hx => ?_, fun y hy => ?_⟩
  · obtain ⟨a, ha, ha', hax⟩ := h.1 x hx
    exact ⟨a, by omega, by omega, hax⟩
  · obtain ⟨b, hb, hby⟩ := h.2 y hy
    exact ⟨b, by omega, hby⟩

lemma placeAt_of_exact {lo hi : Nat} (h : PlacedFrom s floor ns ps) (hl : s.text.source.Laid lo ns hi)
    (hexact : ∀ q ∈ ps.flatMap Placed.walk, q.IsExact s.text) : ∀ q ∈ ps.flatMap Placed.walk,
      (∀ x ∈ q.start, ∃ a, lo ≤ a ∧ a < hi ∧ x = s.text.placeAt a) ∧
        ∀ y ∈ q.stop, ∃ b, b ≤ hi ∧ y = s.text.placeAt b := by
  induction h generalizing lo hi with
  | nil => simp
  | bare _ _ _ ihc ih =>
    obtain ⟨k, hn, hns⟩ := hl.uncons
    obtain ⟨-, hexactc, hexactn⟩ := Placed.forall_mem_walk_cons.mp hexact
    refine Placed.forall_mem_walk_cons.mpr ⟨⟨nofun, nofun⟩, fun q hq => ?_, fun q hq => ?_⟩
    · exact read_mono (Nat.le_refl _) hns.le (ihc hn.children hexactc q hq)
    · exact read_mono hn.le (Nat.le_refl _) (ih hns hexactn q hq)
  | known hm _ _ _ ihc ih =>
    obtain ⟨k, hn, hns⟩ := hl.uncons
    obtain ⟨-, hexactc, hexactn⟩ := Placed.forall_mem_walk_cons.mp hexact
    refine Placed.forall_mem_walk_cons.mpr ⟨⟨?_, nofun⟩, fun q hq => ?_, fun q hq => ?_⟩
    · rintro x ⟨⟩
      obtain ⟨i, hi, hik, rfl, -⟩ := hn.from_known hm
      exact ⟨i, hi, Nat.lt_of_lt_of_le hik hns.le, rfl⟩
    · exact read_mono (Nat.le_refl _) hns.le (ihc hn.children hexactc q hq)
    · exact read_mono hn.le (Nat.le_refl _) (ih hns hexactn q hq)
  | led _ _ _ hq' _ _ ihc ih =>
    obtain ⟨k, hn, hns⟩ := hl.uncons
    obtain ⟨-, hexactc, hexactn⟩ := Placed.forall_mem_walk_cons.mp hexact
    have ihc := ihc hn.children hexactc
    have hfirst := read_mono (Nat.le_refl _) hns.le (Placed.forall_mem_walk_cons.mp ihc).1
    refine Placed.forall_mem_walk_cons.mpr ⟨⟨?_, fun y hy => ?_⟩, fun q hq => ?_, fun q hq => ?_⟩
    · rintro x ⟨⟩
      exact hfirst.1 _ hq'
    · exact hfirst.2 y (stop_of_ledStop hy).2
    · exact read_mono (Nat.le_refl _) hns.le (ihc q hq)
    · exact read_mono hn.le (Nat.le_refl _) (ih hns hexactn q hq)
  | @literal _ row n _ value bytes written e _ hm hs _ _ _ ih =>
    obtain ⟨k, hn, hns⟩ := hl.uncons
    obtain ⟨hexact, -, hexactn⟩ := Placed.forall_mem_walk_cons.mp hexact
    have hlit : (Placed.mk n (some e.start) (some e.stop) []).searched? = some (value, written) :=
      Placed.searched?_eq_some.mpr ⟨row, bytes, hm, hs⟩
    obtain ⟨hstart, hstop⟩ := hexact _ hlit
    obtain ⟨a, b, hlo, hlt, hb, rfl⟩ := (hl.literalIn (mem_walk_head _ _) hm hs).written_eq
    refine Placed.forall_mem_walk_cons.mpr ⟨⟨fun x hx => ?_, fun y hy => ?_⟩, by simp, fun q hq => ?_⟩
    · exact ⟨a, hlo, hlt, Option.some.inj (hx.symm.trans hstart)⟩
    · exact ⟨b, hb, Option.some.inj (hy.symm.trans hstop)⟩
    · exact read_mono hn.le (Nat.le_refl _) (ih hns hexactn q hq)

lemma mark_of_start {n : Node} {x : Position} (h : PlacedFrom s floor (n :: ns) (p :: ps))
    (hled : ¬ isStringLed n = true) (hx : p.start = some x) :
    ∃ y, n.mark = some (.known y) ∧ s.text.start.plus y = x := by
  cases h with
  | bare => cases hx
  | known hm => exact ⟨_, hm, Option.some.inj hx⟩
  | led hm => simp [isStringLed, hm] at hled
  | literal hm => simp [isStringLed, hm] at hled

lemma within_nearest {n : Node} {lo stop : Position} {k hi : Nat} (h : PlacedFrom s floor [n] [p])
    (hl : s.text.source.Laid k [n] hi) (hhi : hi ≤ s.text.source.chars.length) (hstop : s.text.IsLimit stop)
    (hw : p.Within lo stop) : p.Within lo (s.text.nearest stop) := by
  have hmem : ∀ q, q ∈ [p].flatMap Placed.walk ↔ q ∈ p.walk := fun q => by rw [List.flatMap_singleton]
  have hends : ∀ q ∈ p.walk, ∀ y ∈ q.stop, y ≤ s.text.nearest stop := by
    intro q hq y hy
    have hplace := (h.stop_place q ((hmem q).mpr hq) y hy).2
    exact hplace.nearest_eq ▸ s.text.nearest_mono ((hw q hq).2 y hy)
  refine fun q hq => ⟨fun x hx => ⟨((hw q hq).1 x hx).1, ?_⟩, hends q hq⟩
  rcases h.start_cases hl q ((hmem q).mpr hq) x hx with ⟨a, ha, rfl⟩ | ⟨-, q', hq', y, hy, hlt⟩
  · exact hstop.placeAt_lt_nearest (Nat.le_trans ha hhi) ((hw q hq).1 _ hx).2
  · exact Position.lt_of_lt_of_le hlt (hends q' ((hmem q').mp hq') y hy)

lemma start_le_of_exact {n : Node} {x : Position} {k hi : Nat} (h : PlacedFrom s floor [n] [p])
    (hl : s.text.source.Laid k [n] hi) (hhi : hi ≤ s.text.source.chars.length)
    (hexact : ∀ q ∈ p.walk, q.IsExact s.text) (hx : p.start = some x) :
    ∀ q ∈ p.walk, ∀ z ∈ q.start, x ≤ z := by
  by_cases hled : isStringLed n = true
  · exact h.start_le_of_led hled hx
  · obtain ⟨y, hm, rfl⟩ := h.mark_of_start hled hx
    -- all of the node is read from its own place on
    obtain ⟨i, -, -, rfl, hli⟩ := hl.from_known hm
    intro q hq z hz
    rw [← List.flatMap_singleton Placed.walk p] at hq hexact
    obtain ⟨a, ha, hlt, rfl⟩ := (h.placeAt_of_exact hli hexact q hq).1 z hz
    exact Text.placeAt_le ha (by omega)

end PlacedFrom

end Placement

end SourceBlocks
