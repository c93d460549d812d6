import SourceBlocks.Proofs.Placement.Faults

/-! Whether string literals over several rows are placed where they are written. -/

namespace SourceBlocks

open SourceBlocks.Tree (Extent Mark Node Shape)

namespace Lexis.Source

lemma Laid.literalIn {S : Source} {lo hi row : Nat} {ns : List Node} {n : Node} {value : String}
    {bytes : Bool} {written : Extent} (h : S.Laid lo ns hi) (hn : n ∈ ns.flatMap Node.walk)
    (hm : n.mark = some (.endsOn row)) (hs : n.shape = .str value bytes written) :
    S.LiteralIn lo hi row value written := by
  induction h with
  | nil => simp at hn
  | bare hm' hc hns ihc ih =>
    rcases Placement.mem_walk_cons.mp hn with rfl | hn | hn
    · simp [hm'] at hm
    · exact (ihc hn).mono (Nat.le_refl _) hns.le
    · exact (ih hn).mono hc.le (Nat.le_refl _)
  | known hm' hlo hik hc hns ihc ih =>
    rcases Placement.mem_walk_cons.mp hn with rfl | hn | hn
    · simp [hm'] at hm
    · exact (ihc hn).mono hlo hns.le
    · exact (ih hn).mono (by omega) (Nat.le_refl _)
  | led hm' hcs hfirst hc hns ihc ih =>
    rcases Placement.mem_walk_cons.mp hn with rfl | hn | hn
    · simp [Node.children_of_str hs] at hcs
    · exact (ihc hn).mono (Nat.le_refl _) hns.le
    · exact (ih hn).mono hc.le (Nat.le_refl _)
  | literal hm' hs' hl hns ih =>
    rcases Placement.mem_walk_cons.mp hn with rfl | hn | hn
    · obtain rfl := Mark.endsOn.inj (Option.some.inj (hm'.symm.trans hm))
      obtain ⟨rfl, rfl, rfl⟩ := Shape.str.inj (hs'.symm.trans hs)
      exact hl.mono (Nat.le_refl _) hns.le
    · simp [Node.children_of_str hs'] at hn
    · exact (ih hn).mono (Nat.le_of_lt hl.lt) (Nat.le_refl _)

end Lexis.Source

namespace Placement

variable {s : Setting} {floor : Position}

def writtenIn (t : Text) (written : Extent) : Extent :=
  ⟨t.start.plus written.start, t.start.plus written.stop⟩

namespace Placed

lemma walkAll_eq (ps : List Placed) : walkAll ps = ps.flatMap walk := by
  induction ps with
  | nil => rfl
  | cons p ps ih => rw [walkAll, ih, List.flatMap_cons]

lemma walk_mk (n : Node) (start stop : Option Position) (cs : List Placed) :
    (mk n start stop cs).walk = mk n start stop cs :: cs.flatMap walk := by
  rw [walk, walkAll_eq]

lemma forall_mem_walk_cons {P : Placed → Prop} {p : Placed} {ps : List Placed} :
    (∀ q ∈ (p :: ps).flatMap walk, P q) ↔
      P p ∧ (∀ q ∈ p.children.flatMap walk, P q) ∧ ∀ q ∈ ps.flatMap walk, P q := by
  obtain ⟨n, start, stop, cs⟩ := p
  rw [List.flatMap_cons, walk_mk, List.cons_append, List.forall_mem_cons, List.forall_mem_append, children_mk]

def searched? (p : Placed) : Option (String × Extent) := match p.node.mark, p.node.shape with
  | some (.endsOn _), .str value _ written => some (value, written)
  | _, _ => none

lemma searched?_eq_some {p : Placed} {l : String × Extent} : p.searched? = some l ↔
    ∃ row bytes, p.node.mark = some (.endsOn row) ∧ p.node.shape = .str l.1 bytes l.2 := by
  obtain ⟨value, written⟩ := l
  simp only [searched?]
  split
  · next row value' bytes written' hm hs => simp [hm, hs]
  · next hnot =>
    simp only [reduceCtorEq, false_iff, not_exists, not_and]
    exact fun row bytes hm hs => hnot row value bytes written hm hs

lemma searched?_of_not_led {n : Node} {start stop : Option Position} {cs : List Placed}
    (h : ∀ row, n.mark ≠ some (.endsOn row)) : (mk n start stop cs).searched? = none := by
  rw [Option.eq_none_iff_forall_ne_some]
  intro l hl
  obtain ⟨row, bytes, hm, -⟩ := searched?_eq_some.mp hl
  exact h row hm

lemma searched?_of_children {n : Node} {start stop : Option Position} {cs : List Placed}
    (h : n.children ≠ []) : (mk n start stop cs).searched? = none := by
  rw [Option.eq_none_iff_forall_ne_some]
  intro l hl
  obtain ⟨row, bytes, -, hs⟩ := searched?_eq_some.mp hl
  exact h (Node.children_of_str hs)

def IsExact (t : Text) (p : Placed) : Prop := ∀ l ∈ p.searched?,
  p.start = some (writtenIn t l.2).start ∧ p.stop = some (writtenIn t l.2).stop

instance (t : Text) (p : Placed) : Decidable (p.IsExact t) :=
  inferInstanceAs (Decidable (∀ l ∈ p.searched?, _))

lemma isExact_of_searched?_eq_none {t : Text} {p : Placed} (h : p.searched? = none) : p.IsExact t := by
  simp [IsExact, h]

lemma isExact_mk_iff {t : Text} {n : Node} {e : Extent} {cs : List Placed} {l : String × Extent}
    (h : (mk n (some e.start) (some e.stop) cs).searched? = some l) :
    (mk n (some e.start) (some e.stop) cs).IsExact t ↔ e = writtenIn t l.2 := by
  simp only [IsExact, h, Option.mem_some_iff, forall_eq', start_mk, stop_mk, Option.some.injEq]
  constructor
  · rintro ⟨hstart, hstop⟩
    exact congrArg₂ Extent.mk hstart hstop
  · rintro rfl
    exact ⟨rfl, rfl⟩

def ReadsBack (s : Setting) (p : Placed) : Prop := ∀ l ∈ p.searched?,
  ∃ e : Extent, p.start = some e.start ∧ p.stop = some e.stop ∧ isMatch s l.1.toList e = true

end Placed

inductive FoundFirst (s : Setting) : Position → List Node → Prop
  | nil {floor : Position} : FoundFirst s floor []
  | bare {floor : Position} {n : Node} {ns : List Node} : n.mark = none → FoundFirst s floor n.children →
      FoundFirst s floor ns → FoundFirst s floor (n :: ns)
  | known {floor p : Position} {n : Node} {ns : List Node} : n.mark = some (.known p) →
      FoundFirst s floor n.children → FoundFirst s (s.text.start.plus p) ns → FoundFirst s floor (n :: ns)
  | led {floor : Position} {n c : Node} {cs ns : List Node} {e : Extent} : n.children = c :: cs →
      LeadFound s floor n e → FoundFirst s floor n.children → FoundFirst s e.start ns →
      FoundFirst s floor (n :: ns)
  | literal {floor : Position} {row : Nat} {n : Node} {ns : List Node} {value : String} {bytes : Bool}
      {written : Extent} : n.mark = some (.endsOn row) → n.shape = .str value bytes written →
      (tried s value.toList floor (s.text.start.row + row)).find? (isMatch s value.toList) =
        some (writtenIn s.text written) →
      FoundFirst s (writtenIn s.text written).start ns → FoundFirst s floor (n :: ns)

section FoundFirst

variable {n : Node} {ns : List Node} {p : Position} {e : Extent}

lemma foundFirst_bare (hm : n.mark = none) :
    FoundFirst s floor (n :: ns) ↔ FoundFirst s floor n.children ∧ FoundFirst s floor ns := by
  constructor
  · intro h
    cases h with
    | bare _ hc hns => exact ⟨hc, hns⟩
    | known hm' => simp [hm] at hm'
    | led _ he =>
      obtain ⟨row, hm'⟩ := he.mark
      simp [hm] at hm'
    | literal hm' => simp [hm] at hm'
  · rintro ⟨hc, hns⟩
    exact .bare hm hc hns

lemma foundFirst_known (hm : n.mark = some (.known p)) :
    FoundFirst s floor (n :: ns) ↔
      FoundFirst s floor n.children ∧ FoundFirst s (s.text.start.plus p) ns := by
  constructor
  · intro h
    cases h with
    | bare hm' => simp [hm] at hm'
    | known hm' hc hns =>
      obtain rfl := Mark.known.inj (Option.some.inj (hm.symm.trans hm'))
      exact ⟨hc, hns⟩
    | led _ he =>
      obtain ⟨row, hm'⟩ := he.mark
      simp [hm] at hm'
    | literal hm' => simp [hm] at hm'
  · rintro ⟨hc, hns⟩
    exact .known hm hc hns

lemma foundFirst_led (hc : n.children ≠ []) (he : LeadFound s floor n e) :
    FoundFirst s floor (n :: ns) ↔ FoundFirst s floor n.children ∧ FoundFirst s e.start ns := by
  obtain ⟨c, cs, hcs⟩ := List.exists_cons_of_ne_nil hc
  obtain ⟨row, hm⟩ := he.mark
  constructor
  · intro h
    cases h with
    | bare hm' => simp [hm] at hm'
    | known hm' => simp [hm] at hm'
    | led _ he' hc hns =>
      obtain rfl := he.unique he'
      exact ⟨hc, hns⟩
    | literal _ hs => exact absurd (Node.children_of_str hs) hc
  · rintro ⟨hc, hns⟩
    exact .led hcs he hc hns

lemma foundFirst_literal {row : Nat} {value : String} {bytes : Bool} {written : Extent}
    (hm : n.mark = some (.endsOn row)) (hs : n.shape = .str value bytes written)
    (hfind : (tried s value.toList floor (s.text.start.row + row)).find? (isMatch s value.toList) = some e) :
    FoundFirst s floor (n :: ns) ↔ e = writtenIn s.text written ∧ FoundFirst s e.start ns := by
  constructor
  · intro h
    cases h with
    | bare hm' => simp [hm] at hm'
    | known hm' => simp [hm] at hm'
    | led hcs => simp [Node.children_of_str hs] at hcs
    | literal hm' hs' hfind' hns =>
      obtain rfl := Mark.endsOn.inj (Option.some.inj (hm.symm.trans hm'))
      obtain ⟨rfl, rfl, rfl⟩ := Shape.str.inj (hs.symm.trans hs')
      obtain rfl := Option.some.inj (hfind.symm.trans hfind')
      exact ⟨rfl, hns⟩
  · rintro ⟨rfl, hns⟩
    exact .literal hm hs hfind hns

end FoundFirst

namespace PlacedFrom

variable {ns : List Node} {ps : List Placed}

lemma children_ne_nil {first : Placed} (h : PlacedFrom s floor ns (first :: ps)) : ns ≠ [] := by
  rintro rfl
  cases h

lemma map_node_walk (h : PlacedFrom s floor ns ps) :
    (ps.flatMap Placed.walk).map Placed.node = ns.flatMap Node.walk := by
  induction h with
  | nil => rfl
  | @bare _ n ns _ _ _ _ _ ihc ih =>
    rw [List.flatMap_cons, List.flatMap_cons, Node.walk_eq]
    simp [Placed.walk_mk, ihc, ih]
  | @known _ _ n ns _ _ _ _ _ _ ihc ih =>
    rw [List.flatMap_cons, List.flatMap_cons, Node.walk_eq]
    simp [Placed.walk_mk, ihc, ih]
  | @led _ _ _ n ns _ _ _ _ _ _ _ _ _ ihc ih =>
    rw [List.flatMap_cons, List.flatMap_cons, Node.walk_eq]
    simp [Placed.walk_mk, ← ihc, ih]
  | @literal _ _ n ns _ _ _ _ _ _ hs _ _ _ ih =>
    rw [List.flatMap_cons, List.flatMap_cons, Node.walk_eq]
    simp [Placed.walk_mk, Node.children_of_str hs, ih]

lemma readsBack (h : PlacedFrom s floor ns ps) : ∀ p ∈ ps.flatMap Placed.walk, p.ReadsBack s := by
  induction h with
  | nil => simp
  | bare hm _ _ ihc ih =>
    refine Placed.forall_mem_walk_cons.mpr ⟨?_, ihc, ih⟩
    rw [Placed.ReadsBack, Placed.searched?_of_not_led (by simp [hm])]
    exact nofun
  | known hm _ _ _ ihc ih =>
    refine Placed.forall_mem_walk_cons.mpr ⟨?_, ihc, ih⟩
    rw [Placed.ReadsBack, Placed.searched?_of_not_led (by simp [hm])]
    exact nofun
  | led _ hcs _ _ _ _ ihc ih =>
    refine Placed.forall_mem_walk_cons.mpr ⟨?_, ihc, ih⟩
    rw [Placed.ReadsBack, Placed.searched?_of_children hcs.children_ne_nil]
    exact nofun
  | literal hm hs _ he _ ih =>
    refine Placed.forall_mem_walk_cons.mpr ⟨?_, by simp, ih⟩
    intro l hl
    obtain ⟨row, bytes, -, hs'⟩ := Placed.searched?_eq_some.mp hl
    obtain ⟨rfl, -, -⟩ := Shape.str.inj (hs.symm.trans hs')
    exact ⟨_, rfl, rfl, List.find?_some (locate_eq_ok.mp he).2⟩

lemma isExact_iff (h : PlacedFrom s floor ns ps) :
    (∀ p ∈ ps.flatMap Placed.walk, p.IsExact s.text) ↔ FoundFirst s floor ns := by
  induction h with
  | nil => simp [FoundFirst.nil]
  | bare hm _ _ ihc ih =>
    rw [Placed.forall_mem_walk_cons, Placed.children_mk, ihc, ih, foundFirst_bare hm]
    exact and_iff_right (Placed.isExact_of_searched?_eq_none (Placed.searched?_of_not_led (by simp [hm])))
  | known hm _ _ _ ihc ih =>
    rw [Placed.forall_mem_walk_cons, Placed.children_mk, ihc, ih, foundFirst_known hm]
    exact and_iff_right (Placed.isExact_of_searched?_eq_none (Placed.searched?_of_not_led (by simp [hm])))
  | led hm hcs hled hq hle hns ihc ih =>
    obtain ⟨e, he, hstart⟩ :=
      (PlacedFrom.led hm hcs hled hq hle hns).leadFound (isStringLed_iff.mpr ⟨_, hm⟩)
    obtain rfl := Option.some.inj hstart
    rw [Placed.forall_mem_walk_cons, Placed.children_mk, ihc, ih, foundFirst_led hcs.children_ne_nil he]
    exact and_iff_right (Placed.isExact_of_searched?_eq_none (Placed.searched?_of_children hcs.children_ne_nil))
  | @literal _ row n _ value bytes written e _ hm hs _ he _ ih =>
    have hlit : (Placed.mk n (some e.start) (some e.stop) []).searched? = some (value, written) :=
      Placed.searched?_eq_some.mpr ⟨row, bytes, hm, hs⟩
    rw [Placed.forall_mem_walk_cons, Placed.isExact_mk_iff hlit, Placed.children_mk, ih,
      foundFirst_literal hm hs (locate_eq_ok.mp he).2]
    simp

end PlacedFrom

end Placement

namespace Reading

open Outcome Placement

/-- In a placed tree each literal over several rows is made of string tokens, and where it is
recorded something stands that reads as its value. -/
theorem placeIn_exact_iff {t : Text} {features : Features} {r : Reading} {p : Placed}
    (hr : ofText t features = .ok r) (hp : r.placeIn t = .ok p) :
    p.walk.map Placed.node = r.tree.walk ∧
    (∀ q ∈ p.walk, ∀ l ∈ q.searched?, ∃ row,
      t.source.LiteralIn 0 t.source.chars.length row l.1 l.2) ∧
    (∀ q ∈ p.walk, q.ReadsBack (r.setting t)) ∧
    ((∀ q ∈ p.walk, q.IsExact t) ↔ FoundFirst (r.setting t) t.start r.tree.children) := by
  obtain ⟨-, ns, htree, hlaid⟩ := ofText_eq_ok hr
  have hchildren : r.tree.children = ns := by rw [htree, children_module]
  obtain ⟨cs, hcs, rfl⟩ := (placeIn_eq_ok htree).mp hp
  have hnode : (Placed.mk r.tree none none cs).searched? = none :=
    Placed.searched?_of_not_led (by simp [htree, Node.mark])
  have hwalk : ∀ P : Placed → Prop, P (.mk r.tree none none cs) →
      ((∀ q ∈ (Placed.mk r.tree none none cs).walk, P q) ↔ ∀ q ∈ cs.flatMap Placed.walk, P q) := by
    intro P hP
    rw [Placed.walk_mk, List.forall_mem_cons, and_iff_right hP]
  refine ⟨?_, ?_, ?_, ?_⟩
  · rw [Placed.walk_mk, List.map_cons, hcs.map_node_walk, Node.walk_eq, hchildren, Placed.node_mk]
  · rw [hwalk _ (by simp [hnode])]
    intro q hq l hl
    obtain ⟨row, bytes, hm, hs⟩ := Placed.searched?_eq_some.mp hl
    have hmem : q.node ∈ ns.flatMap Node.walk := hcs.map_node_walk ▸ List.mem_map_of_mem hq
    exact ⟨row, hlaid.literalIn hmem hm hs⟩
  · rw [hwalk _ (by simp [Placed.ReadsBack, hnode])]
    exact hcs.readsBack
  · rw [hwalk _ (by simp [Placed.IsExact, hnode]), hchildren]
    exact hcs.isExact_iff

theorem placeIn_exact_repeated : ∃ r p,
    ofText (Text.ofString "f('''\n''')\n'''\n'''") .none = .ok r ∧
      r.placeIn (Text.ofString "f('''\n''')\n'''\n'''") = .ok p ∧
      FoundFirst (r.setting (Text.ofString "f('''\n''')\n'''\n'''")) .start r.tree.children := by
  have hexact : (ofText (Text.ofString "f('''\n''')\n'''\n'''") .none >>= fun r =>
      (r.placeIn (Text.ofString "f('''\n''')\n'''\n'''")).map fun p =>
        decide (∀ q ∈ p.walk, q.IsExact (Text.ofString "f('''\n''')\n'''\n'''"))) =
      .ok true := by decide +kernel
  obtain ⟨r, hr, hexact⟩ := bind_eq_ok.mp hexact
  obtain ⟨p, hp, hexact⟩ := map_eq_ok.mp hexact
  exact ⟨r, p, hr, hp, (placeIn_exact_iff hr hp).2.2.2.mp (of_decide_eq_true hexact)⟩

theorem placeIn_like_values : ∃ r p q,
    ofText (Text.ofString "x = ['a\\\nb', 'ab']\n") .none = .ok r ∧
      r.placeIn (Text.ofString "x = ['a\\\nb', 'ab']\n") = .ok p ∧ q ∈ p.walk ∧
      q.searched? = some ("ab", ⟨⟨0, 5⟩, ⟨1, 2⟩⟩) ∧ q.start = some ⟨1, 4⟩ ∧ q.stop = some ⟨1, 8⟩ ∧
      ¬ q.IsExact (Text.ofString "x = ['a\\\nb', 'ab']\n") := by
  have hspans : (ofText (Text.ofString "x = ['a\\\nb', 'ab']\n") .none >>= fun r =>
      (r.placeIn (Text.ofString "x = ['a\\\nb', 'ab']\n")).map fun p =>
        p.walk.filterMap fun q => q.searched?.map fun l => (l, q.start, q.stop)) =
      .ok [(("ab", ⟨⟨0, 5⟩, ⟨1, 2⟩⟩), some ⟨1, 4⟩, some ⟨1, 8⟩)] := by decide +kernel
  obtain ⟨r, hr, hspans⟩ := bind_eq_ok.mp hspans
  obtain ⟨p, hp, hspans⟩ := map_eq_ok.mp hspans
  obtain ⟨q, hq, hspan⟩ := List.mem_filterMap.mp (hspans ▸ List.mem_singleton_self _)
  obtain ⟨l, hl, hspan⟩ := Option.map_eq_some_iff.mp hspan
  simp only [Prod.mk.injEq] at hspan
  obtain ⟨rfl, hstart, hstop⟩ := hspan
  refine ⟨r, p, q, hr, hp, hq, hl, hstart, hstop, fun hexact => ?_⟩
  have hwrong : some (Position.mk 1 4) = some (Position.start.plus ⟨0, 5⟩) :=
    hstart.symm.trans (hexact _ hl).1
  exact absurd hwrong (by decide)

end Reading

end SourceBlocks
