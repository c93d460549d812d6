import SourceBlocks.Block.Input
import SourceBlocks.Proofs.Block.Reanchored
import SourceBlocks.Proofs.Dialect
import SourceBlocks.Proofs.Placement.Faults
import SourceBlocks.Proofs.Placement.Indented

/-! The features in effect in a block, against those that are on behind its reading. -/

namespace SourceBlocks

open Outcome
open SourceBlocks.Placement
open SourceBlocks.Tree (Node)
open Dialect (Demand isPrint placeOf)

variable {t : Text} {f e : Features} {r : Reading}

def Dialect.IsSwitch (n : Node) : Prop := ∃ names, n.shape = .importFrom (some Dialect.featureModule) names 0

def Dialect.IsRelative (n : Node) : Prop := ∃ source names level, n.shape = .importFrom source names (level + 1)

def Block.declared (ns : List Node) : Features := ns.foldl (fun f n => f ||| Block.featuresOf n) .none

lemma Block.on_declared (ns : List Node) (i : Nat) :
    (Block.declared ns).On i ↔ ∃ n ∈ ns, (Block.featuresOf n).On i := by
  simp [declared, Features.on_foldl_union, Features.not_on_none]

namespace Dialect

def nameFeature? (n : Node) : Option Feature := match n.shape with
  | .importAlias id _ _ => Feature.ofName? id
  | _ => none

lemma filterMap_featureDemand (n : Node) :
    (featureDemand n).filterMap Demand.feature? = (nameFeature? n).toList := by
  obtain ⟨mark, shape⟩ := n
  cases shape with
  | importAlias id asname written =>
    simp only [featureDemand, nameFeature?, Node.shape, List.filterMap_cons, Demand.feature?, List.filterMap_nil]
    cases Feature.ofName? id <;> rfl
  | _ => rfl

lemma featuresOf_eq {n : Node} {names : List Node} {level : Nat}
    (h : n.shape = .importFrom (some featureModule) names level) :
    Block.featuresOf n = .ofList (names.filterMap nameFeature?) := by
  simp only [Block.featuresOf, h, if_true]
  rfl

lemma on_own (n : Node) (i : Nat) : (Features.ofList ((own n).filterMap Demand.feature?)).On i ↔
    IsSwitch n ∧ (Block.featuresOf n).On i := by
  cases hshape : n.shape with
  | importFrom source names level =>
    match source, level with
    | none, _ => simp [own, hshape, IsSwitch, Features.on_ofList]
    | some _, _ + 1 => simp [own, hshape, IsSwitch, Features.on_ofList]
    | some source, 0 =>
      by_cases hsource : source = featureModule
      · subst hsource
        have hnames : (own n).filterMap Demand.feature? = names.filterMap nameFeature? := by
          simp only [own, hshape, if_true, List.filterMap_flatMap, filterMap_featureDemand]
          exact (List.filterMap_eq_flatMap_toList _ _).symm
        rw [hnames, featuresOf_eq hshape, iff_and_self]
        exact fun _ => ⟨names, hshape⟩
      · simp [own, hshape, IsSwitch, hsource, Features.on_ofList]
  | _ => simp [own, hshape, IsSwitch, Features.on_ofList, Demand.feature?]

lemma on_of_check {n : Node} (h : check f n = .ok e) (i : Nat) :
    e.On i ↔ f.On i ∨ ∃ m ∈ n.walk, IsSwitch m ∧ (Block.featuresOf m).On i := by
  have hdemands := filterMap_demands (φ := Demand.feature?) (fun _ => rfl) n
  have hlist : ∀ ns : List Node, (Features.ofList (ns.flatMap fun m => (own m).filterMap Demand.feature?)).On i ↔
      ∃ m ∈ ns, IsSwitch m ∧ (Block.featuresOf m).On i := by
    intro ns
    simp only [← on_own, Features.on_ofList, List.mem_flatMap]
    grind
  rw [features_of_meetAll h, Features.on_union, hdemands, hlist]

end Dialect

open Dialect (IsSwitch IsRelative)

lemma Block.isSwitch_or_isRelative {n : Node} {i : Nat} (h : (featuresOf n).On i) : IsSwitch n ∨ IsRelative n := by
  unfold featuresOf at h
  split at h
  next source names level hshape =>
    split_ifs at h with hsource
    · subst hsource
      cases level with
      | zero => exact .inl ⟨names, hshape⟩
      | succ level => exact .inr ⟨_, names, level, hshape⟩
    · exact absurd h (Features.not_on_none i)
  next => exact absurd h (Features.not_on_none i)

lemma shift_named (file : Option Text.FileName) (margin : List Char) (reader : List Char → Option (List Char)) :
    Shift ⟨t, margin, reader⟩ ⟨{ t with file := file }, margin, reader⟩ id 0 where
  reader := rfl
  lt_iff _ _ := Iff.rfl
  row p := (Nat.zero_add p.row).symm
  start_row := (Nat.zero_add _).symm
  stop_row := (Nat.zero_add _).symm
  start_le _ h := h
  opens row := by
    rw [Nat.zero_add]
    exact (List.map_id _).symm
  closes row := by
    rw [Nat.zero_add]
    exact (List.map_id _).symm
  fragment _ _ _ _ := rfl

namespace Reading

/-- A text that is read with some features is read with fewer as well, and gives the same tree and
the same margin. -/
theorem ofText_of_contains {g : Features} (hfg : g.contains f = true) (h : ofText t g = .ok r) :
    ∃ r', ofText t f = .ok r' ∧ r'.tree = r.tree ∧ r'.margin = r.margin ∧ r.features = r'.features ||| g := by
  obtain ⟨htree, hcheck, hmargin⟩ := ofText_iff.mp h
  obtain ⟨e, he, hfeatures⟩ := Dialect.meetAll_of_contains hfg hcheck
  exact ⟨⟨r.tree, r.margin, e⟩, ofText_iff.mpr ⟨htree, he, hmargin⟩, rfl, rfl, hfeatures⟩

theorem ofText_of_contains_print : ∃ r r',
    ofText (.ofString "from __future__ import division\nprint(x)\n") (.only .printFunction) = .ok r ∧
    ofText (.ofString "from __future__ import division\nprint(x)\n") .none = .ok r' ∧ r'.tree = r.tree ∧
    r'.features = .only .division ∧ r.features = .only .division ||| .only .printFunction := by
  have hread : (ofText (.ofString "from __future__ import division\nprint(x)\n") (.only .printFunction)).isOk = true := by
    decide +kernel
  have hfewer : (ofText (.ofString "from __future__ import division\nprint(x)\n") .none).map features =
      .ok (.only .division) := by decide +kernel
  obtain ⟨r, hr⟩ := isOk_iff.mp hread
  obtain ⟨r', hr', htree, -, hfeatures⟩ := ofText_of_contains (f := .none) (by decide) hr
  rw [hr'] at hfewer
  have hon : r'.features = .only .division := Except.ok.inj hfewer
  exact ⟨r, r', hr, hr', htree, hon, hon ▸ hfeatures⟩

lemma exists_placeIn_iff (t : Text) :
    (∃ p, r.placeIn t = .ok p) ↔ ∃ p, r.placeIn (.ofChars t.chars) = .ok p := by
  have hshift := shift_named (t := .ofChars t.chars) t.file r.margin Grammar.stringValue?
  have hnamed := hshift.place_agree remarks_id (fun _ => rfl) hshift.floor_start r.tree
  have hmoved := placeIn_moves (p := t.start) (t := ⟨t.chars, t.file, .start⟩) r
  rw [Text.moved_start] at hmoved
  rw [← hmoved.exists_ok_iff]
  simp only [placeIn, mapError_eq_ok]
  exact hnamed.exists_ok_iff.symm

end Reading

namespace Block

lemma body_eq_ok {roots : List Root} : (ofText t f).body = .ok roots ↔
    ∃ r p, Reading.ofText t f = .ok r ∧ r.placeIn t = .ok p ∧
      roots = p.children.zipIdx.map (fun c => ⟨0, c.2, c.1⟩) := by
  simp only [body, outcome, ofText, readRoots, bind_eq_ok, mapError_eq_ok, pure_eq_ok]
  constructor
  · rintro ⟨r, hr, p, hp, rfl⟩
    exact ⟨r, p, hr, hp, rfl⟩
  · rintro ⟨r, p, hr, hp, rfl⟩
    exact ⟨r, hr, p, hp, rfl⟩

lemma map_node_roots {p : Placed} (hr : Reading.ofText t f = .ok r) (hp : r.placeIn t = .ok p) :
    (p.children.zipIdx.map (fun c => (⟨0, c.2, c.1⟩ : Root))).map Root.node = r.tree.children := by
  obtain ⟨-, ns, htree, -⟩ := Reading.ofText_eq_ok hr
  obtain ⟨cs, hcs, rfl⟩ := (Reading.placeIn_eq_ok htree).mp hp
  have hroots : (Root.node ∘ fun c : Placed × Nat => ⟨0, c.2, c.1⟩) = Placed.node ∘ Prod.fst := rfl
  rw [List.map_map, hroots, ← List.map_map, List.zipIdx_map_fst, Placed.children_mk, hcs.map_node, htree,
    Reading.children_module]

lemma features_eq_ok : (ofText t f).features = .ok e ↔
    ∃ r p, Reading.ofText t f = .ok r ∧ r.placeIn t = .ok p ∧ e = f ||| declared r.tree.children := by
  have hfold : ∀ roots : List Root, roots.foldl (fun f r => f ||| featuresOf r.node) .none =
      declared (roots.map Root.node) := by
    intro roots
    rw [declared, List.foldl_map]
  simp only [features, sourceFeatures, ofText, bind_eq_ok, pure_eq_ok]
  constructor
  · rintro ⟨s, ⟨roots, hroots, rfl⟩, rfl⟩
    obtain ⟨r, p, hr, hp, rfl⟩ := body_eq_ok.mp hroots
    refine ⟨r, p, hr, hp, ?_⟩
    rw [hfold, map_node_roots hr hp]
  · rintro ⟨r, p, hr, hp, rfl⟩
    refine ⟨_, ⟨_, body_eq_ok.mpr ⟨r, p, hr, hp, rfl⟩, rfl⟩, ?_⟩
    rw [hfold, map_node_roots hr hp]

/-- Reading and the features in effect agree on what is on exactly if the nodes have places, what is switched on
below the top of the tree is switched on at the top too, and what is told from a relative import is on anyway. -/
theorem features_eq_reading_iff (hr : Reading.ofText t f = .ok r) : (ofText t f).features = .ok r.features ↔
    (∃ p, r.placeIn t = .ok p) ∧
    (∀ n ∈ r.tree.walk, IsSwitch n → n ∉ r.tree.children →
      (f ||| declared r.tree.children).contains (featuresOf n) = true) ∧
    ∀ n ∈ r.tree.children, IsRelative n → r.features.contains (featuresOf n) = true := by
  have hread := Dialect.on_of_check (Reading.ofText_iff.mp hr).2.1
  have heffect : ∀ i, (f ||| declared r.tree.children).On i ↔
      f.On i ∨ ∃ n ∈ r.tree.children, (featuresOf n).On i := by
    intro i
    rw [Features.on_union, on_declared]
  have hchildren : ∀ n ∈ r.tree.children, n ∈ r.tree.walk := by
    intro n hn
    rw [Node.walk_eq]
    refine List.mem_cons_of_mem _ (List.mem_flatMap.mpr ⟨n, hn, ?_⟩)
    rw [Node.walk_eq]
    exact List.mem_cons_self
  constructor
  · intro h
    obtain ⟨r', p, hr', hp, heq⟩ := features_eq_ok.mp h
    obtain rfl := Except.ok.inj (hr.symm.trans hr')
    refine ⟨⟨p, hp⟩, fun n hn hswitch _ => ?_, fun n hn _ => ?_⟩
    · rw [← heq, Features.contains_iff]
      exact fun i hi => (hread i).mpr (.inr ⟨n, hn, hswitch, hi⟩)
    · rw [heq, Features.contains_iff]
      exact fun i hi => (heffect i).mpr (.inr ⟨n, hn, hi⟩)
  · rintro ⟨⟨p, hp⟩, hbelow, hrelative⟩
    refine features_eq_ok.mpr ⟨r, p, hr, hp, Features.eq_of_on fun i => ?_⟩
    constructor
    · intro hi
      rcases (hread i).mp hi with hf | ⟨n, hn, hswitch, hi⟩
      · exact (heffect i).mpr (.inl hf)
      · by_cases htop : n ∈ r.tree.children
        · exact (heffect i).mpr (.inr ⟨n, htop, hi⟩)
        · exact Features.contains_iff.mp (hbelow n hn hswitch htop) i hi
    · intro hi
      rcases (heffect i).mp hi with hf | ⟨n, hn, hi⟩
      · exact (hread i).mpr (.inl hf)
      · rcases isSwitch_or_isRelative hi with hswitch | hrel
        · exact (hread i).mpr (.inr ⟨n, hchildren n hn, hswitch, hi⟩)
        · exact Features.contains_iff.mp (hrelative n hn hrel) i hi

theorem features_eq_reading_nested : ∃ r,
    Reading.ofText (.ofString "from __future__ import division\nif x:\n  from __future__ import division\n") .none =
      .ok r ∧
    (ofText (.ofString "from __future__ import division\nif x:\n  from __future__ import division\n") .none).features =
      .ok r.features ∧
    r.tree.walk.countP (fun n => featuresOf n = .only .division) = 2 ∧
    r.tree.children.countP (fun n => featuresOf n = .only .division) = 1 ∧
    ∀ n ∈ r.tree.walk, IsSwitch n → n ∉ r.tree.children →
      (.none ||| declared r.tree.children : Features).contains (featuresOf n) = true := by
  have hread : (Reading.ofText
      (.ofString "from __future__ import division\nif x:\n  from __future__ import division\n") .none).map (fun r =>
        (r.features, r.tree.walk.countP (fun n => featuresOf n = .only .division),
          r.tree.children.countP (fun n => featuresOf n = .only .division))) = .ok (.only .division, 2, 1) := by
    decide +kernel
  have hfeatures : (ofText
      (.ofString "from __future__ import division\nif x:\n  from __future__ import division\n") .none).features =
        .ok (.only .division) := by decide +kernel
  obtain ⟨r, hr, heq⟩ := map_eq_ok.mp hread
  simp only [Prod.mk.injEq] at heq
  obtain ⟨hon, hwalk, htop⟩ := heq
  rw [← hon] at hfeatures
  exact ⟨r, hr, hfeatures, hwalk, htop, ((features_eq_reading_iff hr).mp hfeatures).2.1⟩

theorem features_ne_reading :
    (∃ r, Reading.ofText (.ofString "from .__future__ import print_function\nprint x\n") .none = .ok r ∧
      r.features = .none ∧
      (ofText (.ofString "from .__future__ import print_function\nprint x\n") .none).features =
        .ok (.only .printFunction)) ∧
    ∃ r, Reading.ofText (.ofString "def f():\n    from __future__ import division\n") .none = .ok r ∧
      r.features = .only .division ∧
      (ofText (.ofString "def f():\n    from __future__ import division\n") .none).features = .ok .none := by
  have hrelative : (Reading.ofText (.ofString "from .__future__ import print_function\nprint x\n") .none).map
      Reading.features = .ok .none := by decide +kernel
  have hnested : (Reading.ofText (.ofString "def f():\n    from __future__ import division\n") .none).map
      Reading.features = .ok (.only .division) := by decide +kernel
  obtain ⟨r, hr, hnone⟩ := map_eq_ok.mp hrelative
  obtain ⟨r', hr', hdivision⟩ := map_eq_ok.mp hnested
  exact ⟨⟨r, hr, hnone, by decide +kernel⟩, r', hr', hdivision, by decide +kernel⟩

lemma ofText_iff_allows {t' : Text} {g : Features} (hr : Reading.ofText t f = .ok r) (hchars : t'.chars = t.chars) :
    (∃ r', Reading.ofText t' g = .ok r' ∧ r'.tree = r.tree ∧ r'.margin = r.margin) ↔ Dialect.Allows g r.tree := by
  obtain ⟨htree, hcheck, hmargin⟩ := Reading.ofText_iff.mp hr
  have hlines : t'.lines = t.lines := by rw [Text.lines, Text.lines, hchars]
  rw [← Dialect.check_iff_allows hcheck]
  constructor
  · rintro ⟨r', hr', heq, -⟩
    rw [← heq]
    exact ⟨_, (Reading.ofText_iff.mp hr').2.1⟩
  · rintro ⟨g', hg'⟩
    refine ⟨⟨r.tree, r.margin, g'⟩, Reading.ofText_iff.mpr ⟨?_, hg', ?_⟩, rfl, rfl⟩
    · rw [hlines]
      exact htree
    · rw [hlines]
      exact hmargin

lemma chars_applyTo (c : Changes) (t : Text) : (c.applyTo t).chars = t.chars := by
  unfold Changes.applyTo
  split <;> split <;> rfl

lemma body_iff_allows {t' : Text} {g : Features} {p : Placed} (hr : Reading.ofText t f = .ok r)
    (hp : r.placeIn t = .ok p) (hchars : t'.chars = t.chars) :
    ((∃ roots, (ofText t' g).body = .ok roots) ↔ Dialect.Allows g r.tree) ∧
      ∀ roots, (ofText t' g).body = .ok roots → roots.map Root.node = r.tree.children := by
  have hsame : ∀ {r'}, Reading.ofText t' g = .ok r' → r'.tree = r.tree ∧ r'.margin = r.margin := by
    intro r' hr'
    obtain ⟨htree, -, hmargin⟩ := Reading.ofText_iff.mp hr
    obtain ⟨htree', -, hmargin'⟩ := Reading.ofText_iff.mp hr'
    have hlines : t'.lines = t.lines := by rw [Text.lines, Text.lines, hchars]
    rw [hlines] at htree' hmargin'
    exact ⟨Except.ok.inj (htree'.symm.trans htree), hmargin'.trans hmargin.symm⟩
  simp only [body_eq_ok]
  constructor
  · rw [← ofText_iff_allows hr hchars]
    constructor
    · rintro ⟨_, r', -, hr', -⟩
      exact ⟨r', hr', hsame hr'⟩
    · rintro ⟨r', hr', htree, hmargin⟩
      have hplace : r'.placeIn t = .ok p := by
        rw [← hp, Reading.placeIn, Reading.placeIn, htree, hmargin]
      have hplace' := (Reading.exists_placeIn_iff t).mp ⟨p, hplace⟩
      rw [← hchars, ← Reading.exists_placeIn_iff] at hplace'
      obtain ⟨p', hp'⟩ := hplace'
      exact ⟨_, r', p', hr', hp', rfl⟩
  · rintro _ ⟨r', p', hr', hp', rfl⟩
    rw [map_node_roots hr' hp', (hsame hr').1]

/-- A block is read again under its own features in effect, and gives the same tree, exactly if
`print` is not used as a statement in it or still can be; otherwise its first `print` statement is
refused. -/
theorem reread_iff_allows (he : (ofText t f).features = .ok e) : ∃ r, Reading.ofText t f = .ok r ∧
    ((∃ r', Reading.ofText t e = .ok r' ∧ r'.tree = r.tree ∧ r'.margin = r.margin) ↔ Dialect.Allows e r.tree) ∧
    (∀ m, e.has .printFunction = true → r.tree.walk.find? isPrint = some m →
      Reading.ofText t e = .error (.rejectedAt "invalid syntax" (t.start.plus (placeOf m)))) ∧
    ∀ c : Changes, c.isEmpty = false →
      ((c.features.getD .none).has .printFunction = true → e.has .printFunction = true) →
      ∃ b, ofInput (.block (ofText t f)) c = .ok b ∧
        ((∃ roots, b.body = .ok roots) ↔ Dialect.Allows e r.tree) ∧
        ∀ roots, b.body = .ok roots → roots.map Root.node = r.tree.children := by
  obtain ⟨r, p, hr, hp, -⟩ := features_eq_ok.mp he
  refine ⟨r, hr, ofText_iff_allows hr rfl, fun m hhas hm => ?_, fun c hc hkeeps => ?_⟩
  · obtain ⟨htree, hcheck, -⟩ := Reading.ofText_iff.mp hr
    have hfind := Dialect.find?_demands r.tree
    rw [hm, Option.map_some] at hfind
    rw [Reading.ofText_eq, htree]
    change (Dialect.check e r.tree).mapError _ >>= _ = _
    rw [Dialect.check, Dialect.meetAll_eq_printStatement hhas hfind hcheck]
    rfl
  · have hb : ofInput (.block (ofText t f)) c =
        .ok (ofText (c.applyTo t) (c.features.getD .none ||| e)) := by
      simp only [ofInput, hc, Bool.false_eq_true, if_false, changed, he]
      rfl
    have hallows : Dialect.Allows (c.features.getD .none ||| e) r.tree ↔ Dialect.Allows e r.tree := by
      rw [Dialect.Allows, Features.has_union, or_iff_right_of_imp hkeeps, Dialect.Allows]
    refine ⟨_, hb, ?_⟩
    rw [← hallows]
    exact body_iff_allows hr hp (chars_applyTo c t)

theorem reread_print_call :
    (ofText (.ofString "from __future__ import print_function\nprint(x)\n") .none).features =
      .ok (.only .printFunction) ∧
    ∃ r r', Reading.ofText (.ofString "from __future__ import print_function\nprint(x)\n") .none = .ok r ∧
      Reading.ofText (.ofString "from __future__ import print_function\nprint(x)\n") (.only .printFunction) = .ok r' ∧
      r'.tree = r.tree ∧
      ∃ b roots, ofInput (.block (ofText (.ofString "from __future__ import print_function\nprint(x)\n") .none))
        ⟨none, some ⟨4, 2⟩, none⟩ = .ok b ∧ b.body = .ok roots ∧ roots.map Root.node = r.tree.children := by
  have hfeatures : (ofText (.ofString "from __future__ import print_function\nprint(x)\n") .none).features =
      .ok (.only .printFunction) := by decide +kernel
  have hprints : (Reading.ofText (.ofString "from __future__ import print_function\nprint(x)\n") .none).map
      (fun r => r.tree.walk.all fun n => !isPrint n) = .ok true := by decide +kernel
  obtain ⟨r₀, hr₀, hnone⟩ := map_eq_ok.mp hprints
  obtain ⟨r, hr, hagain, -, hchanged⟩ := reread_iff_allows hfeatures
  obtain rfl := Except.ok.inj (hr₀.symm.trans hr)
  have hallows : Dialect.Allows (.only .printFunction) r₀.tree := by
    intro _ n hn
    simpa using List.all_eq_true.mp hnone n hn
  obtain ⟨r', hr', htree, -⟩ := hagain.mpr hallows
  obtain ⟨b, hb, hbody, hnodes⟩ := hchanged ⟨none, some ⟨4, 2⟩, none⟩ rfl (fun _ => by decide)
  obtain ⟨roots, hroots⟩ := hbody.mpr hallows
  exact ⟨hfeatures, r₀, r', hr, hr', htree, b, roots, hb, hroots, hnodes roots hroots⟩

theorem reread_print_before_import :
    (∃ r, Reading.ofText (.ofString "print x\nfrom __future__ import print_function\n") .none = .ok r) ∧
    (ofText (.ofString "print x\nfrom __future__ import print_function\n") .none).features =
      .ok (.only .printFunction) ∧
    Reading.ofText (.ofString "print x\nfrom __future__ import print_function\n") (.only .printFunction) =
      .error (.rejectedAt "invalid syntax" .start) := by
  have hread : (Reading.ofText (.ofString "print x\nfrom __future__ import print_function\n") .none).isOk = true := by
    decide +kernel
  have hagain : (Reading.ofText (.ofString "print x\nfrom __future__ import print_function\n")
      (.only .printFunction)).map (fun _ => ()) = .error (.rejectedAt "invalid syntax" .start) := by
    decide +kernel
  exact ⟨isOk_iff.mp hread, by decide +kernel, map_eq_error.mp hagain⟩

end Block

end SourceBlocks
