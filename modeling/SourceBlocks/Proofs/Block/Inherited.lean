import SourceBlocks.Proofs.Block.Tiling
import SourceBlocks.Proofs.Features

namespace SourceBlocks.Block

open Outcome

variable {b : Block} {f : Features} {roots : List Root} {ss : List Statement}

/-- The blocks that come of a text by reading it, by making blocks with changes from them and by taking their
statements and groups. -/
inductive Derived : Block → Prop
  | ofText (t : Text) (f : Features) : Derived (ofText t f)
  | afterReading {b : Block} (n : Nat) : Derived b → Derived (b.afterReading n)
  | ofInput {i : Input} {c : Changes} {b : Block} : (∀ a, i = .block a → Derived a) →
      (∀ s, i = .statement s → Derived s.block) → ofInput i c = .ok b → Derived b
  | statement {b : Block} {ss : List Statement} {s : Statement} : Derived b →
      b.statements = .ok ss → s ∈ ss → Derived s.block
  | group {κ : Type} [BEq κ] {key : Statement → Except Error κ} {b : Block} {gs : List (κ × Block)}
      {g : κ × Block} : Derived b → b.groupBy key = .ok gs → g ∈ gs → Derived g.2

lemma Derived.reachable (h : b.Derived) : b.Reachable := by
  induction h with
  | ofText t f => exact .ofText t f
  | afterReading n _ ih => exact .afterReading n ih
  | ofInput _ _ hb ihb ihs => exact .ofInput ihb ihs hb
  | statement _ hss hs ih => exact .statement ih hss hs
  | group _ hgs hg ih => exact .group ih hgs hg

/-- The features in effect are those asked for together with those that the nodes switch on. -/
def Coherent (b : Block) : Prop :=
  ∀ f, b.features = .ok f → ∃ source, b.sourceFeatures = .ok source ∧ f = b.inputFeatures ||| source

lemma coherent_of_not_carved (h : b.carvedUnder = none) : b.Coherent := by
  intro f hf
  simp only [features, h, bind_eq_ok, pure_eq_ok] at hf
  obtain ⟨source, hsource, rfl⟩ := hf
  exact ⟨source, hsource, rfl⟩

lemma on_sourceFeatures {source : Features} (h : b.sourceFeatures = .ok source) (hroots : b.body = .ok roots)
    (i : Nat) : source.On i ↔ ∃ r ∈ roots, (featuresOf r.node).On i := by
  rw [sourceFeatures, hroots] at h
  obtain rfl := Except.ok.inj h
  simp [Features.on_foldl_union, Features.not_on_none]

lemma Coherent.on_of_mem (hb : b.Coherent) (hf : b.features = .ok f) (hroots : b.body = .ok roots) {r : Root}
    (hr : r ∈ roots) {i : Nat} (hi : (featuresOf r.node).On i) : f.On i := by
  obtain ⟨source, hsource, rfl⟩ := hb f hf
  rw [Features.on_union]
  exact .inr ((on_sourceFeatures hsource hroots i).mpr ⟨r, hr, hi⟩)

lemma coherent_carved {t : Text} {single : Bool} (h : ∀ r ∈ roots, ∀ i, (featuresOf r.node).On i → f.On i) :
    (carved t roots f single).Coherent := by
  intro g hg
  obtain rfl : f = g := Except.ok.inj hg
  refine ⟨_, rfl, Features.eq_of_on fun i => ?_⟩
  have hsource := on_sourceFeatures (b := carved t roots f single) rfl rfl i
  change f.On i ↔ (f ||| _).On i
  rw [Features.on_union, hsource, or_iff_left_of_imp]
  rintro ⟨r, hr, hi⟩
  exact h r hr i hi

lemma sourceFeatures_afterReading (b : Block) (n : Nat) : (b.afterReading n).sourceFeatures = b.sourceFeatures := by
  have hfold : ∀ o : Except Error (List Root),
      (o >>= fun roots => pure (roots.foldl (fun f r => f ||| featuresOf r.node) .none)) =
        (o.map (List.map Root.node)).map fun ns => ns.foldl (fun f m => f ||| featuresOf m) Features.none := by
    intro o
    cases o with
    | error e => rfl
    | ok roots => simp [bind, Except.bind, pure, Except.pure, Except.map, List.foldl_map]
  rw [sourceFeatures, sourceFeatures, hfold, hfold]
  exact congrArg _ (b.map_node_outcome n 0)

lemma features_afterReading (b : Block) (n : Nat) : (b.afterReading n).features = b.features := by
  rw [features, features, sourceFeatures_afterReading]
  rfl

lemma Coherent.afterReading (hb : b.Coherent) (n : Nat) : (b.afterReading n).Coherent := by
  intro f hf
  rw [features_afterReading] at hf
  rw [sourceFeatures_afterReading]
  exact hb f hf

lemma features_of_mem_statements (h : b.statements = .ok ss) {s : Statement} (hs : s ∈ ss) :
    s.block.features = b.features := by
  rcases mem_statements h hs with hself | ⟨_, _, _, f, _, -, -, -, -, hf, rfl⟩
  · rw [hself]
    rfl
  · exact hf.symm

lemma Coherent.statement (hb : b.Coherent) (h : b.statements = .ok ss) {s : Statement} (hs : s ∈ ss) :
    s.block.Coherent := by
  rcases mem_statements h hs with hself | ⟨roots, _, _, f, c, -, hroots, -, -, hf, rfl⟩
  · rw [hself]
    exact hb
  · refine coherent_carved fun r hr i hi => hb.on_of_mem hf hroots ?_ hi
    obtain ⟨j, -, hj⟩ := Option.bind_eq_some_iff.mp (Option.mem_toList.mp hr)
    exact List.mem_of_getElem? hj

lemma coherent_concat {bs : List Block} (h : ∀ a ∈ bs, a.Coherent ∧ a.features = .ok f) (hb : concat bs = .ok b) :
    b.Coherent ∧ b.features = .ok f := by
  rcases concat_eq_ok hb with rfl | ⟨a, rest, bodies, g, rfl, hbodies, hg, rfl⟩
  · exact h b List.mem_cons_self
  · obtain rfl : f = g := Except.ok.inj ((h a List.mem_cons_self).2.symm.trans hg)
    refine ⟨coherent_carved fun r hr i hi => ?_, rfl⟩
    obtain ⟨roots, hroots, hr⟩ := List.mem_flatten.mp hr
    obtain ⟨c, hc, hbody⟩ := exists_of_mem_mapM hbodies hroots
    exact (h c hc).1.on_of_mem (h c hc).2 hbody hr hi

lemma Reachable.exists_features (hb : b.Reachable) (h : b.statements = .ok ss) : ∃ f, b.features = .ok f := by
  obtain ⟨nodes, -, hbody⟩ := (hb.tiled h).nodes
  rw [features]
  split
  · next f _ => exact ⟨f, rfl⟩
  · rw [sourceFeatures, hbody]
    exact ⟨_, rfl⟩

lemma Coherent.group {κ : Type} [BEq κ] {key : Statement → Except Error κ} {gs : List (κ × Block)} (hb : b.Coherent)
    (hf : b.features = .ok f) (h : b.groupBy key = .ok gs) : ∀ g ∈ gs, g.2.Coherent ∧ g.2.features = .ok f := by
  intro g hg
  obtain ⟨ss, run, hss, hrun, hconcat⟩ := mem_groupBy h hg
  refine coherent_concat (fun a ha => ?_) hconcat
  obtain ⟨s, hs, rfl⟩ := List.mem_map.mp ha
  exact ⟨hb.statement hss (hrun s hs), (features_of_mem_statements hss (hrun s hs)).trans hf⟩

lemma exists_statements_of_groupBy {κ : Type} [BEq κ] {key : Statement → Except Error κ} {gs : List (κ × Block)}
    (h : b.groupBy key = .ok gs) : ∃ ss, b.statements = .ok ss := by
  rw [groupBy, bind_eq_ok] at h
  obtain ⟨ss, hss, -⟩ := h
  exact ⟨ss, hss⟩

lemma Derived.coherent (h : b.Derived) : b.Coherent := by
  induction h with
  | ofText t f => exact coherent_of_not_carved rfl
  | afterReading n _ ih => exact ih.afterReading n
  | ofInput _ _ hb ihb ihs =>
    rcases ofInput_eq_ok hb with ⟨t, f, rfl⟩ | hi | ⟨s, hi, rfl⟩
    · exact coherent_of_not_carved rfl
    · exact ihb _ hi
    · exact ihs s hi
  | statement _ hss hs ih => exact ih.statement hss hs
  | @group _ _ _ b gs g hderived hgs hg ih =>
    obtain ⟨ss, hss⟩ := exists_statements_of_groupBy hgs
    obtain ⟨f, hf⟩ := hderived.reachable.exists_features hss
    exact (ih.group hf hgs g hg).1

/-- The features in effect in a block that comes of a text are those asked for and those that its nodes switch on,
and its statements and groups have them all. -/
theorem features_inherited (hb : b.Derived) :
    (∀ f, b.features = .ok f → ∃ source, b.sourceFeatures = .ok source ∧ f = b.inputFeatures ||| source) ∧
    (∀ ss, b.statements = .ok ss → ∃ f, b.features = .ok f ∧ ∀ s ∈ ss, s.block.features = .ok f) ∧
    ∀ (κ : Type) [BEq κ] (key : Statement → Except Error κ) (gs : List (κ × Block)), b.groupBy key = .ok gs →
      ∃ f, b.features = .ok f ∧ ∀ g ∈ gs, g.2.features = .ok f := by
  refine ⟨hb.coherent, fun ss hss => ?_, fun κ _ key gs hgs => ?_⟩
  · obtain ⟨f, hf⟩ := hb.reachable.exists_features hss
    exact ⟨f, hf, fun s hs => (features_of_mem_statements hss hs).trans hf⟩
  · obtain ⟨ss, hss⟩ := exists_statements_of_groupBy hgs
    obtain ⟨f, hf⟩ := hb.reachable.exists_features hss
    exact ⟨f, hf, fun g hg => (hb.coherent.group hf hgs g hg).2⟩

theorem features_inherited_import : ∃ ss gs,
    (ofText (.ofString "from __future__ import division\n# c\nx = 1\n") .none).statements = .ok ss ∧
    (ofText (.ofString "from __future__ import division\n# c\nx = 1\n") .none).groupBy Statement.kind = .ok gs ∧
    ss.length = 3 ∧ gs.length = 3 ∧ (∀ s ∈ ss, s.block.features = .ok (.only .division)) ∧
    (∀ g ∈ gs, g.2.features = .ok (.only .division)) ∧
    ∀ s ∈ ss, ∃ source, s.block.sourceFeatures = .ok source ∧ .only .division = s.block.inputFeatures ||| source := by
  have hfeatures : (ofText (.ofString "from __future__ import division\n# c\nx = 1\n") .none).features =
      .ok (.only .division) := by decide +kernel
  have hstatements : (ofText (.ofString "from __future__ import division\n# c\nx = 1\n") .none).statements.map
      List.length = .ok 3 := by decide +kernel
  have hgroups : ((ofText (.ofString "from __future__ import division\n# c\nx = 1\n") .none).groupBy
      Statement.kind).map List.length = .ok 3 := by decide +kernel
  have hderived := Derived.ofText (.ofString "from __future__ import division\n# c\nx = 1\n") .none
  obtain ⟨-, hall, hgroup⟩ := features_inherited hderived
  obtain ⟨ss, hss, hlength⟩ := map_eq_ok.mp hstatements
  obtain ⟨gs, hgs, hlength'⟩ := map_eq_ok.mp hgroups
  obtain ⟨f, hf, hmembers⟩ := hall ss hss
  obtain ⟨g, hg, hmembers'⟩ := hgroup _ Statement.kind gs hgs
  obtain rfl := Except.ok.inj (hf.symm.trans hfeatures)
  obtain rfl := Except.ok.inj (hg.symm.trans hfeatures)
  refine ⟨ss, gs, hss, hgs, hlength, hlength', hmembers, hmembers', fun s hs => ?_⟩
  exact (features_inherited (.statement hderived hss hs)).1 _ (hmembers s hs)

end SourceBlocks.Block
