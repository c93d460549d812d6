import SourceBlocks.Grammar.CasePatterns
import SourceBlocks.Grammar.Hints
import SourceBlocks.Proofs.Grammar.Operands

namespace SourceBlocks.Lexis.Source

open Grammar Grammar.Parser
open SourceBlocks.Tree (Field Mark Node Shape)

variable {S : Source} {g : Rules Node}

attribute [local simp] Shape.children Shape.fieldNodes Shape.fields Field.nodes

lemma laid_name {i j k : Nat} (w : String) (hij : i ≤ j) (hjk : j < k) :
    S.Laid i [marked (S.placeAt j) (.name w)] k :=
  laid_marked hij hjk (by simpa using .nil (Nat.le_of_lt hjk))

lemma reads_typeParameters (hg : g.Sound S) : S.Reads (typeParameters g) S.PhraseIn := by
  intro i
  dsimp only [typeParameters]
  refine yields_here (.symbol (by decide) fun j h => .token fun j₁ h₁ => ?_)
  refine (hg.hint _ _ j₁).bind fun first j₂ hf => ?_
  refine (reads_series (reads_separated (hg.hint _ _) PhraseIn.lowers) _ j₂).bind fun (more, _) k hm => ?_
  have hall := (hf.laid.mono_lo (show i ≤ j₁ by omega)).cons hm.laid_nodes
  exact yields_close (by have := hf.lt; have := hm.laid_nodes.le; omega) (by simpa using hall) (by decide)

lemma reads_genericName (follow : Follow) : S.Reads (genericName follow) S.PhraseIn := by
  intro i
  rw [genericName]
  refine .get fun c _ _ => .require fun _ => (reads_nameAtom i).bind fun p j hp => .require fun _ => ?_
  refine .token fun k hk => .startsWith fun _ => .require fun _ => ?_
  exact .pure (hp.mono (Nat.le_refl i) hk)

lemma reads_starType {stars : String} (hs : stars ≠ "") :
    S.Reads (starType stars) S.PhraseIn := by
  intro i
  rw [starType]
  refine yields_here ((reads_symbol hs i).bind fun _ j h => .token fun j₁ h₁ => ?_)
  refine yields_here ((reads_name j₁).bind fun w k hk => .stay stays_index fun _ => .pure ?_)
  exact .leaf (Nat.le_refl i) (by omega) (by simpa using laid_name w (by omega) hk)

lemma reads_simpleType (hg : g.Sound S) (site : Site) : S.Reads (simpleType g site) S.PhraseIn := by
  intro i
  rw [simpleType]
  refine .startsWith fun _ => .fork (reads_starType (by decide) i) ?_
  refine .startsWith fun _ => .fork (reads_starType (by decide) i) ?_
  refine (reads_genericName _ i).optional.bind fun o j ho => ?_
  rcases ho with ⟨rfl, rfl⟩ | ⟨p, rfl, hp⟩
  · exact hg.expr _ _ j
  · exact (reads_typeParameters hg j).bind fun q k hq => .pure (hp.extend (by simp) hq.laid)

lemma yields_moreType (hg : g.Sound S) (site : Site) (n : Nat) {i j : Nat} {p : Phrase Node}
    (hp : S.PhraseIn i p j) : S.Yields j (moreType g site n p) (S.PhraseIn i) := by
  induction n generalizing j p with
  | zero => exact .fail
  | succ n ih =>
    rw [moreType]
    refine (reads_look _ _ j).bind fun _ j₁ h₁ => .fork (.pure (hp.mono (Nat.le_refl i) h₁)) ?_
    refine (reads_symbol? (by decide) j₁).bind fun _ j₂ ⟨h₂, _⟩ => .fork ?_ ?_
    · refine .operand fun j₃ h₃ => (reads_simpleType hg site j₃).bind fun q k hq => ih ?_
      exact hp.extend (by simp) (hq.laid.mono_lo (by omega))
    refine (reads_symbol? (by decide) j₂).bind fun _ j₃ ⟨h₃, _⟩ => .fork ?_ ?_
    · refine .token fun j₄ h₄ => yields_here ((reads_name j₄).bind fun w k hk => ?_)
      exact .stay stays_index fun _ => ih (hp.extend (by simp) (laid_name w (by omega) hk))
    · exact .pure (hp.mono (Nat.le_refl i) (by omega))

lemma reads_hint (hg : g.Sound S) (site : Site) (colon : Bool) : S.Reads (hint g site colon) S.PhraseIn := by
  intro i
  dsimp only [hint]
  refine (reads_simpleType hg site i).bind fun first j hf => (yields_moreType hg site _ hf).bind fun p j₁ hp => ?_
  refine .ite_bind (Q := Goes j₁) ?_ fun constrained j₂ (h₂ : j₁ ≤ j₂) => .fork ?_ ?_
  · refine .fork ?_ <| .pure (Nat.le_refl j₁)
    exact goes_both (reads_look _ _) (stays_startsWith _).goes j₁
  · refine .symbol (by decide) fun j₃ h₃ => .operand fun j₄ h₄ => ?_
    refine (hg.hint _ _ j₄).bind fun q k hq => .pure (hp.extend (by simp) (hq.laid.mono_lo (by omega)))
  · exact .pure (hp.mono (Nat.le_refl i) h₂)

lemma reads_dottedPattern (follow : Follow) : S.Reads (dottedPattern g follow) S.PhraseIn := by
  intro i
  dsimp only [dottedPattern]
  refine yields_here ((reads_name i).bind fun w j hj => .stay stays_index fun _ => ?_)
  refine (reads_collect (R := fun i r j => S.NodeIn i r.1 j) (fun k => ?_) _ j).bind fun more m hm => .pure ?_
  · refine .token fun k₁ h₁ => (reads_symbol? (by decide) k₁).bind fun _ k₂ ⟨h₂, _⟩ => ?_
    refine .fork ?_ <| .pure (show k ≤ k₂ by omega)
    refine .token fun k₃ h₃ => yields_here ((reads_name k₃).bind fun w k₄ h₄ => ?_)
    exact .stay stays_index fun _ => .pure (laid_name w (by omega) h₄)
  · have hmore := (hm.map (f := Prod.fst) fun _ _ _ h => h).laid_self
    have hall := (laid_name w (Nat.le_refl i) hj).cons hmore
    exact .leaf (Nat.le_refl i) (Nat.lt_of_lt_of_le hj hmore.le) (by simpa using hall)

lemma reads_patternGroup (closing : String) {item : Parser (List Node)} (hitem : S.Reads item S.Laid) :
    S.Reads (patternGroup g closing item) S.Laid := by
  intro i
  dsimp only [patternGroup]
  refine .token fun j h => .startsWith fun _ => ?_
  refine .fork (.pure (.nil h)) <| (hitem j).bind fun first j₁ hf => ?_
  refine (reads_collect (R := S.Laid) (fun k => ?_) _ j₁).bind fun more k hm => .pure ?_
  · refine .token fun k₁ h₁ => (reads_symbol? (by decide) k₁).bind fun _ k₂ ⟨h₂, _⟩ => ?_
    refine .fork (.pure (show k ≤ k₂ by omega)) <| .token fun k₃ h₃ => ?_
    refine .startsWith fun _ => .fork (.pure (.nil (by omega))) ?_
    exact (hitem k₃).bind fun ns k₄ hns => .pure (hns.mono_lo (by omega))
  · have hmore := hm.laid (f := id) fun _ _ _ h => h
    rw [List.flatMap_id] at hmore
    exact (hf.mono_lo h).append hmore

lemma reads_groupItem (hg : g.Sound S) : S.Reads (groupItem g) S.Laid := by
  intro i
  rw [groupItem]
  exact (hg.casePattern _ i).bind fun p j hp => .pure hp.laid

lemma reads_namePattern (hg : g.Sound S) (follow : Follow) : S.Reads (namePattern g follow) S.PhraseIn := by
  intro i
  rw [namePattern]
  refine (reads_dottedPattern follow i).bind fun p j hp => (reads_look _ _ j).bind fun _ j₁ h₁ => ?_
  refine (reads_symbol? (by decide) j₁).bind fun _ j₂ ⟨h₂, _⟩ => .fork ?_ ?_
  · refine (reads_patternGroup _ (reads_groupItem hg) j₂).bind fun parts j₃ hparts => ?_
    obtain ⟨a, hia, haj, hs, hn, -⟩ := hp
    rw [hs]
    have hall : S.Laid a (Shape.other "class_pattern" (p.node :: parts)).children j₃ := by
      simpa using hn.cons (hparts.mono_lo (show j ≤ j₂ by omega))
    exact Yields.mono (yields_close (by have := hparts.le; omega) hall (by decide)) fun q k hq => PhraseIn.lowers hq hia
  · exact .pure (hp.mono (Nat.le_refl i) (by omega))

def BareIn (S : Source) (lo : Nat) (b : Bare Node) (hi : Nat) : Prop :=
  S.PhraseIn lo b.phrase hi ∧ (b.nodes = [b.phrase.node] ∨ b.nodes = [] ∧ b.phrase.lead = none)

lemma bareIn_ofPhrase {i j : Nat} {p : Phrase Node} (h : S.PhraseIn i p j) : S.BareIn i (.ofPhrase p) j :=
  ⟨h, .inl rfl⟩

namespace BareIn

variable {i j k : Nat} {b : Bare Node}

lemma laid (h : S.BareIn i b j) : S.Laid i b.nodes j := by
  obtain ⟨hp, hn | ⟨hn, -⟩⟩ := h
  · exact hn ▸ hp.laid
  · exact hn ▸ .nil (Nat.le_of_lt hp.lt)

lemma mono {lo hi : Nat} (h : S.BareIn i b j) (hlo : lo ≤ i) (hhi : j ≤ hi) : S.BareIn lo b hi :=
  ⟨h.1.mono hlo hhi, h.2⟩

lemma extend {stop : Nat} {shape : Shape Node} {ns : List Node} (h : S.BareIn i b j)
    (hc : shape.children = b.nodes ++ ns) (hns : S.Laid j ns k) :
    S.PhraseIn i (b.phrase.extend stop shape) k := by
  obtain ⟨hp, hn | ⟨hn, hl⟩⟩ := h
  · exact hp.extend (by rw [hc, hn]; rfl) hns
  · refine hp.extend_of hns.le (fun a ha => ?_) (by simp [hl])
    rw [hc, hn]
    exact hns.mono_lo ha.le

lemma setApart (h : S.BareIn i b j) : S.PhraseIn i (setApart b) j :=
  h.extend (by simp) (.nil (Nat.le_refl j))

end BareIn

lemma reads_numberPattern (follow : Follow) : S.Reads (numberPattern follow) S.BareIn := by
  intro i
  dsimp only [numberPattern]
  refine yields_here ((reads_symbol? (by decide) i).bind fun _ j ⟨h, _⟩ => ?_)
  refine .ite_then (Q := fun k => i ≤ k) (fun _ => ?_) (fun _ => h) fun j₁ h₁ => ?_
  · exact (reads_toToken _ _ j).mono fun _ k hk => Nat.le_trans h hk
  refine (reads_numeral j₁).bind fun p j₂ hp => (reads_look _ _ j₂).bind fun _ j₃ h₃ => ?_
  have hlt := hp.lt
  refine .stay (stays_nextIn _) fun _ => .fork ?_ <| .pure ?_
  · refine (reads_advance 1 j₃).bind fun _ j₄ h₄ => .token fun j₅ h₅ => ?_
    refine (reads_numeral j₅).bind fun q k hq => .pure (bareIn_ofPhrase ?_)
    have hall := (hp.laid.mono h₁ (show j₂ ≤ j₅ by omega)).cons hq.laid
    exact .leaf (Nat.le_refl i) (by have := hq.lt; omega) (by simpa using hall)
  · refine ⟨⟨i, Nat.le_refl i, by omega, rfl, hp.laid.mono h₁ h₃, ?_⟩, .inl rfl⟩
    obtain ⟨a, -, -, -, -, hl⟩ := hp
    exact hl

lemma reads_starPattern {stars : String} (hs : stars ≠ "") :
    S.Reads (starPattern stars) S.PhraseIn := by
  intro i
  rw [starPattern]
  refine yields_here ((reads_symbol hs i).bind fun _ j h => .token fun j₁ h₁ => ?_)
  refine yields_here ((reads_name j₁).bind fun w k hk => .stay stays_index fun _ => .pure ?_)
  refine .leaf (Nat.le_refl i) (by omega) ?_
  split_ifs
  · simpa using .nil (by omega)
  · simpa using laid_name w (by omega) hk

lemma reads_closedPattern (hg : g.Sound S) (follow : Follow) {entry : Parser (List Node)}
    (he : S.Reads entry S.Laid) : S.Reads (closedPattern g follow entry) S.BareIn := by
  intro i
  rw [closedPattern]
  refine .get fun c hc hi => .fork ?_ ?_
  · exact (reads_stringRun hg follow i).bind fun p j hp => .pure (bareIn_ofPhrase hp)
  rw [show c.place = S.placeAt i from hi ▸ hc.place]
  -- patterns in brackets behind the opening one
  have inBrackets : ∀ {closing : String} {item : Parser (List Node)} {shape : List Node → Shape Node},
      c.rest ≠ [] → closing ≠ "" → S.Reads item S.Laid → (∀ ns, (shape ns).children = ns) → S.Yields i (do
        advance 1
        let parts ← patternGroup g closing item
        Bare.ofPhrase <$> close (S.placeAt i) closing (shape parts)) (S.BareIn i) := by
    intro closing item shape hr hcl hitem hs
    refine (yields_advance hc hi hr (by decide)).bind fun _ j hj => ?_
    refine (reads_patternGroup closing hitem j).bind fun parts k hparts => ?_
    have hall : S.Laid i (shape parts).children k := by
      rw [hs]
      exact hparts.mono_lo (Nat.le_of_lt hj)
    exact (yields_close (Nat.lt_of_lt_of_le hj hparts.le) hall hcl).map fun p m hp => bareIn_ofPhrase hp
  split
  · exact (reads_starPattern (by decide) i).map fun p j hp => bareIn_ofPhrase hp
  · exact (reads_starPattern (by decide) i).map fun p j hp => bareIn_ofPhrase hp
  · next hr => exact inBrackets (by simp [hr]) (by decide) (reads_groupItem hg) (by simp)
  · next hr => exact inBrackets (by simp [hr]) (by decide) (reads_groupItem hg) (by simp)
  · next hr => exact inBrackets (by simp [hr]) (by decide) he (by simp)
  · next hr =>
    refine .fork (.stay stays_wordHere fun w => .fork ?_ ?_) ?_
    · refine (yields_advance hc hi (by simp [hr]) (by decide)).bind fun _ j hj => .stay stays_index fun _ => .pure ?_
      exact ⟨.leaf (Nat.le_refl i) hj (by simpa using .nil (Nat.le_of_lt hj)), .inr ⟨rfl, rfl⟩⟩
    · refine .fork ?_ ?_
      · exact (reads_nameAtom i).map fun p j hp => bareIn_ofPhrase hp
      · exact (reads_namePattern hg follow i).map fun p j hp => bareIn_ofPhrase hp
    · exact reads_numberPattern follow i
  · exact .fail

lemma reads_barPattern (hg : g.Sound S) (follow : Follow) {entry : Parser (List Node)}
    (he : S.Reads entry S.Laid) : S.Reads (barPattern g follow entry) S.BareIn := by
  intro i
  dsimp only [barPattern]
  refine (reads_closedPattern hg follow he i).bind fun first j hf => ?_
  refine (reads_collect (R := S.BareIn) (fun k => ?_) _ j).bind fun more m hm => ?_
  · refine .token fun k₁ h₁ => (reads_symbol? (by decide) k₁).bind fun _ k₂ ⟨h₂, _⟩ => ?_
    refine .fork ?_ <| .pure (show k ≤ k₂ by omega)
    refine .token fun k₃ h₃ => (reads_closedPattern hg follow he k₃).bind fun b k₄ hb => ?_
    exact .pure (hb.mono (by omega) (Nat.le_refl _))
  · have hmore := hm.laid (f := Bare.nodes) fun _ _ _ h => h.laid
    split
    · exact .pure (hf.mono (Nat.le_refl i) hmore.le)
    · exact .pure (bareIn_ofPhrase (hf.extend (by simp) hmore))

lemma reads_entryPattern (hg : g.Sound S) (n : Nat) : S.Reads (entryPattern g n) S.Laid := by
  induction n with
  | zero => exact fun _ => .fail
  | succ n ih =>
    intro i
    dsimp only [entryPattern]
    refine .startsWith fun _ => .fork ?_ ?_
    · refine Yields.bind (.or (reads_starPattern (by decide) i) (reads_starPattern (by decide) i)) ?_
      exact fun p j hp => .pure hp.laid
    · refine (reads_barPattern hg _ ih i).bind fun key j hk => .token fun j₁ h₁ => ?_
      refine .symbol (by decide) fun j₂ h₂ => .token fun j₃ h₃ => ?_
      refine (hg.casePattern _ j₃).bind fun value k hv => .pure ?_
      exact (hk.laid.mono_hi (show j ≤ j₃ by omega)).append hv.laid

lemma reads_keywordPattern (hg : g.Sound S) (follow : Follow) :
    S.Reads (keywordPattern g follow) S.BareIn := by
  intro i
  rw [keywordPattern]
  refine yields_here ((reads_name i).bind fun w j hj => .require fun _ => .token fun j₁ h₁ => ?_)
  refine .startsWith fun _ => .require fun _ => .symbol (by decide) fun j₂ h₂ => ?_
  refine .token fun j₃ h₃ => ?_
  refine (reads_barPattern hg follow (reads_entryPattern hg _) j₃).bind fun b k hb => .pure (bareIn_ofPhrase ?_)
  have hall := (laid_name (S := S) w (Nat.le_refl i) (show i < j₃ by omega)).cons hb.laid
  exact .leaf (Nat.le_refl i) (by have := hb.laid.le; omega) (by simpa using hall)

lemma yields_namedPattern (follow : Follow) (n : Nat) {i j : Nat} {p : Phrase Node} (hp : S.PhraseIn i p j) :
    S.Yields j (Grammar.namedPattern follow n p) (S.PhraseIn i) := by
  induction n generalizing j p with
  | zero => exact .fail
  | succ n ih =>
    rw [Grammar.namedPattern]
    refine .token fun j₁ h₁ => (reads_keyword? (by decide) j₁).bind fun _ j₂ ⟨h₂, _⟩ => ?_
    refine .fork ?_ <| .pure (hp.mono (Nat.le_refl i) (by omega))
    refine .token fun j₃ h₃ => yields_here ((reads_name j₃).bind fun w k hk => ?_)
    refine .stay stays_index fun _ => ih (bareIn_ofPhrase ?_).setApart
    exact hp.extend (by simp) (laid_name w (by omega) hk)

lemma reads_casePattern (hg : g.Sound S) (follow : Follow) : S.Reads (casePattern g follow) S.PhraseIn := by
  intro i
  rw [casePattern]
  refine Yields.bind (.or (reads_keywordPattern hg follow i)
    (reads_barPattern hg follow (reads_entryPattern hg _) i)) fun b j hb => ?_
  exact yields_namedPattern follow _ hb.setApart

end SourceBlocks.Lexis.Source
