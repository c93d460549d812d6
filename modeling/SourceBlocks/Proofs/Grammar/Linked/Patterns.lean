import SourceBlocks.Grammar.CasePatterns
import SourceBlocks.Proofs.Grammar.Linked.Operands

namespace SourceBlocks.Grammar

open Lexis Grammar.Parser
open SourceBlocks.Tree (Node Shape)

variable {τ : Type} {L : Links τ}

structure Links.Bares (L : Links τ) (b : Bare τ) (b' : Bare Node) : Prop where
  phrase : L.Phrases b.phrase b'.phrase
  nodes : L.values b.nodes b'.nodes

lemma Links.Phrases.bares {p : Phrase τ} {p' : Phrase Node} (h : L.Phrases p p') :
    L.Bares (.ofPhrase p) (.ofPhrase p') := ⟨h, .cons h.value .nil⟩

variable [Builder τ] {g : Rules τ} {g' : Rules Node}

lemma Links.Lawful.bares (hL : L.Lawful) {p : Phrase τ} {p' : Phrase Node} (h : L.operand p p') :
    L.Bares (.ofPhrase p) (.ofPhrase p') := (hL.phrases h).bares

lemma Links.Lawful.phrases_other (hL : L.Lawful) {k : String} (hk : k ∉ knownNames ∨ k ∈ knownValueNames) {p : Phrase τ}
    {p' : Phrase Node} {ts : List τ} {ns : List Node} (stop : Nat) (h : L.Phrases p p') (hs : L.values ts ns) :
    L.Phrases (p.extend stop (.other k ts)) (p'.extend stop (.other k ns)) := by
  refine ⟨?_, h.start, rfl, h.lead⟩
  have honset : (Onset.part p.start p.lead).inset L.shift = .part p'.start p'.lead := by
    rw [Onset.inset, h.start, h.lead]
  have hlaw := hL.other (.part p.start p.lead) hk hs
  rw [honset] at hlaw
  exact hlaw

lemma linked_dottedPattern (hL : L.Lawful) (hg : g.Linked L g') (follow : Follow) :
    Linked L.shift L.Phrases (dottedPattern g follow) (dottedPattern g' follow) := by
  refine .step insets_here fun start => .step alike_name fun id => .step alike_index fun stop => ?_
  refine .bind (.collect (R := fun a b => L.value a.1 b.1 ∧ b.2 = a.2) ?_ hg.bound) fun more more' hmore => .pure ?_
  · refine .token <| .symbol? fun _ => .ite ?_ (.pure .none)
    refine .token <| .step insets_here fun spot => .step alike_name fun id => ?_
    exact .step alike_index fun _ => .pure (.some ⟨hL.value_marked spot (.name id), rfl⟩)
  · refine ⟨hL.other (.token start) (by decide) (.cons (hL.value_marked start (.name id)) ?_), rfl, ?_, rfl⟩
    · exact List.rel_map (R := fun a b => L.value a.1 b.1 ∧ b.2 = a.2) (fun _ _ h => h.1) hmore
    · have hlast := rel_getLast? hmore
      generalize more.getLast? = x, more'.getLast? = x' at hlast
      cases hlast with
      | none => rfl
      | some h => exact h.2

omit [Builder τ] in
lemma linked_patternGroup (hg : g.Linked L g') (closing : String) {item : Parser (List τ)} {item' : Parser (List Node)}
    (hitem : Linked L.shift L.values item item') :
    Linked L.shift L.values (patternGroup g closing item) (patternGroup g' closing item') := by
  refine .token <| .startsWith fun _ => .ite (.pure .nil) ?_
  refine .bind hitem fun first first' h => .bind (.collect (R := L.values) ?_ hg.bound) fun more more' hmore => ?_
  · refine .token <| .symbol? fun _ => .ite (.pure .none) ?_
    refine .token <| .startsWith fun _ => .ite (.pure (.some .nil)) ?_
    exact .bind hitem fun _ _ h => .pure (.some h)
  · exact .pure (List.rel_append h (List.rel_flatten hmore))

omit [Builder τ] in
lemma linked_groupItem (hg : g.Linked L g') : Linked L.shift L.values (groupItem g) (groupItem g') :=
  .bind (hg.casePattern _) fun _ _ h => .pure (.cons h.value .nil)

lemma linked_namePattern (hL : L.Lawful) (hg : g.Linked L g') (follow : Follow) :
    Linked L.shift L.Phrases (namePattern g follow) (namePattern g' follow) := by
  refine .bind (linked_dottedPattern hL hg _) fun p p' h => .look fun _ => ?_
  refine .symbol? fun _ => .ite ?_ (.pure h)
  refine .bind (linked_patternGroup hg _ (linked_groupItem hg)) fun _ _ hparts => ?_
  rw [h.start]
  exact (linked_closeForm hL (.other (by decide) (.cons h.value hparts))).mono fun _ _ => hL.phrases

lemma linked_numberPattern (hL : L.Lawful) (follow : Follow) :
    Linked L.shift L.Bares (numberPattern follow) (numberPattern follow) := by
  refine .step insets_here fun start => .symbol? fun _ => .ite (.step (alike_toToken _ _) ?number) (?number ())
  intro _
  refine .bind (linked_numeral hL) fun p p' h => .look fun _ => .step (alike_nextIn _) fun _ => ?_
  refine .ite (.step (alike_advance _) fun _ => .token <| ?_) (.pure ?_)
  · refine .bind (linked_numeral hL) fun q q' hq => .pure ?_
    rw [(hL.phrases hq).stop]
    exact hL.bares (hL.leaf start _ (.other (by decide) (.cons (hL.value h) (.cons (hL.value hq) .nil))))
  · have hp := hL.phrases h
    exact ⟨⟨hp.value, rfl, hp.stop, hp.lead⟩, .cons hp.value .nil⟩

lemma linked_starPattern (hL : L.Lawful) (stars : String) :
    Linked L.shift L.operand (starPattern stars) (starPattern stars) := by
  refine .step insets_here fun start => .symbol <| .token <| ?_
  refine .step insets_here fun spot => .step alike_name fun id => .step alike_index fun stop => .pure ?_
  refine hL.leaf start stop (.other (by decide) ?_)
  split_ifs
  · exact .nil
  · exact .cons (hL.value_marked spot (.name id)) .nil

section

variable (hL : L.Lawful) (hg : g.Linked L g')

include hL hg

lemma linked_closedPattern (follow : Follow) {entry : Parser (List τ)}
    {entry' : Parser (List Node)} (hentry : Linked L.shift L.values entry entry') :
    Linked L.shift L.Bares (closedPattern g follow entry) (closedPattern g' follow entry') := by
  have hgroup : ∀ closing, Linked L.shift L.values (patternGroup g closing (groupItem g))
      (patternGroup g' closing (groupItem g')) := fun closing => linked_patternGroup hg closing (linked_groupItem hg)
  have hstar : ∀ stars, Linked L.shift L.Bares (Bare.ofPhrase <$> starPattern stars)
      (Bare.ofPhrase <$> starPattern stars) := fun stars => (linked_starPattern hL stars).map fun _ _ => hL.bares
  refine .get fun c => .ite (.bind (linked_stringRun hL hg _) fun _ _ h => .pure (hL.bares h)) ?_
  have hrest : (c.inset L.shift).rest = c.rest := rfl
  simp only [hrest]
  split
  · exact hstar _
  · exact hstar _
  · refine .step (alike_advance _) fun _ => .bind (hgroup _) fun _ _ h => ?_
    exact (linked_closeForm hL (p := c.place) (.list h)).map fun _ _ => hL.bares
  · refine .step (alike_advance _) fun _ => .bind (hgroup _) fun _ _ h => ?_
    exact (linked_closeTuple hL (p := c.place) h).map fun _ _ => hL.bares
  · refine .step (alike_advance _) fun _ => .bind (linked_patternGroup hg _ hentry) fun _ _ h => ?_
    exact (linked_closeForm hL (p := c.place) (.other (by decide) h)).map fun _ _ => hL.bares
  · refine .ite (.step alike_wordHere fun _ => .ite ?_ (.ite ?_ ?_)) (linked_numberPattern hL _)
    · refine .step (alike_advance _) fun _ => .step alike_index fun stop => .pure ⟨?_, .nil⟩
      exact hL.phrases (hL.leaf c.place stop (.other (by decide) .nil))
    · exact (linked_nameAtom hL).map fun _ _ => hL.bares
    · exact (linked_namePattern hL hg _).map fun _ _ => Links.Phrases.bares
  · exact .fail

lemma linked_barPattern (follow : Follow) {entry : Parser (List τ)}
    {entry' : Parser (List Node)} (hentry : Linked L.shift L.values entry entry') :
    Linked L.shift L.Bares (barPattern g follow entry) (barPattern g' follow entry') := by
  have hclosed := linked_closedPattern hL hg follow hentry
  refine .bind hclosed fun first first' h => .bind (.collect (R := L.Bares) ?_ hg.bound) fun more more' hmore => ?_
  · refine .token <| .symbol? fun _ => .ite ?_ (.pure .none)
    exact .token <| .bind hclosed fun _ _ h => .pure (.some h)
  have hlast := rel_getLast? hmore
  generalize more.getLast? = x, more'.getLast? = x' at hlast
  cases hlast with
  | none => exact .pure h
  | some hlast =>
    refine .pure ?_
    rw [hlast.phrase.stop]
    refine (hL.phrases_other (.inl (by decide)) _ h.phrase (List.rel_append h.nodes ?_)).bares
    exact List.rel_flatMap hmore fun _ _ h => h.nodes

lemma linked_entryPattern (fuel : Nat) :
    Linked L.shift L.values (entryPattern g fuel) (entryPattern g' fuel) := by
  induction fuel with
  | zero => exact .fail
  | succ fuel ih =>
    refine .startsWith fun _ => .ite ?_ (.bind (linked_barPattern hL hg _ ih) fun key key' hk => ?_)
    · refine .bind (.or (linked_starPattern hL _) (linked_starPattern hL _)) fun _ _ h => ?_
      exact .pure (.cons (hL.value h) .nil)
    refine .token <| .symbol <| .token <| ?_
    exact .bind (hg.casePattern _) fun _ _ h => .pure (List.rel_append hk.nodes (.cons h.value .nil))

lemma linked_keywordPattern (follow : Follow) :
    Linked L.shift L.Bares (keywordPattern g follow) (keywordPattern g' follow) := by
  rw [keywordPattern, keywordPattern, hg.bound]
  refine .step insets_here fun start => .step alike_name fun id => .require <| ?_
  refine .token <| .startsWith fun _ => .require <| ?_
  refine .symbol <| .token <| ?_
  refine .bind (linked_barPattern hL hg _ (linked_entryPattern hL hg _)) fun b b' h => .pure ?_
  rw [h.phrase.stop]
  exact hL.bares (hL.leaf start _ (.other (by decide) (.cons (hL.value_marked start (.name id)) h.nodes)))

end

lemma Links.Lawful.setApart (hL : L.Lawful) {b : Bare τ} {b' : Bare Node} (h : L.Bares b b') :
    L.Phrases (setApart b) (setApart b') := by
  rw [Grammar.setApart, Grammar.setApart, h.phrase.stop]
  exact hL.phrases_other (.inl (by decide)) _ h.phrase h.nodes

lemma linked_namedPattern (hL : L.Lawful) (follow : Follow) (fuel : Nat) {p : Phrase τ} {p' : Phrase Node}
    (h : L.Phrases p p') : Linked L.shift L.Phrases (namedPattern follow fuel p) (namedPattern follow fuel p') := by
  induction fuel generalizing p p' with
  | zero => exact .fail
  | succ fuel ih =>
    refine .token <| .step (alike_keyword? _) fun _ => .ite ?_ (.pure h)
    refine .token <| .step insets_here fun spot => .step alike_name fun id => ?_
    refine .step alike_index fun stop => ih (hL.setApart (Links.Phrases.bares ?_))
    exact hL.phrases_other (.inr (by decide)) _ h (.cons h.value (.cons (hL.value_marked spot (.name id)) .nil))

lemma linked_casePattern (hL : L.Lawful) (hg : g.Linked L g') (follow : Follow) :
    Linked L.shift L.Phrases (casePattern g follow) (casePattern g' follow) := by
  rw [casePattern, casePattern, hg.bound]
  refine .bind (.or (linked_keywordPattern hL hg _) (linked_barPattern hL hg _ (linked_entryPattern hL hg _))) ?_
  exact fun b b' h => linked_namedPattern hL _ _ (hL.setApart h)

end SourceBlocks.Grammar
