import SourceBlocks.Grammar.Collections
import SourceBlocks.Proofs.Grammar.Strings

namespace SourceBlocks.Lexis.Source

open Grammar Grammar.Parser
open SourceBlocks.Tree (Field Mark Node Shape)

variable {S : Source} {g : Rules Node}

attribute [local simp] Shape.children Shape.fieldNodes Shape.fields Field.nodes

lemma reads_targetList (hg : g.Sound S) (stopWord : String) :
    S.Reads (targetList g stopWord) S.PhraseIn := by
  intro i
  dsimp only [targetList]
  refine (hg.target _ i).bind fun first j hf => ?_
  refine (reads_series (R := S.PhraseIn) (fun k => ?_) _ j).bind fun (more, _) m hmore => ?_
  · refine .token fun k₁ h₁ => ?_
    refine (reads_symbol? (by decide) k₁).bind fun _ k₂ ⟨h₂, _⟩ => ?_
    refine .fork (.pure (show k ≤ k₂ by omega)) <| .token fun k₃ h₃ => ?_
    refine .stay stays_wordHere fun _ => .fork (.pure (show k ≤ k₃ by omega)) ?_
    exact (hg.target _ k₃).bind fun p k₄ h₄ => .pure (PhraseIn.lowers h₄ (by omega))
  · refine .fork (.pure (hf.mono (Nat.le_refl i) hmore.laid_nodes.le)) <| .pure ?_
    exact hf.extend (by simp) hmore.laid_nodes

lemma stays_forHere : Stays forHere := by
  refine stays_bind stays_wordHere fun w => stays_ite (stays_pure _) (stays_ite ?_ (stays_pure _))
  exact stays_bind (stays_optional (stays_peek _)) fun _ => stays_pure _

lemma reads_clauseValues (hg : g.Sound S) : S.Reads (clauseValues g) S.NodeIn := by
  intro i
  dsimp only [clauseValues]
  refine (hg.expr _ _ i).bind fun first j hf => ?_
  refine (reads_series (R := S.PhraseIn) (fun k => ?_) _ j).bind fun (more, _) m hmore => ?_
  · refine .token fun k₁ h₁ => ?_
    refine (reads_symbol? (by decide) k₁).bind fun _ k₂ ⟨h₂, _⟩ => ?_
    refine .fork (.pure (show k ≤ k₂ by omega)) <| .token fun k₃ h₃ => ?_
    refine .stay stays_forHere fun _ => .stay stays_wordHere fun _ => .stay stays_operandHere fun _ => ?_
    refine .fork (.pure (show k ≤ k₃ by omega)) ?_
    exact (hg.expr _ _ k₃).bind fun p k₄ h₄ => .pure (PhraseIn.lowers h₄ (by omega))
  · cases more with
    | nil => exact .pure (hf.laid.mono_hi hmore.laid_nodes.le)
    | cons p ps => exact .pure (hf.laid_mark (by simp) hmore.laid_nodes)

lemma reads_clauseCondition (hg : g.Sound S) : S.Reads (clauseCondition g) (Maybe S.NodeIn) := by
  intro i
  rw [clauseCondition]
  refine .token fun j h => (reads_keyword? (by decide) j).bind fun _ j₁ ⟨h₁, _⟩ => ?_
  refine .fork ?_ <| .pure (show i ≤ j₁ by omega)
  refine .operand fun j₂ h₂ => (hg.expr _ _ j₂).bind fun p j₃ h₃ => .pure ?_
  exact h₃.laid.mono_lo (by omega)

lemma reads_forClause (hg : g.Sound S) : S.Reads (forClause g) (Maybe S.NodeIn) := by
  intro i
  rw [forClause]
  refine .token fun j h => .stay stays_forHere fun _ => .fork (.pure h) ?_
  refine (reads_keyword? (by decide) j).bind fun _ j₁ ⟨h₁, _⟩ => .token fun j₂ h₂ => ?_
  refine .keyword (by decide) fun j₃ h₃ => .operand fun j₄ h₄ => ?_
  refine (reads_targetList hg _ j₄).bind fun target j₅ ht => .token fun j₆ h₆ => ?_
  refine .keyword (by decide) fun j₇ h₇ => .operand fun j₈ h₈ => ?_
  refine (reads_clauseValues hg j₈).bind fun values j₉ hv => ?_
  refine (reads_collect (reads_clauseCondition hg) _ j₉).bind fun ifs k hifs => .pure ?_
  refine laid_unmarked ?_
  simpa using (ht.laid.mono (by omega) (by omega)).cons (hv.cons hifs.laid_self)

lemma reads_forClauses (hg : g.Sound S) : S.Reads (forClauses g) S.Laid := fun i =>
  (reads_collect (reads_forClause hg) _ i).mono fun _ _ h => h.laid_self

lemma stays_starHere : Stays starHere := stays_fun

lemma reads_starElement (hg : g.Sound S) : S.Reads (starElement g) S.PhraseIn := by
  intro i
  rw [starElement]
  refine yields_here (.symbol (by decide) fun j h => .operand fun j₁ h₁ => ?_)
  refine (hg.expr _ _ j₁).bind fun p j₂ h₂ => .pure (.leaf (Nat.le_refl i) (by have := h₂.lt; omega) ?_)
  simpa using h₂.laid.mono_lo (by omega)

lemma yields_grouped {i j k : Nat} {p : Phrase Node} (hij : i ≤ j) (hp : S.PhraseIn j p k) :
    S.Yields k (do
      toToken .bracket false
      symbol ")"
      let stop ← Grammar.index
      pure (p.group (S.placeAt i) stop)) (S.PhraseIn i) := by
  refine .token fun k₁ h₁ => .symbol (by decide) fun k₂ h₂ => ?_
  refine .stay stays_index fun _ => .pure ?_
  exact (hp.mono (Nat.le_refl _) (by omega)).group (Nat.le_refl i) hij

lemma reads_starGroup (hg : g.Sound S) (n : Nat) : S.Reads (starGroup g n) S.PhraseIn := by
  induction n with
  | zero => exact fun _ => .fail
  | succ n ih =>
    intro i
    rw [starGroup]
    refine yields_here (.symbol (by decide) fun j h => .token fun j₁ h₁ => ?_)
    have grouped := fun (p : Phrase Node) k (hp : S.PhraseIn j₁ p k) =>
      yields_grouped (i := i) (by omega) hp
    refine .startsWith fun _ => .fork ?_ ?_
    · exact (ih j₁).bind grouped
    · exact (reads_starElement hg j₁).bind grouped

lemma reads_beforeComma {p : Parser (Phrase Node)} (hp : S.Reads p S.PhraseIn) :
    S.Reads (beforeComma p) S.PhraseIn := by
  intro i
  rw [beforeComma]
  refine (hp i).bind fun a j ha => .token fun k hk => ?_
  exact .startsWith fun _ => .require fun _ => .pure (ha.mono (Nat.le_refl i) hk)

lemma reads_element (hg : g.Sound S) (isFirst : Bool) : S.Reads (element g isFirst) S.PhraseIn := by
  intro i
  dsimp only [element]
  refine .stay stays_starHere fun _ => .fork (.fork ?_ ?_) ?_
  · exact .or (reads_beforeComma (reads_starElement hg) i) (.or (hg.expr _ _ i) (reads_starElement hg i))
  · exact reads_starElement hg i
  refine .startsWith fun _ => .fork ?_ <| reads_orYield hg _ (hg.expr _ _) i
  refine yields_here ((reads_beforeComma (reads_starGroup hg _) i).optional.bind fun o j ho => ?_)
  rcases ho with ⟨rfl, rfl⟩ | ⟨p, rfl, hp⟩
  · exact hg.expr _ _ j
  · exact .pure (.leaf (Nat.le_refl i) hp.lt (by simpa using hp.laid))

lemma reads_moreElements (hg : g.Sound S) (closing : String) :
    S.Reads (moreElements g closing) (fun i r j => Chained S.PhraseIn i r.1 j) := by
  intro i
  dsimp only [moreElements]
  exact (reads_series (reads_separated (reads_element hg false) PhraseIn.lowers) _ i).bind
    fun (more, _) j h => .pure h

lemma yields_close {i j : Nat} {closing : String} {shape : Shape Node} (hij : i < j)
    (h : S.Laid i shape.children j) (hc : closing ≠ "") :
    S.Yields j (close (S.placeAt i) closing shape) (S.PhraseIn i) := by
  rw [close]
  refine .token fun k hk => (reads_symbol hc k).bind fun _ m hm => ?_
  exact .stay stays_index fun _ => .pure (.leaf (Nat.le_refl i) (by omega) (h.mono_hi (by omega)))

lemma reads_listAtom (hg : g.Sound S) : S.Reads (listAtom g) S.PhraseIn := by
  intro i
  rw [listAtom]
  refine yields_here (.symbol (by decide) fun j h => .token fun j₁ h₁ => ?_)
  refine .startsWith fun _ => .fork ?_ ?_
  · exact yields_close (by omega) (by simpa using .nil (by omega)) (by decide)
  refine (reads_element hg true j₁).bind fun first j₂ hf => .token fun j₃ h₃ => ?_
  have hfirst : S.Laid i [first.node] j₃ := hf.laid.mono (by omega) h₃
  refine .stay stays_forHere fun _ => .fork ?_ ?_
  · refine (reads_forClauses hg j₃).bind fun clauses j₄ hc => ?_
    exact yields_close (by have := hc.le; have := hf.lt; omega) (by simpa using hfirst.cons hc) (by decide)
  · refine (reads_moreElements hg _ j₃).bind fun r j₄ hm => ?_
    obtain ⟨more, _⟩ := r
    have hmore := hm.laid_nodes
    exact yields_close (by have := hmore.le; have := hf.lt; omega) (by simpa using hfirst.cons hmore) (by decide)

lemma reads_entryValue (hg : g.Sound S) : S.Reads (entryValue g) S.NodeIn := by
  intro i
  rw [entryValue]
  refine .operand fun j h => (hg.expr _ _ j).bind fun p k hp => .pure ?_
  exact hp.laid.mono_lo h

abbrev EntryIn (S : Source) (lo : Nat) (e : Option Node × Node) (hi : Nat) : Prop :=
  S.Laid lo (e.1.toList ++ [e.2]) hi

variable (hg : g.Sound S)

include hg

lemma reads_entry : S.Reads (entry g) S.EntryIn := by
  intro i
  rw [entry]
  refine (reads_symbol? (by decide) i).bind fun _ j ⟨h, _⟩ => .fork ?_ ?_
  · exact (reads_entryValue hg j).bind fun value k hv => .pure (hv.mono_lo h)
  · refine (hg.expr _ _ j).bind fun key j₁ hk => .token fun j₂ h₂ => ?_
    refine .symbol (by decide) fun j₃ h₃ => (reads_entryValue hg j₃).bind fun value k hv => ?_
    exact .pure ((hk.laid.mono h (by omega)).cons hv)

lemma reads_moreEntries : S.Reads (moreEntries g) (Chained S.EntryIn) := by
  intro i
  dsimp only [moreEntries]
  exact (reads_series (reads_separated (reads_entry hg) fun _ _ _ _ h => h.mono_lo) _ i).bind
    fun (more, _) j h => .pure h

lemma reads_braceAtom : S.Reads (braceAtom g) S.PhraseIn := by
  intro i
  rw [braceAtom]
  refine yields_here (.symbol (by decide) fun j h => .token fun j₁ h₁ => ?_)
  refine .startsWith fun _ => .fork ?_ ?_
  · exact yields_close (by omega) (by simpa using .nil (by omega)) (by decide)
  refine (reads_symbol? (by decide) j₁).bind fun _ j₂ ⟨h₂, _⟩ => .fork ?_ ?_
  · exact yields_close (by omega) (by simpa using .nil (by omega)) (by decide)
  -- the entries of a dictionary, the first of which has been read
  have entries : ∀ first k m, S.EntryIn i first k → i < k → k ≤ m → S.Yields m (do
      let more ← moreEntries g
      close (S.placeAt i) "\x7d" (.dict (first :: more))) (S.PhraseIn i) := fun first k m hf hik hkm => by
    refine (reads_moreEntries hg m).bind fun more k' hm => ?_
    have hmore := hm.laid (f := fun e => e.1.toList ++ [e.2]) fun _ _ _ h => h
    exact yields_close (by have := hmore.le; omega) (by simpa using hf.append (hmore.mono_lo hkm)) (by decide)
  refine .startsWith fun _ => .fork ?_ ?_
  · refine (reads_entry hg j₂).bind fun first j₃ hf => ?_
    exact entries first j₃ j₃ (hf.mono_lo (by omega)) (by have := hf.le; omega) (Nat.le_refl _)
  refine (reads_element hg true j₂).bind fun first j₃ hf => .token fun j₄ h₄ => ?_
  have hlt := hf.lt
  have hfirst : S.Laid i [first.node] j₄ := hf.laid.mono (by omega) h₄
  refine (reads_symbol? (by decide) j₄).bind fun _ j₅ ⟨h₅, _⟩ => .fork ?_ ?_
  · refine (reads_entryValue hg j₅).bind fun value j₆ hv => .token fun j₇ h₇ => ?_
    have hpair : S.Laid i [first.node, value] j₆ := hfirst.cons (hv.mono_lo h₅)
    have := hv.le
    refine .stay stays_forHere fun _ => .fork ?_ ?_
    · refine (reads_forClauses hg j₇).bind fun clauses j₈ hc => ?_
      exact yields_close (by have := hc.le; omega) (by simpa using hpair.append (hc.mono_lo h₇)) (by decide)
    · exact entries (some first.node, value) j₆ j₇ hpair (by omega) h₇
  refine .stay stays_forHere fun _ => .fork ?_ ?_
  · refine (reads_forClauses hg j₅).bind fun clauses j₆ hc => ?_
    exact yields_close (by have := hc.le; omega) (by simpa using hfirst.cons (hc.mono_lo h₅)) (by decide)
  · refine (reads_moreElements hg _ j₅).bind fun r j₆ hm => ?_
    obtain ⟨more, _⟩ := r
    have hmore := hm.laid_nodes
    exact yields_close (by have := hmore.le; omega) (by simpa using hfirst.cons (hmore.mono_lo h₅)) (by decide)

lemma yields_loneStar (follow : Follow) {i j : Nat} (hij : i < j) :
    S.Yields j (loneStar g follow (S.placeAt i)) (S.PhraseIn i) := by
  dsimp only [loneStar]
  have asTuple : S.Yields j (do
      let p ← starElement g
      close (S.placeAt i) ")" (.tuple [p.node])) (S.PhraseIn i) := by
    refine (reads_starElement hg j).bind fun p k hp => ?_
    exact yields_close (by have := hp.lt; omega) (by simpa using hp.laid.mono_lo (by omega)) (by decide)
  have grouped : S.Yields j (do
      let p ← g.expr .bracket Level.lowest
      toToken .bracket false
      symbol ")"
      let stop ← Grammar.index
      pure (p.group (S.placeAt i) stop)) (S.PhraseIn i) :=
    (hg.expr _ _ j).bind fun p k hp => yields_grouped (Nat.le_of_lt hij) hp
  refine .fork (.or ?_ (.or grouped asTuple)) <| .or grouped asTuple
  refine asTuple.bind fun p k hp => (reads_look _ _ k).bind fun _ m hm => .require fun _ => ?_
  exact .pure (hp.mono (Nat.le_refl i) hm)

lemma reads_parenAtom (follow : Follow) : S.Reads (parenAtom g follow) S.PhraseIn := by
  intro i
  rw [parenAtom]
  refine yields_here (.symbol (by decide) fun j h => .token fun j₁ h₁ => ?_)
  refine .startsWith fun _ => .fork ?_ ?_
  · exact yields_close (by omega) (by simpa using .nil (by omega)) (by decide)
  refine .get fun c hc hcj => .stay stays_starHere fun isStar => ?_
  refine (reads_element hg true j₁).bind fun first j₂ hf => .token fun j₃ h₃ => ?_
  have hlt := hf.lt
  have hfirst : S.Laid i [first.node] j₃ := hf.laid.mono (by omega) h₃
  refine .stay stays_forHere fun _ => .fork ?_ ?_
  · refine (reads_forClauses hg j₃).bind fun clauses j₄ hcs => ?_
    exact yields_close (by have := hcs.le; omega) (by simpa using hfirst.cons hcs) (by decide)
  refine (reads_moreElements hg _ j₃).bind fun r j₄ hm => ?_
  obtain ⟨more, _⟩ := r
  have hmore := hm.laid_nodes
  refine .fork ?_ <| .fork ?_ ?_
  · exact yields_close (by have := hmore.le; omega) (by simpa using hfirst.cons hmore) (by decide)
  · exact .set hc (hcj ▸ yields_loneStar hg follow (by omega))
  · exact yields_grouped (by omega) (hf.mono (Nat.le_refl _) (by have := hmore.le; omega))

end SourceBlocks.Lexis.Source
