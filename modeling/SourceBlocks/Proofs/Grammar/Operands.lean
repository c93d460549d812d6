import SourceBlocks.Grammar.Targets
import SourceBlocks.Proofs.Grammar.Collections

namespace SourceBlocks.Lexis.Source

open Grammar Grammar.Parser
open SourceBlocks.Tree (Field Mark Node Shape)

variable {S : Source} {g : Rules Node}

attribute [local simp] Shape.children Shape.fieldNodes Shape.fields Field.nodes

lemma reads_argumentName : S.Reads argumentName Advances := by
  intro i
  rw [argumentName]
  refine (reads_name i).bind fun w j h => .require fun _ => .token fun j₁ h₁ => ?_
  refine .startsWith fun _ => .require fun _ => .symbol (by decide) fun k hk => ?_
  exact .pure (show i < k by omega)

section

variable (hg : g.Sound S)

include hg

lemma reads_groupedArgument : S.Reads (groupedArgument g) S.PhraseIn := by
  intro i
  rw [groupedArgument]
  refine (reads_starGroup hg _ i).bind fun p j hp => .token fun k hk => ?_
  refine .startsWith fun _ => .startsWith fun _ => .require fun _ => ?_
  exact .pure (hp.mono (Nat.le_refl i) hk)

lemma yields_namedArgument {i j : Nat} (hij : i < j) (id : Option String) :
    S.Yields j (do
      toOperand
      let p ← g.expr .bracket Level.lowest
      pure { Phrase.leaf (S.placeAt i) p.stop (.keyword id p.node) with
        node := unmarked (.keyword id p.node) }) (S.PhraseIn i) := by
  refine .operand fun j₁ h₁ => (hg.expr _ _ j₁).bind fun p k hp => .pure ?_
  have := hp.lt
  exact ⟨i, Nat.le_refl i, by omega, rfl, laid_unmarked (by simpa using hp.laid.mono_lo (by omega)), nofun⟩

lemma reads_argument : S.Reads (argument g) S.PhraseIn := by
  intro i
  rw [argument]
  refine yields_here ((reads_symbol? (by decide) i).bind fun _ j ⟨h, hlt⟩ => .ite (fun hb => ?_) fun _ => ?_)
  · exact yields_namedArgument hg (hlt hb) none
  refine .stay stays_starHere fun _ => .fork ?_ ?_
  · exact (reads_starElement hg j).mono fun p k hp => PhraseIn.lowers hp h
  refine (reads_argumentName j).optional.bind fun o k ho => ?_
  rcases ho with ⟨rfl, rfl⟩ | ⟨id, rfl, hk⟩
  · have hplain : S.Yields k (g.expr .bracket Level.lowest) (S.PhraseIn i) :=
      (hg.expr _ _ k).mono fun p m hp => PhraseIn.lowers hp h
    refine .startsWith fun _ => .fork (.or ?_ hplain) hplain
    exact (reads_groupedArgument hg k).mono fun p m hp => PhraseIn.lowers hp h
  · exact yields_namedArgument hg (by omega) (some id)

lemma reads_moreArguments : S.Reads (moreArguments g) (Chained S.PhraseIn) := by
  intro i
  dsimp only [moreArguments]
  exact (reads_series (reads_separated (reads_argument hg) PhraseIn.lowers) _ i).bind
    fun (more, _) j h => .pure h

lemma reads_arguments (generators : Bool) : S.Reads (arguments g generators) S.Laid := by
  intro i
  rw [arguments]
  refine yields_here (.symbol (by decide) fun j h => .token fun j₁ h₁ => ?_)
  refine (reads_symbol? (by decide) j₁).bind fun _ j₂ ⟨h₂, _⟩ => .fork (.pure (.nil (by omega))) ?_
  refine (reads_symbol? (by decide) j₂).bind fun _ j₃ ⟨h₃, _⟩ => .fork ?_ ?_
  · refine .token fun j₄ h₄ => .symbol (by decide) fun k hk => ?_
    exact .pure (.nil (by omega))
  refine (reads_argument hg j₃).bind fun first j₄ hf => .token fun j₅ h₅ => ?_
  have hlt := hf.lt
  have hfirst : S.Laid i [first.node] j₅ := hf.laid.mono (by omega) h₅
  refine .stay stays_forHere fun _ => .fork ?_ ?_
  · refine (reads_forClauses hg j₅).bind fun clauses j₆ hc => ?_
    refine Yields.bind (yields_close (i := i) (by have := hc.le; omega) ?_ (by decide)) fun p k hp => .pure hp.laid
    simpa using hfirst.cons hc
  · refine (reads_moreArguments hg j₅).bind fun more j₆ hm => .token fun j₇ h₇ => ?_
    refine .symbol (by decide) fun k hk => .pure ?_
    exact (hfirst.cons hm.laid_nodes).mono_hi (by omega)

lemma reads_sliceBound : S.Reads (sliceBound g) (Maybe S.NodeIn) := by
  intro i
  rw [sliceBound]
  refine .token fun j h => .stay stays_operandHere fun _ => .fork ?_ <| .pure h
  exact (hg.expr _ _ j).bind fun p k hp => .pure (hp.laid.mono_lo h)

lemma yields_sliceRest {i j : Nat} {lower : Option Node}
    (h : S.Laid i lower.toList j) : S.Yields j (sliceRest g lower) (S.NodeIn i) := by
  rw [sliceRest]
  refine .symbol (by decide) fun j₁ h₁ => (reads_sliceBound hg j₁).bind fun upper j₂ hu => ?_
  have hupper : S.Laid i (lower.toList ++ upper.toList) j₂ := h.append (hu.laid.mono_lo (by omega))
  refine .token fun j₃ h₃ => (reads_symbol? (by decide) j₃).bind fun _ j₄ ⟨h₄, _⟩ => ?_
  refine .fork ?_ <| .pure (laid_unmarked ?_)
  · refine (reads_sliceBound hg j₄).bind fun step k hs => .pure (laid_unmarked ?_)
    simpa using hupper.append (hs.laid.mono_lo (by omega))
  · simpa using hupper.mono_hi (by omega)

lemma reads_subscriptPart : S.Reads (subscriptPart g) S.NodeIn := by
  intro i
  rw [subscriptPart]
  refine .startsWith fun _ => .fork (yields_sliceRest hg (.nil (Nat.le_refl i))) ?_
  refine (hg.expr _ _ i).bind fun p j hp => .token fun k hk => ?_
  refine .startsWith fun _ => .fork ?_ <| .pure (hp.laid.mono_hi hk)
  exact yields_sliceRest hg (hp.laid.mono_hi hk)

end

lemma laid_tuple {i j k : Nat} {first : Node} {more : List Node} (hf : S.Laid i [first] j)
    (hm : S.Laid j more k) : S.Laid i [.mk first.mark (.tuple (first :: more))] k := by
  have hcons := hf.cons hm
  match hmark : first.mark with
  | none => exact .bare rfl (by simpa [Node.children, Node.shape] using hcons) (.nil (Nat.le_refl k))
  | some (.known p) =>
    obtain ⟨a, hia, haj, rfl, ha⟩ := hf.from_known hmark
    refine .known rfl hia (by have := hm.le; omega) ?_ (.nil (Nat.le_refl k))
    simpa [Node.children, Node.shape] using ha.cons hm
  | some (.endsOn row) =>
    have hc : (Node.mk (some (.endsOn row)) (.tuple (first :: more))).children = first :: more := by
      simp [Node.children, Node.shape]
    exact .led rfl hc hmark (by rwa [hc]) (.nil (Nat.le_refl k))

lemma reads_subscriptIndex (hg : g.Sound S) : S.Reads (subscriptIndex g) S.NodeIn := by
  intro i
  dsimp only [subscriptIndex]
  refine .symbol (by decide) fun j h => .token fun j₁ h₁ => ?_
  refine (reads_subscriptPart hg j₁).bind fun first j₂ hf => ?_
  refine (reads_series (reads_separated (reads_subscriptPart hg) lowers_nodeIn) _ j₂).bind
    fun (more, _) j₃ hm => .token fun j₄ h₄ => ?_
  refine .symbol (by decide) fun k hk => ?_
  have hmore : S.Laid j₂ more k := hm.laid_self.mono_hi (by omega)
  refine .fork (.pure (hf.mono (by omega) hmore.le)) <| .pure ?_
  exact (laid_tuple hf hmore).mono_lo (by omega)

def trailerNodes : Trailer Node → List Node
  | .attr _ _ => []
  | .subscript i _ => [i]
  | .call args _ => args

abbrev TrailerIn (S : Source) (lo : Nat) (t : Trailer Node) (hi : Nat) : Prop := S.Laid lo (trailerNodes t) hi

lemma reads_trailer (hg : g.Sound S) (follow : Follow) :
    S.Reads (trailer g follow) (Maybe S.TrailerIn) := by
  intro i
  rw [trailer]
  refine (reads_look _ _ i).bind fun _ j h => .fork (.pure h) ?_
  refine (reads_symbol? (by decide) j).bind fun _ j₁ ⟨h₁, _⟩ => .fork ?_ ?_
  · refine .token fun j₂ h₂ => (reads_name j₂).bind fun w k hk => ?_
    exact .stay stays_index fun _ => .pure (.nil (by omega))
  refine .startsWith fun _ => .fork ?_ ?_
  · refine (reads_subscriptIndex hg j₁).bind fun n k hn => .stay stays_index fun _ => .pure ?_
    exact hn.mono_lo (show i ≤ j₁ by omega)
  refine .startsWith fun _ => .fork ?_ <| .pure (show i ≤ j₁ by omega)
  refine (reads_arguments hg true j₁).bind fun args k hargs => .stay stays_index fun _ => .pure ?_
  exact hargs.mono_lo (show i ≤ j₁ by omega)

lemma reads_trailers (hg : g.Sound S) (follow : Follow) :
    S.Reads (trailers g follow) (Chained S.TrailerIn) := reads_collect (reads_trailer hg follow) _

lemma PhraseIn.trailers {i j k : Nat} {p : Phrase Node} {ts : List (Trailer Node)} (hp : S.PhraseIn i p j)
    (hts : Chained S.TrailerIn j ts k) : S.PhraseIn i (ts.foldl Trailer.apply p) k := by
  induction hts generalizing p with
  | nil h => exact hp.mono (Nat.le_refl i) h
  | @cons _ _ _ t _ ht _ ih =>
    refine ih ?_
    cases t <;> exact hp.extend (by simp [trailerNodes]) ht

lemma reads_numeral : S.Reads numeral S.PhraseIn := by
  intro i
  rw [numeral]
  refine .get fun c hc hi => .require fun hn => ?_
  have hne : numeralLength c.rest ≠ 0 := of_decide_eq_true hn
  have hrest : c.rest ≠ [] := fun hr => hne (by rw [hr]; rfl)
  refine (yields_advance hc hi hrest hne).bind fun _ j hj => .pure ?_
  rw [show c.place = S.placeAt i from hi ▸ hc.place]
  exact .leaf (Nat.le_refl i) hj (by simpa using .nil (Nat.le_of_lt hj))

lemma reads_nameAtom : S.Reads nameAtom S.PhraseIn := by
  intro i
  rw [nameAtom]
  refine yields_here ((reads_name i).bind fun w j hj => .stay stays_index fun _ => ?_)
  have hnil : S.Laid i [] j := .nil (Nat.le_of_lt hj)
  refine .fork (.pure (.leaf (Nat.le_refl i) hj ?_)) <| .pure (.leaf (Nat.le_refl i) hj ?_)
  · simpa using hnil
  · simpa using hnil

lemma reads_ellipsis : S.Reads ellipsis S.PhraseIn := by
  intro i
  rw [ellipsis]
  refine yields_here (.symbol (by decide) fun j hj => .stay stays_index fun _ => .pure ?_)
  exact .leaf (Nat.le_refl i) hj (by simpa using .nil (Nat.le_of_lt hj))

section

variable (hg : g.Sound S)

include hg

lemma reads_atom (follow : Follow) : S.Reads (atom g follow) S.PhraseIn := by
  intro i
  rw [atom]
  refine .get fun c _ _ => .fork (reads_stringRun hg follow i) ?_
  split
  · exact reads_parenAtom hg follow i
  · exact reads_listAtom hg i
  · exact reads_braceAtom hg i
  · refine .fork (reads_nameAtom i) <| .startsWith fun _ => ?_
    exact .fork (reads_ellipsis i) <| reads_numeral i
  · exact .fail

lemma reads_primary (follow : Follow) : S.Reads (primary g follow) S.PhraseIn := by
  intro i
  rw [primary]
  refine (reads_atom hg follow i).bind fun p j hp => (reads_trailers hg follow j).bind fun ts k hts => ?_
  exact .pure (hp.trailers hts)

lemma reads_partPrimary (follow : Follow) :
    S.Reads (partPrimary g follow) S.PhraseIn := by
  intro i
  rw [partPrimary]
  refine (reads_atom hg follow i).bind fun p j hp => (reads_trailers hg follow j).bind fun ts k hts => ?_
  exact .require fun _ => .pure (hp.trailers hts)

lemma reads_starPrimary (follow : Follow) {whole : List (Trailer Node) → Parser Bool}
    (hw : ∀ ts, S.Reads (whole ts) Goes) : S.Reads (starPrimary g follow whole) S.PhraseIn := by
  intro i
  rw [starPrimary]
  refine yields_here (.symbol (by decide) fun j h => .token fun j₁ h₁ => ?_)
  -- the star and what it spreads
  have starred : ∀ (p : Phrase Node) stop k, S.PhraseIn j₁ p k →
      S.PhraseIn i (.leaf (S.placeAt i) stop (.starred p.node)) k := fun p stop k hp =>
    .leaf (Nat.le_refl i) (by have := hp.lt; omega) (by simpa using hp.laid.mono_lo (by omega))
  refine .get fun c _ _ => .fork ?_ ?_
  · refine (reads_nameAtom j₁).bind fun p j₂ hp => (reads_trailers hg follow j₂).bind fun ts j₃ hts => ?_
    refine (hw ts j₃).bind fun _ k hk => .fork (.pure ?_) <| .pure ?_
    · exact starred _ _ _ ((hp.trailers hts).mono (Nat.le_refl _) hk)
    · exact ((starred p _ _ hp).trailers hts).mono (Nat.le_refl i) hk
  · exact (reads_partPrimary hg follow j₁).bind fun p k hp => .pure (starred p _ _ hp)

lemma reads_targetGroup {opening closing : String} {shape : List Node → Shape Node}
    (hs : ∀ ns, (shape ns).children = ns) (ho : opening ≠ "") (hc : closing ≠ "") :
    S.Reads (targetGroup g opening closing shape) S.PhraseIn := by
  intro i
  dsimp only [targetGroup]
  refine yields_here ((reads_symbol ho i).bind fun _ j h => .token fun j₁ h₁ => ?_)
  refine .startsWith fun _ => .fork ?_ ?_
  · exact yields_close (by omega) ((hs []).symm ▸ .nil (by omega)) hc
  refine (hg.target _ j₁).bind fun first j₂ hf => ?_
  refine (reads_series (reads_separated (hg.target _) PhraseIn.lowers) _ j₂).bind fun (more, _) k hm => ?_
  have hall := (hf.laid.mono_lo (show i ≤ j₁ by omega)).cons hm.laid_nodes
  exact yields_close (by have := hf.lt; have := hm.laid_nodes.le; omega) ((hs _).symm ▸ hall) hc

lemma reads_tupleTarget : S.Reads (tupleTarget g) S.PhraseIn :=
  reads_targetGroup hg (by simp) (by decide) (by decide)

lemma reads_listTarget : S.Reads (listTarget g) S.PhraseIn :=
  reads_targetGroup hg (by simp) (by decide) (by decide)

end

lemma reads_wholeGroup (follow : Follow) {p : Parser (Phrase Node)} (hp : S.Reads p S.PhraseIn) :
    S.Reads (wholeGroup follow p) S.PhraseIn := by
  intro i
  simp only [wholeGroup, noTrailer, bind_assoc]
  refine (hp i).bind fun a j ha => (reads_look _ _ j).bind fun b k hk => ?_
  have hresult : S.PhraseIn i a k := ha.mono (Nat.le_refl i) hk
  cases b with
  | false => simpa using Yields.pure hresult
  | true =>
    simp only [if_true, bind_assoc]
    exact .stay (stays_nextIn _) fun _ => .require fun _ => .pure hresult

lemma reads_simpleTarget (hg : g.Sound S) (follow : Follow) :
    S.Reads (simpleTarget g follow) S.PhraseIn := by
  intro i
  rw [simpleTarget]
  refine (reads_atom hg follow i).bind fun p j hp => (reads_trailers hg follow j).bind fun ts k hts => ?_
  have hresult := hp.trailers hts
  split
  · exact .require fun _ => .pure hresult
  · exact .require fun _ => .pure hresult

lemma reads_starTarget (hg : g.Sound S) (follow : Follow) :
    S.Reads (starTarget g follow) S.PhraseIn := by
  intro i
  rw [starTarget]
  refine (reads_starPrimary hg follow (fun _ j => .pure (Nat.le_refl j)) i).bind fun p j hp => ?_
  split
  · exact .fail
  · exact .pure hp

lemma reads_target (hg : g.Sound S) (follow : Follow) : S.Reads (target g follow) S.PhraseIn := by
  intro i
  rw [target]
  refine .get fun c _ _ => ?_
  split
  · exact reads_starTarget hg follow i
  · exact .or (reads_wholeGroup follow (reads_tupleTarget hg) i) (reads_simpleTarget hg follow i)
  · exact .or (reads_wholeGroup follow (reads_listTarget hg) i) (reads_simpleTarget hg follow i)
  · exact reads_simpleTarget hg follow i

end SourceBlocks.Lexis.Source
