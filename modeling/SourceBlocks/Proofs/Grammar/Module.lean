import SourceBlocks.Grammar.Module
import SourceBlocks.Proofs.Grammar.Expressions
import SourceBlocks.Proofs.Grammar.Patterns
import SourceBlocks.Proofs.Grammar.Statements

namespace SourceBlocks.Lexis.Source

open Grammar Grammar.Parser
open SourceBlocks.Tree (Field Mark Node Shape)

variable {S : Source} {g : Rules Node} {i j k : Nat}

attribute [local simp] Shape.children Shape.fieldNodes Shape.fields Field.nodes

lemma reads_openBlock (column : Nat) : S.Reads (openBlock column) Goes := by
  intro i c hc hi a d hd
  obtain ⟨rfl, rfl⟩ := Prod.mk.inj (Except.ok.inj hd)
  exact ⟨hc.of_eq rfl rfl rfl rfl, Nat.le_of_eq hi.symm⟩

lemma reads_closeBlock : S.Reads closeBlock Goes := by
  intro i c hc hi a d hd
  obtain ⟨rfl, rfl⟩ := Prod.mk.inj (Except.ok.inj hd)
  exact ⟨hc.of_eq rfl rfl rfl rfl, Nat.le_of_eq hi.symm⟩

lemma reads_colon : S.Reads colon Advances := by
  intro i
  rw [colon]
  refine .token fun j h => .startsWith fun _ => .require fun _ => ?_
  exact (reads_symbol (by decide) j).mono fun _ k hk => Nat.lt_of_le_of_lt h hk

lemma reads_suite (hg : g.Sound S) : S.Reads (suite g) S.Laid := by
  intro i
  rw [suite]
  refine (reads_colon i).bind fun _ j h => yields_aheadHere fun a ha => ?_
  cases a with
  | deeper column =>
    refine (reads_openBlock column j).bind fun _ k hk => (hg.block k).mono fun ns m hns => hns.mono_lo ?_
    exact Nat.le_trans (Nat.le_of_lt h) hk
  | lineEnd => exact .pure (.nil (Nat.le_of_lt h))
  | token c =>
    obtain ⟨hc, hle⟩ := ha c rfl
    refine .set hc ((reads_statementLine hg _).mono fun ns m hns => hns.mono_lo ?_)
    exact Nat.le_trans (Nat.le_of_lt h) hle
  | shallower => exact .fail

lemma reads_continuation? (e : Expectation) (w : String) : S.Reads (continuation? e w) Goes := by
  intro i
  rw [continuation?]
  refine yields_aheadHere fun a ha => ?_
  cases a with
  | token c =>
    obtain ⟨hc, hle⟩ := ha c rfl
    refine .fork (.set (hc.skip _) (.pure ?_)) <| .pure (Nat.le_refl i)
    exact Nat.le_trans hle (c.le_index_skip _)
  | lineEnd => exact .pure (Nat.le_refl i)
  | deeper n => exact .pure (Nat.le_refl i)
  | shallower => exact .pure (Nat.le_refl i)

section

variable (hg : g.Sound S)

include hg

lemma reads_suiteBehind (w : String) : S.Reads (suiteBehind g w) S.Laid := by
  intro i
  rw [suiteBehind]
  refine (reads_continuation? _ _ i).bind fun _ j h => .fork ?_ <| .pure (.nil h)
  exact (reads_suite hg j).bind fun ns k hns => .pure (hns.mono_lo h)

lemma reads_alternatives (n : Nat) : S.Reads (alternatives g n) S.Laid := by
  induction n with
  | zero => exact fun _ => .fail
  | succ n ih =>
    intro i
    rw [alternatives]
    refine yields_aheadHere fun a ha => ?_
    cases a with
    | token c =>
      obtain ⟨hc, hle⟩ := ha c rfl
      refine .ite (fun hw => .set (hc.skip 4) ?_) fun _ => reads_suiteBehind hg _ i
      have hlt : c.index < (c.skip 4).index := by
        refine lt_index_skip (fun hr => ?_) (by decide)
        rw [hr] at hw
        exact absurd hw (by decide)
      refine .operand fun j h => (hg.expr _ _ j).bind fun test j₁ ht => ?_
      refine (reads_suite hg j₁).bind fun body j₂ hb => (ih j₂).bind fun orelse k ho => .pure ?_
      rw [hc.place]
      have hall := ((ht.laid.mono_lo (show c.index ≤ j by omega)).cons hb).append ho
      exact laid_marked hle (by have := ht.lt; have := hb.le; have := ho.le; omega) (by simpa using hall)
    | lineEnd => exact .pure (.nil (Nat.le_refl i))
    | deeper n => exact .pure (.nil (Nat.le_refl i))
    | shallower => exact .pure (.nil (Nat.le_refl i))

lemma yields_tested (hij : i < j) {orelse : Parser (List Node)} (ho : S.Reads orelse S.Laid)
    {shape : Node → List Node → List Node → Shape Node}
    (hs : ∀ test body more, (shape test body more).children = test :: (body ++ more)) :
    S.Yields j (do
      toOperand
      let test ← g.expr .inner Level.lowest
      let body ← suite g
      let more ← orelse
      pure (marked (S.placeAt i) (shape test.node body more))) (S.NodeIn i) := by
  refine .operand fun j₁ h₁ => (hg.expr _ _ j₁).bind fun test j₂ ht => ?_
  refine (reads_suite hg j₂).bind fun body j₃ hb => (ho j₃).bind fun more k hm => .pure ?_
  have hall := ht.laid.mono_lo (show i ≤ j₁ by omega) |>.cons (hb.append hm)
  exact laid_marked (Nat.le_refl i) (by have := ht.lt; have := hb.le; have := hm.le; omega) ((hs _ _ _).symm ▸ hall)

lemma yields_branch (hij : i < j) :
    S.Yields j (branch g (S.placeAt i)) (S.NodeIn i) :=
  yields_tested hg hij (reads_alternatives hg _) (by simp)

lemma yields_whileLoop (hij : i < j) :
    S.Yields j (whileLoop g (S.placeAt i)) (S.NodeIn i) :=
  yields_tested hg hij (reads_suiteBehind hg _) (by simp)

lemma yields_forLoop (hij : i < j) (isAsync : Bool) :
    S.Yields j (forLoop g (S.placeAt i) isAsync) (S.NodeIn i) := by
  rw [forLoop]
  refine .operand fun j₁ h₁ => (reads_targetList hg _ j₁).bind fun target j₂ ht => ?_
  refine .token fun j₃ h₃ => .keyword (by decide) fun j₄ h₄ => ?_
  refine .operand fun j₅ h₅ => (reads_expressions hg _ j₅).bind fun iter j₆ hi => ?_
  refine (reads_suite hg j₆).bind fun body j₇ hb => (reads_suiteBehind hg _ j₇).bind fun orelse k ho => .pure ?_
  have hall := (ht.laid.mono (show i ≤ j₁ by omega) (show j₂ ≤ j₅ by omega)).cons (hi.laid.cons (hb.append ho))
  exact laid_marked (Nat.le_refl i) (by have := ht.lt; have := hi.lt; have := hb.le; have := ho.le; omega)
    (by simpa using hall)

end

lemma PhraseIn.laid_splitName {p : Phrase Node} (h : S.PhraseIn i p j) :
    S.Laid i ((splitName p).1 :: (splitName p).2.toList) j := by
  rw [splitName]
  split
  · next hs => simpa [Node.children, hs] using h.laid.children
  · exact h.laid

lemma PhraseIn.laid_withItem {p : Phrase Node} (h : S.PhraseIn i p j) : S.Laid i [withItem p] j :=
  laid_unmarked (by simpa using h.laid_splitName)

section

variable (hg : g.Sound S)

include hg

lemma reads_bracketedItems : S.Reads (bracketedItems g) (Chained S.PhraseIn) := by
  intro i
  rw [bracketedItems]
  refine .symbol (by decide) fun j h => .token fun j₁ h₁ => ?_
  refine yields_listed hg _ fun first more b k m hf hmore => .require fun _ => ?_
  refine .token fun m₁ h₁ => .symbol (by decide) fun m₂ h₂ => ?_
  refine .stay (stays_peek _) fun _ => .pure ?_
  exact .cons (PhraseIn.lowers hf (by omega)) (hmore.mono_hi (by omega))

lemma reads_openItems : S.Reads (openItems g) (Chained S.PhraseIn) := by
  intro i
  rw [openItems]
  exact yields_listed hg _ fun first more b k m hf hmore => .pure (.cons hf hmore)

lemma yields_withBlock (hij : i < j) (isAsync : Bool) :
    S.Yields j (withBlock g (S.placeAt i) isAsync) (S.NodeIn i) := by
  dsimp only [withBlock]
  refine .operand fun j₁ h₁ => .startsWith fun _ => ?_
  refine .ite_bind (Q := fun ps k => Chained S.PhraseIn j₁ ps k) ?_ fun items j₂ hitems => ?_
  · refine .fork (.or (reads_bracketedItems hg j₁) (reads_openItems hg j₁)) <| reads_openItems hg j₁
  refine (reads_suite hg j₂).bind fun body k hb => .pure ?_
  have hnodes := hitems.laid (f := fun p => [withItem p]) fun _ _ _ h => h.laid_withItem
  rw [← List.map_eq_flatMap] at hnodes
  have hall := (hnodes.mono_lo (show i ≤ j₁ by omega)).append hb
  exact laid_marked (Nat.le_refl i) (by have := hnodes.le; have := hb.le; omega) (by simpa using hall)

lemma reads_patternList : S.Reads (patternList g) S.Laid := by
  intro i
  dsimp only [patternList]
  refine .operand fun j h => (hg.casePattern _ j).bind fun first j₁ hf => ?_
  refine (reads_series (R := S.NodeIn) (fun k => ?_) _ j₁).bind fun (more, _) m hm => .pure ?_
  · refine .token fun k₁ h₁ => (reads_symbol? (by decide) k₁).bind fun _ k₂ ⟨h₂, _⟩ => ?_
    refine .fork (.pure (show k ≤ k₂ by omega)) <| .token fun k₃ h₃ => ?_
    refine .startsWith fun _ => .stay stays_wordHere fun _ => ?_
    refine .fork (.pure (show k ≤ k₃ by omega)) ?_
    exact (hg.casePattern _ k₃).bind fun p k₄ hp => .pure (hp.laid.mono_lo (by omega))
  · exact (hf.laid.mono_lo h).cons hm.laid_self

lemma reads_caseGuard : S.Reads (caseGuard g) S.Laid := by
  intro i
  rw [caseGuard]
  refine .token fun j h => yields_here ?_
  refine (reads_keyword? (by decide) j).bind fun _ j₁ ⟨h₁, hlt⟩ => .ite (fun hb => ?_) fun _ => .pure (.nil (by omega))
  have := hlt hb
  refine .operand fun j₂ h₂ => (hg.expr _ _ j₂).bind fun test k ht => .pure ?_
  exact laid_marked h (by have := ht.lt; omega) (by simpa using ht.laid.mono_lo (by omega))

lemma reads_caseClause : S.Reads (caseClause g) (Maybe S.NodeIn) := by
  intro i
  rw [caseClause]
  refine yields_aheadHere fun a ha => ?_
  cases a with
  | shallower => exact (reads_closeBlock i).bind fun _ j hj => .pure hj
  | token c =>
    obtain ⟨hc, hle⟩ := ha c rfl
    refine .set hc (.keyword (by decide) fun j h => (reads_patternList hg j).bind fun ps j₁ hp => ?_)
    refine (reads_caseGuard hg j₁).bind fun guards j₂ hgs => (reads_suite hg j₂).bind fun body k hb => .pure ?_
    rw [hc.place]
    have hall := (hp.append hgs).append hb
    exact laid_marked hle (Nat.lt_of_lt_of_le h hall.le) (by simpa using hall.mono_lo (Nat.le_of_lt h))
  | lineEnd => exact .fail
  | deeper n => exact .fail

lemma reads_caseClauses : S.Reads (caseClauses g) S.Laid := by
  intro i
  rw [caseClauses]
  refine yields_aheadHere fun a _ => ?_
  cases a with
  | deeper column =>
    refine (reads_openBlock column i).bind fun _ j h => ?_
    exact (reads_collect (reads_caseClause hg) _ j).mono fun ns k hns => hns.laid_self.mono_lo h
  | lineEnd => exact .pure (.nil (Nat.le_refl i))
  | token c => exact .fail
  | shallower => exact .fail

lemma yields_choice (hij : i < j) :
    S.Yields j (choice g (S.placeAt i)) (S.NodeIn i) := by
  rw [choice]
  refine .token fun j₁ h₁ => yields_listed hg _ fun first more b k m hf hmore => ?_
  refine (reads_colon m).bind fun _ m₁ h₁ => (reads_caseClauses hg m₁).bind fun cases m₂ hcs => .pure ?_
  have hsubjects := (hf.laid.mono_lo (show i ≤ j₁ by omega)).cons hmore.laid_nodes
  have hall := hsubjects.append (hcs.mono_lo (Nat.le_of_lt h₁))
  exact laid_marked (Nat.le_refl i) (by have := hf.lt; have := hmore.laid_nodes.le; have := hcs.le; omega)
    (by simpa using hall)

lemma reads_optionalTypeParameters : S.Reads (optionalTypeParameters g) Goes := by
  intro i
  rw [optionalTypeParameters]
  refine .token fun j h => .startsWith fun _ => .fork ?_ <| .pure h
  refine (reads_typeParameters hg j).bind fun p k hp => (reads_toToken _ _ k).mono fun _ m hm => ?_
  exact Nat.le_trans h (Nat.le_trans (Nat.le_of_lt hp.lt) hm)

lemma reads_returnType : S.Reads (returnType g) (Maybe S.NodeIn) := by
  intro i
  rw [returnType]
  refine .token fun j h => (reads_symbol? (by decide) j).bind fun _ j₁ ⟨h₁, _⟩ => ?_
  refine .fork ?_ <| .pure (show i ≤ j₁ by omega)
  refine .operand fun j₂ h₂ => (hg.hint _ _ j₂).bind fun p k hp => .pure ?_
  exact hp.laid.mono_lo (by omega)

lemma yields_functionDef (hij : i ≤ j) {decorators : List Node}
    (hd : S.Laid i decorators j) (isAsync : Bool) :
    S.Yields j (functionDef g (S.placeAt i) decorators isAsync) (S.NodeIn i) := by
  dsimp only [functionDef]
  refine .token fun j₁ h₁ => (reads_name j₁).bind fun id j₂ h₂ => ?_
  refine (reads_optionalTypeParameters hg j₂).bind fun _ j₃ h₃ => .symbol (by decide) fun j₄ h₄ => ?_
  refine .token fun j₅ h₅ => (reads_parameters hg _ _ _ j₅).bind fun ps j₆ hps => ?_
  refine .token fun j₇ h₇ => .symbol (by decide) fun j₈ h₈ => ?_
  refine (reads_returnType hg j₈).bind fun returns j₉ hr => (reads_suite hg j₉).bind fun body k hb => .pure ?_
  have hparams := hps.laid_parameters.mono (show j ≤ j₅ by omega) (show j₆ ≤ j₈ by omega)
  have hall := (hd.append (hparams.cons hr.laid)).append hb
  exact laid_marked (Nat.le_refl i) (by have := hps.laid_parameters.le; have := hr.laid.le; have := hb.le; omega)
    (by simpa using hall)

lemma yields_classDef (hij : i ≤ j) {decorators : List Node}
    (hd : S.Laid i decorators j) :
    S.Yields j (classDef g (S.placeAt i) decorators) (S.NodeIn i) := by
  dsimp only [classDef]
  refine .token fun j₁ h₁ => (reads_name j₁).bind fun id j₂ h₂ => ?_
  refine (reads_optionalTypeParameters hg j₂).bind fun _ j₃ h₃ => .startsWith fun _ => ?_
  refine .ite_bind (Q := fun ns k => S.Laid j₃ ns k) ?_ fun bases j₄ hbs => ?_
  · exact .fork (reads_arguments hg false j₃) <| .pure (.nil (Nat.le_refl _))
  refine (reads_suite hg j₄).bind fun body k hb => .pure ?_
  have hall := (hd.append (hbs.mono_lo (show j ≤ j₃ by omega))).append hb
  exact laid_marked (Nat.le_refl i) (by have := hbs.le; have := hb.le; omega) (by simpa using hall)

lemma yields_definition (hij : i ≤ j) {decorators : List Node}
    (hd : S.Laid i decorators j) :
    S.Yields j (definition g (S.placeAt i) decorators) (S.NodeIn i) := by
  rw [definition]
  refine (reads_keyword? (by decide) j).bind fun _ j₁ ⟨h₁, _⟩ => .fork ?_ ?_
  · exact yields_classDef hg (by omega) (hd.mono_hi h₁)
  refine (reads_keyword? (by decide) j₁).bind fun _ j₂ ⟨h₂, _⟩ => .fork ?_ ?_
  · exact yields_functionDef hg (by omega) (hd.mono_hi (by omega)) false
  refine .keyword (by decide) fun j₃ h₃ => .token fun j₄ h₄ => ?_
  refine .keyword (by decide) fun j₅ h₅ => ?_
  exact yields_functionDef hg (by omega) (hd.mono_hi (by omega)) true

lemma reads_decorator : S.Reads (decorator g) (Maybe S.NodeIn) := by
  intro i
  rw [decorator]
  refine (reads_symbol? (by decide) i).bind fun _ j ⟨h, _⟩ => .fork ?_ <| .pure h
  refine .operand fun j₁ h₁ => (hg.expr _ _ j₁).bind fun p j₂ hp => ?_
  refine (reads_look _ _ j₂).bind fun _ j₃ h₃ => .require fun _ => .token fun k hk => .pure ?_
  exact hp.laid.mono (by omega) (by omega)

lemma reads_decorated :
    S.Yields i (decorated g (S.placeAt i)) (S.NodeIn i) := by
  rw [decorated]
  refine (reads_collect (reads_decorator hg) _ i).bind fun decorators j hd => ?_
  exact yields_definition hg hd.laid_self.le hd.laid_self

end

abbrev CaughtIn (S : Source) (lo : Nat) (c : Caught Node) (hi : Nat) : Prop := S.Laid lo c.type.toList hi

variable (hg : g.Sound S)

include hg

lemma reads_caught (ofGroup : Bool) : S.Reads (caught g ofGroup) S.CaughtIn := by
  intro i
  dsimp only [caught]
  refine .token fun j h => .startsWith fun _ => ?_
  refine .fork (.pure (.nil h)) <| (hg.expr _ _ j).bind fun first j₁ hf => ?_
  refine .token fun j₂ h₂ => ?_
  refine .ite_bind (Q := Goes j₁) ?_ fun isPair j₃ (h₃ : j₁ ≤ j₃) => ?_
  · exact .fork (.pure h₂) <| (reads_symbol? (by decide) j₂).mono fun _ k hk => Nat.le_trans h₂ hk.1
  have hfirst := hf.mono h h₃
  refine .fork ?_ ?_
  · refine .operand fun j₄ h₄ => .get fun c _ _ => (hg.expr _ _ j₄).bind fun second k hs => .pure ?_
    exact hfirst.laid.mono_hi (by have := hs.lt; omega)
  · have hsplit : S.Laid i ([(splitName first).1] ++ (splitName first).2.toList) j₃ := hfirst.laid_splitName
    exact .pure (by simpa [CaughtIn] using hsplit.of_append)

lemma reads_handler (e : Expectation) (ofGroup : Bool) :
    S.Reads (handler g e ofGroup) (Maybe S.NodeIn) := by
  intro i
  rw [handler]
  refine yields_aheadHere fun a ha => ?_
  cases a with
  | token c =>
    obtain ⟨hc, hle⟩ := ha c rfl
    dsimp only
    cases hh : handlerHere c with
    | none => exact .pure (Nat.le_refl i)
    | some kind =>
      have hrest : c.rest ≠ [] := fun hr => by simp [handlerHere, hr, word] at hh
      have hlen : (handlerWord ofGroup).length ≠ 0 := by cases ofGroup <;> decide
      refine .set hc (.require fun _ => (yields_advance hc rfl hrest hlen).bind fun _ j hj => ?_)
      refine (reads_caught hg ofGroup j).bind fun what j₁ hw => (reads_suite hg j₁).bind fun body k hb => .pure ?_
      rw [hc.place]
      have hall := hw.append hb
      exact laid_marked hle (Nat.lt_of_lt_of_le hj hall.le) (by simpa using hall.mono_lo (Nat.le_of_lt hj))
  | lineEnd => exact .pure (Nat.le_refl i)
  | deeper n => exact .pure (Nat.le_refl i)
  | shallower => exact .pure (Nat.le_refl i)

lemma yields_tryBlock (hij : i < j) :
    S.Yields j (tryBlock g (S.placeAt i)) (S.NodeIn i) := by
  rw [tryBlock]
  refine (reads_suite hg j).bind fun body j₁ hb => yields_aheadHere fun a ha => ?_
  have hle := hb.le
  cases a with
  | token c =>
    obtain ⟨hc, hci⟩ := ha c rfl
    dsimp only
    cases handlerHere c with
    | none =>
      refine .set hc (.keyword (by decide) fun j₂ h₂ => (reads_suite hg j₂).bind fun final k hf => .pure ?_)
      have hall := (hb.mono_lo (Nat.le_of_lt hij)).append (hf.mono_lo (show j₁ ≤ j₂ by omega))
      exact laid_marked (Nat.le_refl i) (by have := hf.le; omega) (by simpa using hall)
    | some ofGroup =>
      refine (reads_handler hg _ _ j₁).bind fun first j₂ hf => ?_
      refine (reads_collect (reads_handler hg _ _) _ j₂).bind fun more j₃ hm => ?_
      refine (reads_suiteBehind hg _ j₃).bind fun orelse j₄ ho => (reads_suiteBehind hg _ j₄).bind fun final k hl => .pure ?_
      have hhandlers := hf.laid.append hm.laid_self
      have hall := (hb.mono_lo (Nat.le_of_lt hij)).append (hhandlers.append (ho.append hl))
      exact laid_marked (Nat.le_refl i) (by have := hhandlers.le; have := ho.le; have := hl.le; omega)
        (by simpa using hall)
  | lineEnd => exact .fail
  | deeper n => exact .fail
  | shallower => exact .fail

lemma yields_asyncStatement :
    S.Yields i (asyncStatement g (S.placeAt i)) (S.Laid i) := by
  dsimp only [asyncStatement]
  refine .stay (stays_peek _) fun w => ?_
  have behind : ∀ {p : Parser Node} {w : String}, w ≠ "" → (∀ j, i < j → S.Yields j p (S.NodeIn i)) →
      S.Yields i (do
        keyword "async"
        toToken .inner false
        keyword w
        let n ← p
        pure [n]) (S.Laid i) := by
    intro p w hw hp
    refine .keyword (by decide) fun j h => .token fun j₁ h₁ => ?_
    exact (reads_keyword hw j₁).bind fun _ j₂ h₂ => (hp j₂ (by omega)).bind fun n k hn => .pure hn
  split
  · exact behind (by decide) fun j hj => yields_functionDef hg (Nat.le_of_lt hj) (.nil (Nat.le_of_lt hj)) true
  · exact behind (by decide) fun j hj => yields_forLoop hg hj true
  · exact behind (by decide) fun j hj => yields_withBlock hg hj true
  · exact reads_statementLine hg i

lemma reads_statement : S.Reads (statement g) S.Laid := by
  intro i
  dsimp only [statement]
  refine .get fun c hc hi => .fork (reads_statementLine hg i) <| .startsWith fun _ => ?_
  rw [show c.place = S.placeAt i from hi ▸ hc.place]
  refine .fork ((reads_decorated hg).bind fun n k hn => .pure hn) <| yields_wordHere hc hi ?_
  have behind : ∀ {p : Parser Node}, String.ofList (word c.rest) ≠ "" → (∀ j, i < j → S.Yields j p (S.NodeIn i)) →
      S.Yields i (do
        advance (String.ofList (word c.rest)).length
        let n ← p
        pure [n]) (S.Laid i) := fun hw hp =>
    (yields_advanceWord hc hi hw).bind fun _ j hj => (hp j hj).bind fun n k hn => .pure hn
  have hline := reads_statementLine hg i
  split
  · next hw => exact behind (by simp [hw]) fun j hj => yields_branch hg hj
  · next hw => exact behind (by simp [hw]) fun j hj => yields_forLoop hg hj false
  · next hw => exact behind (by simp [hw]) fun j hj => yields_whileLoop hg hj
  · next hw => exact behind (by simp [hw]) fun j hj => yields_tryBlock hg hj
  · next hw => exact behind (by simp [hw]) fun j hj => yields_withBlock hg hj false
  · next hw =>
    exact behind (by simp [hw]) fun j hj =>
      yields_functionDef hg (Nat.le_of_lt hj) (.nil (Nat.le_of_lt hj)) false
  · next hw => exact behind (by simp [hw]) fun j hj => yields_classDef hg (Nat.le_of_lt hj) (.nil (Nat.le_of_lt hj))
  · exact yields_asyncStatement hg
  · next hw => exact .or (behind (by simp [hw]) fun j hj => yields_choice hg hj) hline
  · exact hline

lemma reads_block : S.Reads (block g) S.Laid := by
  intro i
  rw [block]
  refine (reads_collect (R := S.Laid) (fun k => ?_) _ i).bind fun nss j hns => .pure ?_
  · rw [blockStep]
    refine yields_aheadHere fun a ha => ?_
    cases a with
    | shallower => exact (reads_closeBlock k).bind fun _ m hm => .pure hm
    | token c =>
      obtain ⟨hc, hle⟩ := ha c rfl
      refine .set hc (.fork (.pure hle) ?_)
      exact (reads_statement hg _).bind fun ns m hns => .pure (hns.mono_lo hle)
    | lineEnd => exact .fail
    | deeper n => exact .fail
  · have hall := hns.laid (f := id) fun _ _ _ h => h
    rwa [List.flatMap_id] at hall

end SourceBlocks.Lexis.Source

namespace SourceBlocks.Grammar

open SourceBlocks.Lexis (Source Cursor)

lemma sound_rules (S : Source) (bound n : Nat) : (rules bound n).Sound S := by
  induction n with
  | zero =>
    exact ⟨fun _ _ _ => .fail, fun _ _ => .fail, fun _ _ _ => .fail, fun _ _ => .fail, fun _ => .fail⟩
  | succ n ih =>
    exact ⟨Source.reads_expression ih, Source.reads_target ih, Source.reads_hint ih,
      Source.reads_casePattern ih, Source.reads_block ih⟩

lemma read_laid {S : Source} {n : Tree.Node} (h : read S.margin S.chars = .ok n) :
    ∃ ns, n = .mk none (.module ns) ∧ S.Laid 0 ns S.chars.length := by
  simp only [read] at h
  split at h
  · next ns d hd =>
    obtain rfl := Except.ok.inj h
    obtain ⟨hhas, hlaid⟩ := Source.reads_block (sound_rules S _ _) 0 _ S.has_ofSource rfl ns d hd
    exact ⟨ns, rfl, hlaid.mono_hi hhas.le⟩
  · cases h

end SourceBlocks.Grammar
