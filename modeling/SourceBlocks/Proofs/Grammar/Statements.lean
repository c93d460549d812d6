import SourceBlocks.Grammar.SimpleStatements
import SourceBlocks.Proofs.Grammar.Operands

namespace SourceBlocks.Lexis.Source

open Grammar Grammar.Parser
open SourceBlocks.Tree (Field Mark Node Shape)

variable {S : Source} {g : Rules Node} {i j k : Nat}

attribute [local simp] Shape.children Shape.fieldNodes Shape.fields Field.nodes

inductive AssignedIn (S : Source) : Nat → Assigned Node → Nat → Prop
  | value {lo hi : Nat} {p : Phrase Node} : S.PhraseIn lo p hi → AssignedIn S lo (.value p) hi
  | plain {lo k hi : Nat} {target : Phrase Node} {right : Assigned Node} : S.PhraseIn lo target k →
      AssignedIn S k right hi → AssignedIn S lo (.plain target right) hi
  | typed {lo k hi : Nat} {target type : Phrase Node} : S.PhraseIn lo target k → S.PhraseIn k type hi →
      AssignedIn S lo (.typed target type none) hi
  | typedValue {lo k m hi : Nat} {target type : Phrase Node} {right : Assigned Node} : S.PhraseIn lo target k →
      S.PhraseIn k type m → AssignedIn S m right hi → AssignedIn S lo (.typed target type (some right)) hi
  | augmented {lo k hi : Nat} {target : Phrase Node} {op : String} {right : Assigned Node} :
      S.PhraseIn lo target k → AssignedIn S k right hi → AssignedIn S lo (.augmented target op right) hi

namespace AssignedIn

variable {a : Assigned Node}

lemma node (h : S.AssignedIn i a j) : S.Laid i [a.node] j := by
  induction h with
  | value hp => exact hp.laid
  | plain ht _ ih => exact ht.laid_mark (by simp) ih
  | typed ht hy => exact ht.laid_mark (by simp) hy.laid
  | typedValue ht hy _ ih => exact ht.laid_mark (by simp) (hy.laid.cons ih)
  | augmented ht _ ih => exact ht.laid_mark (by simp) ih

lemma chain (h : S.AssignedIn i a j) : S.Laid i (a.chain.1 ++ [a.chain.2]) j := by
  induction h with
  | plain ht _ ih => exact ht.laid.cons ih
  | value hp => exact (value hp).node
  | typed ht hy => exact (typed ht hy).node
  | typedValue ht hy hr _ => exact (typedValue ht hy hr).node
  | @augmented _ _ _ target op right ht hr _ =>
    have h : S.AssignedIn _ (.augmented target op right) _ := .augmented ht hr
    exact h.node

lemma statement (h : S.AssignedIn i a j) : S.Laid i [a.statement] j := by
  cases h with
  | value hp => exact hp.laid_mark (by simp) (.nil (Nat.le_refl j))
  | plain ht hr => exact ht.laid_mark (by simp) hr.chain
  | typed ht hy => exact ht.laid_mark (by simp) hy.laid
  | typedValue ht hy hr => exact ht.laid_mark (by simp) (hy.laid.cons hr.node)
  | augmented ht hr => exact ht.laid_mark (by simp) hr.node

lemma lowers : Lowers S.AssignedIn := by
  intro i j k a h hk
  cases h with
  | value hp => exact .value (PhraseIn.lowers hp hk)
  | plain ht hr => exact .plain (PhraseIn.lowers ht hk) hr
  | typed ht hy => exact .typed (PhraseIn.lowers ht hk) hy
  | typedValue ht hy hr => exact .typedValue (PhraseIn.lowers ht hk) hy hr
  | augmented ht hr => exact .augmented (PhraseIn.lowers ht hk) hr

end AssignedIn

lemma reads_assignmentTargets (hg : g.Sound S) (isNested : Bool) :
    S.Reads (assignmentTargets g isNested) S.PhraseIn := by
  intro i
  dsimp only [assignmentTargets]
  refine .get fun c _ _ => .require fun _ => (hg.target _ i).bind fun first j hf => ?_
  refine .token fun j₁ h₁ => (reads_symbol? (by decide) j₁).bind fun _ j₂ ⟨h₂, _⟩ => ?_
  refine .fork (.pure (hf.mono (Nat.le_refl i) (by omega))) ?_
  generalize (if isNested = true then Follow.line else Follow.inner) = follow
  have item : S.Reads (do
      toToken follow true
      if ← nextIn ['=', ':', '+', '-', '/', '@', '%', '&', '^', '|', '<', '>'] then pure none
      else do
        let p ← g.target follow
        pure (some p)) (Maybe S.PhraseIn) := fun k => by
    refine .token fun k₁ h₁ => .stay (stays_nextIn _) fun _ => ?_
    refine .fork (.pure h₁) <| (hg.target _ k₁).bind fun p k₂ hp => .pure ?_
    exact PhraseIn.lowers hp h₁
  refine (item j₂).bind fun second j₃ hs => ?_
  have hsecond : S.Laid j (second.toList.map Phrase.node) j₃ := by
    cases second with
    | none => exact .nil (Nat.le_trans (by omega) hs)
    | some p => exact (PhraseIn.laid hs).mono_lo (by omega)
  have finish : ∀ (more : List (Phrase Node)) stop m, Chained S.PhraseIn j₃ more m →
      S.PhraseIn i (first.extend stop (.tuple ((first :: second.toList ++ more).map Phrase.node))) m :=
    fun more stop m hm => hf.extend (by simp) (hsecond.append hm.laid_nodes)
  cases second with
  | none =>
    refine Yields.bind (Q := fun r m => Chained S.PhraseIn j₃ r.1 m) (.pure (.nil (Nat.le_refl _))) ?_
    exact fun r m hm => .pure (finish r.1 _ m hm)
  | some p =>
    refine (reads_series (R := S.PhraseIn) (fun k => ?_) _ j₃).bind fun r m hm => .pure (finish r.1 _ m hm)
    refine .token fun k₁ h₁ => (reads_symbol? (by decide) k₁).bind fun _ k₂ ⟨h₂, _⟩ => ?_
    refine .fork (.pure (show k ≤ k₂ by omega)) <| (item k₂).bind fun o k₃ ho => .pure ?_
    exact lowers_maybe PhraseIn.lowers ho (show k ≤ k₂ by omega)

lemma reads_assignedValue (hg : g.Sound S) : S.Reads (assignedValue g) S.AssignedIn := by
  intro i
  rw [assignedValue]
  exact (reads_orYield hg _ (reads_expressions hg _) i).bind fun p j hp => .pure (.value hp)

lemma stays_equalsHere : Stays equalsHere :=
  stays_bind (stays_startsWith _) fun _ => stays_bind (stays_startsWith _) fun _ => stays_pure _

lemma reads_assignment (hg : g.Sound S) (isNested : Bool) (n : Nat) :
    S.Reads (assignment g isNested n) S.AssignedIn := by
  induction n generalizing isNested with
  | zero => exact fun _ => .fail
  | succ n ih =>
    intro i
    dsimp only [assignment]
    have right : S.Reads (do
        toOperand
        (assignment g true n).or (assignedValue g)) S.AssignedIn := fun k =>
      .operand fun m hm =>
        (Yields.or (ih true m) (reads_assignedValue hg m)).mono fun a _ ha => AssignedIn.lowers ha hm
    refine (reads_assignmentTargets hg isNested i).bind fun target j ht => .stay stays_equalsHere fun _ => ?_
    refine .fork ?_ <| .stay (stays_firstHere _) fun op => ?_
    · refine .symbol (by decide) fun j₁ h₁ => (right j₁).bind fun r k hr => .pure ?_
      exact .plain ht (AssignedIn.lowers hr (Nat.le_of_lt h₁))
    cases op with
    | some op =>
      refine (goes_symbol op j).bind fun _ j₁ h₁ => (right j₁).bind fun r k hr => .pure ?_
      exact .augmented ht (AssignedIn.lowers hr h₁)
    | none =>
      refine .startsWith fun _ => .require fun _ => .symbol (by decide) fun j₁ h₁ => ?_
      refine .operand fun j₂ h₂ => (hg.hint _ _ j₂).bind fun type j₃ hy => ?_
      have htype : S.PhraseIn j type j₃ := PhraseIn.lowers hy (by omega)
      refine (goes_both (reads_look _ _) stays_equalsHere.goes j₃).bind fun _ j₄ h₄ => .fork ?_ ?_
      · refine .symbol (by decide) fun j₅ h₅ => (right j₅).bind fun r k hr => .pure ?_
        exact .typedValue ht htype (AssignedIn.lowers hr (by omega))
      · exact .pure (.typed ht (htype.mono (Nat.le_refl _) h₄))

lemma reads_statementEnd : S.Reads statementEnd Goes := by
  intro i
  rw [statementEnd]
  refine (reads_look _ _ i).bind fun _ j hj => .fork (.startsWith fun b => ?_) <| .pure hj
  cases b with
  | false => exact .fail
  | true => exact .pure hj

lemma reads_whole {p : Parser Node} (hp : S.Reads p S.NodeIn) : S.Reads (whole p) S.NodeIn := by
  intro i
  rw [whole]
  exact (hp i).bind fun n j hn => (reads_statementEnd j).bind fun _ k hk => .pure (hn.mono_hi hk)

lemma reads_valueStatement (hg : g.Sound S) : S.Reads (valueStatement g) S.NodeIn := by
  intro i
  rw [valueStatement]
  refine yields_here ((reads_keyword? (by decide) i).bind fun _ j ⟨hj, hlt⟩ => .ite (fun hb => ?_) fun _ => ?_)
  · refine (yields_yieldValue hg _ (hlt hb)).bind fun p k hp => .pure ?_
    exact hp.laid_mark (by simp) (.nil (Nat.le_refl k))
  · refine yields_listed hg _ fun first more b k m hf hmore => ?_
    have hf' := PhraseIn.lowers hf hj
    cases more with
    | nil => exact .pure (hf'.laid_mark (by simp) hmore.laid_nodes)
    | cons p ps =>
      -- the statement and the tuple in it both begin as the first expression does
      have htuple : S.PhraseIn i (first.extend 0 (.tuple ((first :: p :: ps).map Phrase.node))) m :=
        hf'.extend (by simp) hmore.laid_nodes
      exact .pure (htuple.laid_mark (by simp [Phrase.extend, Phrase.mark]) (.nil (Nat.le_refl m)))

lemma reads_expressionStatement (hg : g.Sound S) : S.Reads (expressionStatement g) S.NodeIn := by
  intro i
  dsimp only [expressionStatement]
  refine .or (reads_whole (fun k => ?_) i) (reads_whole (reads_valueStatement hg) i)
  exact (reads_assignment hg false _ k).bind fun a m ha => .pure ha.statement

/-! Imports. Their names are nodes without marks. -/

lemma reads_dottedName (follow : Follow) : S.Reads (dottedName g follow) Goes := by
  intro i
  dsimp only [dottedName]
  refine .get fun c _ _ => (reads_name i).bind fun _ j hj => .stay stays_index fun _ => ?_
  refine (reads_collect (R := Goes) (fun k => ?_) _ j).bind fun more m hm => .pure ?_
  · refine (reads_look _ _ k).bind fun _ k₁ h₁ => .fork (.pure h₁) ?_
    refine (reads_symbol? (by decide) k₁).bind fun _ k₂ ⟨h₂, _⟩ => ?_
    refine .fork ?_ <| .pure (show k ≤ k₂ by omega)
    refine .token fun k₃ h₃ => (reads_name k₃).bind fun _ k₄ h₄ => ?_
    exact .stay stays_index fun _ => .pure (show k ≤ k₄ by omega)
  · exact Nat.le_trans (Nat.le_of_lt hj) (hm.le fun h => h)

lemma laid_importAlias {id : String} {asname : Option String} {p : Position} (h : i ≤ j) :
    S.Laid i [unmarked (.importAlias id asname p)] j := laid_unmarked (by simpa using .nil h)

lemma reads_importedName (follow : Follow) : S.Reads (importedName g follow) S.NodeIn := by
  intro i
  dsimp only [importedName]
  refine yields_here ((reads_dottedName follow i).bind fun _ j h => ?_)
  refine (reads_both (reads_look _ _) (reads_keyword? (by decide)) j).bind fun _ j₁ ⟨h₁, _⟩ => ?_
  refine .fork ?_ <| .pure (laid_importAlias (Nat.le_trans h h₁))
  refine .token fun j₂ h₂ => (reads_name j₂).bind fun _ k hk => .pure ?_
  exact laid_importAlias (by omega)

lemma reads_importedNames (follow : Follow) : S.Reads (importedNames g follow) S.Laid := by
  intro i
  dsimp only [importedNames]
  refine (reads_importedName follow i).bind fun first j hf => ?_
  refine (reads_series (R := S.NodeIn) (fun k => ?_) _ j).bind fun (more, _) m hm => .pure (hf.cons hm.laid_self)
  refine (reads_look _ _ k).bind fun _ k₁ h₁ => .fork (.pure h₁) ?_
  refine (reads_symbol? (by decide) k₁).bind fun _ k₂ ⟨h₂, _⟩ => ?_
  refine .fork (.pure (show k ≤ k₂ by omega)) <| (reads_look _ _ k₂).bind fun _ k₃ h₃ => ?_
  refine .fork (.pure (show k ≤ k₃ by omega)) <| .stay stays_wordHere fun _ => ?_
  refine .fork (.pure (show k ≤ k₃ by omega)) ?_
  exact (reads_importedName follow k₃).bind fun n k₄ hn => .pure (hn.mono_lo (by omega))

lemma reads_importList : S.Reads (importList g) S.Laid := by
  intro i
  rw [importList]
  refine (reads_symbol? (by decide) i).bind fun _ j ⟨h, _⟩ => .fork ?_ ?_
  · refine .token fun j₁ h₁ => (reads_importedNames _ j₁).bind fun names j₂ hn => ?_
    refine .token fun j₃ h₃ => .symbol (by decide) fun k hk => .pure ?_
    exact hn.mono (by omega) (by omega)
  · exact (reads_importedNames _ j).mono fun ns k hns => hns.mono_lo h

lemma reads_leadingDots (n : Nat) : S.Reads (leadingDots n) Goes := by
  induction n with
  | zero => exact fun _ => .fail
  | succ n ih =>
    intro i
    rw [leadingDots]
    refine .symbol (by decide) fun j h => .stay stays_index fun _ => ?_
    refine .token fun j₁ h₁ => .startsWith fun _ => .fork ?_ ?_
    · exact (ih j₁).mono fun _ k hk => Nat.le_trans (by omega) hk
    · exact .pure (show i ≤ j₁ by omega)

lemma reads_importedModule : S.Reads (importedModule g) Goes := by
  intro i
  rw [importedModule]
  refine .startsWith fun _ => .fork ?_ ?_
  · refine .get fun c _ _ => (reads_leadingDots _ i).bind fun _ j h => .stay stays_wordHere fun _ => ?_
    refine .fork (.pure h) <| (reads_dottedName _ j).bind fun _ k hk => .pure ?_
    exact Nat.le_trans h hk
  · exact (reads_dottedName _ i).bind fun _ j hj => .pure hj

lemma yields_fromImport (hij : i < j) : S.Yields j (fromImport g (S.placeAt i)) (S.NodeIn i) := by
  dsimp only [fromImport]
  refine .token fun j₁ h₁ => .stay stays_wordHere fun _ => ?_
  have finish : ∀ (source : Option String) (level : Nat) (isFuture : Bool) m, j₁ ≤ m → S.Yields m (do
      toToken .inner false
      keyword "import"
      toToken .inner false
      if ← startsWith "*" then do
        require (!isFuture)
        let spot ← here
        symbol "*"
        pure (marked (S.placeAt i) (.importFrom source [unmarked (.importAlias "*" none spot)] level))
      else do
        let names ← importList g
        pure (marked (S.placeAt i) (.importFrom source names level))) (S.NodeIn i) := by
    intro source level isFuture m hm
    refine .token fun m₁ h₁ => .keyword (by decide) fun m₂ h₂ => ?_
    refine .token fun m₃ h₃ => .startsWith fun _ => ?_
    refine .fork (.require fun _ => yields_here ?_) ?_
    · refine .symbol (by decide) fun m₄ h₄ => .pure (laid_marked (Nat.le_refl i) (by omega) ?_)
      simpa using laid_importAlias (by omega)
    · refine (reads_importList m₃).bind fun names m₄ hn => .pure ?_
      exact laid_marked (Nat.le_refl i) (by have := hn.le; omega) (by simpa using hn.mono_lo (by omega))
  refine .fork ?_ ?_
  · refine .keyword (by decide) fun k hk => ?_
    refine Yields.bind (Q := Goes j₁) (.pure (Nat.le_of_lt hk)) fun r m hm => ?_
    exact finish r.1 r.2 _ m hm
  · exact (reads_importedModule j₁).bind fun r m hm => finish r.1 r.2 _ m hm

lemma yields_plainImport (hij : i < j) : S.Yields j (plainImport g (S.placeAt i)) (S.NodeIn i) := by
  rw [plainImport]
  refine .token fun j₁ h₁ => (reads_importedNames _ j₁).bind fun names k hn => .pure ?_
  exact laid_marked (Nat.le_refl i) (by have := hn.le; omega) (by simpa using hn.mono_lo (by omega))

/-! Statements that begin with a word of their own. -/

lemma reads_optionalExpressions (hg : g.Sound S) :
    S.Reads (optionalExpressions g) (Maybe S.PhraseIn) := by
  intro i
  rw [optionalExpressions]
  refine (goes_both (reads_look _ _) stays_operandHere.goes i).bind fun _ j h => .fork ?_ <| .pure h
  exact (reads_expressions hg _ j).map fun p k hp => PhraseIn.lowers hp h

lemma Maybe.laid_node {o : Option (Phrase Node)} (h : Maybe S.PhraseIn i o j) :
    S.Laid i (o.map Phrase.node).toList j := by
  cases o with
  | none => exact .nil h
  | some p => exact PhraseIn.laid h

lemma reads_nameList : S.Reads (nameList g) Goes := by
  intro i
  dsimp only [nameList]
  refine .token fun j h => (reads_name j).bind fun _ j₁ h₁ => ?_
  refine (reads_collect (R := Goes) (fun k => ?_) _ j₁).bind fun more m hm => .pure ?_
  · refine (reads_both (reads_look _ _) (reads_symbol? (by decide)) k).bind fun _ k₁ ⟨h₁, _⟩ => ?_
    refine .fork ?_ <| .pure h₁
    refine .token fun k₂ h₂ => (reads_name k₂).map fun _ k₃ h₃ => ?_
    have : k₂ < k₃ := h₃
    exact show k ≤ k₃ by omega
  · have : j₁ ≤ m := hm.le fun h => h
    exact show i ≤ m by omega

section

variable (hg : g.Sound S)

include hg

lemma reads_strictList : S.Reads (strictList g) (Chained S.PhraseIn) := by
  intro i
  dsimp only [strictList]
  refine .operand fun j h => (hg.expr _ _ j).bind fun first j₁ hf => ?_
  refine (reads_collect (R := S.PhraseIn) (fun k => ?_) _ j₁).bind fun more m hm => .pure ?_
  · refine (reads_both (reads_look _ _) (reads_symbol? (by decide)) k).bind fun _ k₁ ⟨h₁, _⟩ => ?_
    refine .fork ?_ <| .pure h₁
    exact .operand fun k₂ h₂ => (hg.expr _ _ k₂).map fun p k₃ hp =>
      PhraseIn.lowers hp (by omega)
  · exact .cons (PhraseIn.lowers hf h) hm

lemma yields_deletion (hij : i < j) :
    S.Yields j (deletion g (S.placeAt i)) (S.NodeIn i) := by
  rw [deletion]
  refine .operand fun j₁ h₁ => yields_listed hg _ fun first more b k m hf hmore => .pure ?_
  have hall := (hf.laid.mono_lo (show i ≤ j₁ by omega)).cons hmore.laid_nodes
  exact laid_marked (Nat.le_refl i) (by have := hf.lt; have := hmore.laid_nodes.le; omega) (by simpa using hall)

lemma yields_raising (hij : i < j) :
    S.Yields j (raising g (S.placeAt i)) (S.NodeIn i) := by
  dsimp only [raising]
  have hvalue : Stays (do pure ((← wordHere) ≠ "from") : Parser Bool) :=
    stays_bind stays_wordHere fun _ => stays_pure _
  refine (goes_both (reads_look _ _) hvalue.goes j).bind fun _ j₁ h₁ => ?_
  refine .ite_bind (Q := fun o k => Maybe S.PhraseIn j₁ o k) ?_ fun exc j₂ he => ?_
  · exact .fork (reads_optionalExpressions hg j₁) <| .pure (Nat.le_refl j₁)
  have hexc := he.laid_node.mono_lo (show i ≤ j₁ by omega)
  have hle := he.laid_node.le
  refine (reads_both (reads_look _ _) (reads_keyword? (by decide)) j₂).bind fun _ j₃ ⟨h₃, _⟩ => ?_
  refine .fork ?_ <| .pure ?_
  · refine .operand fun j₄ h₄ => (hg.expr _ _ j₄).bind fun cause k hc => .pure ?_
    have hall := hexc.append (hc.laid.mono_lo (show j₂ ≤ j₄ by omega))
    exact laid_marked (Nat.le_refl i) (by have := hc.lt; omega) (by simpa using hall)
  · exact laid_marked (Nat.le_refl i) (by omega) (by simpa using hexc.mono_hi h₃)

lemma yields_asserting (hij : i < j) :
    S.Yields j (asserting g (S.placeAt i)) (S.NodeIn i) := by
  rw [asserting]
  refine (reads_strictList hg j).bind fun ps k hps => ?_
  have hall := hps.laid_nodes.mono_lo (Nat.le_of_lt hij)
  have hlt : i < k := Nat.lt_of_lt_of_le hij hps.laid_nodes.le
  match ps with
  | [] => exact .fail
  | [test] => exact .pure (laid_marked (Nat.le_refl i) hlt (by simpa using hall))
  | test :: message :: more =>
    have hsplit : S.Laid i ([test.node, message.node] ++ more.map Phrase.node) k := hall
    exact .pure (laid_marked (Nat.le_refl i) hlt (by simpa using hsplit.of_append))

lemma reads_printValues :
    S.Reads (printValues g) (fun i r j => S.Laid i r.1 j) := by
  intro i
  dsimp only [printValues]
  refine (reads_series (R := S.PhraseIn) (fun k => ?_) _ i).bind fun (more, _) m hm => .pure hm.laid_nodes
  refine (reads_look _ _ k).bind fun _ k₁ h₁ => .fork (.pure h₁) ?_
  refine (reads_symbol? (by decide) k₁).bind fun _ k₂ ⟨h₂, _⟩ => .fork (.pure (show k ≤ k₂ by omega)) ?_
  refine (goes_both (reads_look _ _) stays_operandHere.goes k₂).bind fun _ k₃ h₃ => ?_
  refine .fork ?_ <| .pure (show k ≤ k₃ by omega)
  exact (hg.expr _ _ k₃).bind fun p k₄ hp => .pure (PhraseIn.lowers hp (by omega))

lemma reads_printing : S.Reads (printing g) S.NodeIn := by
  intro i
  rw [printing]
  refine yields_here (.keyword (by decide) fun j h => .token fun j₁ h₁ => ?_)
  refine (reads_symbol? (by decide) j₁).bind fun _ j₂ ⟨h₂, _⟩ => .fork ?_ ?_
  · refine .operand fun j₃ h₃ => (hg.expr _ _ j₃).bind fun dest j₄ hd => ?_
    refine (reads_printValues hg j₄).bind fun (values, _) k hv => .pure ?_
    have hall := (hd.laid.mono_lo (show i ≤ j₃ by omega)).cons hv
    exact laid_marked (Nat.le_refl i) (by have := hd.lt; have := hv.le; omega) (by simpa using hall)
  · refine .get fun c _ _ => .require fun _ => (hg.expr _ _ j₂).bind fun first j₃ hf => ?_
    refine (reads_printValues hg j₃).bind fun (values, _) k hv => .pure ?_
    have hall := (hf.laid.mono_lo (show i ≤ j₂ by omega)).cons hv
    exact laid_marked (Nat.le_refl i) (by have := hf.lt; have := hv.le; omega) (by simpa using hall)

end

lemma toList_getElem? (ns : List Node) : ns[0]?.toList ++ ns[1]?.toList = ns.take 2 := by
  match ns with
  | [] => rfl
  | [a] => rfl
  | a :: b :: r => rfl

variable (hg : g.Sound S)

include hg

lemma reads_executing : S.Reads (executing g) S.NodeIn := by
  intro i
  dsimp only [executing]
  refine yields_here (.keyword (by decide) fun j h => .token fun j₁ h₁ => ?_)
  have finish : ∀ (code : Phrase Node) m, S.PhraseIn j₁ code m → S.Yields m (do
      let b ← both (look .line false) (keyword? "in")
      if b then do
        let scopes ← strictList g
        pure (marked (S.placeAt i)
          (.exec code.node (scopes.map Phrase.node)[0]? (scopes.map Phrase.node)[1]?))
      else do
        let scopes ← pure []
        pure (marked (S.placeAt i)
          (.exec code.node (scopes.map Phrase.node)[0]? (scopes.map Phrase.node)[1]?))) (S.NodeIn i) := by
    intro code m hc
    refine (reads_both (reads_look _ _) (reads_keyword? (by decide)) m).bind fun _ m₁ ⟨h₁, _⟩ => ?_
    refine .ite_bind (Q := fun ps k => Chained S.PhraseIn m₁ ps k) ?_ fun scopes k hs => .pure ?_
    · exact .fork (reads_strictList hg m₁) <| .pure (.nil (Nat.le_refl m₁))
    have hsplit := hs.laid_nodes.mono_lo h₁
    rw [← List.take_append_drop 2 (scopes.map Phrase.node), ← toList_getElem?] at hsplit
    have htake := hsplit.of_append
    have hall := (hc.laid.mono_lo (show i ≤ j₁ by omega)).cons htake
    exact laid_marked (Nat.le_refl i) (by have := hc.lt; have := htake.le; omega) (by simpa using hall)
  refine .get fun c hc hci => .fork ?_ ?_
  · exact (reads_singleString hg j₁).bind finish
  · refine .stay stays_wordHere fun _ => .require fun _ => (reads_name j₁).bind fun w k hk => ?_
    refine .stay stays_index fun stop => Yields.bind (Q := S.PhraseIn j₁) (.pure ?_) finish
    rw [show c.place = S.placeAt j₁ from hci ▸ hc.place]
    exact .leaf (Nat.le_refl j₁) hk (by simpa using .nil (Nat.le_of_lt hk))

lemma reads_typeAlias : S.Reads (typeAlias g) S.NodeIn := by
  intro i
  rw [typeAlias]
  refine yields_here (.keyword (by decide) fun j h => .token fun j₁ h₁ => ?_)
  refine (hg.hint _ _ j₁).bind fun left j₂ hl => .token fun j₃ h₃ => ?_
  refine .stay stays_equalsHere fun _ => .require fun _ => .symbol (by decide) fun j₄ h₄ => ?_
  refine .operand fun j₅ h₅ => (hg.hint _ _ j₅).bind fun right k hr => .pure ?_
  have hall := (hl.laid.mono (show i ≤ j₁ by omega) (show j₂ ≤ j₅ by omega)).cons hr.laid
  exact laid_marked (Nat.le_refl i) (by have := hr.lt; have := hl.lt; omega) (by simpa using hall)

lemma reads_simpleStatement : S.Reads (simpleStatement g) S.NodeIn := by
  intro i
  dsimp only [simpleStatement]
  refine .get fun c hc hi => .fork (reads_expressionStatement hg i) <| yields_wordHere hc hi ?_
  rw [show c.place = S.placeAt i from hi ▸ hc.place]
  have behind : ∀ {p : Parser Node}, String.ofList (word c.rest) ≠ "" → (∀ j, i < j → S.Yields j p (S.NodeIn i)) →
      S.Yields i (do
        advance (String.ofList (word c.rest)).length
        p) (S.NodeIn i) := fun hw hp =>
    (yields_advanceWord hc hi hw).bind fun _ j hj => hp j hj
  have word : ∀ {shape : Shape Node}, shape.children = [] → ∀ j, i < j →
      S.Laid i [marked (S.placeAt i) shape] j := fun hs j hj =>
    laid_marked (Nat.le_refl i) hj (hs ▸ .nil (Nat.le_of_lt hj))
  have hexpr := reads_expressionStatement hg i
  split
  · next hw => exact behind (by simp [hw]) fun j hj => .pure (word (by simp) j hj)
  · next hw => exact behind (by simp [hw]) fun j hj => .pure (word (by simp) j hj)
  · next hw => exact behind (by simp [hw]) fun j hj => .pure (word (by simp) j hj)
  · next hw =>
    refine behind (by simp [hw]) fun j hj => (reads_optionalExpressions hg j).bind fun value k hv => .pure ?_
    have hvalue := hv.laid_node
    exact laid_marked (Nat.le_refl i) (Nat.lt_of_lt_of_le hj hvalue.le)
      (by simpa using hvalue.mono_lo (Nat.le_of_lt hj))
  · next hw => exact behind (by simp [hw]) fun j hj => yields_deletion hg hj
  · next hw => exact behind (by simp [hw]) fun j hj => yields_raising hg hj
  · next hw => exact behind (by simp [hw]) fun j hj => yields_asserting hg hj
  · next hw =>
    exact behind (by simp [hw]) fun j hj => (reads_nameList j).bind fun names k hk =>
      .pure (word (by simp) k (Nat.lt_of_lt_of_le hj hk))
  · next hw =>
    exact behind (by simp [hw]) fun j hj => (reads_nameList j).bind fun names k hk =>
      .pure (word (by simp) k (Nat.lt_of_lt_of_le hj hk))
  · next hw => exact behind (by simp [hw]) fun j hj => yields_plainImport hj
  · next hw => exact behind (by simp [hw]) fun j hj => yields_fromImport hj
  · refine .stay (stays_peek _) fun _ => .fork (reads_printing hg i) ?_
    exact .or hexpr (reads_whole (reads_printing hg) i)
  · exact .or (reads_whole (reads_executing hg) i) hexpr
  · exact .or (reads_whole (reads_typeAlias hg) i) hexpr
  · exact hexpr

lemma reads_statementLine : S.Reads (statementLine g) S.Laid := by
  intro i
  dsimp only [statementLine]
  refine (reads_simpleStatement hg i).bind fun first j hf => ?_
  refine (reads_series (R := S.NodeIn) (fun k => ?_) _ j).bind fun (more, _) m hm => .pure (hf.cons hm.laid_self)
  refine (reads_look _ _ k).bind fun _ k₁ h₁ => .fork (.pure h₁) ?_
  refine .symbol (by decide) fun k₂ h₂ => (reads_look _ _ k₂).bind fun _ k₃ h₃ => ?_
  refine .fork ?_ <| .pure (show k ≤ k₃ by omega)
  exact (reads_simpleStatement hg k₃).bind fun n k₄ hn => .pure (hn.mono_lo (by omega))

end SourceBlocks.Lexis.Source
