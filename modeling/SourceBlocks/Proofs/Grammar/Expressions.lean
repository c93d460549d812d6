import SourceBlocks.Grammar.Expressions
import SourceBlocks.Proofs.Grammar.Operands

namespace SourceBlocks.Lexis.Source

open Grammar Grammar.Parser
open SourceBlocks.Tree (Field Mark Node Shape)

variable {S : Source} {g : Rules Node}

attribute [local simp] Shape.children Shape.fieldNodes Shape.fields Field.nodes

def parameterNodes : Parameter Node → List Node
  | .named arg default => arg :: default.toList
  | _ => []

lemma keywordOnly_nodes (ps : List (Parameter Node)) :
    (Parameter.keywordOnly true ps).flatMap (fun p => p.1 :: p.2.toList) =
      ps.flatMap parameterNodes := by
  induction ps with
  | nil => rfl
  | cons p ps ih => cases p <;> simp [Parameter.keywordOnly, parameterNodes, ih]

lemma children_parameters (ps : List (Parameter Node)) :
    (Parameter.shape ps).children = ps.flatMap parameterNodes := by
  rw [Parameter.shape, Shape.children]
  induction ps with
  | nil => rfl
  | cons p ps ih =>
    cases p <;> simp_all [Parameter.positional, Parameter.keywordOnly, parameterNodes, keywordOnly_nodes]

abbrev ParameterIn (S : Source) (lo : Nat) (p : Parameter Node) (hi : Nat) : Prop :=
  S.Laid lo (parameterNodes p) hi

section

variable (hg : g.Sound S)

include hg

lemma reads_starName (follow : Follow) {stars : String} :
    S.Reads (starName g follow stars) Goes := by
  intro i
  rw [starName]
  refine .get fun c _ _ => (goes_symbol _ i).bind fun _ j h => .token fun j₁ h₁ => ?_
  refine (reads_nameAtom j₁).bind fun p j₂ hp => (reads_trailers hg follow j₂).bind fun ts k hts => ?_
  have := (hp.trailers hts).lt
  exact .require fun _ => .pure (show i ≤ k by omega)

lemma reads_parameterType (site : Site) (typed : Bool) :
    S.Reads (parameterType g site typed) (Maybe S.NodeIn) := by
  intro i
  dsimp only [parameterType]
  refine .token fun j h => .ite_bind (Q := Goes i) ?_ fun _ j₁ (h₁ : i ≤ j₁) => ?_
  · exact .fork ((reads_symbol? (by decide) j).mono fun _ k hk => Nat.le_trans h hk.1) <| .pure h
  refine .fork ?_ <| .pure h₁
  refine .operand fun j₂ h₂ => (hg.hint _ _ j₂).bind fun p k hp => .pure ?_
  exact hp.laid.mono_lo (by omega)

lemma reads_parameterDefault (site : Site) :
    S.Reads (parameterDefault g site) (Maybe S.NodeIn) := by
  intro i
  rw [parameterDefault]
  refine .token fun j h => (reads_symbol? (by decide) j).bind fun _ j₁ ⟨h₁, _⟩ => ?_
  refine .fork ?_ <| .pure (show i ≤ j₁ by omega)
  refine .operand fun j₂ h₂ => (hg.expr _ _ j₂).bind fun p k hp => .pure ?_
  exact hp.laid.mono_lo (by omega)

lemma reads_parameter (site : Site) (typed : Bool) :
    S.Reads (parameter g site typed) S.ParameterIn := by
  intro i
  rw [parameter]
  -- a starred parameter has no node, and its annotation is dropped
  have starred : ∀ (stars : String) (f : List Char → Option Node → Parameter Node), (∀ w o, parameterNodes (f w o) = []) →
      S.Yields i (do
        let written ← starName g site.follow stars
        let type ← parameterType g site typed
        pure (f written type)) (S.ParameterIn i) := fun stars f hf => by
    refine (reads_starName hg _ i).bind fun w j h => (reads_parameterType hg _ _ j).bind fun o k ho => .pure ?_
    rw [ParameterIn, hf]
    exact .nil (Nat.le_trans h ho.laid.le)
  refine .get fun c hc hi => ?_
  rw [show c.place = S.placeAt i from hi ▸ hc.place]
  split
  · exact starred _ _ fun _ _ => rfl
  · refine .stay (stays_peek _) fun _ => .fork ?_ <| starred _ _ fun _ _ => rfl
    exact (goes_symbol _ i).bind fun _ j hj => .pure (.nil hj)
  · exact (goes_symbol _ i).bind fun _ j hj => .pure (.nil hj)
  · refine (reads_tupleTarget hg i).bind fun p j hp => (reads_parameterDefault hg _ j).bind fun o k ho => .pure ?_
    have harg : S.Laid i [marked (S.placeAt i) (.arg (String.ofList (c.textTo p.stop)) none)] j :=
      laid_marked (Nat.le_refl i) hp.lt (by simpa using .nil (Nat.le_of_lt hp.lt))
    exact harg.cons ho.laid
  · refine (reads_name i).bind fun w j hj => (reads_parameterType hg _ _ j).bind fun type j₁ ht => ?_
    refine (reads_parameterDefault hg _ j₁).bind fun o k ho => .pure ?_
    have hlt : i < j₁ := Nat.lt_of_lt_of_le hj ht.laid.le
    have harg : S.Laid i [marked (S.placeAt i) (.arg w type)] j₁ :=
      laid_marked (Nat.le_refl i) hlt (by simpa using ht.laid.mono_lo (Nat.le_of_lt hj))
    exact harg.cons ho.laid

lemma reads_parameters (site : Site) (typed : Bool) (closing : String) :
    S.Reads (parameters g site typed closing) (Chained S.ParameterIn) := by
  intro i
  dsimp only [parameters]
  refine .startsWith fun _ => .fork (.pure (.nil (Nat.le_refl i))) ?_
  refine (reads_parameter hg _ _ i).bind fun first j hf => ?_
  exact (reads_series (reads_separated (reads_parameter hg _ _) fun _ _ _ _ h => h.mono_lo) _ j).bind
    fun (more, _) k hm => .pure (.cons hf hm)

end

lemma Chained.laid_parameters {i j : Nat} {ps : List (Parameter Node)} (h : Chained S.ParameterIn i ps j) :
    S.Laid i [unmarked (Parameter.shape ps)] j :=
  laid_unmarked ((children_parameters ps).symm ▸ h.laid fun _ _ _ h => h)

lemma stays_valueOperatorHere : Stays valueOperatorHere := stays_fun

lemma reads_wordPair {first second : String} (hf : first ≠ "") (hs : second ≠ "") :
    S.Reads (wordPair first second) Goes := by
  intro i
  rw [wordPair]
  refine (reads_keyword hf i).bind fun _ j h => .token fun j₁ h₁ => ?_
  refine (reads_keyword hs j₁).mono fun _ k hk => ?_
  have : j₁ < k := hk
  omega

lemma reads_comparison? : S.Reads comparison? Goes := by
  intro i
  rw [comparison?]
  refine .stay (stays_firstHere _) fun shift => .stay (stays_firstHere _) fun sign => ?_
  split
  · exact (goes_symbol _ i).bind fun _ j hj => .pure hj
  refine .stay stays_wordHere fun w => .fork ?_ <| .fork ?_ <| .fork ?_ <|
    .pure (Nat.le_refl i)
  · exact .keyword (by decide) fun j hj => .pure (Nat.le_of_lt hj)
  · refine (reads_wordPair (by decide) (by decide) i).optional.bind fun o j ho => ?_
    have hj : i ≤ j := by
      rcases ho with ⟨-, rfl⟩ | ⟨_, -, hj⟩
      · exact Nat.le_refl j
      · exact hj
    refine .fork (.pure hj) <| .keyword (by decide) fun k hk => .pure ?_
    exact Nat.le_trans hj (Nat.le_of_lt hk)
  · refine (reads_wordPair (by decide) (by decide) i).optional.bind fun o j ho => .pure ?_
    rcases ho with ⟨-, rfl⟩ | ⟨_, -, hj⟩
    · exact Nat.le_refl j
    · exact hj

lemma reads_rightOperand (hg : g.Sound S) (site : Site) (level : Int) :
    S.Reads (rightOperand g site level) S.PhraseIn := by
  intro i
  rw [rightOperand]
  refine .operand fun j h => (hg.expr _ _ j).mono fun p k hp => PhraseIn.lowers hp h

lemma reads_comparisons (hg : g.Sound S) (site : Site) :
    S.Reads (comparisons g site) (Chained (fun i o j => S.PhraseIn i o.2 j)) := by
  intro i
  dsimp only [comparisons]
  refine reads_collect (fun k => ?_) _ i
  refine (reads_look _ _ k).bind fun _ j h => .fork (.pure h) ?_
  refine (reads_comparison? j).bind fun o j₁ h₁ => ?_
  cases o with
  | none => exact .pure (Nat.le_trans h h₁)
  | some op =>
    exact (reads_rightOperand hg _ _ j₁).bind fun p m hp => .pure (PhraseIn.lowers hp (Nat.le_trans h h₁))

lemma laid_chainOperands {i j : Nat} {p : Phrase Node} (op : String) (h : S.Laid i [p.node] j) :
    S.Laid i (chainOperands op p) j := by
  rw [chainOperands]
  split
  · next o values _ hs =>
    split_ifs
    · simpa [Node.children, hs] using h.children
    · exact h
  · exact h

lemma head_chainOperands {i j row : Nat} {p : Phrase Node} (op : String) (h : S.PhraseIn i p j)
    (hrow : p.lead = some row) : ∃ c cs, chainOperands op p = c :: cs ∧ c.mark = some (.endsOn row) := by
  obtain ⟨a, -, -, -, hn, hl⟩ := h
  rw [chainOperands]
  split
  · next o values _ hs =>
    split_ifs
    · obtain ⟨c, cs, hcs, hc⟩ := hn.head_led (hl row hrow) (by simp [hs])
      exact ⟨c, cs, by simpa [Node.children, hs] using hcs, hc⟩
    · exact ⟨_, _, rfl, hl row hrow⟩
  · exact ⟨_, _, rfl, hl row hrow⟩

lemma PhraseIn.joined {i j k : Nat} {p q : Phrase Node} (op : String) (hp : S.PhraseIn i p j)
    (hq : S.PhraseIn j q k) : S.PhraseIn i (joined op p q) k := by
  refine hp.extend_of (Nat.le_of_lt hq.lt) (fun a ha => ?_) fun row hrow => ?_
  · simpa using (laid_chainOperands op ha).append hq.laid
  · obtain ⟨c, cs, hcs, hc⟩ := head_chainOperands op hp hrow
    exact ⟨c, cs ++ [q.node], by simp [hcs], hc⟩

section

variable (hg : g.Sound S)

include hg

lemma yields_conditional (site : Site) {i j : Nat} {body : Phrase Node}
    (hb : S.PhraseIn i body j) : S.Yields j (conditional g site body) (S.PhraseIn i) := by
  rw [conditional]
  refine (reads_rightOperand hg _ _ j).bind fun test j₁ ht => .token fun j₂ h₂ => ?_
  refine .keyword (by decide) fun j₃ h₃ => (reads_rightOperand hg _ _ j₃).bind fun orelse k ho => ?_
  exact .pure (hb.extend (by simp) ((ht.laid.mono_hi (by omega)).cons ho.laid))

lemma yields_aliased (site : Site) {i j : Nat} {p : Phrase Node} (hp : S.PhraseIn i p j) :
    S.Yields j (aliased g site p) (S.PhraseIn i) := by
  rw [aliased]
  refine .operand fun j₁ h₁ => .get fun c _ _ => (hg.expr _ _ j₁).bind fun q k hq => .pure ?_
  have hext : S.PhraseIn i (p.extend q.stop (.other "as_pattern" [p.node, q.node])) k :=
    hp.extend (by simp) (hq.laid.mono_lo h₁)
  exact hext

lemma yields_operators (site : Site) (level : Int) (n : Nat) {i j : Nat} {p : Phrase Node}
    (hp : S.PhraseIn i p j) : S.Yields j (operators g site level n p) (S.PhraseIn i) := by
  induction n generalizing j p with
  | zero => exact .fail
  | succ n ih =>
    dsimp only [operators]
    refine (reads_look _ _ j).bind fun _ j₁ h₁ => ?_
    have hp₁ : S.PhraseIn i p j₁ := hp.mono (Nat.le_refl i) h₁
    refine .fork (.pure hp₁) <| .stay stays_valueOperatorHere fun o => ?_
    rcases o with _ | ⟨op, binds, right⟩
    · refine .ite_bind (Q := fun cs k => Chained (fun i o j => S.PhraseIn i o.2 j) j₁ cs k) ?_ fun cs j₂ hcs => ?_
      · exact .fork (reads_comparisons hg site j₁) <| .pure (.nil (Nat.le_refl _))
      have hall := (hcs.map (f := Prod.snd) fun _ _ _ h => h).laid_nodes
      have hp₂ : S.PhraseIn i p j₂ := hp₁.mono (Nat.le_refl i) hall.le
      split
      · exact ih (hp₁.extend (by simp) hall)
      refine .stay stays_wordHere fun w => ?_
      refine .fork ?_ <| .fork ?_ <| .ite (fun _ => ?_) fun _ =>
        .fork ?_ <| .pure hp₂
      all_goals refine .keyword (by decide) fun j₃ h₃ => ?_
      all_goals have hp₃ : S.PhraseIn i p j₃ := hp₂.mono (Nat.le_refl i) (Nat.le_of_lt h₃)
      · exact (reads_rightOperand hg _ _ j₃).bind fun q k hq => ih (hp₃.joined _ hq)
      · exact (reads_rightOperand hg _ _ j₃).bind fun q k hq => ih (hp₃.joined _ hq)
      · exact (yields_aliased hg site hp₃).bind fun q k hq => ih hq
      · exact (yields_conditional hg site hp₃).bind fun q k hq => ih hq
    · refine .fork (.pure hp₁) <| (goes_symbol op j₁).bind fun _ j₂ h₂ => ?_
      refine (reads_rightOperand hg _ _ j₂).bind fun q k hq => ih ?_
      exact (hp₁.mono (Nat.le_refl i) h₂).extend (by simp) hq.laid

lemma yields_lambda (site : Site) {i j : Nat} (hij : i < j) :
    S.Yields j (lambda g site (S.placeAt i)) (S.PhraseIn i) := by
  rw [lambda]
  refine .token fun j₁ h₁ => (reads_parameters hg _ _ _ j₁).bind fun ps j₂ hps => ?_
  refine .token fun j₃ h₃ => .symbol (by decide) fun j₄ h₄ => ?_
  refine (reads_rightOperand hg _ _ j₄).bind fun body k hb => .pure ?_
  have hparams := hps.laid_parameters.mono (show i ≤ j₁ by omega) (show j₂ ≤ j₄ by omega)
  have hall := hparams.cons hb.laid
  exact .leaf (Nat.le_refl i) (by have := hb.lt; have := hparams.le; omega) (by simpa using hall)

lemma reads_nameOperand (site : Site) (level : Int) :
    S.Reads (nameOperand g site level) S.PhraseIn := by
  intro i
  dsimp only [nameOperand]
  refine (reads_nameAtom i).bind fun p j hp => .ite_bind (Q := Goes j) ?_ fun found k hk => ?_
  · refine .fork ?_ <| .pure (Nat.le_refl j)
    refine Yields.mono (Yields.optional (Q := Goes j) ?_) fun o k ho => ?_
    · refine (reads_look _ _ j).bind fun _ j₁ h₁ => .require fun _ => ?_
      exact (reads_symbol? (by decide) j₁).mono fun _ k hk => Nat.le_trans h₁ hk.1
    · rcases ho with ⟨-, rfl⟩ | ⟨_, -, hk⟩
      · exact Nat.le_refl k
      · exact hk
  have hp' : S.PhraseIn i p k := hp.mono (Nat.le_refl i) hk
  refine .fork ?_ ?_
  · exact (reads_rightOperand hg _ _ k).bind fun q m hq => .pure (hp'.extend (by simp) hq.laid)
  · exact (reads_trailers hg _ k).bind fun ts m hts => .pure (hp'.trailers hts)

lemma reads_awaited (site : Site) (level : Int) {i : Nat} :
    S.Yields i (awaited g site level (S.placeAt i)) (S.PhraseIn i) := by
  rw [awaited]
  refine .stay (stays_peek _) fun _ => .fork ?_ <| reads_nameOperand hg site level i
  refine .keyword (by decide) fun j h => (reads_rightOperand hg _ _ j).bind fun p k hp => .pure ?_
  exact .leaf (Nat.le_refl i) (by have := hp.lt; omega) (by simpa using hp.laid.mono_lo (Nat.le_of_lt h))

end

lemma reads_spreadsWhole (follow : Follow) (ts : List (Trailer Node)) :
    S.Reads (spreadsWhole follow ts) Goes := by
  intro i
  rw [spreadsWhole]
  refine .fork ?_ <| .pure (Nat.le_refl i)
  exact (reads_look _ _ i).bind fun _ j hj => .pure hj

lemma reads_operand (hg : g.Sound S) (site : Site) (level : Int) :
    S.Reads (operand g site level) S.PhraseIn := by
  intro i
  rw [operand]
  refine .get fun c hc hi => .fork (reads_primary hg _ i) ?_
  rw [show c.place = S.placeAt i from hi ▸ hc.place]
  split
  · exact .fail
  next x r hr =>
  have hne : c.rest ≠ [] := by simp [hr]
  -- a sign or a word in front of an operand
  have unary : ∀ (n : Nat) (op : String) (l : Int), n ≠ 0 → S.Yields i (do
      advance n
      let p ← rightOperand g site l
      pure (.leaf (S.placeAt i) p.stop (.unaryOp op p.node))) (S.PhraseIn i) := fun n op l hn => by
    refine (yields_advance hc hi hne hn).bind fun _ j hj => (reads_rightOperand hg _ _ j).bind fun p k hp => ?_
    have hlaid := hp.laid.mono_lo (Nat.le_of_lt hj)
    exact .pure (.leaf (Nat.le_refl i) (Nat.lt_trans hj hp.lt) (by simpa using hlaid))
  refine .fork (unary 1 _ _ (by decide)) <| .fork ?_ <| .fork ?_ ?_
  · exact reads_starPrimary hg _ (reads_spreadsWhole _) i
  · refine .stay stays_wordHere fun w => .fork (unary 3 _ _ (by decide)) ?_
    refine .fork ?_ <| .ite (fun _ => reads_awaited hg site level) fun _ =>
      reads_nameOperand hg site level i
    exact (yields_advance hc hi hne (by decide)).bind fun _ j hj => yields_lambda hg site hj
  · exact reads_primary hg _ i

lemma reads_expression (hg : g.Sound S) (site : Site) (level : Int) :
    S.Reads (expression g site level) S.PhraseIn := by
  intro i
  rw [expression]
  exact (reads_operand hg site level i).bind fun p j hp => yields_operators hg site level _ hp

end SourceBlocks.Lexis.Source
