import SourceBlocks.Proofs.Grammar.Kept.Operands

namespace SourceBlocks

open Lexis Lexis.Source Grammar Grammar.Parser
open SourceBlocks.Tree (Field Mark Node Shape Written)

attribute [local simp] Shape.literal? Shape.children Shape.fieldNodes Shape.fields Field.nodes List.flatMap_map

namespace Lexis.Source

variable {S : Source} {g : Rules Node} {b c d : Cursor} {l : List Written} {site : Site}

section Parameters

variable {typed : Bool} {stars : String}

section

variable (hg : g.Keeps S)

include hg

lemma gives_starName (hat : S.AtParameter b.index g site typed c) (hstars : stars = "*" ∨ stars = "**")
    (h : S.Bears b l c) : Gives c (starName g site.follow stars) fun _ d => S.Bears b l d := by
  have hbare : stars.toList.all isBare = true := by rcases hstars with rfl | rfl <;> decide
  dsimp only [starName]
  refine .get ((quiet_symbol hbare).known h fun _ d hsymbol h => ?_)
  refine (quiet_toToken _ _).known h fun _ d htoken h => keeps_nameAtom.known h fun p d hname h => ?_
  refine (keeps_trailers hg _).known h fun ts d htrailers h => .require fun _ => .pure ?_
  have hdrop : S.Drops b.index (ts.foldl Trailer.apply p).node :=
    .starName hg.tied hat hstars (bind_ok hsymbol (bind_ok htoken (bind_ok hname (bind_ok htrailers rfl))))
  refine Bears.dropped_right ?_ hdrop.dropped
  simpa [Trailer.literals_foldl] using h

lemma keeps_parameterType (site : Site) (typed : Bool) :
    S.Keeps (parameterType g site typed) fun o => o.toList.flatMap Node.literals := by
  intro c hc
  dsimp only [parameterType]
  have typedHere : ∀ (found : Bool) (e : Cursor), S.Bears c [] e → Gives e (if found then do
      toOperand
      let p ← g.hint site true
      pure (some p.node) else pure none) fun o d => S.Bears c (o.toList.flatMap Node.literals) d := by
    refine fun found e h => .fork ?_ <| .pure h
    exact h.operand fun d h => (hg.hint _ _).step h fun p d h => .pure (by simpa using h)
  refine (Bears.refl hc).token fun d h => .fork ?_ <| typedHere false d h
  exact (quiet_symbol? (by decide)).step h fun found e h => typedHere found e h

lemma keeps_parameterDefault (site : Site) :
    S.Keeps (parameterDefault g site) fun o => o.toList.flatMap Node.literals := by
  intro c hc
  rw [parameterDefault]
  refine (Bears.refl hc).token fun d h => (quiet_symbol? (by decide)).step h fun _ d h => ?_
  refine .fork ?_ <| .pure h
  exact h.operand fun d h => (hg.expr _ _).step h fun p d h => .pure (by simpa using h)

lemma gives_starParameter (hat : S.AtParameter b.index g site typed c) (hstars : stars = "*" ∨ stars = "**")
    (h : S.Bears b l c) {q : List Char → Option Node → Parameter Node} (hq : ∀ w o, parameterNodes (q w o) = []) :
    Gives c (do
      let written ← starName g site.follow stars
      let type ← parameterType g site typed
      pure (q written type)) fun q d => S.Bears b (l ++ (parameterNodes q).flatMap Node.literals) d := by
  refine Gives.bind (P := fun w d => starName g site.follow stars c = .ok (w, d) ∧ S.Bears b l d)
    (fun w d hd => ⟨hd, gives_starName hg hat hstars h w d hd⟩) fun w d ⟨hname, h⟩ => ?_
  refine (keeps_parameterType hg site typed).known h fun o e htype h => .pure ?_
  rw [hq]
  cases o with
  | none => exact h
  | some n =>
    have hdrop : S.Drops b.index n := .starType hg.tied hat hstars (bind_ok hname htype)
    have hkept : S.Bears b l e := .dropped_right (by simpa using h) hdrop.dropped
    simpa using hkept

lemma gives_parameter (hat : S.AtParameter b.index g site typed c) (h : S.Bears b l c) :
    Gives c (parameter g site typed) fun q d => S.Bears b (l ++ (parameterNodes q).flatMap Node.literals) d := by
  rw [parameter]
  refine .get ?_
  split
  · exact gives_starParameter hg hat (.inr rfl) h fun _ _ => rfl
  · refine .stay (stays_peek _) fun _ => .fork ?_ <| gives_starParameter hg hat (.inl rfl) h fun _ _ => rfl
    exact h.symbol (by decide) fun d h => .pure (by simpa [parameterNodes] using h)
  · exact h.symbol (by decide) fun d h => .pure (by simpa [parameterNodes] using h)
  · refine (keeps_tupleTarget hg).known h fun p d hread h => ?_
    have hparts : S.Bears b l d := h.dropped_right (Drops.parts hg.tied hat hread).dropped
    exact (keeps_parameterDefault hg site).step hparts fun o d h => .pure (by simpa [parameterNodes] using h)
  · refine quiet_name.step h fun w d h => (keeps_parameterType hg _ _).step h fun type d h => ?_
    exact (keeps_parameterDefault hg site).step h fun o d h => .pure (by simpa [parameterNodes] using h)

end

def BehindParameter (S : Source) (i : Nat) (g : Rules Node) (site : Site) (typed : Bool) (d : Cursor) : Prop :=
  ∃ c q, S.AtParameter i g site typed c ∧ parameter g site typed c = .ok (q, d)

lemma gives_behindParameter (hg : g.Keeps S) (hat : S.AtParameter b.index g site typed c) (h : S.Bears b l c) :
    Gives c (parameter g site typed) fun q d =>
      S.BehindParameter b.index g site typed d ∧ S.Bears b (l ++ (parameterNodes q).flatMap Node.literals) d :=
  fun q d hd => ⟨⟨c, q, hat, hd⟩, gives_parameter hg hat h q d hd⟩

lemma literals_parameters (ps : List (Parameter Node)) :
    (unmarked (Parameter.shape ps)).literals = ps.flatMap fun q => (parameterNodes q).flatMap Node.literals := by
  rw [literals_unmarked, children_parameters, List.flatMap_assoc]
  rfl

lemma gives_parameters (hg : g.Keeps S) (closing : String) (hat : S.AtParameter b.index g site typed c)
    (h : S.Bears b l c) : Gives c (parameters g site typed closing) fun ps d =>
      S.Bears b (l ++ (unmarked (Parameter.shape ps)).literals) d := by
  simp only [parameters, literals_parameters]
  refine .startsWith (.fork (.pure (by simpa using h)) ?_)
  refine (gives_behindParameter hg hat h).bind fun first d ⟨hfirst, h⟩ => ?_
  refine (gives_series (f := fun q => (parameterNodes q).flatMap Node.literals)
    (I := S.BehindParameter b.index g site typed) ?_ _ h hfirst).bind fun r d h => .pure (by simpa using h)
  intro l d h ⟨c', q, hat', hread⟩
  refine (quiet_toToken _ _).known h fun _ d hto h => (quiet_symbol? (by decide)).known h fun found d hcomma h => ?_
  refine .ite (fun _ => .pure ⟨by simpa using h, nofun⟩) fun hfound => (quiet_toToken _ _).known h fun _ d hon h => ?_
  refine .startsWith (.fork (.pure ⟨by simpa using h, by simp⟩) ?_)
  obtain rfl : found = true := by simpa using hfound
  have hsymbol : symbol "," _ = .ok ((), _) := bind_ok hcomma rfl
  refine (gives_behindParameter hg (hat'.next hread (bind_ok hto (bind_ok hsymbol hon))) h).bind fun q d ⟨hq, h⟩ => ?_
  exact .pure ⟨by simpa using h, fun _ _ => hq⟩

end Parameters

section Operators

lemma quiet_wordPair (first second : String) : S.Quiet (wordPair first second) := by
  intro c hc
  rw [wordPair]
  refine (quiet_keyword _).step (.refl hc) fun _ d h => h.token fun d h => ?_
  exact (quiet_keyword _).last h

lemma gives_firstHere (ss : List String) : Gives c (firstHere ss) fun o d => d = c ∧ ∀ s ∈ o, s ∈ ss := by
  intro o d hd
  obtain ⟨rfl, rfl⟩ := Prod.mk.inj (Except.ok.inj hd)
  exact ⟨rfl, fun s hs => List.mem_of_find?_eq_some hs⟩

lemma gives_valueOperatorHere : Gives c valueOperatorHere fun o d => d = c ∧ ∀ x ∈ o, x ∈ valueOperators := by
  intro o d hd
  obtain ⟨rfl, rfl⟩ := Prod.mk.inj (Except.ok.inj hd)
  exact ⟨rfl, fun x hx => List.mem_of_find?_eq_some hx⟩

lemma quiet_comparison? : S.Quiet comparison? := by
  intro c hc
  rw [comparison?]
  refine .stay (stays_firstHere _) fun shift => (gives_firstHere _).bind fun sign d h => ?_
  obtain ⟨hd, hsign⟩ := h
  subst hd
  split
  · next s =>
    have hbare : ∀ s ∈ comparisonSigns, s.toList.all isBare = true := by decide
    exact (quiet_symbol (hbare s (hsign s rfl))).step (.refl hc) fun _ d h => .pure h
  refine .wordHere (.fork ?_ <| .fork ?_ <| .fork ?_ <| .pure (.refl hc))
  · exact (quiet_keyword _).step (.refl hc) fun _ d h => .pure h
  · refine (quiet_wordPair _ _).optional.step (.refl hc) fun _ d h => .fork (.pure h) ?_
    exact (quiet_keyword _).step h fun _ d h => .pure h
  · exact (quiet_wordPair _ _).optional.step (.refl hc) fun _ d h => .pure h

lemma keeps_rightOperand (hg : g.Keeps S) (site : Site) (level : Int) :
    S.Keeps (rightOperand g site level) fun p => p.node.literals := by
  intro c hc
  rw [rightOperand]
  exact (Bears.refl hc).operand fun d h => (hg.expr site level).last h

lemma keeps_comparisons (hg : g.Keeps S) (site : Site) :
    S.Keeps (comparisons g site) fun cs => cs.flatMap fun o => o.2.node.literals := by
  dsimp only [comparisons]
  refine Keeps.collect (fun c hc => ?_) _
  refine (quiet_look _ _).step (.refl hc) fun _ d h => .fork (.pure h) ?_
  refine quiet_comparison?.step h fun o d h => ?_
  cases o with
  | none => exact .pure h
  | some op => exact (keeps_rightOperand hg _ _).step h fun p d h => .pure (by simpa using h)

lemma literals_joined (op : String) (p q : Phrase Node) :
    (joined op p q).node.literals = p.node.literals ++ q.node.literals := by
  have hchain : (chainOperands op p).flatMap Node.literals = p.node.literals := by
    rw [chainOperands]
    split
    · next o values _ hshape =>
      split_ifs
      · obtain ⟨⟨mark, shape⟩, _⟩ := p
        obtain rfl : shape = .boolOp o values := hshape
        simp
      · simp
    · simp
  simp [joined, hchain]

lemma gives_conditional (hg : g.Keeps S) (site : Site) {body : Phrase Node} (h : S.Bears c body.node.literals d) :
    Gives d (conditional g site body) fun p e => S.Bears c p.node.literals e := by
  rw [conditional]
  refine (keeps_rightOperand hg _ _).step h fun test d h => h.token fun d h => ?_
  refine (quiet_keyword _).step h fun _ d h => (keeps_rightOperand hg _ _).step h fun orelse d h => .pure ?_
  simpa using h

lemma gives_aliased (hg : g.Keeps S) (site : Site) {p : Phrase Node} (h : S.Bears c p.node.literals d) :
    Gives d (aliased g site p) fun q e => S.Bears c q.node.literals e := by
  rw [aliased]
  refine h.operand fun d h => .get ((hg.expr _ _).step h fun q d h => .pure ?_)
  simpa using h

lemma gives_operators (hg : g.Keeps S) (site : Site) (level : Int) (n : Nat) {p : Phrase Node}
    (h : S.Bears c p.node.literals d) :
    Gives d (operators g site level n p) fun q e => S.Bears c q.node.literals e := by
  induction n generalizing p d with
  | zero => exact .fail
  | succ n ih =>
    dsimp only [operators]
    refine (quiet_look _ _).step h fun _ d h => .fork (.pure h) ?_
    refine gives_valueOperatorHere.bind fun o e ⟨he, ho⟩ => ?_
    subst he
    rcases o with _ | ⟨op, binds, right⟩
    · have hcompared : S.Keeps (if level < Level.comparison then comparisons g site else pure [])
          fun cs => cs.flatMap fun o => o.2.node.literals := fun c hc =>
        .fork (keeps_comparisons hg site c hc) <| .pure (.refl hc)
      refine .ite_bind (hcompared.last h) fun cs d h => ?_
      split
      · exact ih (by simpa using h)
      · next hnone =>
        obtain rfl : cs = [] := List.getLast?_eq_none_iff.mp hnone
        have h : S.Bears c p.node.literals d := by simpa using h
        have hkeyword (w : String) := quiet_keyword (S := S) w
        refine .wordHere (.fork ?_ <| .fork ?_ <| .ite (fun _ => ?_) fun _ =>
          .fork ?_ <| .pure h)
        · refine (hkeyword _).step h fun _ d h => (keeps_rightOperand hg _ _).step h fun q d h => ih ?_
          rwa [literals_joined]
        · refine (hkeyword _).step h fun _ d h => (keeps_rightOperand hg _ _).step h fun q d h => ih ?_
          rwa [literals_joined]
        · exact (hkeyword _).step h fun _ d h => (gives_aliased hg site h).bind fun q d h => ih h
        · exact (hkeyword _).step h fun _ d h => (gives_conditional hg site h).bind fun q d h => ih h
    · have hbare : ∀ x ∈ valueOperators, x.1.toList.all isBare = true := by decide
      refine .fork (.pure h) <| (quiet_symbol (hbare _ (ho _ rfl))).step h fun _ d h => ?_
      exact (keeps_rightOperand hg _ _).step h fun q d h => ih (by simpa using h)

lemma gives_lambda (hg : g.Keeps S) (site : Site) (start : Position) (hbehind : S.Behind c.index "lambda" d)
    (h : S.Bears c l d) : Gives d (lambda g site start) fun p e => S.Bears c (l ++ p.node.literals) e := by
  rw [lambda]
  refine (quiet_toToken _ _).known h fun _ d hto h => ?_
  refine (gives_parameters hg ":" (.lambda hbehind hto) h).bind fun ps d h => ?_
  refine (quiet_toToken _ _).step h fun _ d h => h.symbol (by decide) fun d h => ?_
  refine (keeps_rightOperand hg _ _).step h fun body d h => .pure ?_
  simpa [-literals_unmarked] using h

lemma quiet_spreadsWhole (follow : Follow) (ts : List (Trailer Node)) : S.Quiet (spreadsWhole follow ts) := by
  intro c hc
  rw [spreadsWhole]
  refine .fork ?_ <| .pure (.refl hc)
  exact (quiet_look _ _).step (.refl hc) fun _ d h => .pure h

variable (hg : g.Keeps S)

include hg

lemma keeps_nameOperand (site : Site) (level : Int) :
    S.Keeps (nameOperand g site level) fun p => p.node.literals := by
  intro c hc
  dsimp only [nameOperand]
  have hnamed : S.Quiet (do
      let more ← look site.follow false
      require more
      symbol? ":=") := fun c hc =>
    (quiet_look _ _).step (.refl hc) fun _ d h => .require fun _ => (quiet_symbol? (by decide)).last h
  refine (keeps_nameAtom c hc).bind fun p d h => .ite_bind (P := fun _ e => S.Bears c p.node.literals e) ?_ ?_
  · exact .fork (hnamed.optional.last h) <| .pure h
  intro found d h
  refine .fork ?_ <| gives_trailers hg _ h fun ts e h => .pure h
  exact (keeps_rightOperand hg _ _).step h fun q d h => .pure (by simpa using h)

lemma keeps_awaited (site : Site) (level : Int) (start : Position) :
    S.Keeps (awaited g site level start) fun p => p.node.literals := by
  intro c hc
  rw [awaited]
  refine .stay (stays_peek _) fun _ => .fork ?_ <| keeps_nameOperand hg site level c hc
  refine (quiet_keyword _).step (.refl hc) fun _ d h => (keeps_rightOperand hg _ _).step h fun p d h => .pure ?_
  simpa using h

lemma keeps_operand (site : Site) (level : Int) :
    S.Keeps (operand g site level) fun p => p.node.literals := by
  intro c hc
  rw [operand]
  refine .get (.fork (keeps_primary hg _ c hc) ?_)
  split
  · exact .fail
  next x r hr =>
  -- a sign or a word in front of an operand
  have unary : ∀ (n : Nat) (op : String) (l : Int), S.Bears c [] (c.skip n) → Gives c (do
      advance n
      let p ← rightOperand g site l
      pure (Phrase.leaf c.place p.stop (.unaryOp op p.node))) fun p d => S.Bears c p.node.literals d :=
    fun n op l h => gives_advance ((keeps_rightOperand hg _ _).step h fun p d h => .pure (by simpa using h))
  refine .ite (fun hx => unary 1 _ _ ?_) fun _ => .fork ?_ <| .fork ?_ ?_
  · apply (Bears.refl hc).skip
    rw [hr]
    exact .succ (by rcases hx with rfl | rfl | rfl <;> decide) .zero
  · exact keeps_starPrimary hg _ (quiet_spreadsWhole _) c hc
  · have hskip := (Bears.refl hc).word
    refine .wordHere (.ite (fun hw => unary 3 _ _ ?_) fun _ => .ite (fun hw => ?_) fun _ => ?_)
    · rwa [hw.1] at hskip
    · rw [hw.1] at hskip
      exact gives_advance (gives_lambda hg site _ ⟨c, .refl hc, hw.1, rfl⟩ hskip)
    · exact .fork (keeps_awaited hg site level _ c hc) <| keeps_nameOperand hg site level c hc
  · exact keeps_primary hg _ c hc

lemma keeps_expression (site : Site) (level : Int) :
    S.Keeps (expression g site level) fun p => p.node.literals := by
  intro c hc
  rw [expression]
  exact (keeps_operand hg site level c hc).bind fun p d h => gives_operators hg site level _ h

end Operators

section Hints

lemma keeps_typeParameters (hg : g.Keeps S) : S.Keeps (typeParameters g) fun p => p.node.literals := by
  intro c hc
  dsimp only [typeParameters]
  refine .here ((Bears.refl hc).symbol (by decide) fun d h => h.token fun d h => ?_)
  refine (hg.hint _ _).step h fun first d h => ?_
  refine ((keeps_separated (hg.hint _ _)).series _).step h fun r d h => gives_close (by decide) ?_
  simpa using h

lemma keeps_genericName (follow : Follow) : S.Keeps (genericName follow) fun p : Phrase Node => p.node.literals := by
  intro c hc
  rw [genericName]
  refine .get (.require fun _ => (keeps_nameAtom c hc).bind fun p d h => .require fun _ => ?_)
  refine h.token fun d h => .startsWith (.require fun _ => .pure h)

lemma keeps_starType {stars : String} (hs : stars.toList.all isBare = true) :
    S.Keeps (starType stars) fun p : Phrase Node => p.node.literals := by
  intro c hc
  rw [starType]
  refine .here ((quiet_symbol hs).step (.refl hc) fun _ d h => h.token fun d h => .here ?_)
  exact quiet_name.step h fun w d h => .stay stays_index fun _ => .pure (by simpa using h)

lemma keeps_simpleType (hg : g.Keeps S) (site : Site) : S.Keeps (simpleType g site) fun p => p.node.literals := by
  intro c hc
  rw [simpleType]
  refine .startsWith (.fork (keeps_starType (by decide) c hc) ?_)
  refine .startsWith (.fork (keeps_starType (by decide) c hc) ?_)
  refine (keeps_genericName _).optional.step (.refl hc) fun o d h => ?_
  cases o with
  | some p => exact (keeps_typeParameters hg).step h fun q d h => .pure (by simpa using h)
  | none => exact (hg.expr site _).last h

lemma gives_moreType (hg : g.Keeps S) (site : Site) (n : Nat) {p : Phrase Node} (h : S.Bears c p.node.literals d) :
    Gives d (moreType g site n p) fun q e => S.Bears c q.node.literals e := by
  induction n generalizing p d with
  | zero => exact .fail
  | succ n ih =>
    rw [moreType]
    refine (quiet_look _ _).step h fun _ d h => .fork (.pure h) ?_
    refine (quiet_symbol? (by decide)).step h fun _ d h => .fork ?_ ?_
    · refine h.operand fun d h => (keeps_simpleType hg site).step h fun q d h => ih ?_
      simpa using h
    · refine (quiet_symbol? (by decide)).step h fun _ d h => .fork ?_ <| .pure h
      refine h.token fun d h => .here (quiet_name.step h fun w d h => ?_)
      exact .stay stays_index fun _ => ih (by simpa using h)

lemma keeps_hint (hg : g.Keeps S) (site : Site) (colon : Bool) :
    S.Keeps (hint g site colon) fun p => p.node.literals := by
  intro c hc
  dsimp only [hint]
  refine (keeps_simpleType hg site c hc).bind fun first d h => (gives_moreType hg site _ h).bind fun p d h => ?_
  have hcolon : S.Quiet (if colon then both (look site.follow false) (startsWith ":") else pure false) := fun c hc =>
    .fork ((quiet_look _ _).both (stays_startsWith _).quiet c hc) <| .pure (.refl hc)
  refine .ite_bind (hcolon.last h) fun constrained d h => .fork ?_ <| .pure h
  refine h.symbol (by decide) fun d h => h.operand fun d h => ?_
  exact (hg.hint _ _).step h fun q d h => .pure (by simpa using h)

end Hints

end Lexis.Source

end SourceBlocks
