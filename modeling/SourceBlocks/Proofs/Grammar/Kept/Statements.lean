import SourceBlocks.Proofs.Grammar.Kept.Expressions

namespace SourceBlocks

open Lexis Lexis.Source Grammar Grammar.Parser
open SourceBlocks.Tree (Field Mark Node Shape Written)

attribute [local simp] Shape.literal? Shape.children Shape.fieldNodes Shape.fields Field.nodes List.flatMap_map

namespace Lexis.Source

variable {S : Source} {g : Rules Node} {c d : Cursor} {l : List Written}

section Patterns

lemma keeps_dottedPattern (follow : Follow) : S.Keeps (dottedPattern g follow) fun p => p.node.literals := by
  intro c hc
  dsimp only [dottedPattern]
  refine .here (quiet_name.step (.refl hc) fun w d h => .stay stays_index fun _ => ?_)
  refine (Keeps.collect (f := fun x : Node × Nat => x.1.literals) (fun c hc => ?_) _).step h fun more d h => .pure ?_
  · refine (Bears.refl hc).token fun d h => (quiet_symbol? (by decide)).step h fun _ d h => ?_
    refine .fork (h.token fun d h => .here ?_) <| .pure h
    exact quiet_name.step h fun w d h => .stay stays_index fun _ => .pure (by simpa using h)
  · simpa using h

lemma keeps_patternGroup (closing : String) {item : Parser (List Node)}
    (hitem : S.Keeps item fun ns => ns.flatMap Node.literals) :
    S.Keeps (patternGroup g closing item) fun ns => ns.flatMap Node.literals := by
  intro c hc
  dsimp only [patternGroup]
  refine (Bears.refl hc).token fun d h => .startsWith (.fork (.pure h) ?_)
  refine hitem.step h fun first d h => ?_
  refine (Keeps.collect (f := fun ns : List Node => ns.flatMap Node.literals) (fun c hc => ?_) _).step h
    fun more d h => .pure ?_
  · refine (Bears.refl hc).token fun d h => (quiet_symbol? (by decide)).step h fun _ d h => ?_
    refine .fork (.pure h) <| h.token fun d h => ?_
    refine .startsWith (.fork (.pure (by simpa using h)) ?_)
    exact hitem.step h fun ns d h => .pure (by simpa using h)
  · simpa [flatMap_flatten] using h

lemma keeps_groupItem (hg : g.Keeps S) : S.Keeps (groupItem g) fun ns => ns.flatMap Node.literals := by
  intro c hc
  rw [groupItem]
  exact (hg.casePattern _).step (.refl hc) fun p d h => .pure (by simpa using h)

lemma keeps_namePattern (hg : g.Keeps S) (follow : Follow) :
    S.Keeps (namePattern g follow) fun p => p.node.literals := by
  intro c hc
  rw [namePattern]
  refine (keeps_dottedPattern follow c hc).bind fun p d h => (quiet_look _ _).step h fun more d h => ?_
  refine (quiet_symbol? (by decide)).step h fun _ d h => .fork ?_ <| .pure h
  refine (keeps_patternGroup _ (keeps_groupItem hg)).step h fun parts d h => ?_
  exact gives_close (by decide) (by simpa using h)

lemma Bears.sign {x : Char} {r : List Char} (h : S.Bears c l d) (hr : d.rest = x :: r) (hx : isBare x = true) :
    S.Bears c l (d.skip 1) := by
  apply h.skip
  rw [hr]
  exact .succ hx .zero

lemma gives_nextIn (cs : List Char) :
    Gives c (nextIn cs) fun b d => d = c ∧ (b = true → ∃ x r, c.rest = x :: r ∧ x ∈ cs) := by
  intro b d hd
  obtain ⟨rfl, rfl⟩ := Prod.mk.inj (Except.ok.inj hd)
  refine ⟨rfl, fun hb => ?_⟩
  cases hr : c.rest with
  | nil => simp [hr] at hb
  | cons x r => exact ⟨x, r, rfl, by simpa [hr] using hb⟩

lemma keeps_numberPattern (follow : Follow) : S.Keeps (numberPattern follow) fun b => b.nodes.flatMap Node.literals := by
  intro c hc
  dsimp only [numberPattern]
  refine .here ((quiet_symbol? (by decide)).step (.refl hc) fun _ d h => ?_)
  have hminus : ∀ {d} {p : Parser (Bare Node)} {R : Bare Node → Cursor → Prop} (b : Bool), S.Bears c [] d →
      (∀ d, S.Bears c [] d → Gives d p R) → Gives d (if b then do
        toToken .inner false
        p else p) R := fun b h hp => .fork (h.token fun d h => hp d h) <| hp _ h
  refine hminus _ h fun d h => keeps_numeral.step h fun p d h => (quiet_look _ _).step h fun more d h => ?_
  refine (gives_nextIn _).bind fun sign e ⟨he, hsign⟩ => ?_
  subst he
  refine .ite (fun hboth => ?_) fun _ => .pure (by simpa using h)
  obtain ⟨x, r, hr, hx⟩ := hsign (by simp_all)
  have hbare : ∀ x ∈ ['+', '-'], isBare x = true := List.all_eq_true.mp (by decide)
  refine gives_advance ((quiet_toToken _ _).step (h.sign hr (hbare x hx)) fun _ d h => ?_)
  exact keeps_numeral.step h fun q d h => .pure (by simpa [Bare.ofPhrase] using h)

lemma keeps_starPattern {stars : String} (hs : stars.toList.all isBare = true) :
    S.Keeps (starPattern stars) fun p : Phrase Node => p.node.literals := by
  intro c hc
  dsimp only [starPattern]
  refine .here ((quiet_symbol hs).step (.refl hc) fun _ d h => h.token fun d h => .here ?_)
  refine quiet_name.step h fun w d h => .stay stays_index fun _ => .pure ?_
  split_ifs
  · simpa using h
  · simpa using h

lemma gives_bracketPattern {start : Position} {closing : String} {item : Parser (List Node)}
    {shape : List Node → Shape Node} (hitem : S.Keeps item fun ns => ns.flatMap Node.literals)
    (hs : closing.toList.all isBare = true)
    (hshape : ∀ ns, (shape ns).literal?.toList ++ (shape ns).children.flatMap Node.literals = ns.flatMap Node.literals)
    (h : S.Bears c [] d) : Gives d (do
      let parts ← patternGroup g closing item
      Bare.ofPhrase <$> close start closing (shape parts)) fun b e => S.Bears c (b.nodes.flatMap Node.literals) e := by
  refine (keeps_patternGroup _ hitem).step h fun parts d h => ?_
  rw [← bind_pure_comp]
  refine (gives_close hs (by rw [hshape]; exact h)).bind fun q d h => .pure ?_
  simpa [Bare.ofPhrase] using h

lemma keeps_closedPattern (hg : g.Keeps S) (follow : Follow) {entry : Parser (List Node)}
    (hentry : S.Keeps entry fun ns => ns.flatMap Node.literals) :
    S.Keeps (closedPattern g follow entry) fun b => b.nodes.flatMap Node.literals := by
  have ofPhrase : ∀ {p : Parser (Phrase Node)}, S.Keeps p (fun q => q.node.literals) →
      S.Keeps (Bare.ofPhrase <$> p) fun b => b.nodes.flatMap Node.literals := fun hp =>
    hp.map fun q => by simp [Bare.ofPhrase]
  intro c hc
  rw [closedPattern]
  refine .get (.fork ?_ ?_)
  · exact (keeps_stringRun hg follow).step (.refl hc) fun p d h => .pure (by simpa [Bare.ofPhrase] using h)
  have opened : ∀ {x : Char} {r : List Char}, c.rest = x :: r → isBare x = true → S.Bears c [] (c.skip 1) :=
    fun hr hx => (Bears.refl hc).sign hr hx
  split
  · exact ofPhrase (keeps_starPattern (by decide)) c hc
  · exact ofPhrase (keeps_starPattern (by decide)) c hc
  · next hr =>
    exact gives_advance (gives_bracketPattern (keeps_groupItem hg) (by decide) (by simp) (opened hr (by decide)))
  · next hr =>
    exact gives_advance (gives_bracketPattern (keeps_groupItem hg) (by decide) (by simp) (opened hr (by decide)))
  · next hr => exact gives_advance (gives_bracketPattern hentry (by decide) (by simp) (opened hr (by decide)))
  · next x r _ _ _ _ _ hr =>
    refine .ite (fun hx => .wordHere ?_) fun _ => keeps_numberPattern follow c hc
    refine .fork (gives_advance (.stay stays_index fun _ => .pure ?_)) <| .fork ?_ ?_
    · exact opened hr (isBare_of_isWordStart hx)
    · exact ofPhrase keeps_nameAtom c hc
    · exact ofPhrase (keeps_namePattern hg follow) c hc
  · exact .fail

lemma keeps_barPattern (hg : g.Keeps S) (follow : Follow) {entry : Parser (List Node)}
    (hentry : S.Keeps entry fun ns => ns.flatMap Node.literals) :
    S.Keeps (barPattern g follow entry) fun b => b.nodes.flatMap Node.literals := by
  intro c hc
  dsimp only [barPattern]
  have hclosed := keeps_closedPattern hg follow hentry
  refine hclosed.step (.refl hc) fun first d h => ?_
  refine (Keeps.collect (f := fun b : Bare Node => b.nodes.flatMap Node.literals)
    (fun c hc => ?_) _).step h fun more d h => ?_
  · refine (Bears.refl hc).token fun d h => (quiet_symbol? (by decide)).step h fun _ d h => ?_
    refine .fork (h.token fun d h => ?_) <| .pure h
    exact hclosed.step h fun b d h => .pure (by simpa using h)
  · split
    · next hnone =>
      obtain rfl : more = [] := List.getLast?_eq_none_iff.mp hnone
      exact .pure (by simpa using h)
    · exact .pure (by simpa [Bare.ofPhrase, List.flatMap_assoc] using h)

lemma keeps_entryPattern (hg : g.Keeps S) (n : Nat) :
    S.Keeps (entryPattern g n) fun ns => ns.flatMap Node.literals := by
  induction n with
  | zero => exact fun _ _ => .fail
  | succ n ih =>
    intro c hc
    dsimp only [entryPattern]
    refine .startsWith (.fork ?_ ?_)
    · refine ((keeps_starPattern (by decide)).or (keeps_starPattern (by decide))).step (.refl hc) fun p d h => .pure ?_
      simpa using h
    · refine (keeps_barPattern hg _ ih).step (.refl hc) fun key d h => h.token fun d h => ?_
      refine h.symbol (by decide) fun d h => h.token fun d h => ?_
      exact (hg.casePattern _).step h fun value d h => .pure (by simpa using h)

lemma keeps_keywordPattern (hg : g.Keeps S) (follow : Follow) :
    S.Keeps (keywordPattern g follow) fun b => b.nodes.flatMap Node.literals := by
  intro c hc
  rw [keywordPattern]
  refine .here (quiet_name.step (.refl hc) fun w d h => .require fun _ => h.token fun d h => ?_)
  refine .startsWith (.require fun _ => h.symbol (by decide) fun d h => ?_)
  refine h.token fun d h => ?_
  refine (keeps_barPattern hg follow (keeps_entryPattern hg _)).step h fun b d h => .pure ?_
  simpa [Bare.ofPhrase] using h

lemma literals_setApart (b : Bare Node) : (setApart b).node.literals = b.nodes.flatMap Node.literals := by simp [setApart]

lemma gives_namedPattern (follow : Follow) (n : Nat) {p : Phrase Node} (h : S.Bears c p.node.literals d) :
    Gives d (namedPattern follow n p) fun q e => S.Bears c q.node.literals e := by
  induction n generalizing p d with
  | zero => exact .fail
  | succ n ih =>
    dsimp only [Grammar.namedPattern]
    refine h.token fun d h => (quiet_keyword? _).step h fun _ d h => ?_
    refine .fork (h.token fun d h => .here ?_) <| .pure h
    refine quiet_name.step h fun w d h => .stay stays_index fun _ => ih ?_
    rw [literals_setApart]
    simpa [Bare.ofPhrase] using h

lemma keeps_casePattern (hg : g.Keeps S) (follow : Follow) :
    S.Keeps (casePattern g follow) fun p => p.node.literals := by
  intro c hc
  rw [casePattern]
  have hbare := (keeps_keywordPattern hg follow).or (keeps_barPattern hg follow (keeps_entryPattern hg g.bound))
  refine (hbare c hc).bind fun b d h => gives_namedPattern follow _ ?_
  rwa [literals_setApart]

end Patterns

section Imports

lemma quiet_dottedName (follow : Follow) : S.Quiet (dottedName g follow) := by
  intro c hc
  dsimp only [dottedName]
  refine .get (quiet_name.step (.refl hc) fun _ d h => .stay stays_index fun _ => ?_)
  refine (Quiet.collect (fun c hc => ?_) _).step h fun more d h => .pure h
  refine (quiet_look _ _).step (.refl hc) fun _ d h => .fork (.pure h) ?_
  refine (quiet_symbol? (by decide)).step h fun _ d h => .fork ?_ <| .pure h
  refine h.token fun d h => quiet_name.step h fun _ d h => ?_
  exact .stay stays_index fun _ => .pure h

lemma keeps_importedName (follow : Follow) : S.Keeps (importedName g follow) Node.literals := by
  intro c hc
  dsimp only [importedName]
  refine .here ((quiet_dottedName follow).step (.refl hc) fun _ d h => ?_)
  refine ((quiet_look _ _).both (quiet_keyword? _)).step h fun _ d h => .fork ?_ <| .pure (by simpa using h)
  refine h.token fun d h => quiet_name.step h fun _ d h => .pure ?_
  simpa using h

lemma keeps_importedNames (follow : Follow) : S.Keeps (importedNames g follow) fun ns => ns.flatMap Node.literals := by
  intro c hc
  dsimp only [importedNames]
  refine (keeps_importedName follow).step (.refl hc) fun first d h => ?_
  refine (Keeps.series (f := Node.literals) (fun c hc => ?_) _).step h fun r d h => .pure (by simpa using h)
  refine (quiet_look _ _).step (.refl hc) fun _ d h => .fork (.pure h) ?_
  refine (quiet_symbol? (by decide)).step h fun _ d h => .fork (.pure h) ?_
  refine (quiet_look _ _).step h fun _ d h => .fork (.pure (by simpa using h)) <| .wordHere ?_
  refine .fork (.pure (by simpa using h)) ?_
  exact (keeps_importedName follow).step h fun n d h => .pure (by simpa using h)

lemma keeps_importList : S.Keeps (importList g) fun ns => ns.flatMap Node.literals := by
  intro c hc
  rw [importList]
  refine (quiet_symbol? (by decide)).step (.refl hc) fun _ d h => .fork ?_ ?_
  · refine h.token fun d h => (keeps_importedNames _).step h fun names d h => ?_
    refine h.token fun d h => h.symbol (by decide) fun d h => .pure ?_
    simpa using h
  · exact (keeps_importedNames _).last h

lemma quiet_leadingDots (n : Nat) : S.Quiet (leadingDots n) := by
  induction n with
  | zero => exact fun _ _ => .fail
  | succ n ih =>
    intro c hc
    rw [leadingDots]
    refine (Bears.refl hc).symbol (by decide) fun d h => .stay stays_index fun _ => ?_
    refine h.token fun d h => .startsWith (.fork (ih.last h) <| .pure h)

lemma quiet_importedModule : S.Quiet (importedModule g) := by
  intro c hc
  dsimp only [importedModule]
  refine .startsWith (.fork (.get ?_) ?_)
  · refine (quiet_leadingDots _).step (.refl hc) fun _ d h => .wordHere (.fork (.pure h) ?_)
    exact (quiet_dottedName _).step h fun _ d h => .pure h
  · exact (quiet_dottedName _).step (.refl hc) fun _ d h => .pure h

lemma keeps_fromImport (start : Position) : S.Keeps (fromImport g start) Node.literals := by
  intro c hc
  dsimp only [fromImport]
  refine (Bears.refl hc).token fun d h => .wordHere ?_
  -- the names, once the module is read
  have names : ∀ {d} (isFuture : Bool) (source : Option String) (level : Nat), S.Bears c [] d → Gives d (do
      toToken .inner false
      keyword "import"
      toToken .inner false
      if ← startsWith "*" then do
        require (!isFuture)
        let spot ← here
        symbol "*"
        pure (marked start (.importFrom source [unmarked (.importAlias "*" none spot)] level))
      else do
        let names ← importList g
        pure (marked start (.importFrom source names level))) fun n e => S.Bears c n.literals e := by
    intro d isFuture source level h
    refine h.token fun d h => (quiet_keyword _).step h fun _ d h => ?_
    refine h.token fun d h => .startsWith (.fork (.require fun _ => .here ?_) ?_)
    · exact h.symbol (by decide) fun d h => .pure (by simpa using h)
    · exact keeps_importList.step h fun ns d h => .pure (by simpa using h)
  refine .fork ?_ ?_
  · exact (quiet_keyword _).step h fun _ d h => names _ _ _ h
  · exact quiet_importedModule.step h fun r d h => names _ r.1 r.2 h

lemma keeps_plainImport (start : Position) : S.Keeps (plainImport g start) Node.literals := by
  intro c hc
  rw [plainImport]
  refine (Bears.refl hc).token fun d h => (keeps_importedNames _).step h fun ns d h => .pure ?_
  simpa using h

end Imports

section Assignments

lemma literals_chain (a : Assigned Node) : a.chain.1.flatMap Node.literals ++ a.chain.2.literals = a.node.literals := by
  fun_induction Assigned.chain a with
  | case1 target right ih => simp [Assigned.node, ← ih]
  | case2 a => simp

lemma literals_statement (a : Assigned Node) : a.statement.literals = a.node.literals := by
  cases a with
  | value p => simp [Assigned.statement, Assigned.node]
  | plain target right => simp [Assigned.statement, Assigned.node, literals_chain]
  | typed target type right => cases right <;> simp [Assigned.statement, Assigned.node]
  | augmented target op right => simp [Assigned.statement, Assigned.node]

lemma keeps_assignmentTargets (hg : g.Keeps S) (isNested : Bool) :
    S.Keeps (assignmentTargets g isNested) fun p => p.node.literals := by
  have item : ∀ follow, S.Keeps (do
      toToken follow true
      if ← nextIn ['=', ':', '+', '-', '/', '@', '%', '&', '^', '|', '<', '>'] then pure none
      else do
        let p ← g.target follow
        pure (some p)) fun o => o.toList.flatMap fun p => p.node.literals := by
    intro follow c hc
    refine (Bears.refl hc).token fun d h => .stay (stays_nextIn _) fun _ => ?_
    exact .fork (.pure h) <| (hg.target _).step h fun p d h => .pure (by simpa using h)
  intro c hc
  dsimp only [assignmentTargets]
  refine .get (.require fun _ => (hg.target _).step (.refl hc) fun first d h => h.token fun d h => ?_)
  refine (quiet_symbol? (by decide)).step h fun _ d h => .fork (.pure h) ?_
  refine (item _).step h fun second d h => ?_
  cases second with
  | none => exact .pure (by simpa using h)
  | some p =>
    refine (Keeps.series (f := fun p : Phrase Node => p.node.literals) (fun c hc => ?_) _).step h fun r d h => .pure ?_
    · refine (Bears.refl hc).token fun d h => (quiet_symbol? (by decide)).step h fun _ d h => ?_
      exact .fork (.pure h) <| (item _).step h fun o d h => .pure (by simpa using h)
    · simpa using h

lemma keeps_assignedValue (hg : g.Keeps S) : S.Keeps (assignedValue g) fun a => a.node.literals := by
  intro c hc
  rw [assignedValue]
  refine (keeps_orYield hg _ (keeps_expressions hg _)).step (.refl hc) fun p d h => .pure ?_
  simpa [Assigned.node] using h

lemma keeps_assignment (hg : g.Keeps S) (n : Nat) (isNested : Bool) :
    S.Keeps (assignment g isNested n) fun a => a.node.literals := by
  induction n generalizing isNested with
  | zero => exact fun _ _ => .fail
  | succ n ih =>
    have right : S.Keeps (do
        toOperand
        (assignment g true n).or (assignedValue g)) fun a => a.node.literals := fun c hc =>
      (Bears.refl hc).operand fun d h => ((ih true).or (keeps_assignedValue hg)).last h
    intro c hc
    dsimp only [assignment]
    refine (keeps_assignmentTargets hg isNested).step (.refl hc) fun target d h => .stay stays_equalsHere fun _ => ?_
    refine .fork ?_ <| (gives_firstHere _).bind fun op e ⟨he, hop⟩ => ?_
    · refine h.symbol (by decide) fun d h => right.step h fun r d h => .pure ?_
      simpa [Assigned.node] using h
    subst he
    cases op with
    | some op =>
      have hbare : ∀ s ∈ augmentedSigns, s.toList.all isBare = true := by decide
      refine (quiet_symbol (hbare op (hop op rfl))).step h fun _ d h => right.step h fun r d h => .pure ?_
      simpa [Assigned.node] using h
    | none =>
      refine .startsWith (.require fun _ => h.symbol (by decide) fun d h => ?_)
      refine h.operand fun d h => (hg.hint _ _).step h fun type d h => ?_
      refine ((quiet_look _ _).both stays_equalsHere.quiet).step h fun _ d h => .fork ?_ <| .pure ?_
      · refine h.symbol (by decide) fun d h => right.step h fun r d h => .pure ?_
        simpa [Assigned.node] using h
      · simpa [Assigned.node] using h

lemma quiet_statementEnd : S.Quiet statementEnd := by
  intro c hc
  rw [statementEnd]
  refine (quiet_look _ _).step (.refl hc) fun _ d h => .fork (.startsWith ?_) <| .pure h
  cases ";".toList.isPrefixOf d.rest with
  | false => exact .fail
  | true => exact .pure h

lemma keeps_whole {p : Parser Node} (hp : S.Keeps p Node.literals) : S.Keeps (whole p) Node.literals := by
  intro c hc
  rw [whole]
  exact hp.step (.refl hc) fun n d h => quiet_statementEnd.step h fun _ d h => .pure h

lemma keeps_valueStatement (hg : g.Keeps S) : S.Keeps (valueStatement g) Node.literals := by
  intro c hc
  rw [valueStatement]
  refine .here ((quiet_keyword? _).step (.refl hc) fun _ d h => .fork ?_ ?_)
  · exact (keeps_yieldValue hg _ _).step h fun p d h => .pure (by simpa using h)
  · refine gives_listed hg _ h fun first more b d _ h => ?_
    cases more with
    | nil => exact .pure (by simpa using h)
    | cons p ps => exact .pure (by simpa using h)

lemma keeps_expressionStatement (hg : g.Keeps S) : S.Keeps (expressionStatement g) Node.literals := by
  refine Keeps.or (keeps_whole fun c hc => ?_) (keeps_whole (keeps_valueStatement hg))
  refine (keeps_assignment hg _ _).step (.refl hc) fun a d h => .pure ?_
  rwa [literals_statement]

end Assignments

section Lines

lemma keeps_optionalExpressions (hg : g.Keeps S) :
    S.Keeps (optionalExpressions g) fun o => (o.map Phrase.node).toList.flatMap Node.literals := by
  intro c hc
  rw [optionalExpressions]
  refine ((quiet_look _ _).both stays_operandHere.quiet).step (.refl hc) fun _ d h => .fork ?_ <| .pure h
  exact ((keeps_expressions hg _).map fun p => by simp).last h

lemma quiet_nameList : S.Quiet (nameList g) := by
  intro c hc
  dsimp only [nameList]
  refine (Bears.refl hc).token fun d h => quiet_name.step h fun _ d h => ?_
  refine (Quiet.collect (fun c hc => ?_) _).step h fun more d h => .pure h
  refine ((quiet_look _ _).both (quiet_symbol? (by decide))).step (.refl hc) fun _ d h => .fork ?_ <| .pure h
  exact h.token fun d h => (quiet_name.map fun _ => rfl).last h

lemma keeps_strictList (hg : g.Keeps S) : S.Keeps (strictList g) fun ps => ps.flatMap fun p => p.node.literals := by
  intro c hc
  dsimp only [strictList]
  refine (Bears.refl hc).operand fun d h => (hg.expr _ _).step h fun first d h => ?_
  refine (Keeps.collect (f := fun p : Phrase Node => p.node.literals) (fun c hc => ?_) _).step h fun more d h => .pure ?_
  · refine ((quiet_look _ _).both (quiet_symbol? (by decide))).step (.refl hc) fun _ d h => ?_
    refine .fork (h.operand fun d h => ?_) <| .pure h
    exact ((hg.expr _ _).map fun p => by simp).last h
  · simpa using h

lemma keeps_deletion (hg : g.Keeps S) (start : Position) : S.Keeps (deletion g start) Node.literals := by
  intro c hc
  rw [deletion]
  refine (Bears.refl hc).operand fun d h => gives_listed hg _ h fun first more b d _ h => .pure ?_
  simpa using h

lemma keeps_raising (hg : g.Keeps S) (start : Position) : S.Keeps (raising g start) Node.literals := by
  intro c hc
  dsimp only [raising]
  have hvalue : S.Quiet (both (look .line true) (do pure (decide ((← wordHere) ≠ "from")))) :=
    (quiet_look _ _).both fun c hc => .wordHere (.pure (.refl hc))
  -- the cause, once the exception is read
  have cause : ∀ {d} (exc : Option (Phrase Node)), S.Bears c ((exc.map Phrase.node).toList.flatMap Node.literals) d →
      Gives d (do
        if ← both (look .line false) (keyword? "from") then do
          toOperand
          let cause ← g.expr .line Level.lowest
          pure (marked start (.raise (exc.map Phrase.node) (some cause.node)))
        else pure (marked start (.raise (exc.map Phrase.node) none))) fun n e => S.Bears c n.literals e := by
    intro d exc h
    refine ((quiet_look _ _).both (quiet_keyword? _)).step h fun _ d h => .fork ?_ <| .pure (by simpa using h)
    exact h.operand fun d h => (hg.expr _ _).step h fun p d h => .pure (by simpa using h)
  refine hvalue.step (.refl hc) fun _ d h => .fork ?_ <| cause none h
  exact (keeps_optionalExpressions hg).step h fun exc d h => cause exc h

lemma Bears.operands {ps : List (Phrase Node)} (h : S.Bears c (l ++ ps.flatMap fun p => p.node.literals) d)
    (hdrop : ∀ p ∈ ps.drop 2, S.Drops c.index p.node) :
    S.Bears c (l ++ (ps.take 2).flatMap fun p => p.node.literals) d := by
  rw [← List.take_append_drop 2 ps, List.flatMap_append, ← List.append_assoc] at h
  refine h.dropped_right fun x hx => ?_
  obtain ⟨p, hp, hx⟩ := List.mem_flatMap.mp hx
  exact (hdrop p hp).dropped x hx

lemma gives_asserting (hg : g.Keeps S) (start : Position) (hbehind : S.Behind c.index "assert" d)
    (h : S.Bears c [] d) : Gives d (asserting g start) fun n e => S.Bears c n.literals e := by
  rw [asserting]
  refine (keeps_strictList hg).known h fun ps e hread h => ?_
  have hkept := h.operands fun p hp => .operand hg.tied hbehind hread hp
  rcases ps with _ | ⟨test, _ | ⟨message, rest⟩⟩
  · exact .fail
  · exact .pure (by simpa using hkept)
  · exact .pure (by simpa using hkept)

lemma keeps_printValues (hg : g.Keeps S) : S.Keeps (printValues g) fun r => r.1.flatMap Node.literals := by
  intro c hc
  dsimp only [printValues]
  refine (Keeps.series (f := fun p : Phrase Node => p.node.literals)
    (fun c hc => ?_) _).step (.refl hc) fun r d h => .pure ?_
  · refine (quiet_look _ _).step (.refl hc) fun _ d h => .fork (.pure h) ?_
    refine (quiet_symbol? (by decide)).step h fun _ d h => .fork (.pure h) ?_
    refine ((quiet_look _ _).both stays_operandHere.quiet).step h fun _ d h => ?_
    refine .fork ?_ <| .pure (by simpa using h)
    exact (hg.expr _ _).step h fun p d h => .pure (by simpa using h)
  · simpa using h

lemma keeps_printing (hg : g.Keeps S) : S.Keeps (printing g) Node.literals := by
  intro c hc
  rw [printing]
  refine .here ((quiet_keyword _).step (.refl hc) fun _ d h => h.token fun d h => ?_)
  refine (quiet_symbol? (by decide)).step h fun _ d h => .fork ?_ <| .get (.require fun _ => ?_)
  · refine h.operand fun d h => (hg.expr _ _).step h fun dest d h => ?_
    exact (keeps_printValues hg).step h fun r d h => .pure (by simpa using h)
  · refine (hg.expr _ _).step h fun first d h => ?_
    exact (keeps_printValues hg).step h fun r d h => .pure (by simpa using h)

lemma keeps_typeAlias (hg : g.Keeps S) : S.Keeps (typeAlias g) Node.literals := by
  intro c hc
  rw [typeAlias]
  refine .here ((quiet_keyword _).step (.refl hc) fun _ d h => h.token fun d h => ?_)
  refine (hg.hint _ _).step h fun left d h => h.token fun d h => ?_
  refine .stay stays_equalsHere fun _ => .require fun _ => h.symbol (by decide) fun d h => ?_
  exact h.operand fun d h => (hg.hint _ _).step h fun right d h => .pure (by simpa using h)

lemma read?_of_quote {l : List Char} (h : (Quote.atStart? l).isSome) (comments : Bool) (m : Margin) :
    Margin.read? comments false m l = some { m with rest := l } := by
  obtain ⟨x, r, rfl, hgap, hhash, hslash⟩ := head_of_quote h
  have hne : ∀ y, isGap y = true → x ≠ y := by
    rintro y hy rfl
    simp [hgap] at hy
  have hfeed : ¬ (x = '\r' ∨ x.toNat = 12) := fun hx => by simp [Margin.isGap_of_feed hx] at hgap
  unfold Margin.read?
  split
  · next heq => cases heq
  · next heq => exact absurd (List.cons.inj heq).1 (hne _ (by decide))
  · next heq => exact absurd (List.cons.inj heq).1 hslash
  · next heq => exact absurd (List.cons.inj heq).1 hslash
  · next y r' _ _ _ heq =>
    obtain ⟨rfl, rfl⟩ := List.cons.inj heq
    simp [hne ' ' (by decide), hne '\t' (by decide), hfeed, hhash, hslash]

lemma ahead_of_quote {e : Expectation} {n : Nat} (h : (Quote.atStart? c.rest).isSome) :
    Lexis.ahead e n c = .token c := by
  cases n with
  | zero => rfl
  | succ n =>
    obtain ⟨x, r, hr, hgap, -⟩ := head_of_quote h
    have hskip : c.rest.takeWhile isGap = [] := by simp [hr, hgap]
    have hrow : rowEvent? e c { Margin.start with rest := c.rest } = none := by simp [rowEvent?, Margin.start]
    rw [Lexis.ahead, read?_of_quote h]
    simp only [Option.bind_some, hrow]
    split
    · next k hk =>
      obtain ⟨-, rfl⟩ : e.string = true ∧ 0 = k := by simpa [Margin.start, h] using hk
      rfl
    · simp [hskip, Cursor.skip, filler?_of_quote h]

lemma gives_statementEnd : Gives c statementEnd fun _ _ => Quote.atStart? c.rest = none := by
  by_cases hquote : (Quote.atStart? c.rest).isSome
  · have hlook : Gives c (look .line false) fun found d => found = true ∧ d = c := by
      rw [look]
      refine .aheadHere ?_
      rw [ahead_of_quote hquote]
      exact .set (.pure ⟨rfl, rfl⟩)
    have hsign : ";".toList.isPrefixOf c.rest = false := by
      by_contra hsign
      obtain ⟨r, hr⟩ : [';'] <+: c.rest := by simpa using hsign
      rw [← hr] at hquote
      cases hquote
    rw [statementEnd]
    refine hlook.bind fun found d h => ?_
    obtain ⟨rfl, rfl⟩ := h
    refine .startsWith ?_
    rw [hsign]
    exact .fail
  · exact fun _ _ _ => by simpa using hquote

lemma atStart?_of_word_in {l : List Char} (h : String.ofList (word l) = "in") : Quote.atStart? l = none := by
  cases l with
  | nil => rfl
  | cons x r =>
    have hword : word (x :: r) = ['i', 'n'] := by simpa using congrArg String.toList h
    rw [word] at hword
    split_ifs at hword
    obtain ⟨rfl, -⟩ := List.cons.inj hword
    rfl

def ReadsCode (S : Source) (c : Cursor) (code : Phrase Node) (d : Cursor) : Prop :=
  S.Moves c d ∧ (S.Ends d.index → S.Bears c code.node.literals d)

lemma gives_singleString (hg : g.Keeps S) (h : S.Bears c [] d) : Gives d (singleString g) (S.ReadsCode c) := by
  rw [singleString]
  refine .get ((gives_stringPiece_token hg h.has).bind fun p e hpiece => .stay stays_index fun _ => .pure ?_)
  obtain ⟨hp, ht, he⟩ := hpiece
  refine ⟨h.toMoves.trans he, fun hends => ?_⟩
  simpa using h.append ((IsRun.last ht hends).bears he hp)

lemma gives_behindCode (hd : S.Has d) : Gives d (both (look .line false) (keyword? "in")) fun found e =>
    S.Bears d [] e ∧ (found = true → S.Ends d.index ∧ S.Behind d.index "in" e) ∧
      (found = false → Quote.atStart? e.rest = none → S.Ends d.index) := by
  rw [both]
  refine (quiet_look _ _).known (.refl hd) fun found e hlook h => ?_
  cases found with
  | false => exact .pure ⟨h, by simp, fun _ _ => .inl ⟨.line, false, d, e, hd, rfl, hlook⟩⟩
  | true =>
    have hends : Quote.atStart? e.rest = none → S.Ends d.index := fun hq =>
      .inr ⟨e.index, ⟨.line, false, d, e, hd, rfl, hlook, rfl⟩, h.has.rest ▸ hq⟩
    refine Gives.wordHere (.ite (fun hw => ?_) fun _ => .pure ⟨h, by simp, fun _ => hends⟩)
    have hword := h.word
    rw [hw] at hword
    exact gives_advance (.pure ⟨hword, fun _ => ⟨hends (atStart?_of_word_in hw), e, h.reaches, hw, rfl⟩, by simp⟩)

def Executed (S : Source) (g : Rules Node) (c : Cursor) (n : Node) (d : Cursor) : Prop :=
  ∃ (code : Phrase Node) (ps : List (Phrase Node)),
    n.literals = code.node.literals ++ (ps.take 2).flatMap (fun p => p.node.literals) ∧
    (ps = [] ∨ ∃ b, S.Behind c.index "in" b ∧ strictList g b = .ok (ps, d)) ∧
    (Quote.atStart? d.rest = none → S.Bears c (code.node.literals ++ ps.flatMap fun p => p.node.literals) d)

variable (hg : g.Keeps S)

include hg

lemma gives_executed {start : Position} {code : Phrase Node} (hcode : S.ReadsCode c code d) : Gives d (do
      if ← both (look .line false) (keyword? "in") then do
        let ps ← strictList g
        pure (marked start (.exec code.node (ps.map Phrase.node)[0]? (ps.map Phrase.node)[1]?))
      else pure (marked start (.exec code.node none none))) (S.Executed g c) := by
  obtain ⟨hmoves, hbears⟩ := hcode
  refine (gives_behindCode hmoves.has).bind fun found e ⟨h, htrue, hfalse⟩ => .ite (fun hfound => ?_) fun hfound => ?_
  · obtain ⟨hends, hbehind⟩ := htrue hfound
    have hcode : S.Bears c code.node.literals e := by simpa using (hbears hends).append h
    obtain ⟨_, hscan, -⟩ := (hbears hends).literals
    refine (keeps_strictList hg).known hcode fun ps f hread h => .pure ⟨code, ps, ?_, .inr ?_, fun _ => h⟩
    · rcases ps with _ | ⟨p, _ | ⟨q, ps⟩⟩ <;> simp
    · exact ⟨e, hbehind.back hscan, hread⟩
  · refine .pure ⟨code, [], by simp, .inl rfl, fun hq => ?_⟩
    simpa using (hbears (hfalse (by simpa using hfound) hq)).append h

lemma gives_executing (hc : S.Has c) : Gives c (executing g) (S.Executed g c) := by
  dsimp only [executing]
  refine .here ((quiet_keyword _).step (.refl hc) fun _ d h => h.token fun d h => .get ?_)
  refine .fork ?_ <| .wordHere (.require fun _ => ?_)
  · exact (gives_singleString hg h).bind fun code d hcode => gives_executed hg hcode
  · refine quiet_name.step h fun w d h => .stay stays_index fun stop => ?_
    have hcode : ∀ start, S.ReadsCode c (.leaf start stop (.name w)) d := fun _ => ⟨h.toMoves, fun _ => by simpa using h⟩
    exact gives_executed hg (hcode _)

lemma keeps_executing : S.Keeps (whole (executing g)) Node.literals := by
  intro c hc
  rw [whole]
  refine Gives.bind (P := fun n d => executing g c = .ok (n, d) ∧ S.Executed g c n d)
    (fun n d h => ⟨h, gives_executing hg hc n d h⟩) fun n d h => ?_
  obtain ⟨hread, code, ps, hn, hscopes, h⟩ := h
  have hbears : Gives d statementEnd fun _ e => S.Bears c n.literals e := by
    intro u e he
    rw [hn]
    refine quiet_statementEnd.last ?_ u e he
    refine (h (gives_statementEnd u e he)).operands fun p hp => ?_
    rcases hscopes with rfl | ⟨b, hbehind, hlist⟩
    · simp at hp
    · exact .scope hg.tied (.refl hc) hread hbehind hlist hp
  exact hbears.bind fun _ e h => .pure h

lemma keeps_simpleStatement : S.Keeps (simpleStatement g) Node.literals := by
  intro c hc
  dsimp only [simpleStatement]
  have hexpression := keeps_expressionStatement hg
  refine .get (.fork (hexpression c hc) <| .wordHere ?_)
  have hword := (Bears.refl hc).word
  have behind : ∀ {p : Parser Node}, S.Keeps p Node.literals →
      Gives c (do
        advance (String.ofList (word c.rest)).length
        p) fun n d => S.Bears c n.literals d := fun hp => gives_advance (hp.last hword)
  have alone : ∀ {n : Node}, n.literals = [] → S.Keeps (pure n) Node.literals := fun hn c hc =>
    .pure (by rw [hn]; exact .refl hc)
  split
  · exact behind (alone (by simp))
  · exact behind (alone (by simp))
  · exact behind (alone (by simp))
  · refine behind fun c hc => ?_
    exact (keeps_optionalExpressions hg).step (.refl hc) fun o d h => .pure (by simpa using h)
  · exact behind (keeps_deletion hg _)
  · exact behind (keeps_raising hg _)
  · next hw =>
    exact gives_advance (gives_asserting hg _ ⟨c, .refl hc, hw, by rw [hw]⟩ hword)
  · exact behind fun c hc => quiet_nameList.step (.refl hc) fun names d h => .pure (by simpa using h)
  · exact behind fun c hc => quiet_nameList.step (.refl hc) fun names d h => .pure (by simpa using h)
  · exact behind (keeps_plainImport _)
  · exact behind (keeps_fromImport _)
  · refine .stay (stays_peek _) fun _ => .fork (keeps_printing hg c hc) ?_
    exact hexpression.or (keeps_whole (keeps_printing hg)) c hc
  · exact (keeps_executing hg).or hexpression c hc
  · exact (keeps_whole (keeps_typeAlias hg)).or hexpression c hc
  · exact hexpression c hc

lemma keeps_statementLine : S.Keeps (statementLine g) fun ns => ns.flatMap Node.literals := by
  intro c hc
  dsimp only [statementLine]
  refine (keeps_simpleStatement hg).step (.refl hc) fun first d h => ?_
  refine (Keeps.series (f := Node.literals) (fun c hc => ?_) _).step h fun r d h => .pure (by simpa using h)
  refine (quiet_look _ _).step (.refl hc) fun _ d h => .fork (.pure h) ?_
  refine h.symbol (by decide) fun d h => (quiet_look _ _).step h fun _ d h => ?_
  refine .fork ?_ <| .pure (by simpa using h)
  exact (keeps_simpleStatement hg).step h fun n d h => .pure (by simpa using h)

end Lines

end Lexis.Source

end SourceBlocks
