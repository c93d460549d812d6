import SourceBlocks.Proofs.Grammar.Kept.Statements

namespace SourceBlocks

open Lexis Lexis.Source Grammar Grammar.Parser
open SourceBlocks.Tree (Field Mark Node Shape Written)

attribute [local simp] Shape.literal? Shape.children Shape.fieldNodes Shape.fields Field.nodes List.flatMap_map

namespace Lexis.Source

variable {S : Source} {g : Rules Node} {b c d e : Cursor} {l l' : List Written} {w : String}

section Blocks

lemma indents_of_shallower {x : Expectation} {n : Nat} (h : Lexis.ahead x n c = .shallower) : c.indents ≠ [] := by
  induction n generalizing c with
  | zero => cases h
  | succ n ih =>
    rw [Lexis.ahead] at h
    dsimp only at h
    split at h
    · next a ha =>
      subst h
      obtain ⟨m, -, hrow⟩ := Option.bind_eq_some_iff.mp ha
      intro hnil
      simp only [rowEvent?, Cursor.indent, hnil, List.headD_nil, Nat.not_lt_zero] at hrow
      split_ifs at hrow <;> simp_all
    · split at h
      · cases h
      · split at h
        · have hskip := ih h
          rwa [Cursor.indents_skip, Cursor.indents_skip] at hskip
        · cases h

lemma Bears.closes (h : S.Bears c l d) (h' : S.Closes d l' e) : S.Closes c (l ++ l') e where
  has := h'.has
  le := Nat.le_trans h.le h'.le
  indents := by
    rcases h'.indents with ⟨hne, htail⟩ | hend
    · rcases h.indents with heq | hend
      · exact .inl (heq ▸ ⟨hne, htail⟩)
      · exact .inr (Nat.le_antisymm h'.has.le (hend ▸ h'.le))
    · exact .inr hend
  literals := by
    obtain ⟨rs, hscan, hsift⟩ := h.literals
    obtain ⟨rs', hscan', hsift'⟩ := h'.literals
    exact ⟨rs ++ rs', hscan.append hscan', hsift.append (hsift'.back hscan)⟩

lemma Closes.bears {column : Nat} (h : S.Closes { c with indents := column :: c.indents } l d) : S.Bears c l d where
  has := h.has
  le := h.le
  indents := h.indents.imp_left fun hclosed => hclosed.2
  literals := h.literals

lemma gives_collect_closes {α : Type} {f : α → List Written} {p : Parser (Option α)}
    (hp : ∀ c, S.Has c → Gives c p fun o d => (o = none → S.Closes c [] d) ∧ ∀ a ∈ o, S.Bears c (f a) d) (n : Nat)
    (hc : S.Has c) : Gives c (collect p n) fun as d => S.Closes c (as.flatMap f) d := by
  induction n generalizing c with
  | zero => exact .fail
  | succ n ih =>
    rw [collect]
    refine (hp c hc).bind fun o d h => ?_
    cases o with
    | none => exact .pure (h.1 rfl)
    | some a =>
      have h := h.2 a rfl
      exact (ih h.has).bind fun as e has => .pure (by simpa using h.closes has)

lemma gives_closeBlock (hc : S.Has c) {x : Expectation} {n : Nat} (h : Lexis.ahead x n c = .shallower) :
    Gives c closeBlock fun _ d => S.Closes c [] d := by
  intro _ d hd
  obtain ⟨-, rfl⟩ := Prod.mk.inj (Except.ok.inj hd)
  refine ⟨hc.of_eq rfl rfl rfl rfl, Nat.le_refl _, .inl ⟨indents_of_shallower h, ?_⟩, [], .nil, .nil⟩
  exact List.drop_one

lemma gives_opened {α : Type} {column : Nat} {f : α → List Written} {p : Parser α} (h : S.Bears c l d)
    (hp : ∀ c, S.Has c → Gives c p fun a d => S.Closes c (f a) d) : Gives d (do
      openBlock column
      p) fun a e => S.Bears c (l ++ f a) e := by
  have hopen : S.Has { d with indents := column :: d.indents } := h.has.of_eq rfl rfl rfl rfl
  have hclosed : Gives { d with indents := column :: d.indents } p fun a e => S.Bears c (l ++ f a) e :=
    (hp _ hopen).mono fun _ _ h' => h.append h'.bears
  exact hclosed

end Blocks

section Suites

lemma quiet_colon : S.Quiet colon := by
  intro c hc
  rw [colon]
  refine (Bears.refl hc).token fun d h => .startsWith (.require fun _ => ?_)
  exact (quiet_symbol (by decide)).last h

lemma keeps_suite (hg : g.Keeps S) : S.Keeps (suite g) fun ns => ns.flatMap Node.literals := by
  intro c hc
  rw [suite]
  refine quiet_colon.step (.refl hc) fun _ d h => .aheadHere ?_
  split
  · exact gives_opened h hg.block
  · exact .pure h
  · next e ha => exact .set ((keeps_statementLine hg).last (h.ahead ha))
  · exact .fail

lemma quiet_continuation? (x : Expectation) (w : String) : S.Quiet (continuation? x w) := by
  intro c hc
  rw [continuation?]
  refine .aheadHere ?_
  split
  · next e ha =>
    refine .ite (fun hw => .set (.pure ?_)) fun _ => .pure (.refl hc)
    have hword := ((Bears.refl hc).ahead ha).word
    rwa [hw] at hword
  · exact .pure (.refl hc)

section

variable (hg : g.Keeps S)

include hg

lemma keeps_suiteBehind (w : String) :
    S.Keeps (suiteBehind g w) fun ns => ns.flatMap Node.literals := by
  intro c hc
  rw [suiteBehind]
  refine (quiet_continuation? _ _).step (.refl hc) fun _ d h => .fork ?_ <| .pure h
  exact (keeps_suite hg).step h fun _ d h => .pure h

lemma gives_tested {orelse : Parser (List Node)} (ho : S.Keeps orelse fun ns => ns.flatMap Node.literals)
    {α : Type} {k : Phrase Node → List Node → List Node → Parser α} {R : α → Cursor → Prop} (h : S.Bears c [] d)
    (hk : ∀ test body more e, S.Bears c (test.node.literals ++ (body ++ more).flatMap Node.literals) e →
      Gives e (k test body more) R) :
    Gives d (do
      toOperand
      let test ← g.expr .inner Level.lowest
      let body ← suite g
      let more ← orelse
      k test body more) R := by
  refine h.operand fun d h => (hg.expr _ _).step h fun test d h => ?_
  refine (keeps_suite hg).step h fun body d h => ho.step h fun more d h => hk test body more d ?_
  simpa using h

lemma keeps_alternatives (n : Nat) :
    S.Keeps (alternatives g n) fun ns => ns.flatMap Node.literals := by
  induction n with
  | zero => exact fun _ _ => .fail
  | succ n ih =>
    intro c hc
    rw [alternatives]
    refine .aheadHere ?_
    split
    · next e ha =>
      refine .ite (fun hw => .set ?_) fun _ => keeps_suiteBehind hg _ c hc
      have hword := ((Bears.refl hc).ahead ha).word
      rw [hw] at hword
      exact gives_tested hg ih hword fun test body more e h => .pure (by simpa using h)
    · exact .pure (.refl hc)

lemma keeps_branch (start : Position) : S.Keeps (branch g start) Node.literals := fun _ hc =>
  gives_tested hg (keeps_alternatives hg _) (.refl hc) fun _ _ _ _ h => .pure (by simpa using h)

lemma keeps_whileLoop (start : Position) : S.Keeps (whileLoop g start) Node.literals := fun _ hc =>
  gives_tested hg (keeps_suiteBehind hg _) (.refl hc) fun _ _ _ _ h => .pure (by simpa using h)

lemma keeps_forLoop (start : Position) (isAsync : Bool) :
    S.Keeps (forLoop g start isAsync) Node.literals := by
  intro c hc
  rw [forLoop]
  refine (Bears.refl hc).operand fun d h => (keeps_targetList hg _).step h fun target d h => ?_
  refine h.token fun d h => (quiet_keyword _).step h fun _ d h => ?_
  refine h.operand fun d h => (keeps_expressions hg _).step h fun iter d h => ?_
  refine (keeps_suite hg).step h fun body d h => (keeps_suiteBehind hg _).step h fun orelse d h => .pure ?_
  simpa using h

end

lemma literals_splitName (p : Phrase Node) :
    (splitName p).1.literals ++ (splitName p).2.toList.flatMap Node.literals = p.node.literals := by
  rw [splitName]
  split
  · next value id _ hshape =>
    obtain ⟨⟨mark, shape⟩, _⟩ := p
    obtain rfl : shape = .other _ [value, id] := hshape
    simp
  · simp

lemma literals_withItem (p : Phrase Node) : (withItem p).literals = p.node.literals := by
  rw [← literals_splitName p]
  simp [withItem]

lemma keeps_bracketedItems (hg : g.Keeps S) :
    S.Keeps (bracketedItems g) fun ps => ps.flatMap fun p => p.node.literals := by
  intro c hc
  rw [bracketedItems]
  refine (Bears.refl hc).symbol (by decide) fun d h => h.token fun d h => ?_
  refine gives_listed hg _ h fun first more b d _ h => .require fun _ => h.token fun d h => ?_
  exact h.symbol (by decide) fun d h => .stay (stays_peek _) fun _ => .pure h

lemma keeps_openItems (hg : g.Keeps S) : S.Keeps (openItems g) fun ps => ps.flatMap fun p => p.node.literals := by
  intro c hc
  rw [openItems]
  exact gives_listed hg _ (.refl hc) fun first more b d _ h => .pure h

lemma keeps_withBlock (hg : g.Keeps S) (start : Position) (isAsync : Bool) :
    S.Keeps (withBlock g start isAsync) Node.literals := by
  intro c hc
  dsimp only [withBlock]
  refine (Bears.refl hc).operand fun d h => .startsWith ?_
  have hitems : S.Keeps (if "(".toList.isPrefixOf d.rest then (bracketedItems g).or (openItems g) else openItems g)
      fun ps => ps.flatMap fun p => p.node.literals := fun c hc =>
    .fork ((keeps_bracketedItems hg).or (keeps_openItems hg) c hc) <| keeps_openItems hg c hc
  refine .ite_bind (hitems.last h) fun items d h => (keeps_suite hg).step h fun body d h => .pure ?_
  simpa [literals_withItem] using h

end Suites

section Cases

variable (hg : g.Keeps S)

include hg

lemma keeps_patternList : S.Keeps (patternList g) fun ns => ns.flatMap Node.literals := by
  intro c hc
  dsimp only [patternList]
  refine (Bears.refl hc).operand fun d h => (hg.casePattern _).step h fun first d h => ?_
  refine (Keeps.series (f := Node.literals) (fun c hc => ?_) _).step h fun r d h => .pure (by simpa using h)
  refine (Bears.refl hc).token fun d h => (quiet_symbol? (by decide)).step h fun _ d h => ?_
  refine .fork (.pure h) <| h.token fun d h => .startsWith (.wordHere ?_)
  refine .fork (.pure (by simpa using h)) ?_
  exact (hg.casePattern _).step h fun p d h => .pure (by simpa using h)

lemma keeps_caseGuard : S.Keeps (caseGuard g) fun ns => ns.flatMap Node.literals := by
  intro c hc
  rw [caseGuard]
  refine (Bears.refl hc).token fun d h => .here ((quiet_keyword? _).step h fun _ d h => ?_)
  refine .fork (h.operand fun d h => ?_) <| .pure h
  exact (hg.expr _ _).step h fun test d h => .pure (by simpa using h)

lemma gives_caseClause (hc : S.Has c) : Gives c (caseClause g) fun o d =>
    (o = none → S.Closes c [] d) ∧ ∀ n ∈ o, S.Bears c n.literals d := by
  rw [caseClause]
  refine .aheadHere ?_
  split
  · next ha => exact (gives_closeBlock hc ha).bind fun _ d h => .pure ⟨fun _ => h, by simp⟩
  · next e ha =>
    refine .set ((quiet_keyword _).step ((Bears.refl hc).ahead ha) fun _ d h => ?_)
    refine (keeps_patternList hg).step h fun patterns d h => (keeps_caseGuard hg).step h fun guards d h => ?_
    refine (keeps_suite hg).step h fun body d h => .pure ⟨by simp, ?_⟩
    rintro _ ⟨⟩
    simpa using h
  · exact .fail

lemma keeps_caseClauses : S.Keeps (caseClauses g) fun ns => ns.flatMap Node.literals := by
  intro c hc
  rw [caseClauses]
  refine .aheadHere ?_
  split
  · exact gives_opened (.refl hc) fun c hc => gives_collect_closes (fun c hc => gives_caseClause hg hc) _ hc
  · exact .pure (.refl hc)
  · exact .fail

lemma keeps_choice (start : Position) : S.Keeps (choice g start) Node.literals := by
  intro c hc
  rw [choice]
  refine (Bears.refl hc).token fun d h => gives_listed hg _ h fun first more b d _ h => ?_
  refine quiet_colon.step h fun _ d h => (keeps_caseClauses hg).step h fun cases d h => .pure ?_
  simpa using h

end Cases

section Definitions

lemma gives_keyword?_behind (h : S.Bears c l d) : Gives d (keyword? w) fun found e =>
    found = true → S.Behind c.index w e := by
  rw [keyword?]
  exact .wordHere (.ite (fun hw => gives_advance (.pure fun _ => ⟨d, h.reaches, hw, rfl⟩)) fun _ => .pure (by simp))

lemma gives_keyword_behind (h : S.Bears c l d) : Gives d (keyword w) fun _ e => S.Behind c.index w e := by
  rw [keyword]
  refine (gives_keyword?_behind h).bind fun found d hd => ?_
  cases found with
  | false => exact .fail
  | true => exact .pure (hd rfl)

lemma gives_behind {α : Type} {R : α → Cursor → Prop} {k : Unit → Parser α} (h : S.Bears c l d)
    (hk : ∀ e, S.Behind c.index w e → S.Bears c l e → Gives e (k ()) R) : Gives d (keyword w >>= k) R :=
  ((gives_keyword_behind h).and ((quiet_keyword w).last h)).bind fun _ e ⟨hbehind, h⟩ => hk e hbehind h

variable (hg : g.Keeps S)

include hg

lemma gives_optionalTypeParameters (hw : w = "def" ∨ w = "class") (hbehind : S.Behind c.index w b)
    {id : String} (hto : toToken .inner false b = .ok ((), e)) (hname : name e = .ok (id, d)) (h : S.Bears c l d) :
    Gives d (optionalTypeParameters g) fun _ e => S.Bears c l e := by
  rw [optionalTypeParameters]
  refine (quiet_toToken _ _).known h fun _ f hopen h => .startsWith (.fork ?_ <| .pure h)
  refine (keeps_typeParameters hg).known h fun p f hread h => (quiet_toToken _ _).last ?_
  have hdrop : S.Drops c.index p.node :=
    .typeParameters hg.tied hw hbehind (bind_ok hto (bind_ok hname (bind_ok hopen hread)))
  exact h.dropped_right hdrop.dropped

lemma keeps_returnType : S.Keeps (returnType g) fun o => o.toList.flatMap Node.literals := by
  intro c hc
  rw [returnType]
  refine (Bears.refl hc).token fun d h => (quiet_symbol? (by decide)).step h fun _ d h => ?_
  refine .fork (h.operand fun d h => ?_) <| .pure h
  exact (hg.hint _ _).step h fun p d h => .pure (by simpa using h)

lemma gives_functionDef (start : Position) (isAsync : Bool) {decorators : List Node}
    (hbehind : S.Behind c.index "def" d) (h : S.Bears c (decorators.flatMap Node.literals) d) :
    Gives d (functionDef g start decorators isAsync) fun n e => S.Bears c n.literals e := by
  dsimp only [functionDef]
  refine (quiet_toToken _ _).known h fun _ e hto h => quiet_name.known h fun id f hname h => ?_
  refine Gives.bind (P := fun _ e => optionalTypeParameters g f = .ok ((), e) ∧ S.Bears c _ e)
    (fun _ e he => ⟨he, gives_optionalTypeParameters hg (.inl rfl) hbehind hto hname h _ e he⟩) fun _ e ⟨htypes, h⟩ => ?_
  refine (quiet_symbol (by decide)).known h fun _ e hopen h => (quiet_toToken _ _).known h fun _ e hfirst h => ?_
  have hat : S.AtParameter c.index g .bracket true e :=
    .function hbehind (bind_ok hto (bind_ok hname (bind_ok htypes (bind_ok hopen hfirst))))
  refine (gives_parameters hg _ hat h).bind fun ps e h => (quiet_toToken _ _).step h fun _ d h => ?_
  refine h.symbol (by decide) fun d h => (keeps_returnType hg).step h fun returns d h => ?_
  refine (keeps_suite hg).step h fun body d h => .pure ?_
  simpa [-literals_unmarked] using h

lemma gives_classDef (start : Position) {decorators : List Node} (hbehind : S.Behind c.index "class" d)
    (h : S.Bears c (decorators.flatMap Node.literals) d) :
    Gives d (classDef g start decorators) fun n e => S.Bears c n.literals e := by
  dsimp only [classDef]
  refine (quiet_toToken _ _).known h fun _ e hto h => quiet_name.known h fun id f hname h => ?_
  refine (gives_optionalTypeParameters hg (.inr rfl) hbehind hto hname h).bind fun _ d h => .startsWith ?_
  have hbases : S.Keeps (if "(".toList.isPrefixOf d.rest then arguments g false else pure [])
      fun ns => ns.flatMap Node.literals := fun c hc =>
    .fork (keeps_arguments hg false c hc) <| .pure (.refl hc)
  refine .ite_bind (hbases.last h) fun bases d h => (keeps_suite hg).step h fun body d h => .pure ?_
  simpa using h

lemma gives_definition (start : Position) {decorators : List Node}
    (h : S.Bears c (decorators.flatMap Node.literals) d) :
    Gives d (definition g start decorators) fun n e => S.Bears c n.literals e := by
  have hkeyword : ∀ (w : String) {d : Cursor}, S.Bears c (decorators.flatMap Node.literals) d → Gives d (keyword? w)
      fun found e => (found = true → S.Behind c.index w e) ∧ S.Bears c (decorators.flatMap Node.literals) e := fun w _ h =>
    (gives_keyword?_behind h).and ((quiet_keyword? w).last h)
  rw [definition]
  refine (hkeyword _ h).bind fun _ d hclass => .ite (fun hfound => ?_) fun _ => ?_
  · exact gives_classDef hg start (hclass.1 hfound) hclass.2
  refine (hkeyword _ hclass.2).bind fun _ d hdef => .ite (fun hfound => ?_) fun _ => ?_
  · exact gives_functionDef hg start false (hdef.1 hfound) hdef.2
  refine (quiet_keyword _).step hdef.2 fun _ d h => h.token fun d h => ?_
  exact gives_behind h fun e hbehind h => gives_functionDef hg start true hbehind h

lemma keeps_decorator : S.Keeps (decorator g) fun o => o.toList.flatMap Node.literals := by
  intro c hc
  rw [decorator]
  refine (quiet_symbol? (by decide)).step (.refl hc) fun _ d h => .fork ?_ <| .pure h
  refine h.operand fun d h => (hg.expr _ _).step h fun p d h => (quiet_look _ _).step h fun _ d h => ?_
  exact .require fun _ => h.token fun d h => .pure (by simpa using h)

lemma keeps_decorated (start : Position) : S.Keeps (decorated g start) Node.literals := by
  intro c hc
  rw [decorated]
  exact ((keeps_decorator hg).collect _ c hc).bind fun decorators d h => gives_definition hg start h

end Definitions

section Handlers

lemma gives_caught (hg : g.Keeps S) (ofGroup : Bool) (hbehind : S.BehindHandler c.index d) (h : S.Bears c [] d) :
    Gives d (caught g ofGroup) fun w e => S.Bears c (w.type.toList.flatMap Node.literals) e := by
  dsimp only [caught]
  refine (quiet_toToken _ _).known h fun _ e hto h => .startsWith (.fork (.pure h) ?_)
  refine (hg.expr _ _).known h fun first f hfirst h => (quiet_toToken _ _).known h fun _ f' hcomma h => ?_
  have named : ∀ {f}, S.Bears c first.node.literals f → S.Bears c (splitName first).1.literals f := by
    intro f h
    rw [← literals_splitName first] at h
    refine h.dropped_right fun x hx => ?_
    obtain ⟨n, hn, hx⟩ := List.mem_flatMap.mp hx
    exact (Drops.boundName hg.tied hbehind (bind_ok hto hfirst) (by simpa using hn)).dropped x hx
  refine .ite_bind (P := fun isPair e => S.Bears c first.node.literals e ∧
    (isPair = true → symbol "," f' = .ok ((), e))) ?_ fun isPair e ⟨h, hpair⟩ => .ite (fun hfound => ?_) fun _ => ?_
  · refine .ite (fun _ => .pure ⟨h, nofun⟩) fun _ found e he => ⟨(quiet_symbol? (by decide)).last h found e he, ?_⟩
    exact fun hfound => bind_ok (hfound ▸ he) rfl
  · refine quiet_toOperand.known h fun _ e' hoperand h => .get ((hg.expr _ _).known h fun second f hsecond h => .pure ?_)
    have hdrop : S.Drops c.index second.node := .secondName hg.tied hbehind (bind_ok hto (bind_ok hfirst (bind_ok hcomma
      (bind_ok (hpair hfound) (bind_ok hoperand hsecond)))))
    simpa using h.dropped_right hdrop.dropped
  · have hkept := named h
    exact .pure (by simpa using hkept)

lemma Bears.handler {ofGroup : Bool} (h : S.Bears c l d) (hd : handlerHere d = some ofGroup) :
    S.Bears c l (d.skip (handlerWord ofGroup).length) := by
  simp only [handlerHere] at hd
  split_ifs at hd with hw
  cases ofGroup with
  | true =>
    apply h.skip
    rw [← String.length_toList]
    exact .of_isPrefixOf (by decide) (Option.some.inj hd)
  | false =>
    have hword := h.word
    rwa [not_not.mp hw] at hword

lemma keeps_handler (hg : g.Keeps S) (x : Expectation) (ofGroup : Bool) :
    S.Keeps (handler g x ofGroup) fun o => o.toList.flatMap Node.literals := by
  intro c hc
  rw [handler]
  refine .aheadHere ?_
  split
  · next e ha =>
    split
    · exact .pure (.refl hc)
    · next kind hkind =>
      refine .set (.require fun hsame => ?_)
      obtain rfl : kind = ofGroup := by simpa using hsame
      have he := (Bears.refl hc).ahead ha
      have hbehind : S.BehindHandler c.index _ := ⟨e, kind, he.reaches, hkind, rfl⟩
      refine gives_advance ((gives_caught hg kind hbehind (he.handler hkind)).bind fun what d h => ?_)
      exact (keeps_suite hg).step h fun body d h => .pure (by simpa using h)
  · exact .pure (.refl hc)

lemma keeps_tryBlock (hg : g.Keeps S) (start : Position) : S.Keeps (tryBlock g start) Node.literals := by
  intro c hc
  rw [tryBlock]
  refine (keeps_suite hg).step (.refl hc) fun body d h => .aheadHere ?_
  split
  · next e ha =>
    split
    · refine .set ((quiet_keyword _).step (h.ahead ha) fun _ d h => ?_)
      exact (keeps_suite hg).step h fun final d h => .pure (by simpa using h)
    · refine (keeps_handler hg _ _).step h fun first d h => ((keeps_handler hg _ _).collect _).step h fun more d h => ?_
      refine (keeps_suiteBehind hg _).step h fun orelse d h => (keeps_suiteBehind hg _).step h fun final d h => .pure ?_
      simpa using h
  · exact .fail

end Handlers

section Whole

variable (hg : g.Keeps S)

include hg

lemma keeps_asyncStatement (start : Position) :
    S.Keeps (asyncStatement g start) fun ns => ns.flatMap Node.literals := by
  intro c hc
  dsimp only [asyncStatement]
  have behind : ∀ {p : Parser Node} {w : String},
      (∀ d, S.Behind c.index w d → S.Bears c [] d → Gives d p fun n e => S.Bears c n.literals e) → Gives c (do
        keyword "async"
        toToken .inner false
        keyword w
        let n ← p
        pure [n]) fun ns d => S.Bears c (ns.flatMap Node.literals) d := by
    intro p w hp
    refine (quiet_keyword _).step (.refl hc) fun _ d h => h.token fun d h => ?_
    exact gives_behind h fun e hbehind h => (hp e hbehind h).bind fun n d h => .pure (by simpa using h)
  refine .stay (stays_peek _) fun w => ?_
  split
  · exact behind fun d hbehind h => gives_functionDef hg start true hbehind h
  · exact behind fun d _ h => (keeps_forLoop hg start true).last h
  · exact behind fun d _ h => (keeps_withBlock hg start true).last h
  · exact keeps_statementLine hg c hc

lemma keeps_statement : S.Keeps (statement g) fun ns => ns.flatMap Node.literals := by
  intro c hc
  dsimp only [statement]
  have hline := keeps_statementLine hg
  refine .get (.fork (hline c hc) <| .startsWith (.fork ?_ <| .wordHere ?_))
  · exact (keeps_decorated hg _).step (.refl hc) fun n d h => .pure (by simpa using h)
  have behind : ∀ {p : Parser Node}, Gives (c.skip (String.ofList (word c.rest)).length) p
      (fun n d => S.Bears c n.literals d) → Gives c (do
        advance (String.ofList (word c.rest)).length
        let n ← p
        pure [n]) fun ns d => S.Bears c (ns.flatMap Node.literals) d := fun hp =>
    gives_advance (hp.bind fun n d h => .pure (by simpa using h))
  have hword := (Bears.refl hc).word
  have hbehind : S.Behind c.index (String.ofList (word c.rest)) (c.skip (String.ofList (word c.rest)).length) :=
    ⟨c, .refl hc, rfl, rfl⟩
  split
  · exact behind ((keeps_branch hg _).last hword)
  · exact behind ((keeps_forLoop hg _ _).last hword)
  · exact behind ((keeps_whileLoop hg _).last hword)
  · exact behind ((keeps_tryBlock hg _).last hword)
  · exact behind ((keeps_withBlock hg _ _).last hword)
  · next hw => exact behind (gives_functionDef hg _ _ (hw ▸ hbehind) hword)
  · next hw => exact behind (gives_classDef hg _ (hw ▸ hbehind) hword)
  · exact keeps_asyncStatement hg _ c hc
  · exact .or (behind ((keeps_choice hg _).last hword)) (hline c hc)
  · exact hline c hc

lemma gives_blockStep (hc : S.Has c) : Gives c (blockStep g) fun o d =>
    (o = none → S.Closes c [] d) ∧ ∀ ns ∈ o, S.Bears c (ns.flatMap Node.literals) d := by
  rw [blockStep]
  refine .aheadHere ?_
  split
  · next ha => exact (gives_closeBlock hc ha).bind fun _ d h => .pure ⟨fun _ => h, by simp⟩
  · next e ha =>
    have h := (Bears.refl hc).ahead ha
    refine .set (.ite (fun hend => .pure ⟨fun _ => ?_, by simp⟩) fun _ => ?_)
    · have hlength : S.chars.length ≤ e.index := by
        rw [List.isEmpty_iff, h.has.rest] at hend
        exact List.drop_eq_nil_iff.mp hend
      exact ⟨h.has, h.le, .inr (Nat.le_antisymm h.has.le hlength), h.literals⟩
    · refine (keeps_statement hg).step h fun ns d h => .pure ⟨by simp, ?_⟩
      rintro _ ⟨⟩
      exact h
  · exact .fail

lemma gives_block (hc : S.Has c) :
    Gives c (block g) fun ns d => S.Closes c (ns.flatMap Node.literals) d := by
  rw [block]
  refine (gives_collect_closes (fun c hc => gives_blockStep hg hc) _ hc).bind fun nss d h => .pure ?_
  rwa [flatMap_flatten]

end Whole

end Lexis.Source

namespace Grammar

lemma keeps_rules (S : Source) (bound n : Nat) : (rules bound n).Keeps S := by
  induction n with
  | zero =>
    exact ⟨⟨bound, 0, rfl⟩, fun _ _ _ _ => .fail, fun _ _ _ => .fail, fun _ _ _ _ => .fail, fun _ _ _ => .fail,
      fun _ _ => .fail⟩
  | succ n ih =>
    exact ⟨⟨bound, n + 1, rfl⟩, keeps_expression ih, keeps_target ih, keeps_hint ih, keeps_casePattern ih,
      fun _ hc => gives_block ih hc⟩

lemma read_literals {S : Source} {n : Node} (h : read S.margin S.chars = .ok n) :
    ∃ rs, S.Scans 0 rs S.chars.length ∧ S.Sifts 0 rs n.literals := by
  simp only [read] at h
  split at h
  · next ns d hd =>
    obtain rfl := Except.ok.inj h
    obtain ⟨-, -, hindents, rs, hscan, hsift⟩ := gives_block (keeps_rules S _ _) S.has_ofSource ns d hd
    rcases hindents with ⟨hne, -⟩ | hend
    · exact absurd rfl hne
    · exact ⟨rs, hend ▸ hscan, by simpa [Cursor.ofSource] using hsift⟩
  · cases h

end Grammar

end SourceBlocks
