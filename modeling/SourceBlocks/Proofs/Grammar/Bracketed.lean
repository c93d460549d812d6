import SourceBlocks.Proofs.Grammar.Kept.Module

/-! A statement that is a string literal has the mark of that literal exactly if no bracket
opens where it begins. -/

namespace SourceBlocks.Lexis.Source

open Grammar Grammar.Parser
open SourceBlocks.Tree (Mark Node Shape)

variable {S : Source} {c d : Cursor} {g : Rules Node} {n : Node} {mark : Mark}

def RunsFrom (S : Source) (i : Nat) (n : Node) : Prop :=
  ∃ ps j, S.IsRun i ps j ∧ (∀ p ∈ ps, IsPlain p) ∧ n.shape.literal? = some (literalOf ps)

def Tells (S : Source) (c : Cursor) (mark : Mark) (n : Node) : Prop := n.shape.literal? ≠ none →
  (n.mark = some mark ∧ (Quote.atStart? c.rest).isSome = true ∧ S.RunsFrom c.index n) ∨
    (n.mark ≠ some mark ∧ c.rest.head? = some '(')

lemma literal?_of_isComposite (h : isComposite n = true) : n.shape.literal? = none := by
  obtain ⟨_, shape⟩ := n
  cases shape with
  | str => cases h
  | _ => rfl

lemma tells_of_isComposite (h : isComposite n = true) : S.Tells c mark n :=
  fun hliteral => absurd (literal?_of_isComposite h) hliteral

lemma head_ne_bracket (h : (Quote.atStart? c.rest).isSome = true) : c.rest.head? ≠ some '(' := by
  intro hhead
  obtain ⟨r, hr⟩ := List.head?_eq_some_iff.mp hhead
  rw [hr] at h
  cases h

section Brackets

def Deferred (S : Source) (i : Nat) (n : Node) : Prop :=
  isComposite n = true ∨ ∃ k hi, i < k ∧ hi ≤ S.chars.length ∧ S.Laid k [n] hi

variable {i : Nat}

lemma Deferred.mark_ne (h : S.Deferred i n) (hliteral : n.shape.literal? ≠ none) :
    n.mark ≠ some (.known (S.placeAt i)) := by
  rcases h with h | ⟨k, hi, hk, hhi, hlaid⟩
  · exact absurd (literal?_of_isComposite h) hliteral
  · intro hmark
    obtain ⟨j, hj, hlt, hplace, -⟩ := hlaid.from_known hmark
    have hplaces : S.placeAt i < S.placeAt j := placeAt_lt (by omega) (by omega)
    rw [hplace] at hplaces
    exact Position.lt_irrefl _ hplaces

lemma deferred_loneStar (hg : g.Sound S) (follow : Follow) (start : Position) (hc : S.Has c) (hi : i < c.index) :
    Gives c (loneStar g follow start) fun p _ => S.Deferred i p.node := by
  dsimp only [loneStar]
  have htuple : Gives c (do
      let p ← starElement g
      close start ")" (.tuple [p.node])) fun p _ => S.Deferred i p.node :=
    .skip <| (startsAt_close _ _ rfl _).mono fun _ _ h => .inl h.2
  have hgrouped : Gives c (do
      let p ← g.expr .bracket Level.lowest
      toToken .bracket false
      symbol ")"
      let stop ← Grammar.index
      pure (p.group start stop)) fun p _ => S.Deferred i p.node := by
    refine (Gives.reads (hg.expr _ _) hc).bind fun p d hp => .skip <| .skip <| .after fun _ _ => ?_
    exact .pure (.inr ⟨c.index, d.index, hi, hp.1.le, hp.2.laid⟩)
  refine .fork (.or ?_ (.or hgrouped htuple)) <| .or hgrouped htuple
  exact htuple.bind fun p _ hp => .skip <| .skip <| .pure hp

lemma deferred_parenAtom (hg : g.Sound S) (follow : Follow) (hc : S.Has c) :
    Gives c (parenAtom g follow) fun p _ => S.Deferred c.index p.node := by
  have hclose : ∀ {d : Cursor} {shape : Shape Node}, isComposite (marked c.place shape) = true →
      Gives d (close c.place ")" shape) fun p _ => S.Deferred c.index p.node :=
    fun h => (startsAt_close _ _ h _).mono fun _ _ hp => .inl hp.2
  rw [parenAtom]
  refine .here ((Gives.reads (reads_symbol (by decide)) hc).bind fun _ c₁ h₁ => ?_)
  refine (Gives.reads (reads_toToken _ _) h₁.1).bind fun _ c₂ h₂ => .startsWith (.fork (hclose rfl) ?_)
  -- what the brackets enclose begins behind the one that opens
  have hlt : c.index < c₂.index := Nat.lt_of_lt_of_le h₁.2 h₂.2
  refine .get (.stay stays_starHere fun isStar => ?_)
  refine (Gives.reads (reads_element hg true) h₂.1).bind fun first d hf => .skip <| .after fun _ _ => ?_
  refine .fork (.skip <| hclose rfl) <| .after fun r _ => ?_
  refine .fork (hclose rfl) <| .fork ?_ ?_
  · exact .set (deferred_loneStar hg follow _ h₂.1 hlt)
  · exact .skip <| .skip <| .skip <| .pure (.inr ⟨c₂.index, d.index, hlt, hf.1.le, hf.2.laid⟩)

end Brackets

section Phrases

variable {site : Site} {level : Int} {follow : Follow}

lemma tells_stringRun (hk : g.Keeps S) (hc : S.Has c) (hq : (Quote.atStart? c.rest).isSome = true) :
    Gives c (stringRun g follow) fun p _ => S.Tells c p.mark p.node := by
  refine (gives_run hk follow hc).mono ?_
  rintro p d ⟨first, rest, stop, e, rfl, hfirst, -, hrun, -⟩ hliteral
  by_cases hplain : ∀ p ∈ first :: rest, IsPlain p
  · exact .inl ⟨rfl, hq, first :: rest, e.index, hrun, hplain, literal?_stringPhrase hfirst hplain⟩
  · -- with a formatted piece it is no literal
    exact absurd (literal?_stringShape hplain _ _) hliteral

lemma tells_parenAtom (hg : g.Sound S) (hc : S.Has c) {r : List Char} (hr : c.rest = '(' :: r) :
    Gives c (parenAtom g follow) fun p _ => S.Tells c p.mark p.node := by
  refine ((gives_parenAtom g follow).and (deferred_parenAtom hg follow hc)).mono fun p _ hp hliteral => ?_
  obtain ⟨hstart, hlead⟩ := Prod.mk.inj hp.1
  have hmark : p.mark = .known (S.placeAt c.index) := by rw [Phrase.mark, hlead, hstart, markOf, hc.place]
  exact .inr ⟨hmark ▸ hp.2.mark_ne hliteral, by rw [hr, List.head?_cons]⟩

lemma tells_heads {front : Position × Option Nat} {p : Parser (Phrase Node)} (h : Gives c p fun a _ => a.Heads front) :
    Gives c p fun a _ => S.Tells d a.mark a.node := h.mono fun _ _ ha => tells_of_isComposite ha.2

variable (hg : g.Sound S)

include hg

lemma tells_atom (hk : g.Keeps S) (hc : S.Has c) :
    Gives c (atom g follow) fun p _ => S.Tells c p.mark p.node := by
  rw [atom]
  refine .get (.ite (fun hq => tells_stringRun hk hc hq) fun _ => ?_)
  split
  · next hr => exact tells_parenAtom hg hc hr
  · exact tells_heads (gives_listAtom g)
  · exact tells_heads (gives_braceAtom g)
  · refine .fork (tells_heads gives_nameAtom) <| .startsWith (.fork ?_ ?_)
    · exact tells_heads gives_ellipsis
    · exact tells_heads (gives_numeral.mono fun _ _ h => h.2)
  · exact .fail

lemma tells_primary (hk : g.Keeps S) (hc : S.Has c) :
    Gives c (primary g follow) fun p _ => S.Tells c p.mark p.node := by
  rw [primary]
  refine (tells_atom hg hk hc).bind fun p d hp => .after fun ts _ => .pure ?_
  by_cases hts : ts = []
  · subst hts
    exact hp
  · exact tells_of_isComposite (isComposite_apply (.inl hts))

lemma tells_operand (hk : g.Keeps S) (hc : S.Has c) :
    Gives c (operand g site level) fun p _ => S.Tells c p.mark p.node := by
  have hname := tells_heads (S := S) (d := c) (gives_nameOperand (c := c) g site level)
  have hleaf : ∀ {d : Cursor} {start : Position} {stop : Nat} {shape : Shape Node},
      isComposite (marked start shape) = true → Gives d (pure (Phrase.leaf start stop shape)) fun p _ =>
        S.Tells c p.mark p.node := fun h => .pure (tells_of_isComposite h)
  rw [operand]
  refine .get (.fork (tells_primary hg hk hc) ?_)
  split
  · exact .fail
  refine .fork ?_ <| .fork ?_ <| .fork (.wordHere ?_) ?_
  · exact .skip <| .skip <| hleaf rfl
  · exact tells_heads (gives_starPrimary g _ _)
  · refine .fork ?_ <| .fork ?_ <| .fork ?_ hname
    · exact .skip <| .skip <| hleaf rfl
    · exact .after fun _ d => tells_heads (startsAt_lambda g site c.place d)
    · rw [awaited]
      refine .stay (stays_peek _) fun _ => .fork ?_ hname
      exact .skip <| .skip <| hleaf rfl
  · exact tells_primary hg hk hc

lemma tells_expression (hk : g.Keeps S) (hc : S.Has c) :
    Gives c (expression g site level) fun p _ => S.Tells c p.mark p.node := by
  rw [expression]
  refine (tells_operand hg hk hc).bind fun p d hp => (Grammar.gives_operators g site level _ p).mono fun a _ ha => ?_
  rcases ha with rfl | ha
  · exact hp
  · exact tells_of_isComposite ha.2

end Phrases

section Statements

lemma gives_statementLine {τ : Type} [Builder τ] {g : Rules τ} {P : τ → Prop}
    (h : Gives c (simpleStatement g) fun t _ => P t) :
    Gives c (statementLine g) fun ts _ => ∃ t us, ts = t :: us ∧ P t := by
  dsimp only [statementLine]
  exact h.bind fun first _ hf => .after fun r _ => .pure ⟨first, r.1, rfl, hf⟩

def TellsOf (S : Source) (c : Cursor) (n : Node) : Prop :=
  ∀ v, n.shape = .expr v → ∃ mark, n.mark = some mark ∧ S.Tells c mark v

lemma tellsOf_of_isComposite (h : isComposite n = true) : S.TellsOf c n := by
  intro v hv
  simp [isComposite, hv] at h

lemma tellsOf_markedAt {start : Position} {p : Parser Node} (h : Gives d p fun n _ => MarkedAt start n) :
    Gives d p fun n _ => S.TellsOf c n := h.mono fun _ _ hn => tellsOf_of_isComposite hn.2

lemma tellsOf_marksAt {start : Position} {p : Parser Node} (h : MarksAt start p) :
    Gives d p fun n _ => S.TellsOf c n := tellsOf_markedAt (h d)

variable (hg : ∀ site level c, S.Has c → Gives c (g.expr site level) fun p _ => S.Tells c p.mark p.node)

include hg in
lemma tellsOf_valueStatement (hc : S.Has c) : Gives c (valueStatement g) fun n _ => S.TellsOf c n := by
  have hexpr : ∀ {p : Phrase Node}, S.Tells c p.mark p.node → S.TellsOf c (.mk (some p.mark) (.expr p.node)) := by
    intro p hp v hv
    obtain rfl := Shape.expr.inj hv
    exact ⟨p.mark, rfl, hp⟩
  rw [valueStatement]
  refine .here (.keyword? (fun _ d => ?_) ?_)
  · exact (tells_heads (startsAt_yieldValue g _ _ d)).bind fun p _ hp => .pure (hexpr hp)
  · refine (hg _ _ c hc).bind fun first _ hf => .after fun r _ => ?_
    obtain ⟨ps, _⟩ := r
    dsimp only
    split
    · exact .pure (hexpr hf)
    · refine .pure fun v hv => ⟨first.mark, rfl, ?_⟩
      obtain rfl := Shape.expr.inj hv
      exact tells_of_isComposite rfl

include hg in
lemma tellsOf_expressionStatement (hc : S.Has c) : Gives c (expressionStatement g) fun n _ => S.TellsOf c n := by
  rw [expressionStatement]
  refine .or (gives_whole ?_) (gives_whole (tellsOf_valueStatement hg hc))
  exact (isComposite_assignment false _).bind fun a _ ha => .pure (tellsOf_of_isComposite ha)

include hg in
lemma tellsOf_simpleStatement (hc : S.Has c) : Gives c (simpleStatement g) fun n _ => S.TellsOf c n := by
  have hexpr := tellsOf_expressionStatement hg hc
  have hpure : ∀ {d : Cursor} {shape : Shape Node}, isComposite (marked c.place shape) = true →
      Gives d (pure (marked c.place shape)) fun n _ => S.TellsOf c n := fun h => .pure (tellsOf_of_isComposite h)
  dsimp only [simpleStatement]
  refine .get (.fork hexpr <| .wordHere ?_)
  split
  · exact .skip <| hpure rfl
  · exact .skip <| hpure rfl
  · exact .skip <| hpure rfl
  · exact .skip <| .skip <| hpure rfl
  · exact .skip <| tellsOf_marksAt (marksAt_deletion g _)
  · exact .skip <| tellsOf_marksAt (marksAt_raising g _)
  · exact .skip <| tellsOf_marksAt (marksAt_asserting g _)
  · exact .skip <| .skip <| hpure rfl
  · exact .skip <| .skip <| hpure rfl
  · exact .skip <| tellsOf_marksAt (marksAt_plainImport g _)
  · exact .skip <| tellsOf_marksAt (marksAt_fromImport g _)
  · refine .stay (stays_peek _) fun _ => .fork (tellsOf_markedAt (gives_printing g)) ?_
    exact .or hexpr (gives_whole (tellsOf_markedAt (gives_printing g)))
  · exact .or (gives_whole (tellsOf_markedAt (Grammar.gives_executing g))) hexpr
  · exact .or (gives_whole (tellsOf_markedAt (gives_typeAlias g))) hexpr
  · exact hexpr

include hg in
lemma tellsOf_statement (hc : S.Has c) :
    Gives c (statement g) fun ns _ => ∃ n ms, ns = n :: ms ∧ S.TellsOf c n := by
  refine gives_statement (gives_statementLine (tellsOf_simpleStatement hg hc)) fun hp => ?_
  exact (tellsOf_marksAt hp).bind fun n _ hn => .pure ⟨n, [], rfl, hn⟩

end Statements

section First

variable {τ : Type} [Builder τ] {g : Rules τ} {P : Cursor → τ → Prop}
  (hg : ∀ d, ahead betweenStatements (c.total + 1) c = .token d →
    Gives d (statement g) fun ts _ => ∃ t us, ts = t :: us ∧ P d t)

include hg

lemma gives_firstStep : Gives c (Grammar.blockStep g) fun o _ => ∀ ts ∈ o,
    ∃ d, ahead betweenStatements (c.total + 1) c = .token d ∧ ∃ t us, ts = t :: us ∧ P d t := by
  rw [Grammar.blockStep]
  refine .aheadHere ?_
  cases hahead : ahead betweenStatements (c.total + 1) c with
  | lineEnd | deeper => exact .fail
  | shallower => exact .skip <| .pure (by simp)
  | token d =>
    refine .set (.fork (.pure (by simp)) <| (hg d hahead).bind fun ts _ hts => .pure fun us hus => ?_)
    obtain rfl := Option.some.inj hus
    exact ⟨d, rfl, hts⟩

lemma gives_firstStatement : Gives c (Grammar.block g) fun ts _ => ∀ t us, ts = t :: us →
    ∃ d, ahead betweenStatements (c.total + 1) c = .token d ∧ P d t := by
  -- the first statement comes from the first step, whatever the others give
  have hsteps : ∀ fuel, Gives c (collect (Grammar.blockStep g) fuel) fun tss _ => ∀ t us, tss.flatten = t :: us →
      ∃ d, ahead betweenStatements (c.total + 1) c = .token d ∧ P d t := by
    intro fuel
    cases fuel with
    | zero => exact .fail
    | succ fuel =>
      rw [collect]
      refine (gives_firstStep hg).bind fun o _ ho => ?_
      cases o with
      | none => exact .pure (by simp)
      | some ts =>
        refine .after fun tss _ => .pure fun t us h => ?_
        obtain ⟨d, hd, t', us', rfl, ht⟩ := ho ts rfl
        obtain ⟨rfl, -⟩ := List.cons.inj h
        exact ⟨d, hd, ht⟩
  rw [Grammar.block]
  exact (hsteps _).bind fun _ _ h => .pure h

end First

end SourceBlocks.Lexis.Source

namespace SourceBlocks.Grammar

open SourceBlocks.Lexis SourceBlocks.Lexis.Source
open SourceBlocks.Tree (Node)

lemma tells_rules (S : Source) (bound n : Nat) (site : Site) (level : Int) (c : Cursor) (hc : S.Has c) :
    Parser.Gives c ((rules bound n).expr site level) fun p _ => S.Tells c p.mark p.node := by
  cases n with
  | zero => exact .fail
  | succ n => exact tells_expression (sound_rules S bound n) (keeps_rules S bound n) hc

lemma read_firstStatement {τ : Type} [Builder τ] {S : Source} {P : Cursor → τ → Prop} {tree : τ}
    (hg : ∀ bound n d, ahead betweenStatements (S.chars.length + 1) (.ofSource S.margin S.chars) = .token d →
      Parser.Gives d (statement (rules bound n)) fun ts _ => ∃ t us, ts = t :: us ∧ P d t)
    (h : read S.margin S.chars = .ok tree) : ∃ ts, tree = unmarked (.module ts) ∧ ∀ t us, ts = t :: us →
      ∃ d, ahead betweenStatements (S.chars.length + 1) (.ofSource S.margin S.chars) = .token d ∧ P d t := by
  simp only [read] at h
  split at h
  · next ts d hd =>
    obtain rfl := Except.ok.inj h
    exact ⟨ts, rfl, gives_firstStatement (hg _ _) ts d hd⟩
  · cases h

lemma read_tells {S : Source} {n : Node} {ns : List Node}
    (h : read S.margin S.chars = .ok (Tree.Node.mk none (.module (n :: ns)))) :
    ∃ d, ahead betweenStatements (S.chars.length + 1) (.ofSource S.margin S.chars) = .token d ∧ S.TellsOf d n := by
  obtain ⟨_, heq, hfirst⟩ := read_firstStatement
    (fun bound n d hd => tellsOf_statement (tells_rules S bound n) (ahead_token S.has_ofSource hd).1) h
  cases heq
  exact hfirst n ns rfl

end SourceBlocks.Grammar
