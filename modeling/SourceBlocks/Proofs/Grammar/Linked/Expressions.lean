import SourceBlocks.Proofs.Grammar.Linked.Operands

namespace SourceBlocks.Grammar

open Lexis Grammar.Parser
open SourceBlocks.Tree (Node Shape)

variable {τ : Type} [Builder τ] {L : Links τ} {g : Rules τ} {g' : Rules Node}

section Targets

section

variable (hL : L.Lawful) (hg : g.Linked L g')

include hL hg

lemma linked_targetGroup (opening closing : String) {shape : List τ → Shape τ}
    {shape' : List Node → Shape Node} (hshape : ∀ start stop ts ns, L.values ts ns →
      L.operand (.leaf start stop (shape ts)) (.leaf (start.inset L.shift) stop (shape' ns))) :
    Linked L.shift L.operand (targetGroup g opening closing shape) (targetGroup g' opening closing shape') := by
  refine .step insets_here fun start => .symbol <| .token <| ?_
  refine .startsWith fun _ => .ite (linked_close fun stop => hshape start stop _ _ .nil) ?_
  refine .bind (hg.target _) fun first first' h => ?_
  refine .bind (.series (linked_separated (alike_startsWith _) (hg.target _)) hg.bound) fun r r' hr => ?_
  exact linked_close fun stop => hshape start stop _ _ (.cons (hL.value h) (hL.values_of_operands hr.1))

lemma linked_tupleTarget :
    Linked L.shift L.operand (tupleTarget g) (tupleTarget g') :=
  linked_targetGroup hL hg _ _ fun start stop _ _ h => hL.tuple start stop h

lemma linked_listTarget :
    Linked L.shift L.operand (listTarget g) (listTarget g') :=
  linked_targetGroup hL hg _ _ fun start stop _ _ h => hL.leaf start stop (.list h)

end

lemma alike_noTrailer {w : Nat} (follow : Follow) : Alike w (noTrailer follow) :=
  .look fun _ => .ite (.step (alike_nextIn _) fun _ => insets_require _ _) (.pure rfl)

omit [Builder τ] in
lemma linked_wholeGroup (follow : Follow) {p : Parser (Phrase τ)} {p' : Parser (Phrase Node)}
    (hp : Linked L.shift L.operand p p') : Linked L.shift L.operand (wholeGroup follow p) (wholeGroup follow p') :=
  .bind hp fun _ _ h => .step (alike_noTrailer _) fun _ => .pure h

variable (hL : L.Lawful) (hg : g.Linked L g')

include hL hg

lemma linked_simpleTarget (follow : Follow) :
    Linked L.shift L.operand (simpleTarget g follow) (simpleTarget g' follow) := by
  refine .bind (linked_atom hL hg follow) fun p p' h => .bind (linked_trailers hL hg follow) fun ts ts' hts => ?_
  rw [Links.endsInPart_eq hts, isEmpty_of_forall₂ hts, ← hL.head (hL.value h)]
  exact .ite_step (insets_require _ _) (insets_require _ _) fun _ => .pure (hL.apply_all h hts)

lemma linked_starTarget (follow : Follow) :
    Linked L.shift L.operand (starTarget g follow) (starTarget g' follow) := by
  refine .bind (linked_starPrimary hL hg follow fun _ _ _ => .pure rfl) fun p p' h => ?_
  rw [← hL.head (hL.value h)]
  exact .ite .fail (.pure h)

lemma linked_target (follow : Follow) :
    Linked L.shift L.operand (target g follow) (target g' follow) := by
  have hsimple := linked_simpleTarget hL hg follow
  refine .get fun c => ?_
  dsimp only [Cursor.inset]
  split
  · exact linked_starTarget hL hg follow
  · exact .or (linked_wholeGroup follow (linked_tupleTarget hL hg)) hsimple
  · exact .or (linked_wholeGroup follow (linked_listTarget hL hg)) hsimple
  · exact hsimple

end Targets

section Hints

lemma Links.Lawful.extend_pair (hL : L.Lawful) {k : String} (hk : k ∉ knownNames) {p q : Phrase τ} {p' q' : Phrase Node}
    (hp : L.operand p p') (hq : L.operand q q') :
    L.operand (p.extend q.stop (.other k [p.node, q.node])) (p'.extend q'.stop (.other k [p'.node, q'.node])) := by
  rw [(hL.phrases hq).stop]
  exact hL.extend _ (hL.phrases hp) (.other hk (.cons (hL.value hp) (.cons (hL.value hq) .nil)))

lemma linked_typeParameters (hL : L.Lawful) (hg : g.Linked L g') :
    Linked L.shift L.operand (typeParameters g) (typeParameters g') := by
  refine .step insets_here fun start => .symbol <| .token <| ?_
  refine .bind (hg.hint _ _) fun first first' h => ?_
  refine .bind (.series (linked_separated (alike_startsWith _) (hg.hint _ _)) hg.bound) fun r r' hr => ?_
  exact linked_closeForm hL (.other (by decide) (.cons (hL.value h) (hL.values_of_operands hr.1)))

lemma linked_genericName (hL : L.Lawful) (follow : Follow) :
    Linked L.shift L.operand (genericName follow) (genericName follow) := by
  refine .get fun c => .require <| .bind (linked_nameAtom hL) fun p p' h => ?_
  rw [(hL.phrases h).stop]
  exact .require <| .token <| .startsWith fun _ =>
    .require <| .pure h

lemma linked_starType (hL : L.Lawful) (stars : String) :
    Linked L.shift L.operand (starType stars) (starType stars) := by
  refine .step insets_here fun start => .symbol <| .token <| ?_
  refine .step insets_here fun spot => .step alike_name fun id => .step alike_index fun stop => .pure ?_
  exact hL.leaf start stop (.other (by decide) (.cons (hL.value_marked spot (.name id)) .nil))

variable (hL : L.Lawful) (hg : g.Linked L g')

include hL hg

lemma linked_simpleType (site : Site) :
    Linked L.shift L.operand (simpleType g site) (simpleType g' site) := by
  refine .startsWith fun _ => .ite (linked_starType hL _) ?_
  refine .startsWith fun _ => .ite (linked_starType hL _) ?_
  refine .bind (linked_genericName hL _).optional fun p p' h => ?_
  cases h with
  | none => exact hg.expr _ _
  | some h => exact .bind (linked_typeParameters hL hg) fun _ _ hq => .pure (hL.extend_pair (by decide) h hq)

lemma linked_moreType (site : Site) (fuel : Nat) {p : Phrase τ} {p' : Phrase Node}
    (h : L.operand p p') : Linked L.shift L.operand (moreType g site fuel p) (moreType g' site fuel p') := by
  induction fuel generalizing p p' with
  | zero => exact .fail
  | succ fuel ih =>
    refine .look fun _ => .ite (.pure h) (.symbol? fun _ => .ite ?_ ?_)
    · refine .toOperand <| .bind (linked_simpleType hL hg site) fun _ _ hq => ?_
      exact ih (hL.extend_pair (by decide) h hq)
    refine .symbol? fun _ => .ite (.token <| ?_) (.pure h)
    refine .step insets_here fun spot => .step alike_name fun id => .step alike_index fun stop => ?_
    exact ih (hL.extend_pair (q := .leaf spot stop (.name id)) (by decide) h (hL.leaf spot stop (.name id)))

lemma linked_hint (site : Site) (colon : Bool) :
    Linked L.shift L.operand (hint g site colon) (hint g' site colon) := by
  rw [hint, hint, hg.bound]
  refine .bind (linked_simpleType hL hg site) fun first first' h => .bind (linked_moreType hL hg site _ h) fun p p' h => ?_
  refine .ite_step (alike_both (alike_look _ _) (alike_startsWith _)) (.pure rfl) fun _ => .ite ?_ (.pure h)
  refine .symbol <| .toOperand <| .bind (hg.hint _ _) fun _ _ hq => ?_
  exact .pure (hL.extend_pair (by decide) h hq)

end Hints

section Parameters

variable (hL : L.Lawful) (hg : g.Linked L g')

include hL hg

lemma insets_starName (follow : Follow) (stars : String) :
    Insets L.shift (fun s => s) (starName g follow stars) (starName g' follow stars) := by
  refine .get fun c => .symbol <| .token <| ?_
  refine .bind (linked_nameAtom hL) fun p p' h => .bind (linked_trailers hL hg follow) fun ts ts' hts => ?_
  rw [Links.endsInPart_eq hts, isEmpty_of_forall₂ hts, (hL.phrases (hL.apply_all h hts)).stop]
  exact .require <| .pure rfl

lemma linked_parameterType (site : Site) (typed : Bool) :
    Linked L.shift (Option.Rel L.value) (parameterType g site typed) (parameterType g' site typed) := by
  refine .token <| .ite_step (alike_symbol? _) (.pure rfl) fun _ => .ite ?_ (.pure .none)
  exact .toOperand <| .bind (hg.hint _ _) fun _ _ h => .pure (.some (hL.value h))

lemma linked_parameterDefault (site : Site) :
    Linked L.shift (Option.Rel L.value) (parameterDefault g site) (parameterDefault g' site) := by
  refine .token <| .symbol? fun _ => .ite ?_ (.pure .none)
  exact .toOperand <| .bind (hg.expr _ _) fun _ _ h => .pure (.some (hL.value h))

lemma linked_parameter (site : Site) (typed : Bool) :
    Linked L.shift L.Parameters (parameter g site typed) (parameter g' site typed) := by
  refine .get fun c => ?_
  have hrest : (c.inset L.shift).rest = c.rest := rfl
  simp only [hrest]
  split
  · refine .step (insets_starName hL hg _ _) fun _ => .bind (linked_parameterType hL hg _ _) fun _ _ h => ?_
    exact .pure (.options h)
  · refine .step (.peek ?_) fun bare => .ite (.symbol <| .pure .keywordMark) ?_
    · exact .symbol <| .token <| alike_nextIn _
    · refine .step (insets_starName hL hg _ _) fun _ => .bind (linked_parameterType hL hg _ _) fun _ _ h => ?_
      exact .pure (.rest h)
  · exact .symbol <| .pure .positionalMark
  · refine .bind (linked_tupleTarget hL hg) fun p p' h => .bind (linked_parameterDefault hL hg _) fun _ _ hd => .pure ?_
    rw [(hL.phrases h).stop]
    exact .named (hL.arg c.place _ .none) hd
  · refine .step alike_name fun id => .bind (linked_parameterType hL hg _ _) fun _ _ ht => ?_
    exact .bind (linked_parameterDefault hL hg _) fun _ _ hd => .pure (.named (hL.arg c.place id ht) hd)

lemma linked_parameters (site : Site) (typed : Bool) (closing : String) :
    Linked L.shift (List.Forall₂ L.Parameters) (parameters g site typed closing) (parameters g' site typed closing) := by
  have hparameter := linked_parameter hL hg site typed
  refine .startsWith fun _ => .ite (.pure .nil) (.bind hparameter fun _ _ h => ?_)
  refine .bind (.series (linked_separated (alike_startsWith _) hparameter) hg.bound) fun _ _ hr => ?_
  exact .pure (.cons h hr.1)

end Parameters

section Operators

lemma alike_valueOperatorHere {w : Nat} : Alike w valueOperatorHere := fun _ => .ok ⟨rfl, rfl⟩

lemma alike_wordPair {w : Nat} (first second : String) : Alike w (wordPair first second) :=
  .keyword <| .token <| alike_keyword _

lemma alike_comparison? {w : Nat} : Alike w comparison? := by
  refine .step (alike_firstHere _) fun shift => .step (alike_firstHere _) fun sign => ?_
  have hword : Alike w (do
      let word ← wordHere
      if word = "in" then do
        keyword "in"
        pure (some "in")
      else if word = "is" then do
        let both ← optional (wordPair "is" "not")
        if both.isSome then pure (some "is not")
        else do
          keyword "is"
          pure (some "is")
      else if word = "not" then do
        let both ← optional (wordPair "not" "in")
        pure (both.map (fun _ => "not in"))
      else pure none) := by
    refine .step alike_wordHere fun _ => .ite (.keyword <| .pure rfl) (.ite ?_ (.ite ?_ (.pure rfl)))
    · refine .step (alike_optional (alike_wordPair _ _)) fun both => .ite (.pure rfl) ?_
      exact .keyword <| .pure rfl
    · exact .step (alike_optional (alike_wordPair _ _)) fun both => .pure rfl
  cases shift with
  | some => exact hword
  | none =>
    cases sign with
    | some s => exact .step (alike_symbol s) fun _ => .pure rfl
    | none => exact hword

omit [Builder τ] in
lemma linked_rightOperand (hg : g.Linked L g') (site : Site) (level : Int) :
    Linked L.shift L.operand (rightOperand g site level) (rightOperand g' site level) :=
  .toOperand <| hg.expr _ _

omit [Builder τ] in
lemma linked_comparisons (hg : g.Linked L g') (site : Site) :
    Linked L.shift (List.Forall₂ fun a b => b.1 = a.1 ∧ L.operand a.2 b.2) (comparisons g site)
      (comparisons g' site) := by
  refine .collect (.look fun _ => .ite (.pure .none) (.step alike_comparison? fun op => ?_)) hg.bound
  cases op with
  | none => exact .pure .none
  | some op => exact .bind (linked_rightOperand hg _ _) fun _ _ h => .pure (.some ⟨rfl, h⟩)

lemma linked_conditional (hL : L.Lawful) (hg : g.Linked L g') (site : Site) {body : Phrase τ} {body' : Phrase Node}
    (h : L.operand body body') : Linked L.shift L.operand (conditional g site body) (conditional g' site body') := by
  refine .bind (linked_rightOperand hg _ _) fun test test' ht => .token <| ?_
  refine .keyword <| .bind (linked_rightOperand hg _ _) fun orelse orelse' ho => .pure ?_
  rw [(hL.phrases ho).stop]
  exact hL.extend _ (hL.phrases h) (.ifExp (hL.value ht) (hL.value h) (hL.value ho))

lemma linked_aliased (hL : L.Lawful) (hg : g.Linked L g') (site : Site) {p : Phrase τ} {p' : Phrase Node}
    (h : L.operand p p') : Linked L.shift L.operand (aliased g site p) (aliased g' site p') := by
  refine .toOperand <| .get fun c => .bind (hg.expr _ _) fun q q' hq => .pure ?_
  have hlaw := hL.aliased (c.textTo q.stop) (hL.phrases h) (hL.phrases hq)
  rw [(hL.phrases hq).stop] at hlaw ⊢
  exact hlaw

lemma Links.Lawful.compare (hL : L.Lawful) {p last : Phrase τ} {p' last' : Phrase Node} {cs : List (String × Phrase τ)}
    {cs' : List (String × Phrase Node)} (h : L.operand p p') (hlast : L.operand last last')
    (hs : List.Forall₂ (fun a b => b.1 = a.1 ∧ L.operand a.2 b.2) cs cs') :
    L.operand (p.extend last.stop (.compare p.node (cs.map Prod.fst) (cs.map fun o => o.2.node)))
      (p'.extend last'.stop (.compare p'.node (cs'.map Prod.fst) (cs'.map fun o => o.2.node))) := by
  have hops : cs'.map Prod.fst = cs.map Prod.fst := by
    induction hs with
    | nil => rfl
    | cons ho _ ih => rw [List.map_cons, List.map_cons, ho.1, ih]
  rw [hops, (hL.phrases hlast).stop]
  refine hL.extend _ (hL.phrases h) (.compare (hL.value h) ?_ (by simp))
  exact List.rel_map (R := fun a b => b.1 = a.1 ∧ L.operand a.2 b.2) (fun _ _ ho => hL.value ho.2) hs

lemma linked_operators (hL : L.Lawful) (hg : g.Linked L g') (site : Site) (level : Int) (fuel : Nat) {p : Phrase τ}
    {p' : Phrase Node} (h : L.operand p p') :
    Linked L.shift L.operand (operators g site level fuel p) (operators g' site level fuel p') := by
  induction fuel generalizing p p' with
  | zero => exact .fail
  | succ fuel ih =>
    refine .look fun _ => .ite (.pure h) (.step alike_valueOperatorHere fun op => ?_)
    cases op with
    | some op =>
      refine .ite (.pure h) (.symbol <| .bind (linked_rightOperand hg _ _) fun q q' hq => ?_)
      rw [(hL.phrases hq).stop]
      exact ih (hL.extend _ (hL.phrases h) (.binOp _ (hL.value h) (hL.value hq)))
    | none =>
      refine .ite_bind (linked_comparisons hg site) (.pure .nil) fun cs cs' hcs => ?_
      have hlast := rel_getLast? hcs
      beta_reduce
      generalize cs.getLast? = x, cs'.getLast? = x' at hlast
      cases hlast with
      | some hlast => exact ih (hL.compare h hlast.2 hcs)
      | none =>
        refine .step alike_wordHere fun _ => .ite ?_ (.ite ?_ (.ite ?_ (.ite ?_ (.pure h))))
        · refine .keyword <| .bind (linked_rightOperand hg _ _) fun _ _ hq => ?_
          exact ih (hL.joined _ h (hL.phrases hq))
        · refine .keyword <| .bind (linked_rightOperand hg _ _) fun _ _ hq => ?_
          exact ih (hL.joined _ h (hL.phrases hq))
        · exact .keyword <| .bind (linked_aliased hL hg site h) fun _ _ => ih
        · exact .keyword <| .bind (linked_conditional hL hg site h) fun _ _ => ih

lemma linked_lambda (hL : L.Lawful) (hg : g.Linked L g') (site : Site) (start : Position) :
    Linked L.shift L.operand (lambda g site start) (lambda g' site (start.inset L.shift)) := by
  refine .token <| .bind (linked_parameters hL hg _ _ _) fun ps ps' hps => ?_
  refine .token <| .symbol <| ?_
  refine .bind (linked_rightOperand hg _ _) fun body body' h => .pure ?_
  rw [(hL.phrases h).stop]
  exact hL.leaf _ _ (.lambda hps (hL.value h))

lemma alike_awaitsValue {w : Nat} (site : Site) : Alike w (awaitsValue site) := by
  refine .look fun _ => .ite (.pure rfl) (.get fun c => .step alike_wordHere fun _ => ?_)
  exact .ite (.pure rfl) (.startsWith fun _ => .ite (.pure rfl) alike_operandHere)

lemma linked_nameOperand (hL : L.Lawful) (hg : g.Linked L g') (site : Site) (level : Int) :
    Linked L.shift L.operand (nameOperand g site level) (nameOperand g' site level) := by
  refine .bind (linked_nameAtom hL) fun p p' h => ?_
  rw [← hL.head (hL.value h)]
  refine .ite_step (alike_optional ?_) (.pure rfl) fun found => .ite ?_ ?_
  · exact .look fun _ => .require <| alike_symbol? _
  · refine .bind (linked_rightOperand hg _ _) fun q q' hq => .pure ?_
    rw [(hL.phrases hq).stop]
    exact hL.extend _ (hL.phrases h) (.namedExpr (hL.value h) (hL.value hq))
  · exact .bind (linked_trailers hL hg _) fun _ _ hts => .pure (hL.apply_all h hts)

lemma linked_awaited (hL : L.Lawful) (hg : g.Linked L g') (site : Site) (level : Int) (start : Position) :
    Linked L.shift L.operand (awaited g site level start) (awaited g' site level (start.inset L.shift)) := by
  refine .step (.peek (.keyword <| alike_awaitsValue site)) fun _ => .ite ?_ ?_
  · refine .keyword <| .bind (linked_rightOperand hg _ _) fun p p' h => .pure ?_
    rw [(hL.phrases h).stop]
    exact hL.leaf _ _ (.await (hL.value h))
  · exact linked_nameOperand hL hg site level

lemma insets_spreadsWhole (follow : Follow) {ts : List (Trailer τ)} {ts' : List (Trailer Node)}
    (h : List.Forall₂ L.Trailers ts ts') :
    Insets L.shift (fun b => b) (spreadsWhole follow ts) (spreadsWhole follow ts') := by
  rw [spreadsWhole, spreadsWhole, Links.endsInPart_eq h, isEmpty_of_forall₂ h]
  exact .ite (.look fun _ => .pure rfl) (.pure rfl)

variable (hL : L.Lawful) (hg : g.Linked L g')

include hL hg

lemma linked_signed (site : Site) (level : Int) (start : Position) (op : String)
    (n : Nat) :
    Linked L.shift L.operand
      (do
        advance n
        let p ← rightOperand g site level
        pure (.leaf start p.stop (.unaryOp op p.node)))
      (do
        advance n
        let p ← rightOperand g' site level
        pure (.leaf (start.inset L.shift) p.stop (.unaryOp op p.node))) := by
  refine .step (alike_advance _) fun _ => .bind (linked_rightOperand hg _ _) fun p p' h => .pure ?_
  rw [(hL.phrases h).stop]
  exact hL.leaf _ _ (.unaryOp op (hL.value h))

lemma linked_operand (site : Site) (level : Int) :
    Linked L.shift L.operand (operand g site level) (operand g' site level) := by
  refine .get fun c => .ite (linked_primary hL hg _) ?_
  have hrest : (c.inset L.shift).rest = c.rest := rfl
  rw [hrest]
  cases c.rest with
  | nil => exact .fail
  | cons x r =>
    refine .ite (linked_signed hL hg _ _ c.place _ _) ?_
    refine .ite (linked_starPrimary hL hg _ fun _ _ => insets_spreadsWhole _) (.ite (.step alike_wordHere fun _ => ?_) ?_)
    · refine .ite (linked_signed hL hg _ _ c.place _ _) ?_
      refine .ite (.step (alike_advance _) fun _ => linked_lambda hL hg _ c.place) ?_
      exact .ite (linked_awaited hL hg _ _ c.place) (linked_nameOperand hL hg _ _)
    · exact linked_primary hL hg _

lemma linked_expression (site : Site) (level : Int) :
    Linked L.shift L.operand (expression g site level) (expression g' site level) := by
  rw [expression, expression, hg.bound]
  exact .bind (linked_operand hL hg site level) fun _ _ h => linked_operators hL hg site level _ h

end Operators

end SourceBlocks.Grammar
