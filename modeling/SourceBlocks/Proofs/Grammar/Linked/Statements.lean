import SourceBlocks.Proofs.Grammar.Linked.Expressions

namespace SourceBlocks.Grammar

open Lexis Grammar.Parser
open SourceBlocks.Tree (Node Shape)

variable {τ : Type} [Builder τ] {L : Links τ} {g : Rules τ} {g' : Rules Node}

section Assignments

lemma targetFollow_eq (hL : L.Lawful) {first : Phrase τ} {first' : Phrase Node} (h : L.operand first first')
    (opening : Option Char) : targetFollow first' opening = targetFollow first opening := by
  rw [targetFollow, targetFollow, hL.head (hL.value h)]

lemma linked_assignmentTargets (hL : L.Lawful) (hg : g.Linked L g') (isNested : Bool) :
    Linked L.shift L.Phrases (assignmentTargets g isNested) (assignmentTargets g' isNested) := by
  refine .get fun c => .require <| .bind (hg.target _) fun first first' h => ?_
  rw [targetFollow_eq hL h]
  refine .token <| .symbol? fun _ => .ite (.pure (hL.phrases h)) ?_
  have hitem : ∀ follow, Linked L.shift (Option.Rel L.operand)
      (do
        toToken follow true
        if ← nextIn ['=', ':', '+', '-', '/', '@', '%', '&', '^', '|', '<', '>'] then pure none
        else do
          let p ← g.target follow
          pure (some p))
      (do
        toToken follow true
        if ← nextIn ['=', ':', '+', '-', '/', '@', '%', '&', '^', '|', '<', '>'] then pure none
        else do
          let p ← g'.target follow
          pure (some p)) := fun follow =>
    .token <| .step (alike_nextIn _) fun _ => .ite (.pure .none)
      (.bind (hg.target _) fun _ _ h => .pure (.some h))
  refine .bind (hitem _) fun second second' hsecond => ?_
  cases hsecond with
  | none => exact .pure (hL.phrases_tuple h (.cons h .nil))
  | some hsecond =>
    refine .bind (.series (R := L.operand) ?_ hg.bound) fun r r' hr => ?_
    · refine .token <| .symbol? fun _ => .ite (.pure .none) ?_
      exact .bind (hitem _) fun _ _ h => .pure (.some h)
    · exact .pure (hL.phrases_tuple h (.cons h (.cons hsecond hr.1)))

lemma linked_assignedValue (hL : L.Lawful) (hg : g.Linked L g') :
    Linked L.shift L.Assignments (assignedValue g) (assignedValue g') :=
  .bind (linked_orYield hL hg _ (fun _ _ => hL.phrases) (linked_expressions hL hg _)) fun _ _ h => .pure (.value h)

lemma alike_equalsHere {w : Nat} : Alike w equalsHere :=
  .startsWith fun _ => .startsWith fun _ => .pure rfl

lemma linked_assignment (hL : L.Lawful) (hg : g.Linked L g') (isNested : Bool) (fuel : Nat) :
    Linked L.shift (fun a a' => L.Assignments a a' ∧ ∀ p, a ≠ .value p) (assignment g isNested fuel)
      (assignment g' isNested fuel) := by
  induction fuel generalizing isNested with
  | zero => exact .fail
  | succ fuel ih =>
    have hright : Linked L.shift L.Assignments (toOperand >>= fun _ => (assignment g true fuel).or (assignedValue g))
        (toOperand >>= fun _ => (assignment g' true fuel).or (assignedValue g')) :=
      .toOperand <| .or ((ih true).mono fun _ _ => And.left) (linked_assignedValue hL hg)
    refine .bind (linked_assignmentTargets hL hg _) fun target target' ht => .step alike_equalsHere fun _ => .ite ?_ ?_
    · exact .symbol <| .bind hright fun _ _ h => .pure ⟨.plain ht h, by simp⟩
    refine .step (alike_firstHere _) fun op => ?_
    cases op with
    | some op => exact .symbol <| .bind hright fun _ _ h => .pure ⟨.augmented op ht h, by simp⟩
    | none =>
      refine .startsWith fun _ => .require <| .symbol <| ?_
      refine .toOperand <| .bind (hg.hint _ _) fun _ _ htype => ?_
      have htype := hL.phrases htype
      refine .step (alike_both (alike_look _ _) alike_equalsHere) fun _ => .ite ?_ (.pure ⟨.hinted ht htype, by simp⟩)
      exact .symbol <| .bind hright fun _ _ h => .pure ⟨.typed ht htype h, by simp⟩

lemma alike_statementEnd {w : Nat} : Alike w statementEnd :=
  .look fun _ => .ite (.startsWith fun _ => insets_require _ _) (.pure rfl)

omit [Builder τ] in
lemma linked_whole {p : Parser τ} {p' : Parser Node} (hp : Linked L.shift L.statement p p') :
    Linked L.shift L.statement (whole p) (whole p') :=
  .bind hp fun _ _ h => .step alike_statementEnd fun _ => .pure h

lemma linked_valueStatement (hL : L.Lawful) (hg : g.Linked L g') :
    Linked L.shift L.statement (valueStatement g) (valueStatement g') := by
  refine .step insets_here fun start => .step (alike_keyword? _) fun _ => .ite ?_ ?_
  · exact .bind (linked_yieldValue hL hg _ start) fun _ _ h => .pure (hL.expr h)
  refine .bind (hg.expr _ _) fun first first' h => .bind (linked_commaList hg _ first first') ?_
  rintro ⟨_, _⟩ ⟨_, _⟩ ⟨more, more', rfl, rfl, hs, -⟩
  cases hs with
  | nil => exact .pure (hL.expr h)
  | cons hq hs => exact .pure (hL.exprs h hq hs)

lemma linked_expressionStatement (hL : L.Lawful) (hg : g.Linked L g') :
    Linked L.shift L.statement (expressionStatement g) (expressionStatement g') := by
  rw [expressionStatement, expressionStatement, hg.bound]
  refine .or (linked_whole (.bind (linked_assignment hL hg _ _) fun a a' h => .pure (hL.assignment h.1 h.2))) ?_
  exact linked_whole (linked_valueStatement hL hg)

end Assignments

section Imports

omit [Builder τ] in
lemma insets_dottedName (hg : g.Linked L g') (follow : Follow) :
    Insets L.shift (fun s => s) (dottedName g follow) (dottedName g' follow) := by
  refine .get fun c => .step alike_name fun _ => .step alike_index fun stop => ?_
  refine .step (insets_collect (m := id) ?_ hg.bound) fun more => .pure (by rw [List.map_id]; rfl)
  refine .look fun _ => .ite (.pure rfl) (.symbol? fun _ => .ite ?_ (.pure rfl))
  exact .token <| .step alike_name fun _ => .step alike_index fun _ => .pure rfl

section

variable (hL : L.Lawful) (hg : g.Linked L g')

include hL hg

lemma linked_importedName (follow : Follow) :
    Linked L.shift L.imported (importedName g follow) (importedName g' follow) := by
  refine .step insets_here fun start => .step (insets_dottedName hg _) fun written => ?_
  refine .step (alike_both (alike_look _ _) (alike_keyword? _)) fun _ => .ite ?_ (.pure (hL.imported start written none))
  exact .token <| .step alike_name fun id => .pure (hL.imported start written (some id))

lemma linked_importedNames (follow : Follow) :
    Linked L.shift (List.Forall₂ L.imported) (importedNames g follow) (importedNames g' follow) := by
  have hname := linked_importedName hL hg follow
  refine .bind hname fun _ _ h => .bind (.series (R := L.imported) ?_ hg.bound) fun _ _ hr => .pure (.cons h hr.1)
  refine .look fun _ => .ite (.pure .none) (.symbol? fun _ => .ite (.pure .none) ?_)
  refine .look fun _ => .ite (.pure (.some .none)) (.step alike_wordHere fun _ => ?_)
  exact .ite (.pure (.some .none)) (.bind hname fun _ _ h => .pure (.some (.some h)))

lemma linked_importList :
    Linked L.shift (List.Forall₂ L.imported) (importList g) (importList g') := by
  refine .symbol? fun _ => .ite ?_ (linked_importedNames hL hg _)
  refine .token <| .bind (linked_importedNames hL hg _) fun _ _ h => ?_
  exact .token <| .symbol <| .pure h

end

lemma alike_leadingDots {w : Nat} (fuel : Nat) : Alike w (leadingDots fuel) := by
  induction fuel with
  | zero => exact .fail
  | succ fuel ih =>
    refine .symbol <| .step alike_index fun _ => .token <| ?_
    exact .startsWith fun _ => .ite ih (.pure rfl)

omit [Builder τ] in
lemma insets_importedModule (hg : g.Linked L g') :
    Insets L.shift (fun r => r) (importedModule g) (importedModule g') := by
  rw [importedModule, importedModule, hg.bound]
  refine .startsWith fun _ => .ite ?_ (.step (insets_dottedName hg _) fun _ => .pure rfl)
  refine .get fun c => .step (alike_leadingDots _) fun _ => .step alike_wordHere fun _ => ?_
  exact .ite (.pure rfl) (.step (insets_dottedName hg _) fun _ => .pure rfl)

lemma linked_fromImport (hL : L.Lawful) (hg : g.Linked L g') (start : Position) :
    Linked L.shift L.statement (fromImport g start) (fromImport g' (start.inset L.shift)) := by
  refine .token <| .step alike_wordHere fun _ => ?_
  refine .ite (.keyword <| .step (m := fun r => r) (.pure rfl) ?names)
    (.step (insets_importedModule hg) ?names)
  rintro ⟨source, level⟩
  refine .token <| .keyword <| .token <| ?_
  refine .startsWith fun _ => .ite ?_ (.bind (linked_importList hL hg) fun _ _ h => .pure ?_)
  · refine .require <| .step insets_here fun spot => .symbol <| .pure ?_
    exact hL.statement start (.importFrom _ _ (.cons (hL.imported spot _ none) .nil))
  · exact hL.statement start (.importFrom _ _ h)

lemma linked_plainImport (hL : L.Lawful) (hg : g.Linked L g') (start : Position) :
    Linked L.shift L.statement (plainImport g start) (plainImport g' (start.inset L.shift)) :=
  .token <| .bind (linked_importedNames hL hg _) fun _ _ h =>
    .pure (hL.statement start (.importNames h))

end Imports

section Words

lemma linked_optionalExpressions (hL : L.Lawful) (hg : g.Linked L g') :
    Linked L.shift (Option.Rel L.Phrases) (optionalExpressions g) (optionalExpressions g') := by
  refine .step (alike_both (alike_look _ _) alike_operandHere) fun _ => .ite ?_ (.pure .none)
  exact (linked_expressions hL hg _).map fun _ _ h => .some h

omit [Builder τ] in
lemma insets_nameList (hg : g.Linked L g') : Insets L.shift (fun ns => ns) (nameList g) (nameList g') := by
  refine .token <| .step alike_name fun first => ?_
  refine .step (insets_collect (m := id) ?_ hg.bound) fun more => .pure (by rw [List.map_id])
  refine .step (alike_both (alike_look _ _) (alike_symbol? _)) fun _ => .ite ?_ (.pure rfl)
  refine .token <| alike_name.map ?_
  rintro a _ rfl
  rfl

omit [Builder τ] in
lemma linked_strictList (hg : g.Linked L g') :
    Linked L.shift (List.Forall₂ L.operand) (strictList g) (strictList g') := by
  refine .toOperand <| .bind (hg.expr _ _) fun first first' h => ?_
  refine .bind (.collect (R := L.operand) ?_ hg.bound) fun more more' hmore => .pure (.cons h hmore)
  refine .step (alike_both (alike_look _ _) (alike_symbol? _)) fun _ => .ite ?_ (.pure .none)
  exact .toOperand <| (hg.expr _ _).map fun _ _ h => .some h

lemma linked_deletion (hL : L.Lawful) (hg : g.Linked L g') (start : Position) :
    Linked L.shift L.statement (deletion g start) (deletion g' (start.inset L.shift)) := by
  refine .toOperand <| .bind (hg.expr _ _) fun first first' h => ?_
  refine .bind (linked_commaList hg _ first first') ?_
  rintro ⟨_, _⟩ ⟨_, _⟩ ⟨more, more', rfl, rfl, hs, -⟩
  exact .pure (hL.statement start (.delete (.cons h hs)))

omit [Builder τ] in
lemma rel_node {p : Option (Phrase τ)} {p' : Option (Phrase Node)} (h : Option.Rel L.Phrases p p') :
    Option.Rel L.value (p.map Phrase.node) (p'.map Phrase.node) := by
  cases h with
  | none => exact .none
  | some h => exact .some h.value

section

variable (hL : L.Lawful) (hg : g.Linked L g')

include hL hg

lemma linked_raising (start : Position) :
    Linked L.shift L.statement (raising g start) (raising g' (start.inset L.shift)) := by
  refine .step (alike_both (alike_look _ _) (.step alike_wordHere fun _ => .pure rfl)) fun _ => ?_
  refine .ite_bind (linked_optionalExpressions hL hg) (.pure .none) fun exc exc' h => ?_
  refine .step (alike_both (alike_look _ _) (alike_keyword? _)) fun _ => .ite ?_ ?_
  · refine .toOperand <| .bind (hg.expr _ _) fun _ _ hc => .pure ?_
    exact hL.statement start (.raise (rel_node h) (.some (hL.value hc)))
  · exact .pure (hL.statement start (.raise (rel_node h) .none))

lemma linked_asserting (start : Position) :
    Linked L.shift L.statement (asserting g start) (asserting g' (start.inset L.shift)) := by
  refine .bind (linked_strictList hg) fun ps ps' h => ?_
  cases h with
  | nil => exact .fail
  | cons h hs => exact .pure (hL.assertion start h hs)

lemma linked_printValues :
    Linked L.shift (fun r r' => L.values r.1 r'.1 ∧ r'.2 = r.2) (printValues g) (printValues g') := by
  refine .bind (.series (R := L.operand) ?_ hg.bound) fun r r' hr => .pure ⟨hL.values_of_operands hr.1, by rw [hr.2]⟩
  refine .look fun _ => .ite (.pure .none) (.symbol? fun _ => .ite (.pure .none) ?_)
  refine .step (alike_both (alike_look _ _) alike_operandHere) fun _ => .ite ?_ (.pure (.some .none))
  exact .bind (hg.expr _ _) fun _ _ h => .pure (.some (.some h))

lemma linked_printing :
    Linked L.shift L.statement (printing g) (printing g') := by
  refine .step insets_here fun start => .keyword <| .token <| ?_
  refine .symbol? fun _ => .ite ?_ (.get fun c => .require <| ?_)
  · refine .toOperand <| .bind (hg.expr _ _) fun _ _ h => .bind (linked_printValues hL hg) ?_
    rintro ⟨values, _⟩ ⟨values', _⟩ ⟨hs, rfl⟩
    exact .pure (hL.statement start (.print _ (.some (hL.value h)) hs))
  · refine .bind (hg.expr _ _) fun _ _ h => .bind (linked_printValues hL hg) ?_
    rintro ⟨values, _⟩ ⟨values', _⟩ ⟨hs, rfl⟩
    exact .pure (hL.statement start (.print _ .none (.cons (hL.value h) hs)))

end

lemma alike_printsToPlace {w : Nat} : Alike w printsToPlace := by
  refine .peek (.keyword <| .look fun _ => .ite ?_ (.pure rfl))
  exact .startsWith fun _ => .startsWith fun _ => .pure rfl

variable (hL : L.Lawful) (hg : g.Linked L g')

include hL hg

lemma linked_executing :
    Linked L.shift L.statement (executing g) (executing g') := by
  refine .step insets_here fun start => .keyword <| .token <| ?_
  refine .get fun c => .ite (.bind (linked_singleString hL hg) ?scopes) (.step alike_wordHere fun _ =>
    .require <| .step alike_name fun id => .step alike_index fun stop =>
      .bind (R := L.operand) (.pure (hL.leaf c.place stop (.name id))) ?scopes)
  intro code code' h
  refine .step (alike_both (alike_look _ _) (alike_keyword? _)) fun _ => ?_
  refine .ite_bind (linked_strictList hg) (.pure .nil) fun scopes scopes' hs => .pure ?_
  exact hL.exec start (hL.value h) (hL.values_of_operands hs)

lemma linked_typeAlias :
    Linked L.shift L.statement (typeAlias g) (typeAlias g') := by
  refine .step insets_here fun start => .keyword <| .token <| ?_
  refine .bind (hg.hint _ _) fun _ _ hl => .token <| .step alike_equalsHere fun _ => ?_
  refine .require <| .symbol <| .toOperand <| ?_
  exact .bind (hg.hint _ _) fun _ _ hr => .pure (hL.statement start (.typeAlias (hL.value hl) (hL.value hr)))

lemma linked_simpleStatement :
    Linked L.shift L.statement (simpleStatement g) (simpleStatement g') := by
  have hvalue := linked_expressionStatement hL hg
  refine .get fun c => .ite hvalue (.step alike_wordHere fun word => ?_)
  have hbehind : ∀ {p : Parser τ} {p' : Parser Node}, Linked L.shift L.statement p p' →
      Linked L.shift L.statement (advance word.length >>= fun _ => p) (advance word.length >>= fun _ => p') :=
    fun hp => .step (alike_advance _) fun _ => hp
  have hform : ∀ {s : Shape τ} {s' : Shape Node}, L.StatementForm s s' →
      Linked L.shift L.statement (Pure.pure (marked c.place s)) (Pure.pure (marked (c.inset L.shift).place s')) :=
    fun h => .pure (hL.statement c.place h)
  split
  · exact hbehind (hform .pass)
  · exact hbehind (hform .breakLoop)
  · exact hbehind (hform .continueLoop)
  · exact hbehind (.bind (linked_optionalExpressions hL hg) fun _ _ h => hform (.returnValue (rel_node h)))
  · exact hbehind (linked_deletion hL hg _)
  · exact hbehind (linked_raising hL hg _)
  · exact hbehind (linked_asserting hL hg _)
  · exact hbehind (.step (insets_nameList hg) fun _ => hform (.globalNames _))
  · exact hbehind (.step (insets_nameList hg) fun _ => hform (.nonlocalNames _))
  · exact hbehind (linked_plainImport hL hg _)
  · exact hbehind (linked_fromImport hL hg _)
  · have hprint := linked_printing hL hg
    exact .step alike_printsToPlace fun _ => .ite hprint (.or hvalue (linked_whole hprint))
  · exact .or (linked_whole (linked_executing hL hg)) hvalue
  · exact .or (linked_whole (linked_typeAlias hL hg)) hvalue
  · exact hvalue

lemma linked_statementLine :
    Linked L.shift L.body (statementLine g) (statementLine g') := by
  have hstatement := linked_simpleStatement hL hg
  refine .bind hstatement fun _ _ h => .bind (.series (R := L.statement) ?_ hg.bound) fun _ _ hr => .pure (.cons h hr.1)
  refine .look fun _ => .ite (.pure .none) (.symbol <| ?_)
  refine .look fun _ => .ite ?_ (.pure (.some .none))
  exact .bind hstatement fun _ _ h => .pure (.some (.some h))

end Words

end SourceBlocks.Grammar
