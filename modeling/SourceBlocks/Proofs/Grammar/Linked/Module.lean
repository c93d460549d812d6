import SourceBlocks.Grammar.Module
import SourceBlocks.Proofs.Grammar.Linked.Patterns
import SourceBlocks.Proofs.Grammar.Linked.Statements

namespace SourceBlocks.Grammar

open Lexis Grammar.Parser Outcome
open SourceBlocks.Tree (Node Shape)

variable {τ : Type} [Builder τ] {L : Links τ} {g : Rules τ} {g' : Rules Node}

section Suites

lemma alike_openBlock {w : Nat} (column : Nat) : Alike w (openBlock column) := insets_modify fun _ => rfl

lemma alike_closeBlock {w : Nat} : Alike w closeBlock := insets_modify fun _ => rfl

lemma alike_colon {w : Nat} : Alike w colon :=
  .token <| .startsWith fun _ => .require <| alike_symbol _

lemma linked_suite (hL : L.Lawful) (hg : g.Linked L g') : Linked L.shift L.body (suite g) (suite g') := by
  refine .step alike_colon fun _ => .step (insets_aheadHere _) fun a => ?_
  cases a with
  | deeper column => exact .step (alike_openBlock column) fun _ => hg.block
  | lineEnd => exact .pure .nil
  | token c => exact .step (insets_set c) fun _ => linked_statementLine hL hg
  | shallower => exact .fail

lemma insets_setSkip {w : Nat} (c : Cursor) (n : Nat) :
    Insets w (fun u => u) (MonadStateOf.set (c.skip n) : Parser PUnit) (MonadStateOf.set ((c.inset w).skip n)) := by
  rw [Cursor.skip_inset]
  exact insets_set _

lemma alike_continuation? {w : Nat} (e : Expectation) (word : String) : Alike w (continuation? e word) := by
  refine .step (insets_aheadHere _) fun a => ?_
  cases a with
  | token c => exact .ite (.step (insets_setSkip c _) fun _ => .pure rfl) (.pure rfl)
  | deeper | lineEnd | shallower => exact .pure rfl

section

variable (hL : L.Lawful) (hg : g.Linked L g')

include hL hg

lemma linked_otherwise :
    Linked L.shift L.Otherwise (suiteBehind g "else") (suiteBehind g' "else") :=
  .step (alike_continuation? _ _) fun _ => .ite (.bind (linked_suite hL hg) fun _ _ h => .pure (.clause h)) (.pure .nothing)

lemma linked_final :
    Linked L.shift L.Final (suiteBehind g "finally") (suiteBehind g' "finally") :=
  .step (alike_continuation? _ _) fun _ => .ite (.bind (linked_suite hL hg) fun _ _ h => .pure (.clause h)) (.pure .nothing)

lemma linked_alternatives (fuel : Nat) :
    Linked L.shift L.Orelse (alternatives g fuel) (alternatives g' fuel) := by
  induction fuel with
  | zero => exact .fail
  | succ fuel ih =>
    refine .step (insets_aheadHere _) fun a => ?_
    cases a with
    | token c =>
      refine .ite (.step (insets_setSkip c _) fun _ => .toOperand <| ?_) ?_
      · refine .bind (hg.expr _ _) fun _ _ ht => .bind (linked_suite hL hg) fun _ _ hb => .bind ih fun _ _ ho => ?_
        exact .pure (.further c.place (hL.value ht) hb ho)
      · exact (linked_otherwise hL hg).mono fun _ _ => .last
    | deeper | lineEnd | shallower => exact .pure (.last .nothing)

lemma linked_branch (start : Position) :
    Linked L.shift L.statement (branch g start) (branch g' (start.inset L.shift)) := by
  rw [branch, branch, hg.bound]
  refine .toOperand <| .bind (hg.expr _ _) fun _ _ ht => .bind (linked_suite hL hg) fun _ _ hb => ?_
  refine .bind (linked_alternatives hL hg _) fun _ _ ho => .pure ?_
  exact hL.statement start (.branch (hL.value ht) hb ho)

lemma linked_whileLoop (start : Position) :
    Linked L.shift L.statement (whileLoop g start) (whileLoop g' (start.inset L.shift)) := by
  refine .toOperand <| .bind (hg.expr _ _) fun _ _ ht => .bind (linked_suite hL hg) fun _ _ hb => ?_
  refine .bind (linked_otherwise hL hg) fun _ _ ho => .pure ?_
  exact hL.statement start (.whileLoop (hL.value ht) hb ho)

lemma linked_forLoop (start : Position) (isAsync : Bool) :
    Linked L.shift L.statement (forLoop g start isAsync) (forLoop g' (start.inset L.shift) isAsync) := by
  refine .toOperand <| .bind (linked_targetList hL hg _) fun _ _ ht => ?_
  refine .token <| .keyword <| .toOperand <| ?_
  refine .bind (linked_expressions hL hg _) fun _ _ hi => .bind (linked_suite hL hg) fun _ _ hb => ?_
  refine .bind (linked_otherwise hL hg) fun _ _ ho => .pure ?_
  exact hL.statement start (.forLoop isAsync ht.value hi.value hb ho)

end

omit [Builder τ] in
lemma linked_bracketedItems (hg : g.Linked L g') :
    Linked L.shift (List.Forall₂ L.operand) (bracketedItems g) (bracketedItems g') := by
  refine .symbol <| .token <| .bind (hg.expr _ _) fun first first' h => ?_
  refine .bind (linked_commaList hg _ first first') ?_
  rintro ⟨_, _⟩ ⟨_, _⟩ ⟨more, more', rfl, rfl, hs, -⟩
  have hall := List.Forall₂.cons h hs
  dsimp only
  rw [← hall.length_eq]
  refine .require <| .token <| .symbol <| ?_
  exact .step alike_colon.peek fun _ => .pure hall

omit [Builder τ] in
lemma linked_openItems (hg : g.Linked L g') :
    Linked L.shift (List.Forall₂ L.operand) (openItems g) (openItems g') := by
  refine .bind (hg.expr _ _) fun first first' h => .bind (linked_commaList hg _ first first') ?_
  rintro ⟨_, _⟩ ⟨_, _⟩ ⟨more, more', rfl, rfl, hs, -⟩
  exact .pure (.cons h hs)

lemma linked_withBlock (hL : L.Lawful) (hg : g.Linked L g') (start : Position) (isAsync : Bool) :
    Linked L.shift L.statement (withBlock g start isAsync) (withBlock g' (start.inset L.shift) isAsync) := by
  have hopen := linked_openItems hg
  refine .toOperand <| .startsWith fun _ => ?_
  refine .ite_bind (.or (linked_bracketedItems hg) hopen) hopen fun items items' hi => ?_
  refine .bind (linked_suite hL hg) fun _ _ hb => .pure (hL.statement start (.withBlock isAsync ?_ hb))
  exact List.rel_map (fun _ _ h => hL.item h) hi

end Suites

section Cases

omit [Builder τ] in
lemma linked_patternList (hg : g.Linked L g') : Linked L.shift L.values (patternList g) (patternList g') := by
  refine .toOperand <| .bind (hg.casePattern _) fun first first' h => ?_
  refine .bind (.series (R := L.value) ?_ hg.bound) fun _ _ hr => .pure (.cons h.value hr.1)
  refine .token <| .symbol? fun _ => .ite (.pure .none) ?_
  refine .token <| .startsWith fun _ => .step alike_wordHere fun _ => ?_
  exact .ite (.pure (.some .none)) (.bind (hg.casePattern _) fun _ _ h => .pure (.some (.some h.value)))

variable (hL : L.Lawful) (hg : g.Linked L g')

include hL hg

lemma linked_caseGuard :
    Linked L.shift L.Guard (caseGuard g) (caseGuard g') := by
  refine .token <| .step insets_here fun start => .step (alike_keyword? _) fun _ => ?_
  refine .ite (.toOperand <| .bind (hg.expr _ _) fun _ _ h => ?_) (.pure .nothing)
  exact .pure (.test start (hL.value h))

lemma linked_caseClause :
    Linked L.shift (Option.Rel L.statement) (caseClause g) (caseClause g') := by
  refine .step (insets_aheadHere _) fun a => ?_
  cases a with
  | shallower => exact .step alike_closeBlock fun _ => .pure .none
  | token c =>
    refine .step (insets_set c) fun _ => .keyword <| .bind (linked_patternList hg) fun _ _ hp => ?_
    refine .bind (linked_caseGuard hL hg) fun _ _ hg' => .bind (linked_suite hL hg) fun _ _ hb => .pure (.some ?_)
    exact hL.statement c.place (.case hp hg' hb)
  | deeper | lineEnd => exact .fail

lemma linked_caseClauses :
    Linked L.shift L.body (caseClauses g) (caseClauses g') := by
  refine .step (insets_aheadHere _) fun a => ?_
  cases a with
  | deeper column => exact .step (alike_openBlock column) fun _ => .collect (linked_caseClause hL hg) hg.bound
  | lineEnd => exact .pure .nil
  | token | shallower => exact .fail

lemma linked_choice (start : Position) :
    Linked L.shift L.statement (choice g start) (choice g' (start.inset L.shift)) := by
  refine .token <| .bind (hg.expr _ _) fun first first' h => ?_
  refine .bind (linked_commaList hg _ first first') ?_
  rintro ⟨_, _⟩ ⟨_, _⟩ ⟨more, more', rfl, rfl, hs, -⟩
  refine .step alike_colon fun _ => .bind (linked_caseClauses hL hg) fun _ _ hc => .pure ?_
  exact hL.statement start (.choice (hL.values_of_operands (.cons h hs)) hc)

end Cases

section Definitions

variable (hL : L.Lawful) (hg : g.Linked L g')

include hL hg

lemma silent_optionalTypeParameters :
    Silent L.shift (optionalTypeParameters g) (optionalTypeParameters g') := by
  refine .token <| .startsWith fun _ => .ite ?_ (.pure rfl)
  exact .bind (linked_typeParameters hL hg) fun _ _ _ => alike_toToken _ _

lemma linked_returnType :
    Linked L.shift (Option.Rel L.value) (returnType g) (returnType g') := by
  refine .token <| .symbol? fun _ => .ite ?_ (.pure .none)
  exact .toOperand <| .bind (hg.hint _ _) fun _ _ h => .pure (.some (hL.value h))

lemma linked_functionDef (start : Position) {ts : List τ} {ns : List Node}
    (h : L.values ts ns) (isAsync : Bool) :
    Linked L.shift L.statement (functionDef g start ts isAsync) (functionDef g' (start.inset L.shift) ns isAsync) := by
  refine .token <| .step alike_name fun id => ?_
  refine .step (silent_optionalTypeParameters hL hg) fun _ => .symbol <| ?_
  refine .token <| .bind (linked_parameters hL hg _ _ _) fun _ _ hps => ?_
  refine .token <| .symbol <| ?_
  refine .bind (linked_returnType hL hg) fun _ _ hr => .bind (linked_suite hL hg) fun _ _ hb => .pure ?_
  exact hL.statement start (.functionDef id isAsync h hps hr hb)

lemma linked_classDef (start : Position) {ts : List τ} {ns : List Node}
    (h : L.values ts ns) :
    Linked L.shift L.statement (classDef g start ts) (classDef g' (start.inset L.shift) ns) := by
  refine .token <| .step alike_name fun id => ?_
  refine .step (silent_optionalTypeParameters hL hg) fun _ => .startsWith fun _ => ?_
  refine .ite_bind ((linked_arguments hL hg _).mono fun _ _ h => h.2 rfl) (.pure .nil) fun _ _ hbases => ?_
  exact .bind (linked_suite hL hg) fun _ _ hb => .pure (hL.statement start (.classDef id h hbases hb))

lemma linked_definition (start : Position) {ts : List τ} {ns : List Node}
    (h : L.values ts ns) :
    Linked L.shift L.statement (definition g start ts) (definition g' (start.inset L.shift) ns) := by
  refine .step (alike_keyword? _) fun _ => .ite (linked_classDef hL hg _ h) (.step (alike_keyword? _) fun _ => ?_)
  refine .ite (linked_functionDef hL hg _ h _) (.keyword <| .token <| ?_)
  exact .keyword <| linked_functionDef hL hg _ h _

lemma linked_decorator :
    Linked L.shift (Option.Rel L.value) (decorator g) (decorator g') := by
  refine .symbol? fun _ => .ite (.toOperand <| .bind (hg.expr _ _) fun _ _ h => ?_)
    (.pure .none)
  exact .look fun _ => .require <| .token <|
    .pure (.some (hL.value h))

lemma linked_decorated (start : Position) :
    Linked L.shift L.statement (decorated g start) (decorated g' (start.inset L.shift)) :=
  .bind (.collect (linked_decorator hL hg) hg.bound) fun _ _ h => linked_definition hL hg start h

end Definitions

section Handlers

variable (hL : L.Lawful) (hg : g.Linked L g')

include hL hg

lemma linked_caught (ofGroup : Bool) :
    Linked L.shift L.Catches (caught g ofGroup) (caught g' ofGroup) := by
  refine .token <| .startsWith fun _ => .ite (.pure .all) ?_
  refine .bind (hg.expr _ _) fun first first' h => .token <| ?_
  refine .ite_step (m := fun b => b) (.pure rfl) (alike_symbol? _) fun _ => .ite ?_ (.pure (.phrase h))
  refine .toOperand <| .get fun c => .bind (hg.expr _ _) fun second second' hs => .pure ?_
  rw [(hL.phrases hs).stop]
  exact .pair _ h

lemma linked_handler (e : Expectation) (ofGroup : Bool) :
    Linked L.shift (Option.Rel L.handler) (handler g e ofGroup) (handler g' e ofGroup) := by
  refine .step (insets_aheadHere _) fun a => ?_
  cases a with
  | token c =>
    have hhere : handlerHere (c.inset L.shift) = handlerHere c := rfl
    simp only [Ahead.inset, hhere]
    cases handlerHere c with
    | none => exact .pure .none
    | some kind =>
      refine .step (insets_set c) fun _ => .require <| .step (alike_advance _) fun _ => ?_
      refine .bind (linked_caught hL hg _) fun _ _ hw => .bind (linked_suite hL hg) fun _ _ hb => .pure (.some ?_)
      exact hL.handler c.place hw hb
  | deeper | lineEnd | shallower => exact .pure .none

lemma linked_tryBlock (start : Position) :
    Linked L.shift L.statement (tryBlock g start) (tryBlock g' (start.inset L.shift)) := by
  refine .bind (linked_suite hL hg) fun _ _ hb => .step (insets_aheadHere _) fun a => ?_
  cases a with
  | token c =>
    have hhere : handlerHere (c.inset L.shift) = handlerHere c := rfl
    simp only [Ahead.inset, hhere]
    cases handlerHere c with
    | none =>
      refine .step (insets_set c) fun _ => .keyword <| .bind (linked_suite hL hg) fun _ _ hf => .pure ?_
      exact hL.statement start (.tryBlock hb .nil .nothing (.clause hf))
    | some ofGroup =>
      refine .bind (linked_handler hL hg _ _) fun first first' h => ?_
      refine .bind (.collect (linked_handler hL hg _ _) hg.bound) fun more more' hs => ?_
      refine .bind (linked_otherwise hL hg) fun _ _ ho => .bind (linked_final hL hg) fun _ _ hf => .pure ?_
      refine hL.statement start (.tryBlock hb (List.rel_append ?_ hs) ho hf)
      cases h with
      | none => exact .nil
      | some h => exact .cons h .nil
  | deeper | lineEnd | shallower => exact .fail

end Handlers

section Blocks

lemma alike_asyncWord {w : Nat} : Alike w asyncWord :=
  .peek (.keyword <| .look fun _ => .ite alike_wordHere (.pure rfl))

section

variable (hL : L.Lawful) (hg : g.Linked L g')

include hL hg

lemma linked_asyncStatement (start : Position) :
    Linked L.shift L.body (asyncStatement g start) (asyncStatement g' (start.inset L.shift)) := by
  refine .step alike_asyncWord fun word => ?_
  have hbehind : ∀ {p : Parser τ} {p' : Parser Node}, Linked L.shift L.statement p p' → Linked L.shift L.body
      (keyword "async" >>= fun _ => toToken .inner false >>= fun _ => keyword word >>= fun _ => p >>= fun n => pure [n])
      (keyword "async" >>= fun _ => toToken .inner false >>= fun _ => keyword word >>= fun _ =>
        p' >>= fun n => pure [n]) := fun hp =>
    .keyword <| .token <| .keyword <|
      .bind hp fun _ _ h => .pure (.cons h .nil)
  split
  · exact hbehind (linked_functionDef hL hg _ .nil _)
  · exact hbehind (linked_forLoop hL hg _ _)
  · exact hbehind (linked_withBlock hL hg _ _)
  · exact linked_statementLine hL hg

lemma linked_statement :
    Linked L.shift L.body (statement g) (statement g') := by
  have hline := linked_statementLine hL hg
  refine .get fun c => .ite hline (.startsWith fun _ => .ite ?_ ?_)
  · exact .bind (linked_decorated hL hg c.place) fun _ _ h => .pure (.cons h .nil)
  refine .step alike_wordHere fun word => ?_
  have hbehind : ∀ {p : Parser τ} {p' : Parser Node}, Linked L.shift L.statement p p' → Linked L.shift L.body
      (advance word.length >>= fun _ => p >>= fun n => pure [n])
      (advance word.length >>= fun _ => p' >>= fun n => pure [n]) := fun hp =>
    .step (alike_advance _) fun _ => .bind hp fun _ _ h => .pure (.cons h .nil)
  split
  · exact hbehind (linked_branch hL hg _)
  · exact hbehind (linked_forLoop hL hg _ _)
  · exact hbehind (linked_whileLoop hL hg _)
  · exact hbehind (linked_tryBlock hL hg _)
  · exact hbehind (linked_withBlock hL hg _ _)
  · exact hbehind (linked_functionDef hL hg _ .nil _)
  · exact hbehind (linked_classDef hL hg _ .nil)
  · exact linked_asyncStatement hL hg _
  · exact .or (hbehind (linked_choice hL hg _)) hline
  · exact hline

lemma linked_blockStep :
    Linked L.shift (Option.Rel L.body) (blockStep g) (blockStep g') := by
  refine .step (insets_aheadHere _) fun a => ?_
  cases a with
  | shallower => exact .step alike_closeBlock fun _ => .pure .none
  | token c =>
    refine .step (insets_set c) fun _ => .ite (.pure .none) (.bind (linked_statement hL hg) fun _ _ h => ?_)
    exact .pure (.some h)
  | deeper | lineEnd => exact .fail

lemma linked_block : Linked L.shift L.body (block g) (block g') :=
  .bind (.collect (linked_blockStep hL hg) hg.bound) fun _ _ h => .pure (List.rel_flatten h)

end

lemma linked_rules (hL : L.Lawful) (bound depth : Nat) : (rules bound depth).Linked L (rules bound depth) := by
  induction depth with
  | zero => exact ⟨rfl, fun _ _ => .fail, fun _ => .fail, fun _ _ => .fail, fun _ => .fail, .fail⟩
  | succ depth ih =>
    exact ⟨rfl, linked_expression hL ih, linked_target hL ih, linked_hint hL ih, linked_casePattern hL ih,
      linked_block hL ih⟩

lemma read_linked (hL : L.Lawful) (margin : Nat) (source : List Char) :
    Agree (fun e e' => e' = e.inset L.shift)
      (fun t n => ∃ ts ns, t = unmarked (.module ts) ∧ n = unmarked (.module ns) ∧ L.body ts ns)
      (read margin source : Except Position τ) (read (margin + L.shift) source : Except Position Node) := by
  have h := linked_block hL (linked_rules hL (source.length + 16) (depth source)) (.ofSource margin source)
  have hstart : (Cursor.ofSource margin source).inset L.shift = .ofSource (margin + L.shift) source := rfl
  rw [hstart] at h
  simp only [read]
  generalize block (rules _ _ : Rules τ) _ = x, block (rules _ _ : Rules Node) _ = y at h
  cases h with
  | ok h => exact .ok ⟨_, _, rfl, rfl, h.1⟩
  | error h => exact .error h

end Blocks

end SourceBlocks.Grammar
