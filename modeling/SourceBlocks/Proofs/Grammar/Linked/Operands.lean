import SourceBlocks.Proofs.Grammar.Linked.Strings

namespace SourceBlocks.Grammar

open Lexis Grammar.Parser
open SourceBlocks.Tree (Node Shape)

lemma linked_separated {α β : Type} {w : Nat} {R : α → β → Prop} {item : Parser α} {item' : Parser β}
    {stops : Parser Bool} {follow follow' : Follow} {string string' : Bool} (hstops : Alike w stops)
    (hitem : Linked w R item item') :
    Linked w (Option.Rel (Option.Rel R))
      (do
        toToken follow string
        if !(← symbol? ",") then pure none
        else do
          toToken follow' string'
          if ← stops then pure (some none)
          else do
            let a ← item
            pure (some (some a)))
      (do
        toToken follow string
        if !(← symbol? ",") then pure none
        else do
          toToken follow' string'
          if ← stops then pure (some none)
          else do
            let a ← item'
            pure (some (some a))) := by
  refine .token <| .symbol? fun _ => .ite (.pure .none) ?_
  refine .token <| .step hstops fun _ => .ite (.pure (.some .none)) ?_
  exact .bind hitem fun _ _ h => .pure (.some (.some h))

lemma alike_forHere {w : Nat} : Alike w forHere := by
  refine .step alike_wordHere fun _ => .ite (.pure rfl) (.ite ?_ (.pure rfl))
  refine .step (alike_optional (.peek ?_)) fun found => .pure rfl
  exact .step (alike_advance _) fun _ => .token <| alike_keyword _

lemma alike_starHere {w : Nat} : Alike w starHere := fun _ => .ok ⟨rfl, rfl⟩

variable {τ : Type} [Builder τ] {L : Links τ} {g : Rules τ} {g' : Rules Node}

section Clauses

lemma linked_targetList (hL : L.Lawful) (hg : g.Linked L g') (stopWord : String) :
    Linked L.shift L.Phrases (targetList g stopWord) (targetList g' stopWord) := by
  refine .bind (hg.target _) fun first first' h => .bind (.series (R := L.operand) ?_ hg.bound) fun r r' hr => ?_
  · refine .token <| .symbol? fun _ => .ite (.pure .none) ?_
    refine .token <| .step alike_wordHere fun _ => .ite (.pure (.some .none)) ?_
    exact .bind (hg.target _) fun _ _ h => .pure (.some (.some h))
  · obtain ⟨hmore, hopen⟩ := hr
    refine .ite_of_iff ?_ (.pure (hL.phrases h)) (.pure (hL.phrases_tuple h (.cons h hmore)))
    rw [hopen, isEmpty_of_forall₂ hmore]

lemma linked_clauseValues (hg : g.Linked L g') : Linked L.shift L.Source (clauseValues g) (clauseValues g') := by
  refine .bind (hg.expr _ _) fun first first' h => .bind (.series (R := L.operand) ?_ hg.bound) fun r r' hr => ?_
  · refine .token <| .symbol? fun _ => .ite (.pure .none) ?_
    refine .token <| .step alike_forHere fun _ => .step alike_wordHere fun _ => ?_
    refine .step alike_operandHere fun _ => .ite (.pure (.some .none)) ?_
    exact .bind (hg.expr _ _) fun _ _ h => .pure (.some (.some h))
  · obtain ⟨more, isOpen⟩ := r
    obtain ⟨more', _⟩ := r'
    obtain ⟨hmore, -⟩ := hr
    cases hmore with
    | nil => exact .pure (.one h)
    | cons hq hs => exact .pure (.several h hq hs)

variable (hL : L.Lawful) (hg : g.Linked L g')

include hL hg

lemma linked_clauseCondition :
    Linked L.shift (Option.Rel L.value) (clauseCondition g) (clauseCondition g') := by
  refine .token <| .step (alike_keyword? _) fun _ => .ite ?_ (.pure .none)
  exact .toOperand <| .bind (hg.expr _ _) fun _ _ h => .pure (.some (hL.value h))

lemma linked_forClause :
    Linked L.shift (Option.Rel L.clause) (forClause g) (forClause g') := by
  refine .token <| .step alike_forHere fun _ => .ite (.pure .none) ?_
  refine .step (alike_keyword? _) fun isAsync => .token <| .keyword <| ?_
  refine .toOperand <| .bind (linked_targetList hL hg _) fun target target' ht => ?_
  refine .token <| .keyword <| .toOperand <| ?_
  refine .bind (linked_clauseValues hg) fun values values' hv => ?_
  refine .bind (.collect (linked_clauseCondition hL hg) hg.bound) fun ifs ifs' hi => .pure (.some ?_)
  exact hL.clause isAsync ht.value hv hi

lemma linked_forClauses :
    Linked L.shift (List.Forall₂ L.clause) (forClauses g) (forClauses g') :=
  .collect (linked_forClause hL hg) hg.bound

end Clauses

section Collections

lemma linked_starElement (hL : L.Lawful) (hg : g.Linked L g') :
    Linked L.shift L.operand (starElement g) (starElement g') := by
  refine .step insets_here fun _ => .symbol <| .toOperand <| ?_
  refine .bind (hg.expr _ _) fun p p' h => .pure ?_
  rw [(hL.phrases h).stop]
  exact hL.leaf _ _ (.starred (hL.value h))

lemma linked_group (hL : L.Lawful) (start : Position) {p : Phrase τ} {p' : Phrase Node} (h : L.operand p p') :
    Linked L.shift L.operand
      (do
        toToken .bracket false
        symbol ")"
        let stop ← index
        pure (p.group start stop))
      (do
        toToken .bracket false
        symbol ")"
        let stop ← index
        pure (p'.group (start.inset L.shift) stop)) :=
  .token <| .symbol <| .step alike_index fun stop =>
    .pure (hL.group start stop (hL.phrases h))

lemma linked_starGroup (hL : L.Lawful) (hg : g.Linked L g') (fuel : Nat) :
    Linked L.shift L.operand (starGroup g fuel) (starGroup g' fuel) := by
  induction fuel with
  | zero => exact .fail
  | succ fuel ih =>
    refine .step insets_here fun start => .symbol <| .token <| ?_
    refine .startsWith fun _ => .ite (.bind ih fun _ _ h => linked_group hL start h) ?_
    exact .bind (linked_starElement hL hg) fun _ _ h => linked_group hL start h

omit [Builder τ] in
lemma linked_beforeComma {p : Parser (Phrase τ)} {p' : Parser (Phrase Node)} (hp : Linked L.shift L.operand p p') :
    Linked L.shift L.operand (beforeComma p) (beforeComma p') :=
  .bind hp fun _ _ h => .token <| .startsWith fun _ =>
    .require <| .pure h

lemma linked_element (hL : L.Lawful) (hg : g.Linked L g') (isFirst : Bool) :
    Linked L.shift L.operand (element g isFirst) (element g' isFirst) := by
  have hplain := hg.expr .bracket Level.lowest
  have hstar := linked_starElement hL hg
  refine .step alike_starHere fun _ => .ite (.ite (.or (linked_beforeComma hstar) (.or hplain hstar)) hstar) ?_
  refine .startsWith fun _ => .ite (.step insets_here fun start => ?_) ?_
  · rw [hg.bound]
    refine .bind (linked_beforeComma (linked_starGroup hL hg _)).optional fun p p' h => ?_
    cases h with
    | none => exact hplain
    | some h =>
      refine .pure ?_
      rw [(hL.phrases h).stop]
      exact hL.leaf _ _ (.other (by decide) (.cons (hL.value h) .nil))
  · exact linked_orYield hL hg _ (fun _ _ h => h) hplain

lemma linked_moreElements (hL : L.Lawful) (hg : g.Linked L g') (closing : String) :
    Linked L.shift (fun r r' => List.Forall₂ L.operand r.1 r'.1 ∧ r'.2 = r.2) (moreElements g closing)
      (moreElements g' closing) := by
  refine .bind (.series (linked_separated (alike_startsWith _) (linked_element hL hg _)) hg.bound) fun r r' hr => ?_
  exact .pure ⟨hr.1, by rw [hr.2, isEmpty_of_forall₂ hr.1]⟩

lemma linked_close {w : Nat} {R : Phrase τ → Phrase Node → Prop} {start : Position} {closing : String} {s : Shape τ}
    {s' : Shape Node} (h : ∀ stop, R (.leaf start stop s) (.leaf (start.inset w) stop s')) :
    Linked w R (close start closing s) (close (start.inset w) closing s') :=
  .token <| .symbol <| .step alike_index fun stop => .pure (h stop)

lemma linked_closeForm (hL : L.Lawful) {p : Position} {closing : String} {s : Shape τ} {s' : Shape Node}
    (h : L.ValueForm s s') :
    Linked L.shift L.operand (close p closing s) (close (p.inset L.shift) closing s') :=
  linked_close fun stop => hL.leaf p stop h

lemma linked_closeTuple (hL : L.Lawful) {p : Position} {closing : String} {ts : List τ} {ns : List Node}
    (h : L.values ts ns) :
    Linked L.shift L.operand (close p closing (.tuple ts)) (close (p.inset L.shift) closing (.tuple ns)) :=
  linked_close fun stop => hL.tuple p stop h

variable (hL : L.Lawful) (hg : g.Linked L g')

include hL hg

lemma linked_listAtom :
    Linked L.shift L.operand (listAtom g) (listAtom g') := by
  refine .step insets_here fun start => .symbol <| .token <| ?_
  refine .startsWith fun _ => .ite (linked_closeForm hL (.list .nil)) ?_
  refine .bind (linked_element hL hg _) fun first first' h => .token <| ?_
  refine .step alike_forHere fun _ => .ite ?_ ?_
  · exact .bind (linked_forClauses hL hg) fun _ _ hc => linked_closeForm hL (.listComp (hL.value h) hc)
  · refine .bind (linked_moreElements hL hg _) fun r r' hr => ?_
    exact linked_closeForm hL (.list (.cons (hL.value h) (hL.values_of_operands hr.1)))

lemma linked_entryValue :
    Linked L.shift L.value (entryValue g) (entryValue g') :=
  .toOperand <| .bind (hg.expr _ _) fun _ _ h => .pure (hL.value h)

lemma linked_entry :
    Linked L.shift (fun e e' => Option.Rel L.value e.1 e'.1 ∧ L.value e.2 e'.2) (entry g) (entry g') := by
  refine .symbol? fun _ => .ite (.bind (linked_entryValue hL hg) fun _ _ h => .pure ⟨.none, h⟩) ?_
  refine .bind (hg.expr _ _) fun key key' hk => .token <| .symbol <| ?_
  exact .bind (linked_entryValue hL hg) fun _ _ h => .pure ⟨.some (hL.value hk), h⟩

lemma linked_moreEntries :
    Linked L.shift (List.Forall₂ fun e e' => Option.Rel L.value e.1 e'.1 ∧ L.value e.2 e'.2) (moreEntries g)
      (moreEntries g') :=
  .bind (.series (linked_separated (alike_startsWith _) (linked_entry hL hg)) hg.bound) fun _ _ hr => .pure hr.1

lemma linked_braceAtom :
    Linked L.shift L.operand (braceAtom g) (braceAtom g') := by
  refine .step insets_here fun start => .symbol <| .token <| ?_
  refine .startsWith fun _ => .ite (linked_closeForm hL (.dict .nil)) ?_
  refine .symbol? fun _ => .ite (linked_closeForm hL (.dict .nil)) ?_
  refine .startsWith fun _ => .ite ?_ ?_
  · refine .bind (linked_entry hL hg) fun _ _ h => .bind (linked_moreEntries hL hg) fun _ _ hs => ?_
    exact linked_closeForm hL (.dict (.cons h hs))
  refine .bind (linked_element hL hg _) fun first first' h => .token <| ?_
  refine .symbol? fun _ => .ite (.bind (linked_entryValue hL hg) fun value value' hv => ?_) ?_
  · refine .token <| .step alike_forHere fun _ => .ite ?_ ?_
    · exact .bind (linked_forClauses hL hg) fun _ _ hc => linked_closeForm hL (.dictComp (hL.value h) hv hc)
    · refine .bind (linked_moreEntries hL hg) fun _ _ hs => ?_
      exact linked_closeForm hL (.dict (.cons ⟨.some (hL.value h), hv⟩ hs))
  · refine .step alike_forHere fun _ => .ite ?_ ?_
    · exact .bind (linked_forClauses hL hg) fun _ _ hc => linked_closeForm hL (.setComp (hL.value h) hc)
    · refine .bind (linked_moreElements hL hg _) fun _ _ hr => ?_
      exact linked_closeForm hL (.set (.cons (hL.value h) (hL.values_of_operands hr.1)))

lemma linked_loneStar (follow : Follow) (start : Position) :
    Linked L.shift L.operand (loneStar g follow start) (loneStar g' follow (start.inset L.shift)) := by
  have htuple : Linked L.shift L.operand (starElement g >>= fun p => close start ")" (.tuple [p.node]))
      (starElement g' >>= fun p => close (start.inset L.shift) ")" (.tuple [p.node])) :=
    .bind (linked_starElement hL hg) fun _ _ h => linked_closeTuple hL (.cons (hL.value h) .nil)
  have hgroup := Linked.bind (hg.expr .bracket Level.lowest) fun _ _ h => linked_group hL start h
  refine .ite (.or (.bind htuple fun _ _ h => ?_) (.or hgroup htuple)) (.or hgroup htuple)
  exact .look fun _ => .require <| .pure h

lemma linked_parenAtom (follow : Follow) :
    Linked L.shift L.operand (parenAtom g follow) (parenAtom g' follow) := by
  refine .step insets_here fun start => .symbol <| .token <| ?_
  refine .startsWith fun _ => .ite (linked_closeTuple hL .nil) (.get fun c => ?_)
  refine .step alike_starHere fun _ => .bind (linked_element hL hg _) fun first first' h => ?_
  refine .token <| .step alike_forHere fun _ => .ite ?_ ?_
  · exact .bind (linked_forClauses hL hg) fun _ _ hc => linked_closeForm hL (.generatorExp (hL.value h) hc)
  refine .bind (linked_moreElements hL hg _) fun (more, comma) (more', comma') hr => ?_
  obtain ⟨hs, rfl⟩ := hr
  refine .ite (linked_closeTuple hL (.cons (hL.value h) (hL.values_of_operands hs))) (.ite ?_ (linked_group hL start h))
  exact .step (insets_set c) fun _ => linked_loneStar hL hg follow start

end Collections

section Trailers

lemma alike_argumentName {w : Nat} : Alike w argumentName :=
  .step alike_name fun _ => .require <| .token <|
    .startsWith fun _ => .require <| .symbol <| .pure rfl

section

variable (hL : L.Lawful) (hg : g.Linked L g')

include hL hg

lemma linked_groupedArgument :
    Linked L.shift L.operand (groupedArgument g) (groupedArgument g') := by
  rw [groupedArgument, groupedArgument, hg.bound]
  exact .bind (linked_starGroup hL hg _) fun _ _ h => .token <| .startsWith fun _ =>
    .startsWith fun _ => .require <| .pure h

lemma linked_keyword (start : Position) (id : Option String) :
    Linked L.shift L.Phrases
      (do
        toOperand
        let p ← g.expr .bracket Level.lowest
        pure { Phrase.leaf start p.stop (.keyword id p.node) with node := unmarked (.keyword id p.node) })
      (do
        toOperand
        let p ← g'.expr .bracket Level.lowest
        pure { Phrase.leaf (start.inset L.shift) p.stop (.keyword id p.node) with
          node := unmarked (.keyword id p.node) }) :=
  .toOperand <| .bind (hg.expr _ _) fun _ _ h =>
    .pure ⟨hL.keyword id (hL.value h), rfl, (hL.phrases h).stop, rfl⟩

lemma linked_argument :
    Linked L.shift L.Phrases (argument g) (argument g') := by
  have hplain := (hg.expr .bracket Level.lowest).mono fun _ _ => hL.phrases
  have hgrouped := (linked_groupedArgument hL hg).mono fun _ _ => hL.phrases
  refine .step insets_here fun start => .symbol? fun _ => .ite (linked_keyword hL hg start none) ?_
  refine .step alike_starHere fun _ => .ite ((linked_starElement hL hg).mono fun _ _ => hL.phrases) ?_
  refine .step (alike_optional alike_argumentName) fun id => ?_
  cases id with
  | some id => exact linked_keyword hL hg start (some id)
  | none => exact .startsWith fun _ => .ite (.or hgrouped hplain) hplain

lemma linked_moreArguments :
    Linked L.shift (List.Forall₂ L.Phrases) (moreArguments g) (moreArguments g') :=
  .bind (.series (linked_separated (alike_startsWith _) (linked_argument hL hg)) hg.bound) fun _ _ hr => .pure hr.1

lemma linked_listedArguments {first : Phrase τ} {first' : Phrase Node}
    (h : L.Phrases first first') :
    Linked L.shift L.values
      (do
        let more ← moreArguments g
        toToken .bracket false
        symbol ")"
        pure (first.node :: more.map Phrase.node))
      (do
        let more ← moreArguments g'
        toToken .bracket false
        symbol ")"
        pure (first'.node :: more.map Phrase.node)) :=
  .bind (linked_moreArguments hL hg) fun _ _ hs => .token <| .symbol <|
    .pure (.cons h.value (Links.values_of_phrases hs))

lemma linked_arguments (generators : Bool) :
    Linked L.shift (fun ts ns => L.Args ts ns ∧ (generators = false → L.values ts ns)) (arguments g generators)
      (arguments g' generators) := by
  have hempty : L.Args [] [] ∧ (generators = false → L.values [] []) := ⟨.list .nil, fun _ => .nil⟩
  refine .step insets_here fun start => .symbol <| .token <| ?_
  refine .symbol? fun _ => .ite (.pure hempty) (.symbol? fun _ => .ite ?_ ?_)
  · exact .token <| .symbol <| .pure hempty
  refine .bind (linked_argument hL hg) fun first first' h => .token <| ?_
  have hlisted := (linked_listedArguments hL hg h).mono
    fun ts ns hs => (⟨.list hs, fun _ => hs⟩ : L.Args ts ns ∧ (generators = false → L.values ts ns))
  cases generators with
  | false => exact .step alike_forHere fun _ => hlisted
  | true =>
    refine .step alike_forHere fun isFor => ?_
    cases isFor with
    | false => exact hlisted
    | true =>
      refine .bind (linked_forClauses hL hg) fun clauses clauses' hc => ?_
      refine .bind (linked_close (R := fun p p' => L.Args (Builder.soleArgument p.node) (Builder.soleArgument p'.node))
        fun _ => .generator start h.value hc) fun _ _ hsole => .pure ⟨hsole, by simp⟩

lemma linked_sliceBound :
    Linked L.shift (Option.Rel L.value) (sliceBound g) (sliceBound g') := by
  refine .token <| .step alike_operandHere fun _ => .ite ?_ (.pure .none)
  exact .bind (hg.expr _ _) fun _ _ h => .pure (.some (hL.value h))

lemma linked_sliceRest {lower : Option τ} {lower' : Option Node}
    (hlower : Option.Rel L.value lower lower') :
    Linked L.shift L.value (sliceRest g lower) (sliceRest g' lower') := by
  refine .symbol <| .bind (linked_sliceBound hL hg) fun upper upper' hupper => ?_
  refine .token <| .symbol? fun _ => .ite ?_ ?_
  · exact .bind (linked_sliceBound hL hg) fun _ _ hstep => .pure (hL.slice hlower hupper hstep)
  · exact .pure (hL.slice hlower hupper .none)

lemma linked_subscriptPart :
    Linked L.shift L.value (subscriptPart g) (subscriptPart g') := by
  refine .startsWith fun _ => .ite (linked_sliceRest hL hg .none) ?_
  refine .bind (hg.expr _ _) fun p p' h => .token <| .startsWith fun _ => ?_
  exact .ite (linked_sliceRest hL hg (.some (hL.value h))) (.pure (hL.value h))

lemma linked_subscriptIndex :
    Linked L.shift L.Index (subscriptIndex g) (subscriptIndex g') := by
  have hpart := linked_subscriptPart hL hg
  refine .symbol <| .token <| .bind hpart fun first first' h => ?_
  refine .bind (.series (linked_separated (alike_startsWith _) hpart) hg.bound) fun r r' hr => ?_
  refine .token <| .symbol <| .ite_of_iff ?_ (.pure (.one h)) ?_
  · rw [hr.2, isEmpty_of_forall₂ hr.1]
  · exact .pure (.several h hr.1)

lemma linked_trailer (follow : Follow) :
    Linked L.shift (Option.Rel L.Trailers) (trailer g follow) (trailer g' follow) := by
  refine .look fun _ => .ite (.pure .none) (.symbol? fun _ => .ite ?_ ?_)
  · refine .token <| .step alike_name fun id => .step alike_index fun stop => ?_
    exact .pure (.some (.attr id stop))
  refine .startsWith fun _ => .ite ?_ (.startsWith fun _ => .ite ?_ (.pure .none))
  · refine .bind (linked_subscriptIndex hL hg) fun _ _ h => .step alike_index fun stop => ?_
    exact .pure (.some (.subscript stop h))
  · refine .bind (linked_arguments hL hg _) fun _ _ h => .step alike_index fun stop => ?_
    exact .pure (.some (.call stop h.1))

lemma linked_trailers (follow : Follow) :
    Linked L.shift (List.Forall₂ L.Trailers) (trailers g follow) (trailers g' follow) :=
  .collect (linked_trailer hL hg follow) hg.bound

end

lemma Links.Lawful.apply (hL : L.Lawful) {p : Phrase τ} {p' : Phrase Node} {t : Trailer τ} {t' : Trailer Node}
    (h : L.operand p p') (ht : L.Trailers t t') : L.operand (t.apply p) (t'.apply p') := by
  have hp := hL.phrases h
  cases ht with
  | attr id stop => exact hL.extend stop hp (.attr id hp.value)
  | subscript stop hi => exact hL.extend stop hp (.subscript hp.value hi)
  | call stop ha => exact hL.extend stop hp (.call hp.value ha)

lemma Links.Lawful.apply_all (hL : L.Lawful) {p : Phrase τ} {p' : Phrase Node} {ts : List (Trailer τ)}
    {ts' : List (Trailer Node)} (h : L.operand p p') (hts : List.Forall₂ L.Trailers ts ts') :
    L.operand (ts.foldl Trailer.apply p) (ts'.foldl Trailer.apply p') := by
  induction hts generalizing p p' with
  | nil => exact h
  | cons ht _ ih => exact ih (hL.apply h ht)

lemma Links.endsInPart_eq {ts : List (Trailer τ)} {ts' : List (Trailer Node)} (h : List.Forall₂ L.Trailers ts ts') :
    endsInPart ts' = endsInPart ts := by
  have hlast := rel_getLast? h
  rw [endsInPart, endsInPart]
  generalize ts.getLast? = x, ts'.getLast? = x' at hlast
  cases hlast with
  | none => rfl
  | some h => cases h <;> rfl

end Trailers

section Atoms

lemma linked_numeral (hL : L.Lawful) : Linked L.shift L.operand numeral numeral :=
  .get fun c => .require <| .step (alike_advance _) fun _ =>
    .pure (hL.leaf c.place _ (.num _))

lemma linked_nameAtom (hL : L.Lawful) : Linked L.shift L.operand nameAtom nameAtom :=
  .step insets_here fun _ => .step alike_name fun _ => .step alike_index fun _ =>
    .ite (.pure (hL.leaf _ _ (.nameConstant _))) (.pure (hL.leaf _ _ (.name _)))

lemma linked_ellipsis (hL : L.Lawful) : Linked L.shift L.operand ellipsis ellipsis :=
  .step insets_here fun _ => .symbol <| .step alike_index fun _ => .pure (hL.leaf _ _ .ellipsis)

section

variable (hL : L.Lawful) (hg : g.Linked L g')

include hL hg

lemma linked_atom (follow : Follow) :
    Linked L.shift L.operand (atom g follow) (atom g' follow) := by
  refine .get fun c => .ite (linked_stringRun hL hg follow) ?_
  dsimp only [Cursor.inset]
  split
  · exact linked_parenAtom hL hg follow
  · exact linked_listAtom hL hg
  · exact linked_braceAtom hL hg
  · refine .ite (linked_nameAtom hL) (.startsWith fun _ => ?_)
    exact .ite (linked_ellipsis hL) (linked_numeral hL)
  · exact .fail

lemma linked_primary (follow : Follow) :
    Linked L.shift L.operand (primary g follow) (primary g' follow) :=
  .bind (linked_atom hL hg follow) fun _ _ h => .bind (linked_trailers hL hg follow) fun _ _ hts =>
    .pure (hL.apply_all h hts)

lemma linked_partPrimary (follow : Follow) :
    Linked L.shift L.operand (partPrimary g follow) (partPrimary g' follow) := by
  refine .bind (linked_atom hL hg follow) fun p p' h => .bind (linked_trailers hL hg follow) fun ts ts' hts => ?_
  rw [Links.endsInPart_eq hts]
  exact .require <| .pure (hL.apply_all h hts)

end

lemma Links.Lawful.starred (hL : L.Lawful) (start : Position) {p : Phrase τ} {p' : Phrase Node} (h : L.operand p p') :
    L.operand (.leaf start p.stop (.starred p.node)) (.leaf (start.inset L.shift) p'.stop (.starred p'.node)) := by
  rw [(hL.phrases h).stop]
  exact hL.leaf _ _ (.starred (hL.value h))

lemma linked_starPrimary (hL : L.Lawful) (hg : g.Linked L g') (follow : Follow)
    {whole : List (Trailer τ) → Parser Bool} {whole' : List (Trailer Node) → Parser Bool}
    (hwhole : ∀ ts ts', List.Forall₂ L.Trailers ts ts' → Insets L.shift (fun b => b) (whole ts) (whole' ts')) :
    Linked L.shift L.operand (starPrimary g follow whole) (starPrimary g' follow whole') := by
  refine .step insets_here fun start => .symbol <| .token <| ?_
  refine .get fun c => .ite ?_ ?_
  · refine .bind (linked_nameAtom hL) fun p p' h => .bind (linked_trailers hL hg follow) fun ts ts' hts => ?_
    refine .step (hwhole ts ts' hts) fun _ => .ite (.pure (hL.starred start (hL.apply_all h hts))) (.pure ?_)
    exact hL.apply_all (hL.starred start h) hts
  · exact .bind (linked_partPrimary hL hg follow) fun p p' h => .pure (hL.starred start h)

end Atoms

end SourceBlocks.Grammar
