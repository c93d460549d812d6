import SourceBlocks.Proofs.Grammar.Kept.Strings

namespace SourceBlocks

open Lexis Lexis.Source Grammar Grammar.Parser
open SourceBlocks.Tree (Field Mark Node Shape Written)

attribute [local simp] Shape.literal? Shape.children Shape.fieldNodes Shape.fields Field.nodes List.flatMap_map

namespace Grammar.Trailer

def literals : Trailer Node → List Written
  | attr _ _ => []
  | subscript i _ => i.literals
  | call args _ => args.flatMap Node.literals

lemma literals_apply (p : Phrase Node) (t : Trailer Node) : (apply p t).node.literals = p.node.literals ++ t.literals := by
  cases t <;> simp [apply, literals]

lemma literals_foldl (p : Phrase Node) (ts : List (Trailer Node)) :
    (ts.foldl apply p).node.literals = p.node.literals ++ ts.flatMap literals := by
  induction ts generalizing p with
  | nil => simp
  | cons t ts ih => simp [ih, literals_apply]

end Grammar.Trailer

namespace Lexis.Source

variable {S : Source} {g : Rules Node} {c d : Cursor} {l : List Written}

section Clauses

variable (hg : g.Keeps S)

include hg

lemma keeps_targetList (stopWord : String) :
    S.Keeps (targetList g stopWord) fun p => p.node.literals := by
  intro c hc
  dsimp only [targetList]
  refine (hg.target _).step (.refl hc) fun first d h => ?_
  refine (Keeps.series (f := fun p : Phrase Node => p.node.literals) (fun c hc => ?_) _).step h fun (more, isOpen) d h => ?_
  · refine (Bears.refl hc).token fun d h => (quiet_symbol? (by decide)).step h fun _ d h => ?_
    refine .fork (.pure h) <| h.token fun d h => ?_
    refine .wordHere (.fork (.pure (by simpa using h)) ?_)
    exact (hg.target _).step h fun p d h => .pure (by simpa using h)
  · refine .ite (fun hlone => .pure ?_) fun _ => .pure (by simpa using h)
    obtain ⟨rfl, -⟩ : more = [] ∧ isOpen = false := by simpa using hlone
    simpa using h

lemma keeps_clauseValues : S.Keeps (clauseValues g) Node.literals := by
  intro c hc
  dsimp only [clauseValues]
  refine (hg.expr _ _).step (.refl hc) fun first d h => ?_
  refine (Keeps.series (f := fun p : Phrase Node => p.node.literals) (fun c hc => ?_) _).step h fun (more, isOpen) d h => ?_
  · refine (Bears.refl hc).token fun d h => (quiet_symbol? (by decide)).step h fun _ d h => ?_
    refine .fork (.pure h) <| h.token fun d h => ?_
    refine .stay stays_forHere fun _ => .wordHere (.stay stays_operandHere fun _ => ?_)
    refine .fork (.pure (by simpa using h)) ?_
    exact (hg.expr _ _).step h fun p d h => .pure (by simpa using h)
  · cases more with
    | nil => exact .pure (by simpa using h)
    | cons p ps => exact .pure (by simpa using h)

lemma keeps_clauseCondition :
    S.Keeps (clauseCondition g) fun o => o.toList.flatMap Node.literals := by
  intro c hc
  rw [clauseCondition]
  refine (Bears.refl hc).token fun d h => (quiet_keyword? _).step h fun _ d h => ?_
  refine .fork ?_ <| .pure h
  exact h.operand fun d h => (hg.expr _ _).step h fun p d h => .pure (by simpa using h)

lemma keeps_forClause : S.Keeps (forClause g) fun o => o.toList.flatMap Node.literals := by
  intro c hc
  rw [forClause]
  refine (Bears.refl hc).token fun d h => .stay stays_forHere fun _ => .fork (.pure h) ?_
  refine (quiet_keyword? _).step h fun _ d h => h.token fun d h => ?_
  refine (quiet_keyword _).step h fun _ d h => h.operand fun d h => ?_
  refine (keeps_targetList hg _).step h fun target d h => h.token fun d h => ?_
  refine (quiet_keyword _).step h fun _ d h => h.operand fun d h => ?_
  refine (keeps_clauseValues hg).step h fun values d h => ?_
  exact ((keeps_clauseCondition hg).collect _).step h fun ifs d h => .pure (by simpa using h)

lemma keeps_forClauses : S.Keeps (forClauses g) fun ns => ns.flatMap Node.literals :=
  (keeps_forClause hg).collect _

end Clauses

section Collections

lemma gives_close {start : Position} {closing : String} {shape : Shape Node} (hs : closing.toList.all isBare = true)
    (h : S.Bears c (shape.literal?.toList ++ shape.children.flatMap Node.literals) d) :
    Gives d (close start closing shape) fun p e => S.Bears c p.node.literals e := by
  rw [close]
  refine h.token fun d h => (quiet_symbol hs).step h fun _ d h => ?_
  exact .stay stays_index fun _ => .pure (by simpa using h)

lemma gives_group {start : Position} {p : Phrase Node} (h : S.Bears c p.node.literals d) :
    Gives d (do
      toToken .bracket false
      symbol ")"
      let stop ← index
      pure (p.group start stop)) fun p e => S.Bears c p.node.literals e := by
  refine h.token fun d h => h.symbol (by decide) fun d h => ?_
  exact .stay stays_index fun _ => .pure h

lemma keeps_starElement (hg : g.Keeps S) : S.Keeps (starElement g) fun p => p.node.literals := by
  intro c hc
  rw [starElement]
  refine .here ((Bears.refl hc).symbol (by decide) fun d h => h.operand fun d h => ?_)
  exact (hg.expr _ _).step h fun p d h => .pure (by simpa using h)

lemma keeps_starGroup (hg : g.Keeps S) (n : Nat) : S.Keeps (starGroup g n) fun p => p.node.literals := by
  induction n with
  | zero => exact fun _ _ => .fail
  | succ n ih =>
    intro c hc
    rw [starGroup]
    refine .here ((Bears.refl hc).symbol (by decide) fun d h => h.token fun d h => ?_)
    refine .startsWith (.fork ?_ ?_)
    · exact ih.step h fun p e h => gives_group h
    · exact (keeps_starElement hg).step h fun p e h => gives_group h

lemma keeps_beforeComma {p : Parser (Phrase Node)} (hp : S.Keeps p fun q => q.node.literals) :
    S.Keeps (beforeComma p) fun q => q.node.literals := by
  intro c hc
  rw [beforeComma]
  refine hp.step (.refl hc) fun a d h => h.token fun d h => ?_
  exact .startsWith (.require fun _ => .pure h)

variable (hg : g.Keeps S)

include hg

lemma keeps_element (isFirst : Bool) : S.Keeps (element g isFirst) fun p => p.node.literals := by
  intro c hc
  dsimp only [element]
  have hstar := keeps_starElement hg
  have hplain := hg.expr .bracket Level.lowest
  refine .stay stays_starHere fun _ => .fork ?_ ?_
  · exact .fork ((keeps_beforeComma hstar).or (hplain.or hstar) c hc) <| hstar c hc
  · refine .startsWith (.fork (.here ?_) <| keeps_orYield hg _ hplain c hc)
    refine (keeps_beforeComma (keeps_starGroup hg _)).optional.step (.refl hc) fun o d h => ?_
    cases o with
    | some p => exact .pure (by simpa using h)
    | none => exact hplain.last h

lemma gives_moreElements (closing : String) (h : S.Bears c l d) :
    Gives d (moreElements g closing) fun r e => (r.2 = false → r.1 = []) ∧
      S.Bears c (l ++ r.1.flatMap fun p => p.node.literals) e := by
  dsimp only [moreElements]
  exact ((keeps_separated (keeps_element hg false)).series _).step h fun r d h => .pure ⟨by simp, h⟩

lemma keeps_listAtom : S.Keeps (listAtom g) fun p => p.node.literals := by
  intro c hc
  rw [listAtom]
  refine .here ((Bears.refl hc).symbol (by decide) fun d h => h.token fun d h => ?_)
  refine .startsWith (.fork (gives_close (by decide) (by simpa using h)) ?_)
  refine (keeps_element hg _).step h fun first d h => h.token fun d h => ?_
  refine .stay stays_forHere fun _ => .fork ?_ ?_
  · exact (keeps_forClauses hg).step h fun clauses d h => gives_close (by decide) (by simpa using h)
  · exact (gives_moreElements hg _ h).bind fun r d ⟨_, h⟩ => gives_close (by decide) (by simpa using h)

lemma keeps_entryValue : S.Keeps (entryValue g) Node.literals := by
  intro c hc
  rw [entryValue]
  exact (Bears.refl hc).operand fun d h => (hg.expr _ _).step h fun p d h => .pure h

lemma keeps_entry :
    S.Keeps (entry g) fun e => (e.1.toList ++ [e.2]).flatMap Node.literals := by
  intro c hc
  rw [entry]
  refine (quiet_symbol? (by decide)).step (.refl hc) fun _ d h => .fork ?_ ?_
  · exact (keeps_entryValue hg).step h fun value d h => .pure (by simpa using h)
  · refine (hg.expr _ _).step h fun key d h => h.token fun d h => ?_
    refine h.symbol (by decide) fun d h => ?_
    exact (keeps_entryValue hg).step h fun value d h => .pure (by simpa using h)

lemma keeps_moreEntries :
    S.Keeps (moreEntries g) fun es => es.flatMap fun e => (e.1.toList ++ [e.2]).flatMap Node.literals := by
  intro c hc
  dsimp only [moreEntries]
  exact ((keeps_separated (keeps_entry hg)).series _).step (.refl hc) fun r d h => .pure (by simpa using h)

lemma keeps_braceAtom : S.Keeps (braceAtom g) fun p => p.node.literals := by
  intro c hc
  rw [braceAtom]
  refine .here ((Bears.refl hc).symbol (by decide) fun d h => h.token fun d h => ?_)
  refine .startsWith (.fork (gives_close (by decide) (by simpa using h)) ?_)
  refine (quiet_symbol? (by decide)).step h fun _ d h => .fork ?_ ?_
  · exact gives_close (by decide) (by simpa using h)
  refine .startsWith (.fork ?_ ?_)
  · refine (keeps_entry hg).step h fun first d h => (keeps_moreEntries hg).step h fun more d h => ?_
    exact gives_close (by decide) (by simpa [List.flatMap_assoc] using h)
  refine (keeps_element hg _).step h fun first d h => h.token fun d h => ?_
  refine (quiet_symbol? (by decide)).step h fun _ d h => .fork ?_ ?_
  · refine (keeps_entryValue hg).step h fun value d h => h.token fun d h => ?_
    refine .stay stays_forHere fun _ => .fork ?_ ?_
    · exact (keeps_forClauses hg).step h fun clauses d h => gives_close (by decide) (by simpa using h)
    · refine (keeps_moreEntries hg).step h fun more d h => ?_
      exact gives_close (by decide) (by simpa [List.flatMap_assoc] using h)
  · refine .stay stays_forHere fun _ => .fork ?_ ?_
    · exact (keeps_forClauses hg).step h fun clauses d h => gives_close (by decide) (by simpa using h)
    · exact (gives_moreElements hg _ h).bind fun r d ⟨_, h⟩ => gives_close (by decide) (by simpa using h)

lemma keeps_loneStar (follow : Follow) (start : Position) :
    S.Keeps (loneStar g follow start) fun p => p.node.literals := by
  have asTuple : S.Keeps (do
      let p ← starElement g
      close start ")" (.tuple [p.node])) fun p => p.node.literals := fun c hc =>
    (keeps_starElement hg).step (.refl hc) fun p d h => gives_close (by decide) (by simpa using h)
  have grouped : S.Keeps (do
      let p ← g.expr .bracket Level.lowest
      toToken .bracket false
      symbol ")"
      let stop ← index
      pure (p.group start stop)) fun p => p.node.literals := fun c hc =>
    (hg.expr _ _).step (.refl hc) fun p d h => gives_group h
  intro c hc
  dsimp only [loneStar]
  refine .fork (.or ?_ (grouped.or asTuple c hc)) <| grouped.or asTuple c hc
  refine asTuple.step (.refl hc) fun p d h => (quiet_look _ _).step h fun _ d h => ?_
  exact .require fun _ => .pure h

lemma keeps_parenAtom (follow : Follow) : S.Keeps (parenAtom g follow) fun p => p.node.literals := by
  intro c hc
  rw [parenAtom]
  refine .here ((Bears.refl hc).symbol (by decide) fun d h => h.token fun e he => ?_)
  refine .startsWith (.fork (gives_close (by decide) (by simpa using he)) ?_)
  refine .get (.stay stays_starHere fun _ => (keeps_element hg _).step he fun first d h => ?_)
  refine h.token fun d h => .stay stays_forHere fun _ => .fork ?_ ?_
  · exact (keeps_forClauses hg).step h fun clauses d h => gives_close (by decide) (by simpa using h)
  refine (gives_moreElements hg _ h).bind fun (more, comma) d ⟨hcomma, h⟩ => ?_
  refine .ite (fun _ => gives_close (by decide) (by simpa using h)) fun hnot => ?_
  obtain rfl : more = [] := hcomma (by simpa using hnot)
  exact .fork (.set ((keeps_loneStar hg follow _).last he)) <| gives_group (by simpa using h)

end Collections

section Trailers

lemma quiet_argumentName : S.Quiet argumentName := by
  intro c hc
  rw [argumentName]
  refine quiet_name.step (.refl hc) fun _ d h => .require fun _ => h.token fun d h => ?_
  refine .startsWith (.require fun _ => ?_)
  exact h.symbol (by decide) fun d h => .pure h

variable (hg : g.Keeps S)

include hg

lemma keeps_groupedArgument : S.Keeps (groupedArgument g) fun p => p.node.literals := by
  intro c hc
  rw [groupedArgument]
  refine (keeps_starGroup hg _).step (.refl hc) fun p d h => h.token fun d h => ?_
  exact .startsWith (.startsWith (.require fun _ => .pure h))

lemma keeps_argument : S.Keeps (argument g) fun p => p.node.literals := by
  intro c hc
  dsimp only [argument]
  refine .here ((quiet_symbol? (by decide)).step (.refl hc) fun _ d h => .fork ?_ ?_)
  · exact h.operand fun d h => (hg.expr _ _).step h fun p d h => .pure (by simpa using h)
  refine .stay stays_starHere fun _ => .fork ((keeps_starElement hg).last h) ?_
  refine quiet_argumentName.optional.step h fun o d h => ?_
  cases o with
  | some id => exact h.operand fun d h => (hg.expr _ _).step h fun p d h => .pure (by simpa using h)
  | none =>
    have hplain := hg.expr .bracket Level.lowest
    exact .startsWith (.fork (((keeps_groupedArgument hg).or hplain).last h) <| hplain.last h)

lemma keeps_moreArguments :
    S.Keeps (moreArguments g) fun ps => ps.flatMap fun p => p.node.literals := by
  intro c hc
  dsimp only [moreArguments]
  exact ((keeps_separated (keeps_argument hg)).series _).step (.refl hc) fun r d h => .pure h

lemma keeps_arguments (generators : Bool) :
    S.Keeps (arguments g generators) fun ns => ns.flatMap Node.literals := by
  intro c hc
  rw [arguments]
  refine .here ((Bears.refl hc).symbol (by decide) fun d h => h.token fun d h => ?_)
  refine (quiet_symbol? (by decide)).step h fun _ d h => .fork (.pure h) ?_
  refine (quiet_symbol? (by decide)).step h fun _ d h => .fork ?_ ?_
  · refine h.token fun d h => ?_
    exact h.symbol (by decide) fun d h => .pure h
  refine (keeps_argument hg).step h fun first d h => h.token fun d h => ?_
  refine .stay stays_forHere fun _ => .fork ?_ ?_
  · refine (keeps_forClauses hg).step h fun clauses d h => ?_
    refine (gives_close (by decide) (by simpa using h)).bind fun p e h => .pure (by simpa using h)
  · refine (keeps_moreArguments hg).step h fun more d h => h.token fun d h => ?_
    exact h.symbol (by decide) fun d h => .pure (by simpa using h)

lemma keeps_sliceBound : S.Keeps (sliceBound g) fun o => o.toList.flatMap Node.literals := by
  intro c hc
  rw [sliceBound]
  refine (Bears.refl hc).token fun d h => .stay stays_operandHere fun _ => ?_
  exact .fork ((hg.expr _ _).step h fun p d h => .pure (by simpa using h)) <| .pure h

lemma gives_sliceRest (lower : Option Node)
    (h : S.Bears c (lower.toList.flatMap Node.literals) d) :
    Gives d (sliceRest g lower) fun n e => S.Bears c n.literals e := by
  rw [sliceRest]
  refine h.symbol (by decide) fun d h => (keeps_sliceBound hg).step h fun upper d h => ?_
  refine h.token fun d h => (quiet_symbol? (by decide)).step h fun _ d h => ?_
  refine .fork ?_ <| .pure (by simpa using h)
  exact (keeps_sliceBound hg).step h fun step d h => .pure (by simpa using h)

lemma keeps_subscriptPart : S.Keeps (subscriptPart g) Node.literals := by
  intro c hc
  rw [subscriptPart]
  refine .startsWith (.fork (gives_sliceRest hg none (.refl hc)) ?_)
  refine (hg.expr _ _).step (.refl hc) fun p d h => h.token fun d h => ?_
  exact .startsWith (.fork (gives_sliceRest hg _ (by simpa using h)) <| .pure h)

lemma keeps_subscriptIndex : S.Keeps (subscriptIndex g) Node.literals := by
  intro c hc
  dsimp only [subscriptIndex]
  refine (Bears.refl hc).symbol (by decide) fun d h => h.token fun d h => ?_
  refine (keeps_subscriptPart hg).step h fun first d h => ?_
  refine ((keeps_separated (keeps_subscriptPart hg)).series _).step h fun (more, isOpen) d h => ?_
  refine h.token fun d h => h.symbol (by decide) fun d h => ?_
  refine .ite (fun hlone => .pure ?_) fun _ => .pure (by simpa using h)
  obtain ⟨rfl, -⟩ : more = [] ∧ isOpen = false := by simpa using hlone
  simpa using h

lemma keeps_trailer (follow : Follow) :
    S.Keeps (trailer g follow) fun o => o.toList.flatMap Trailer.literals := by
  intro c hc
  rw [trailer]
  refine (quiet_look _ _).step (.refl hc) fun _ d h => .fork (.pure h) ?_
  refine (quiet_symbol? (by decide)).step h fun _ d h => .fork ?_ ?_
  · refine h.token fun d h => quiet_name.step h fun id d h => ?_
    exact .stay stays_index fun _ => .pure (by simpa [Trailer.literals] using h)
  refine .startsWith (.fork ?_ ?_)
  · refine (keeps_subscriptIndex hg).step h fun i d h => .stay stays_index fun _ => .pure ?_
    simpa [Trailer.literals] using h
  refine .startsWith (.fork ?_ <| .pure h)
  refine (keeps_arguments hg _).step h fun args d h => .stay stays_index fun _ => .pure ?_
  simpa [Trailer.literals] using h

lemma keeps_trailers (follow : Follow) :
    S.Keeps (trailers g follow) fun ts => ts.flatMap Trailer.literals := (keeps_trailer hg follow).collect _

end Trailers

section Atoms

lemma keeps_numeral : S.Keeps numeral fun p : Phrase Node => p.node.literals := by
  intro c hc
  rw [numeral]
  refine .get (.require fun _ => gives_advance (.pure ?_))
  simpa using (Bears.refl hc).skip (.of_numeralLength _)

lemma keeps_nameAtom : S.Keeps nameAtom fun p : Phrase Node => p.node.literals := by
  intro c hc
  rw [nameAtom]
  refine .here (quiet_name.step (.refl hc) fun w d h => .stay stays_index fun _ => ?_)
  exact .fork (.pure (by simpa using h)) <| .pure (by simpa using h)

lemma keeps_ellipsis : S.Keeps ellipsis fun p : Phrase Node => p.node.literals := by
  intro c hc
  rw [ellipsis]
  refine .here ((Bears.refl hc).symbol (by decide) fun d h => .stay stays_index fun _ => .pure ?_)
  simpa using h

variable (hg : g.Keeps S)

include hg

lemma keeps_atom (follow : Follow) : S.Keeps (atom g follow) fun p => p.node.literals := by
  intro c hc
  rw [atom]
  refine .get (.fork (keeps_stringRun hg follow c hc) ?_)
  split
  · exact keeps_parenAtom hg follow c hc
  · exact keeps_listAtom hg c hc
  · exact keeps_braceAtom hg c hc
  · refine .fork (keeps_nameAtom c hc) <| .startsWith (.fork ?_ ?_)
    · exact keeps_ellipsis c hc
    · exact keeps_numeral c hc
  · exact .fail

lemma gives_trailers {α : Type} {R : α → Cursor → Prop} (follow : Follow) {p : Phrase Node}
    {k : List (Trailer Node) → Parser α} (h : S.Bears c p.node.literals d)
    (hk : ∀ ts e, S.Bears c (ts.foldl Trailer.apply p).node.literals e → Gives e (k ts) R) :
    Gives d (trailers g follow >>= k) R := by
  refine (keeps_trailers hg follow).step h fun ts e h => hk ts e ?_
  rwa [Trailer.literals_foldl]

lemma keeps_primary (follow : Follow) : S.Keeps (primary g follow) fun p => p.node.literals := by
  intro c hc
  rw [primary]
  exact (keeps_atom hg follow c hc).bind fun p d h => gives_trailers hg follow h fun ts e h => .pure h

lemma keeps_partPrimary (follow : Follow) :
    S.Keeps (partPrimary g follow) fun p => p.node.literals := by
  intro c hc
  rw [partPrimary]
  refine (keeps_atom hg follow c hc).bind fun p d h => gives_trailers hg follow h fun ts e h => ?_
  exact .require fun _ => .pure h

lemma keeps_starPrimary (follow : Follow) {whole : List (Trailer Node) → Parser Bool}
    (hwhole : ∀ ts, S.Quiet (whole ts)) : S.Keeps (starPrimary g follow whole) fun p => p.node.literals := by
  intro c hc
  dsimp only [starPrimary]
  refine .here ((Bears.refl hc).symbol (by decide) fun d h => h.token fun d h => ?_)
  refine .get (.fork ?_ ?_)
  · refine keeps_nameAtom.step h fun p d h => (keeps_trailers hg follow).step h fun ts d h => ?_
    refine (hwhole ts).step h fun _ d h => .fork (.pure ?_) <| .pure ?_
    · simpa [Trailer.literals_foldl] using h
    · simpa [Trailer.literals_foldl] using h
  · exact (keeps_partPrimary hg follow).step h fun p d h => .pure (by simpa using h)

end Atoms

section Targets

lemma keeps_targetGroup (hg : g.Keeps S) {opening closing : String} {shape : List Node → Shape Node}
    (ho : opening.toList.all isBare = true) (hs : closing.toList.all isBare = true)
    (hshape : ∀ ns, (shape ns).literal?.toList ++ (shape ns).children.flatMap Node.literals = ns.flatMap Node.literals) :
    S.Keeps (targetGroup g opening closing shape) fun p => p.node.literals := by
  intro c hc
  dsimp only [targetGroup]
  refine .here ((quiet_symbol ho).step (.refl hc) fun _ d h => h.token fun d h => ?_)
  refine .startsWith (.fork (gives_close hs (by rw [hshape]; simpa using h)) ?_)
  refine (hg.target _).step h fun first d h => ?_
  refine ((keeps_separated (hg.target _)).series _).step h fun (more, _) d h => ?_
  exact gives_close hs (by rw [hshape]; simpa using h)

lemma keeps_tupleTarget (hg : g.Keeps S) : S.Keeps (tupleTarget g) fun p => p.node.literals :=
  keeps_targetGroup hg (by decide) (by decide) fun ns => by simp

lemma keeps_listTarget (hg : g.Keeps S) : S.Keeps (listTarget g) fun p => p.node.literals :=
  keeps_targetGroup hg (by decide) (by decide) fun ns => by simp

lemma keeps_wholeGroup (follow : Follow) {p : Parser (Phrase Node)} (hp : S.Keeps p fun q => q.node.literals) :
    S.Keeps (wholeGroup follow p) fun q => q.node.literals := by
  have hquiet : S.Quiet (noTrailer follow) := by
    intro c hc
    rw [noTrailer]
    refine (quiet_look _ _).step (.refl hc) fun _ d h => .fork ?_ <| .pure h
    refine .stay (stays_nextIn _) fun found => ?_
    cases found with
    | true => exact .fail
    | false => exact .pure h
  intro c hc
  rw [wholeGroup]
  exact hp.step (.refl hc) fun a d h => hquiet.step h fun _ d h => .pure h

lemma keeps_simpleTarget (hg : g.Keeps S) (follow : Follow) :
    S.Keeps (simpleTarget g follow) fun p => p.node.literals := by
  intro c hc
  rw [simpleTarget]
  refine (keeps_atom hg follow c hc).bind fun p d h => gives_trailers hg follow h fun ts e h => ?_
  split
  · exact .require fun _ => .pure h
  · exact .require fun _ => .pure h

lemma keeps_starTarget (hg : g.Keeps S) (follow : Follow) :
    S.Keeps (starTarget g follow) fun p => p.node.literals := by
  intro c hc
  rw [starTarget]
  refine (keeps_starPrimary hg follow (fun _ => (stays_pure false).quiet) c hc).bind fun p d h => ?_
  split
  · exact .fail
  · exact .pure h

lemma keeps_target (hg : g.Keeps S) (follow : Follow) : S.Keeps (target g follow) fun p => p.node.literals := by
  intro c hc
  have hsimple := keeps_simpleTarget hg follow
  rw [target]
  refine .get ?_
  split
  · exact keeps_starTarget hg follow c hc
  · exact (keeps_wholeGroup follow (keeps_tupleTarget hg)).or hsimple c hc
  · exact (keeps_wholeGroup follow (keeps_listTarget hg)).or hsimple c hc
  · exact hsimple c hc

end Targets

end Lexis.Source

end SourceBlocks
