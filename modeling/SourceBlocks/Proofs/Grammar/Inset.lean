import SourceBlocks.Proofs.Grammar.Linked.Module

namespace SourceBlocks.Grammar

open Lexis Grammar.Parser Outcome
open SourceBlocks.Tree (Extent Mark Node Shape)

variable {w : Nat}

attribute [local simp] Shape.inset Function.comp_def

namespace Phrase

def inset (w : Nat) (p : Phrase Node) : Phrase Node := { p with node := p.node.inset w, start := p.start.inset w }

variable (p : Phrase Node)

@[simp] lemma node_inset : (p.inset w).node = p.node.inset w := rfl

@[simp] lemma stop_inset : (p.inset w).stop = p.stop := rfl

@[simp] lemma mark_inset : (p.inset w).mark = p.mark.inset w := by
  obtain ⟨node, start, stop, lead, grouped, aliased⟩ := p
  cases lead <;> rfl

end Phrase

lemma Onset.mark_inset (onset : Onset) : (onset.inset w).mark = onset.mark.map (Mark.inset w) := by
  cases onset with
  | token start => rfl
  | part start lead => cases lead <;> rfl
  | hidden => rfl

lemma node_inset (onset : Onset) {s s' : Shape Node} (h : s' = s.inset w) :
    (Builder.node (onset.inset w) s' : Node) = (Builder.node onset s : Node).inset w := by
  rw [h, Abstract.node_eq, Abstract.node_eq, Onset.mark_inset, Node.inset]

@[reducible] def insetLinks (w : Nat) : Links Node where
  shift := w
  value t n := n = t.inset w
  operand p p' := p' = p.inset w
  statement t n := n = t.inset w
  clause t n := n = t.inset w
  item t n := n = t.inset w
  handler t n := n = t.inset w
  imported t n := n = t.inset w
  arg t n := n = t.inset w

namespace Links

lemma maybe_inset {t n : Option Node} (h : Option.Rel (fun t n => n = Node.inset w t) t n) : n = t.map (Node.inset w) := by
  cases h with
  | none => rfl
  | some h => rw [h, Option.map_some]

lemma positional_inset {ps ps' : List (Parameter Node)} (h : List.Forall₂ (insetLinks w).Parameters ps ps') :
    Parameter.positional ps' =
      (Parameter.positional ps).map (Prod.map (Node.inset w) (Option.map (Node.inset w))) := by
  induction h with
  | nil => rfl
  | cons hp _ ih =>
    cases hp with
    | named ha hd =>
      obtain rfl := ha
      simp [Parameter.positional, ih, maybe_inset hd]
    | _ => simp [Parameter.positional, ih]

lemma keywordOnly_inset {ps ps' : List (Parameter Node)} (h : List.Forall₂ (insetLinks w).Parameters ps ps')
    (behind : Bool) : Parameter.keywordOnly behind ps' =
      (Parameter.keywordOnly behind ps).map (Prod.map (Node.inset w) (Option.map (Node.inset w))) := by
  induction h generalizing behind with
  | nil => rfl
  | cons hp _ ih =>
    cases hp with
    | named ha hd =>
      obtain rfl := ha
      cases behind <;> simp [Parameter.keywordOnly, ih, maybe_inset hd]
    | _ => simp [Parameter.keywordOnly, ih]

lemma restNames_inset {ps ps' : List (Parameter Node)} (h : List.Forall₂ (insetLinks w).Parameters ps ps') :
    ps'.filterMap Parameter.restName? = ps.filterMap Parameter.restName? := by
  induction h with
  | nil => rfl
  | cons hp _ ih => cases hp <;> simp [List.filterMap_cons, Parameter.restName?, ih]

lemma optionsNames_inset {ps ps' : List (Parameter Node)} (h : List.Forall₂ (insetLinks w).Parameters ps ps') :
    ps'.filterMap Parameter.optionsName? = ps.filterMap Parameter.optionsName? := by
  induction h with
  | nil => rfl
  | cons hp _ ih => cases hp <;> simp [List.filterMap_cons, Parameter.optionsName?, ih]

lemma parameters_inset {ps ps' : List (Parameter Node)} (h : List.Forall₂ (insetLinks w).Parameters ps ps') :
    (Builder.parameters ps' : Node) = (Builder.parameters ps : Node).inset w := by
  simp [Parameter.shape, unmarked, Node.inset, positional_inset h, keywordOnly_inset h, restNames_inset h,
    optionsNames_inset h]

lemma index_inset {t n : Node} (h : (insetLinks w).Index t n) : n = t.inset w := by
  cases h with
  | one h => exact h
  | several h hs =>
    obtain rfl := h
    simp [Node.inset, Node.mark_inset, eq_map_of_forall₂ hs]

lemma args_inset {ts ns : List Node} (h : (insetLinks w).Args ts ns) : ns = ts.map (Node.inset w) := by
  cases h with
  | list h => exact eq_map_of_forall₂ h
  | generator start h hs =>
    obtain rfl := h
    simp [marked, Node.inset, Mark.inset, eq_map_of_forall₂ hs]

lemma entries_inset {es es' : List (Option Node × Node)}
    (h : List.Forall₂ (fun e e' => Option.Rel (fun t n => n = Node.inset w t) e.1 e'.1 ∧ e'.2 = e.2.inset w) es es') :
    es' = es.map (Prod.map (Option.map (Node.inset w)) (Node.inset w)) :=
  eq_map_of_forall₂ (h.imp fun _ _ he => Prod.ext (maybe_inset he.1) he.2)

lemma valueForm_inset {s s' : Shape Node} (h : (insetLinks w).ValueForm s s') : s' = s.inset w := by
  cases h with
  | num | nameConstant | name | ellipsis => rfl
  | yieldValue h => simp [maybe_inset h]
  | yieldFrom h | await h | starred h | unaryOp _ h | attr _ h => rw [h, Shape.inset]
  | binOp _ h h' | namedExpr h h' => rw [h, h', Shape.inset]
  | ifExp h h' h'' => rw [h, h', h'', Shape.inset]
  | compare h hs _ => rw [h, eq_map_of_forall₂ hs, Shape.inset, Tree.insetAll_eq]
  | lambda hps h => rw [h, parameters_inset hps, Shape.inset]
  | list hs | set hs | other _ hs => rw [eq_map_of_forall₂ hs, Shape.inset, Tree.insetAll_eq]
  | dict hs => rw [entries_inset hs, Shape.inset, Tree.insetEntries_eq]
  | listComp h hs | setComp h hs | generatorExp h hs =>
    rw [h, eq_map_of_forall₂ hs, Shape.inset, Tree.insetAll_eq]
  | dictComp h h' hs => rw [h, h', eq_map_of_forall₂ hs, Shape.inset, Tree.insetAll_eq]
  | subscript h hi => rw [h, index_inset hi, Shape.inset]
  | call h hs => rw [h, args_inset hs, Shape.inset, Tree.insetAll_eq]

lemma nodes_inset {ps ps' : List (Phrase Node)} (h : List.Forall₂ (fun p p' => p' = Phrase.inset w p) ps ps') :
    ps'.map Phrase.node = (ps.map Phrase.node).map (Node.inset w) := by
  rw [eq_map_of_forall₂ h, List.map_map, List.map_map]
  rfl

lemma opening_inset {p p' : Phrase Node} (hp : (insetLinks w).Phrases p p') {s s' : Shape Node} (h : s' = s.inset w) :
    p'.opening s' = (p.opening s).inset w := by
  rw [Phrase.opening, Phrase.opening, hp.start, hp.lead]
  exact node_inset (.part p.start p.lead) h

lemma extend_inset {p p' : Phrase Node} (hp : (insetLinks w).Phrases p p') (stop : Nat) {s s' : Shape Node}
    (h : s' = s.inset w) : p'.extend stop s' = (p.extend stop s).inset w := by
  rw [Phrase.extend, opening_inset hp h, hp.start, hp.lead]
  rfl

lemma phrases_inset (p : Phrase Node) : (insetLinks w).Phrases p (p.inset w) := ⟨rfl, rfl, rfl, rfl⟩

lemma loose_inset (p : Phrase Node) (ns : List Node) :
    (Builder.loose (.part (p.inset w).start (p.inset w).lead) (ns.map (Node.inset w)) : Node) =
      (Builder.loose (.part p.start p.lead) ns : Node).inset w :=
  opening_inset (phrases_inset p) (by simp)

lemma source_inset {t n : Node} (h : (insetLinks w).Source t n) : n = t.inset w := by
  cases h with
  | one h => rw [h, Phrase.node_inset]
  | several h hq hs =>
    obtain rfl := h
    rw [nodes_inset (.cons hq hs), Phrase.node_inset, ← List.map_cons]
    exact loose_inset _ _

lemma headOf_inset (n : Node) : headOf (n.inset w) = headOf n := by
  rw [headOf, headOf, Node.shape_inset]
  cases n.shape <;> rfl

lemma stringShape_inset (ps : List Piece) (text : List Char) (written : Extent) :
    stringShape (ps.map (Piece.inset w)) text (written.inset w) = (stringShape ps text written).inset w := by
  have hback : (ps.map (Piece.inset w)).any isBackQuoted = ps.any isBackQuoted := by
    rw [List.any_map]
    rfl
  have hbad : (ps.map (Piece.inset w)).find? (fun p => (Literal.decode p.text).toOption.isNone) =
      (ps.find? fun p => (Literal.decode p.text).toOption.isNone).map (Piece.inset w) := by
    rw [List.find?_map]
    rfl
  have hgood : (ps.map (Piece.inset w)).filterMap (fun p => (Literal.decode p.text).toOption) =
      ps.filterMap fun p => (Literal.decode p.text).toOption := by
    rw [List.filterMap_map]
    rfl
  simp only [stringShape, hback, hbad, hgood]
  cases ps.find? fun p => (Literal.decode p.text).toOption.isNone with
  | some p =>
    simp only [Option.map_some]
    split_ifs <;> rfl
  | none =>
    simp only [Option.map_none]
    split_ifs <;> rfl

lemma string_inset (start : Position) (text : List Char) (ps : List Piece) :
    (Builder.string (start.inset w) text (ps.map (Piece.inset w)) : Node) =
      (Builder.string start text ps : Node).inset w := by
  have hlast : ((ps.map (Piece.inset w)).getLast?.map Piece.stop).getD (start.inset w) =
      ((ps.getLast?.map Piece.stop).getD start).inset w := by
    rw [List.getLast?_map]
    cases ps.getLast? <;> rfl
  have hmark : ∀ lead, markOf (start.inset w) lead = (markOf start lead).inset w := fun lead => by
    cases lead <;> rfl
  simp only [Abstract.string_eq, hlast, leadOf?_inset, hmark]
  rw [Node.inset, ← stringShape_inset]
  rfl

lemma chainOperands_inset (op : String) (p : Phrase Node) :
    chainOperands op (p.inset w) = (chainOperands op p).map (Node.inset w) := by
  obtain ⟨⟨mark, shape⟩, start, stop, lead, grouped, aliased⟩ := p
  cases grouped with
  | true => rfl
  | false =>
    cases shape with
    | boolOp o values =>
      simp only [chainOperands, Phrase.inset, Node.inset, Shape.inset, Node.shape]
      split_ifs <;> simp [Node.inset]
    | _ => rfl

lemma splitName_inset (p : Phrase Node) :
    splitName (p.inset w) = Prod.map (Node.inset w) (Option.map (Node.inset w)) (splitName p) := by
  obtain ⟨⟨mark, shape⟩, start, stop, lead, grouped, aliased⟩ := p
  cases aliased with
  | none => rfl
  | some =>
    cases shape with
    | other kind parts => rcases parts with _ | ⟨_, _ | ⟨_, _ | _⟩⟩ <;> rfl
    | _ => rfl

lemma catches_inset {c c' : Caught Node} (h : (insetLinks w).Catches c c') :
    c'.type = c.type.map (Node.inset w) ∧ c'.name = c.name := by
  cases h with
  | all => exact ⟨rfl, rfl⟩
  | pair id h =>
    obtain rfl := h
    exact ⟨rfl, rfl⟩
  | phrase h =>
    obtain rfl := h
    rw [Caught.ofPhrase, Caught.ofPhrase, Abstract.unalias_eq, Abstract.unalias_eq, splitName_inset]
    rcases splitName _ with ⟨type, _ | id⟩ <;> exact ⟨rfl, rfl⟩

lemma otherwise_inset {ts ns : List Node} (h : (insetLinks w).Otherwise ts ns) : ns = ts.map (Node.inset w) := by
  cases h with
  | nothing => rfl
  | clause h => exact eq_map_of_forall₂ h

lemma orelse_inset {ts ns : List Node} (h : (insetLinks w).Orelse ts ns) : ns = ts.map (Node.inset w) := by
  induction h with
  | last h => exact otherwise_inset h
  | further start ht hb _ ih =>
    obtain rfl := ht
    simp [marked, Node.inset, Mark.inset, eq_map_of_forall₂ hb, ih]

lemma final_inset {ts ns : List Node} (h : (insetLinks w).Final ts ns) : ns = ts.map (Node.inset w) := by
  cases h with
  | nothing => rfl
  | clause h => exact eq_map_of_forall₂ h

lemma guard_inset {ts ns : List Node} (h : (insetLinks w).Guard ts ns) : ns = ts.map (Node.inset w) := by
  cases h with
  | nothing => rfl
  | test start h =>
    obtain rfl := h
    simp [marked, Node.inset, Mark.inset]

lemma statementForm_inset {s s' : Shape Node} (h : (insetLinks w).StatementForm s s') : s' = s.inset w := by
  cases h with
  | pass | breakLoop | continueLoop | globalNames | nonlocalNames => rfl
  | returnValue h => simp [maybe_inset h]
  | delete h => simp [nodes_inset h]
  | raise h h' => simp [maybe_inset h, maybe_inset h']
  | importNames h | importFrom _ _ h => simp [eq_map_of_forall₂ h]
  | print _ h hs => simp [maybe_inset h, eq_map_of_forall₂ hs]
  | typeAlias h h' => simp [show _ = _ from h, show _ = _ from h']
  | branch h hb ho => simp [show _ = _ from h, eq_map_of_forall₂ hb, orelse_inset ho]
  | whileLoop h hb ho => simp [show _ = _ from h, eq_map_of_forall₂ hb, otherwise_inset ho]
  | forLoop _ h h' hb ho =>
    simp [show _ = _ from h, show _ = _ from h', eq_map_of_forall₂ hb, otherwise_inset ho]
  | withBlock _ hs hb => simp [eq_map_of_forall₂ hs, eq_map_of_forall₂ hb]
  | tryBlock hb hs ho hf =>
    simp [eq_map_of_forall₂ hb, eq_map_of_forall₂ hs, otherwise_inset ho, final_inset hf]
  | functionDef _ _ hs hps h hb =>
    rw [eq_map_of_forall₂ hs, parameters_inset hps, maybe_inset h, eq_map_of_forall₂ hb]
    simp
  | classDef _ hs hs' hb => simp [eq_map_of_forall₂ hs, eq_map_of_forall₂ hs', eq_map_of_forall₂ hb]
  | choice hs hb => simp [eq_map_of_forall₂ hs, eq_map_of_forall₂ hb]
  | case hs hg hb => simp [eq_map_of_forall₂ hs, guard_inset hg, eq_map_of_forall₂ hb]

lemma assigned_node_inset {a a' : Assigned Node} (h : (insetLinks w).Assignments a a') : a'.node = a.node.inset w := by
  induction h with
  | value h => exact h.value
  | plain h _ ih => exact opening_inset h (by simp [show _ = _ from h.value, ih])
  | hinted h h' => exact opening_inset h (by simp [show _ = _ from h.value, show _ = _ from h'.value])
  | typed h h' _ ih => exact opening_inset h (by simp [show _ = _ from h.value, show _ = _ from h'.value, ih])
  | augmented _ h _ ih => exact opening_inset h (by simp [show _ = _ from h.value, ih])

lemma assigned_chain_inset {a a' : Assigned Node} (h : (insetLinks w).Assignments a a') :
    a'.chain = (a.chain.1.map (Node.inset w), a.chain.2.inset w) := by
  induction h with
  | value h => exact Prod.ext rfl h.value
  | plain h _ ih => simp [Assigned.chain, ih, show _ = _ from h.value]
  | hinted h h' => exact Prod.ext rfl (assigned_node_inset (.hinted h h'))
  | typed h h' ha => exact Prod.ext rfl (assigned_node_inset (.typed h h' ha))
  | augmented op h ha => exact Prod.ext rfl (assigned_node_inset (.augmented op h ha))

lemma assigned_statement_inset {a a' : Assigned Node} (h : (insetLinks w).Assignments a a') :
    a'.statement = a.statement.inset w := by
  cases h with
  | value h => exact opening_inset h (by simp [show _ = _ from h.value])
  | plain h ha => exact opening_inset h (by simp [show _ = _ from h.value, assigned_chain_inset ha])
  | hinted h h' => exact opening_inset h (by simp [show _ = _ from h.value, show _ = _ from h'.value])
  | typed h h' ha =>
    exact opening_inset h (by simp [show _ = _ from h.value, show _ = _ from h'.value, assigned_node_inset ha])
  | augmented op h ha => exact opening_inset h (by simp [show _ = _ from h.value, assigned_node_inset ha])

lemma aliased_inset (text : List Char) {p q p' q' : Phrase Node} (hp : (insetLinks w).Phrases p p')
    (hq : (insetLinks w).Phrases q q') :
    { p'.extend q'.stop (.other "as_pattern" [p'.node, q'.node]) with aliased := some text } =
      Phrase.inset w { p.extend q.stop (.other "as_pattern" [p.node, q.node]) with aliased := some text } := by
  have hshape : Shape.other "as_pattern" [p'.node, q'.node] = Shape.inset w (.other "as_pattern" [p.node, q.node]) := by
    rw [hp.value, hq.value]
    rfl
  rw [extend_inset hp _ hshape, hq.stop]
  rfl

lemma lawful_insetLinks (w : Nat) : (insetLinks w).Lawful where
  phrases := by
    rintro p _ rfl
    exact phrases_inset p
  head := by
    rintro t _ rfl
    exact (headOf_inset t).symm
  leaf start stop h := by
    obtain rfl := valueForm_inset h
    rfl
  extend stop hp h := extend_inset hp stop (valueForm_inset h)
  string start stop text ps _ := by
    rw [string_inset]
    rfl
  group start stop h := by
    rw [Phrase.group, Phrase.group, Abstract.group_eq, Abstract.group_eq, h.value]
    rfl
  joined op hp hq := by
    obtain rfl := hp
    rw [joined, joined, hq.stop]
    exact extend_inset (phrases_inset _) _ (by simp [chainOperands_inset, show _ = _ from hq.value])
  aliased text hp hq := aliased_inset text hp hq
  tuple start stop h := by
    rw [eq_map_of_forall₂ h, ← Tree.insetAll_eq]
    rfl
  openTuple hp h := opening_inset hp (by rw [eq_map_of_forall₂ h, Shape.inset, Tree.insetAll_eq])
  other onset _ h := node_inset onset (by rw [eq_map_of_forall₂ h, Shape.inset, Tree.insetAll_eq])
  keyword id h := node_inset .hidden (by rw [h, Shape.inset])
  slice h h' h'' := node_inset .hidden (by simp [maybe_inset h, maybe_inset h', maybe_inset h''])
  clause isAsync h hu hs := node_inset .hidden
    (by rw [h, source_inset hu, eq_map_of_forall₂ hs, Shape.inset, Tree.insetAll_eq])
  arg start id h := node_inset (.token start) (by rw [maybe_inset h, Shape.inset, Tree.insetMaybe_eq])
  item := by
    rintro p _ rfl
    exact node_inset .hidden (by simp [splitName_inset])
  handler start h hb := node_inset (.token start)
    (by rw [(catches_inset h).1, (catches_inset h).2, eq_map_of_forall₂ hb, Shape.inset, Tree.insetAll_eq,
      Tree.insetMaybe_eq])
  imported start written asname := node_inset .hidden rfl
  statement start h := node_inset (.token start) (statementForm_inset h)
  assertion start h hs := by
    obtain rfl := h
    exact node_inset (.token start) (by simp [eq_map_of_forall₂ hs])
  exec start h hs := node_inset (.token start) (by simp [show _ = _ from h, eq_map_of_forall₂ hs])
  expr := by
    rintro p _ rfl
    exact opening_inset (phrases_inset p) (by rw [Shape.inset, Phrase.node_inset])
  exprs h hq hs := by
    obtain rfl := h
    refine opening_inset (phrases_inset _) ?_
    rw [nodes_inset (.cons rfl (.cons hq hs)), loose_inset, Shape.inset]
  assignment := fun h _ => assigned_statement_inset h

end Links

lemma read_inset (margin : Nat) (source : List Char) :
    Agree (fun e e' => e' = e.inset w) (fun n n' => n' = n.inset w) (read margin source : Except Position Node)
      (read (margin + w) source) := by
  refine (read_linked (Links.lawful_insetLinks w) margin source).mono ?_
  rintro _ _ ⟨ts, ns, rfl, rfl, h⟩
  exact node_inset .hidden (by rw [eq_map_of_forall₂ h, Shape.inset, Tree.insetAll_eq])

end SourceBlocks.Grammar
