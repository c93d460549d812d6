import SourceBlocks.Proofs.Lowering.Parameters

namespace SourceBlocks.ParseTree

open Grammar (Builder Onset Parameter Phrase Piece Role chainOperands headOf joined marked splitName unmarked)
open Lower Lowering
open SourceBlocks.Dialect (demands)
open SourceBlocks.Tree (Node Shape Stored)

variable {t u : ParseTree} {n m : Node} {ts : List ParseTree} {ns : List Node} {p q : Phrase ParseTree} {p' q' : Phrase Node}
  {s : Shape ParseTree} {s' : Shape Node}

section Strings

variable {ps : List Piece}

lemma mapM_decode (h : ps.find? (fun p => (Literal.decode p.text).toOption.isNone) = none) :
    (ps.map ofPiece).mapM decode = pure (ps.filterMap fun p => (Literal.decode p.text).toOption) := by
  induction ps with
  | nil => rfl
  | cons p ps ih =>
    rw [List.find?_cons] at h
    rw [List.map_cons, List.mapM_cons, List.filterMap_cons, decode]
    have htext : (ofPiece p).text = p.text := rfl
    cases hp : Literal.decode p.text with
    | error e => simp [hp, Except.toOption] at h
    | ok d =>
      simp only [hp, Except.toOption, Option.isNone_some] at h
      simp [htext, hp, ih h, Except.toOption]

lemma mapM_decode_of_find {p : Piece} (h : ps.find? (fun p => (Literal.decode p.text).toOption.isNone) = some p) :
    ∃ e, Literal.decode p.text = .error e ∧ (ps.map ofPiece).mapM decode = fault (.refused (.token e)) := by
  induction ps with
  | nil => cases h
  | cons q qs ih =>
    rw [List.find?_cons] at h
    rw [List.map_cons, List.mapM_cons, decode]
    have htext : (ofPiece q).text = q.text := rfl
    cases hq : Literal.decode q.text with
    | error e =>
      simp only [hq, Except.toOption, Option.isNone_none, Option.some.injEq] at h
      subst h
      exact ⟨e, hq, by simp only [htext, hq]; rfl⟩
    | ok d =>
      simp only [hq, Except.toOption, Option.isNone_some] at h
      obtain ⟨e, he, hrest⟩ := ih h
      refine ⟨e, he, ?_⟩
      simp only [htext, hq, pure_bind, hrest]
      rfl

lemma meets_string (start : Position) (text : List Char) (hp : pieces t = ps.map ofPiece) (ht : t.text = text)
    (hspan : t.span = ⟨some start, ps.getLast?.map Piece.stop, Grammar.leadOf? ps⟩) :
    Meets (demands (Builder.string start text ps)) (Lowering.string t) (Node.lower (Builder.string start text ps)) := by
  have hmark : t.mark = some (Grammar.markOf start (Grammar.leadOf? ps)) := by rw [mark, hspan]; rfl
  have hextent : extent t = ⟨start, (ps.getLast?.map Piece.stop).getD start⟩ := by rw [extent, hspan]; rfl
  have hquoted : (pieces t).any (fun p => Lexis.startsWithChar '\x60' p.text) = ps.any Grammar.isBackQuoted := by
    rw [hp, List.any_map]
    rfl
  rw [Lowering.string, hquoted, Grammar.Abstract.string_eq, Grammar.stringShape]
  split
  · rw [demands_mk rfl rfl, hmark]
    exact .push _ _
  · split
    · rename_i p hfind
      obtain ⟨e, he, hmap⟩ := mapM_decode_of_find hfind
      rw [hp, hmap]
      intro s
      rw [Dialect.demands_eq]
      simp [Dialect.own, Node.shape, Dialect.Step.ofShape, Shape.children, Shape.fieldNodes, Shape.fields, Dialect.meetAll,
        Dialect.meet, he]
      rfl
    · rename_i hfind
      rw [hp, mapM_decode hfind, pure_bind, hmark, hextent]
      cases hformatted : (ps.filterMap fun p => (Literal.decode p.text).toOption).any (·.formatted) with
      | true =>
        simp only [hformatted, if_true]
        rw [demands_mk rfl rfl, ParseTree.string, ht]
        exact .push _ _
      | false =>
        simp only [hformatted, Bool.false_eq_true, if_false]
        rw [demands_mk rfl rfl]
        exact .push _ _

lemma stringShape_cases (ps : List Piece) (text : List Char) (w : Tree.Extent) :
    Grammar.stringShape ps text w = .other "repr" [] ∨ (∃ s, Grammar.stringShape ps text w = .unreadableStr s) ∨
      (∃ s, Grammar.stringShape ps text w = .joinedStr s) ∨ ∃ v b, Grammar.stringShape ps text w = .str v b w := by
  simp only [Grammar.stringShape]
  split
  · exact .inl rfl
  · split
    · exact .inr (.inl ⟨_, rfl⟩)
    · split
      · exact .inr (.inr (.inl ⟨_, rfl⟩))
      · exact .inr (.inr (.inr ⟨_, _, rfl⟩))

lemma exists_ofPieces {start : Position} {text : List Char} (hps : ∀ p, ps = [p] → p.start = start ∧ p.text = text) :
    ∃ k ts, (k = .string ∨ k = .concatenatedString) ∧ pieces (ofPieces start text ps) = ps.map ofPiece ∧
      ofPieces start text ps = mk k none ⟨some start, ps.getLast?.map Piece.stop, Grammar.leadOf? ps⟩ text ts := by
  rcases ps with _ | ⟨p, _ | ⟨q, ps⟩⟩
  · exact ⟨_, _, .inr rfl, rfl, rfl⟩
  · obtain ⟨rfl, rfl⟩ := hps p rfl
    exact ⟨_, _, .inl rfl, rfl, rfl⟩
  · refine ⟨_, _, .inr rfl, ?_, rfl⟩
    have hnamed : ∀ t ∈ (p :: q :: ps).map ofPiece, t.isNamed := List.forall_mem_map.mpr fun _ _ => rfl
    exact List.filter_eq_self.mpr hnamed

lemma Value.string (start : Position) (text : List Char) (ps : List Piece)
    (hps : ∀ p, ps = [p] → p.start = start ∧ p.text = text) :
    Value (ofPieces start text ps) (Builder.string start text ps) := by
  obtain ⟨k, ts, hk, hpieces, hof⟩ := exists_ofPieces hps
  have hexpr : Stands (ofPieces start text ps) (Builder.string start text ps) := by
    intro d hd
    obtain ⟨e, rfl, -⟩ := exists_depth hd
    have hmeets := meets_string start text hpieces (by rw [hof]; rfl) (by rw [hof]; rfl)
    rw [expr_upTo_succ]
    rcases hk with rfl | rfl <;> rwa [hof] at hmeets ⊢
  have hhead : headOf (Builder.string start text ps) = .other := by
    rw [Grammar.Abstract.string_eq, headOf, Node.shape]
    rcases stringShape_cases ps text ⟨start, (ps.getLast?.map Piece.stop).getD start⟩ with h | ⟨s, h⟩ | ⟨s, h⟩ | ⟨v, b, h⟩ <;>
      rw [h]
  refine ⟨?_, by rw [hof]; rfl, ?_, .pieces start text ps hps, hexpr, fun d hd => ?_⟩
  · rcases hk with rfl | rfl <;> rw [hof] <;> rfl
  · rw [hhead, hof]
    rcases hk with rfl | rfl <;> rfl
  · have h := hexpr d hd
    rw [hof] at h ⊢
    rcases hk with rfl | rfl <;> exact h

end Strings

section Forms

lemma Value.group (start : Position) (h : Value t n) : Value (Builder.group start t) n := by
  have hnode : Builder.group start t = node (.token start) .parenthesizedExpression [token "(", t, token ")"] := rfl
  have hexpr : Stands (Builder.group start t) n := by
    intro d hd
    obtain ⟨e, rfl, he⟩ := exists_depth hd
    have ht := h.expr e (he t (by simp [hnode]))
    simpa [hnode, expression, wrapped, named, h.isNamed] using ht
  refine ⟨rfl, rfl, ?_, .grouped rfl, hexpr, hexpr⟩
  simp [hnode, node, ParseTree.head, headOfFirst, h.isNamed, h.head]

lemma stands_aliasTarget (text : List Char) (hu : Value u m) : Stands (Builder.aliasTarget text u) m := by
  intro d hd
  obtain ⟨e, rfl, he⟩ := exists_depth hd
  have h := hu.expr e (he u (by simp [Builder.aliasTarget]))
  simpa [Builder.aliasTarget, expression, wrapped, named, hu.isNamed] using h

lemma Value.asPattern {o : Onset} (text : List Char) (ht : Value t n) (hu : Value u m) :
    Value (node o .asPattern [t, Builder.aliasTarget text u]) (.mk o.mark (.other "as_pattern" [n, m])) :=
  .ofOther (k := .asPattern) rfl (fun _ _ => rfl) (fun _ _ _ => rfl)
    (.cons ht.part (.cons (.ofStands (by simp [Builder.aliasTarget, Kind.statements]) (stands_aliasTarget text hu)) .nil))

lemma Value.lambda {o : Onset} {ps : List (Parameter ParseTree)} {ps' : List (Parameter Node)}
    (hs : List.Forall₂ links.Parameters ps ps') (h : Value t n) :
    Value (ofShape o (.lambda (Builder.parameters ps) t)) (.mk o.mark (.lambda (Builder.parameters ps') n)) := by
  refine .ofForm rfl rfl rfl (by simp) rfl rfl fun d hd => ?_
  have hparams := meets_parameters hs .parameters (hd _ (by simp [ofShape]))
  have hmeets := hparams.bind fun i => (h.fill .body (hd _ (by simp [ofShape]))).last fun j => .push o.mark (.lambda i j)
  simpa [-Onset.mark, ofShape, expression, required, part?, Shape.lower, Shape.children, Shape.fieldNodes, Shape.fields,
    Tree.Field.nodes, Stored.ofShape] using hmeets

lemma Value.ofValueForm (h : links.ValueForm s s') (o : Onset) : Value (ofShape o s) (.mk o.mark s') := by
  cases h with
  | num text => exact .num text
  | nameConstant id => exact .nameConstant id
  | name id => exact .name id
  | ellipsis => exact .ellipsis
  | yieldValue h => exact .yieldValue h
  | yieldFrom h => exact .yieldFrom h
  | await h => exact .await h
  | starred h => exact .starred h
  | unaryOp op h => exact .unaryOp op h
  | binOp op h h' => exact .binOp op h h'
  | compare h hs hlen => exact .compare h hs hlen
  | ifExp h h' h'' => exact .ifExp h h' h''
  | namedExpr h h' => exact .namedExpr h h'
  | lambda hs h => exact .lambda hs h
  | list hs => exact .list hs
  | set hs => exact .set hs
  | dict hs => exact .dict hs
  | listComp h hs => exact .listComp h hs
  | setComp h hs => exact .setComp h hs
  | dictComp h h' hs => exact .dictComp h h' hs
  | generatorExp h hs => exact .generatorExp h hs
  | attr id h => exact .attr id h
  | subscript h hi =>
    cases hi with
    | one hi => exact .subscript h hi
    | several hi hs => exact .subscripts h hi hs
  | call h hs =>
    cases hs with
    | list hs => exact .call h hs
    | generator start hg hs => exact .callSole h (.generatorExp (o := .token start) hg hs) rfl
  | other hk hs => exact .other (.inl hk) hs

lemma kind_ofValueForm (h : links.ValueForm s s') (o : Onset) :
    (ofShape o s).kind ∉ [.expressionList, .asPattern, .booleanOperator] := by
  cases h with
  | unaryOp op h =>
    rw [ofShape]
    split <;> simp
  | other hk hs => simp [ofShape, Kind.ofName_of_not_mem hk]
  | _ => simp [ofShape, comprehension]

lemma mark_ofValueForm (h : links.ValueForm s s') (o : Onset) : (ofShape o s).mark = o.mark := by
  cases h with
  | unaryOp op h =>
    rw [ofShape]
    split <;> exact mark_node o _ _
  | _ => simp [-Onset.mark, ofShape, comprehension]

lemma ne_boolOp_of_valueForm (h : links.ValueForm s s') (op : String) (ns : List Node) : s' ≠ .boolOp op ns := by
  cases h <;> simp

end Forms

section Operands

lemma operands_of_ne (h : t.kind ≠ .booleanOperator) (op : List Char) : operands op t = pure [t] := by
  obtain ⟨kind, role, span, text, children⟩ := t
  rw [operands]
  exact if_neg h

lemma chainOperands_of_ne (h : ∀ op ns, p'.node.shape ≠ .boolOp op ns) (op : String) : chainOperands op p' = [p'.node] := by
  rw [chainOperands]
  split
  · exact absurd ‹_› (h _ _)
  · rfl

lemma Operand.plain (hv : Value p.node p'.node) (hstart : p'.start = p.start) (hstop : p'.stop = p.stop)
    (hlead : p'.lead = p.lead) (hmark : p.node.mark = some p'.mark)
    (hkind : p.node.kind ∉ [.expressionList, .asPattern, .booleanOperator]) (haliased : p'.aliased = none)
    (hchain : ∀ op, chainOperands op p' = [p'.node]) : Operand p p' := by
  simp only [List.mem_cons, List.not_mem_nil, or_false, not_or] at hkind
  refine ⟨hv, hstart, hstop, hlead, hmark, hkind.1, .none hkind.2.1 ?_, fun op r => ⟨[p.node.fill r], ?_, ?_⟩⟩
  · rw [splitName, haliased]
  · exact operands_of_ne (by rw [kind_fill]; exact hkind.2.2) _
  · rw [hchain]
    exact .cons ⟨Nat.le_of_eq (depth_fill r p.node), hv.expr.fill r⟩ .nil

lemma Operand.leaf (start : Position) (stop : Nat) (h : links.ValueForm s s') :
    Operand (.leaf start stop s) (.leaf start stop s') :=
  .plain (.ofValueForm h (.token start)) rfl rfl rfl (mark_ofValueForm h (.token start))
    (kind_ofValueForm h (.token start)) rfl (chainOperands_of_ne (ne_boolOp_of_valueForm h))

lemma Operand.phrases (h : Operand p p') : links.Phrases p p' := ⟨h.value, h.start, h.stop, h.lead⟩

lemma mark_eq (h : links.Phrases p p') : p'.mark = p.mark := by
  rw [Phrase.mark, Phrase.mark, h.lead, h.start]
  rfl

lemma Operand.extend (stop : Nat) (hp : links.Phrases p p') (h : links.ValueForm s s') :
    Operand (p.extend stop s) (p'.extend stop s') := by
  refine .plain ?_ hp.start rfl hp.lead ?_ (kind_ofValueForm h _) rfl (chainOperands_of_ne (ne_boolOp_of_valueForm h))
  · rw [Phrase.extend, Phrase.extend, Grammar.Abstract.opening_eq, mark_eq hp]
    exact .ofValueForm h (.part p.start p.lead)
  · have hmark : (p'.extend stop s').mark = p'.mark := rfl
    rw [hmark, mark_eq hp]
    exact mark_ofValueForm h (.part p.start p.lead)

lemma Operand.string (start : Position) (stop : Nat) (text : List Char) (ps : List Piece)
    (hps : ∀ p, ps = [p] → p.start = start ∧ p.text = text) :
    Operand ⟨Builder.string start text ps, start, stop, Grammar.leadOf? ps, false, none⟩
      ⟨Builder.string start text ps, start, stop, Grammar.leadOf? ps, false, none⟩ := by
  obtain ⟨k, ts, hk, -, hof⟩ := exists_ofPieces hps
  have hstring : (Builder.string start text ps : ParseTree) =
      ParseTree.mk k none ⟨some start, ps.getLast?.map Piece.stop, Grammar.leadOf? ps⟩ text ts := hof
  refine .plain (.string start text ps hps) rfl rfl rfl ?_ ?_ rfl (chainOperands_of_ne fun op ns => ?_)
  · rw [hstring]
    rfl
  · rw [hstring]
    rcases hk with rfl | rfl <;> simp
  · rw [Grammar.Abstract.string_eq, Node.shape]
    rcases stringShape_cases ps text ⟨start, (ps.getLast?.map Piece.stop).getD start⟩ with h | ⟨s, h⟩ | ⟨s, h⟩ | ⟨v, b, h⟩ <;>
      simp [h]

lemma Operand.group (start : Position) (stop : Nat) (h : links.Phrases p p') :
    Operand (p.group start stop) (p'.group start stop) :=
  .plain (h.value.group start) rfl rfl rfl rfl (by simp [Phrase.group, Builder.group]) rfl fun _ => rfl

section Joined

variable (op : String) (r : Option Role) (o : Onset)

lemma operands_joined : operands op.toList (mk .booleanOperator r (.ofOnset o) []
      [t.fill .left, (token op).fill .operator, u.fill .right]) =
    operands op.toList (t.fill .left) >>= fun ts => pure (ts ++ [u.fill .right]) := by
  simp [operands, required, part?, leftOperands]

lemma operands_joined_of_ne {op' : String} (h : op' ≠ op) : operands op'.toList (mk .booleanOperator r (.ofOnset o) []
      [t.fill .left, (token op).fill .operator, u.fill .right]) =
    pure [mk .booleanOperator r (.ofOnset o) [] [t.fill .left, (token op).fill .operator, u.fill .right]] := by
  simp [operands, required, part?, String.toList_inj, h.symm]

lemma Operand.chain (hp : Operand p p') (hq : links.Phrases q q') : Operand (joined op p q) (joined op p' q') := by
  obtain ⟨ts, hts, hrel⟩ := hp.spine op .left
  obtain ⟨hdepth, hrel⟩ := (List.forall₂_and_left _ _).mp hrel
  have hall : List.Forall₂ Stands (ts ++ [q.node.fill .right]) (chainOperands op p' ++ [q'.node]) :=
    List.rel_append hrel (.cons (hq.value.expr.fill .right) .nil)
  have hnode : (joined op p q).node = node (.part p.start p.lead) .booleanOperator
    [p.node.fill .left, (token op).fill .operator, q.node.fill .right] := rfl
  have hmark : (joined op p' q').mark = p'.mark := rfl
  have hnode' : (joined op p' q').node = .mk (some p.mark) (.boolOp op (chainOperands op p' ++ [q'.node])) := by
    rw [← mark_eq hp.phrases]
    rfl
  have hoperands : ∀ r, operands op.toList (ParseTree.mk .booleanOperator r (.ofOnset (.part p.start p.lead)) []
      [p.node.fill .left, (token op).fill .operator, q.node.fill .right]) = pure (ts ++ [q.node.fill .right]) := fun r => by
    rw [operands_joined, hts]
    rfl
  have hparts : ∀ d, (∀ c ∈ (joined op p q).node.children, c.depth ≤ d) → ∀ c ∈ ts ++ [q.node.fill .right], c.depth ≤ d := by
    intro d hd
    have hleft : p.node.depth ≤ d := depth_fill .left p.node ▸ hd (p.node.fill .left) (by simp [hnode])
    refine List.forall_mem_append.mpr ⟨fun c hc => (hdepth c hc).trans hleft, fun c hc => hd c ?_⟩
    simp_all
  have hvalue : Value (joined op p q).node (joined op p' q').node := by
    rw [hnode']
    refine .ofForm rfl rfl rfl (by simp) rfl rfl fun d hd => ?_
    have h := (Stands.all hall (hparts d hd)).last fun is => .push (some p.mark) (.boolOp op is)
    have hboolean : expression (upTo d) (joined op p q).node =
        (upTo d).all (ts ++ [q.node.fill .right]) >>= fun is => push (some p.mark) (.boolOp op is) := by
      rw [hnode]
      simp [expression, boolean, required, part?, node, hoperands, Phrase.mark]
    rw [hboolean]
    simpa [Shape.lower, Shape.children, Shape.fieldNodes, Shape.fields, Tree.Field.nodes, Stored.ofShape] using h
  refine ⟨hvalue, hp.start, hq.stop, hp.lead, ?_, by simp [hnode], .none (by simp [hnode]) rfl, fun op' r => ?_⟩
  · rw [hmark, mark_eq hp.phrases, hnode, mark_node]
    rfl
  · by_cases hop : op' = op
    · subst hop
      refine ⟨ts ++ [q.node.fill .right], hoperands (some r), ?_⟩
      have hchain : chainOperands op' (joined op' p' q') = chainOperands op' p' ++ [q'.node] := by
        rw [chainOperands, hnode']
        exact if_pos rfl
      rw [hchain]
      exact (List.forall₂_and_left _ _).mpr ⟨hparts _ fun c hc => depth_le_of_mem hc le_rfl, hall⟩
    · refine ⟨[(joined op p q).node.fill r], operands_joined_of_ne op (some r) _ hop, ?_⟩
      have hchain : chainOperands op' (joined op p' q') = [(joined op p' q').node] := by
        rw [chainOperands, hnode']
        exact if_neg (Ne.symm hop)
      rw [hchain]
      exact .cons ⟨Nat.le_of_eq (depth_fill r _), hvalue.expr.fill r⟩ .nil

end Joined

lemma Operand.withName (text : List Char) (hp : links.Phrases p p') (hq : links.Phrases q q') :
    Operand { p.extend q.stop (.other "as_pattern" [p.node, Builder.aliasTarget text q.node]) with aliased := some text }
      { p'.extend q'.stop (.other "as_pattern" [p'.node, Builder.aliasTarget text q'.node]) with
        aliased := some text } := by
  have hvalue : Value (p.opening (.other "as_pattern" [p.node, Builder.aliasTarget text q.node]))
      (p'.opening (.other "as_pattern" [p'.node, Builder.aliasTarget text q'.node])) := by
    rw [Grammar.Abstract.opening_eq, mark_eq hp]
    exact .asPattern (o := .part p.start p.lead) text hp.value hq.value
  have hkind : (p.opening (.other "as_pattern" [p.node, Builder.aliasTarget text q.node])).kind = .asPattern := rfl
  exact {
    value := hvalue
    start := hp.start
    stop := hq.stop
    lead := hp.lead
    mark := congrArg some (mark_eq hp).symm
    kind := by simp [Phrase.extend, hkind]
    aliased := .some (.part p.start p.lead) text hp.value hq.value rfl rfl rfl
    spine := fun op r => ⟨_, operands_of_ne (by simp [Phrase.extend, hkind]) _,
      .cons ⟨Nat.le_of_eq (depth_fill r _), hvalue.expr.fill r⟩ .nil⟩ }

lemma Operand.tuple (start : Position) (stop : Nat) (h : List.Forall₂ Value ts ns) :
    Operand (.leaf start stop (.tuple ts)) (.leaf start stop (.tuple ns)) :=
  .plain (.tuple (o := .token start) h) rfl rfl rfl rfl (by simp [Phrase.leaf, Builder.node, ofShape]) rfl
    (chainOperands_of_ne (by simp [Phrase.leaf, Node.shape]))

lemma Value.openTuple (hp : links.Phrases p p') (h : List.Forall₂ Value ts ns) :
    Value (p.opening (.tuple ts)) (p'.opening (.tuple ns)) := by
  rw [Grammar.Abstract.opening_eq, mark_eq hp]
  exact .tuple (o := .part p.start p.lead) h

lemma Value.ofOperands {ps : List (Phrase ParseTree)} {ps' : List (Phrase Node)} (h : List.Forall₂ Operand ps ps') :
    List.Forall₂ Value (ps.map Phrase.node) (ps'.map Phrase.node) := by
  rw [List.forall₂_map_left_iff, List.forall₂_map_right_iff]
  exact h.imp fun _ _ => Operand.value

lemma meets_loose {ps : List (Phrase ParseTree)} {ps' : List (Phrase Node)} {d : Nat} (u : ParseTree) (hp : Operand p p')
    (hq : Operand q q') (hs : List.Forall₂ Operand ps ps') (hd : ∀ c ∈ (p :: q :: ps).map Phrase.node, c.depth ≤ d) :
    Meets (demands (Builder.loose (.part p'.start p'.lead) ((p' :: q' :: ps').map Phrase.node)))
      (loose (upTo d) u ((p :: q :: ps).map Phrase.node))
      (Node.lower (Builder.loose (.part p'.start p'.lead) ((p' :: q' :: ps').map Phrase.node))) := by
  have hmark : p.node.mark = (Onset.part p'.start p'.lead).mark := hp.mark
  have h := (Value.all (Value.ofOperands (.cons hp (.cons hq hs))) hd).last fun is => .push p.node.mark (.tuple is)
  rw [Grammar.Abstract.loose_eq, ← hmark, demands_mk rfl rfl]
  simpa [loose, Node.lower, Shape.lower, Shape.children, Shape.fieldNodes, Shape.fields, Tree.Field.nodes,
    Stored.ofShape] using h

lemma Iterated.ofSource (h : links.Source t n) : Iterated t n := by
  cases h with
  | one hp =>
    have hexposed := exposed_of_isValue hp.value.kind
    refine ⟨by simp [hexposed, hp.value.role], fun u d hd => ?_⟩
    rw [hexposed] at hd ⊢
    simpa [Lowering.loose, hp.value.isNamed] using hp.value.expr d (hd _ (by simp))
  | @several p q p' q' ps ps' hp hq hs =>
    have hvalues := Value.ofOperands (.cons hp (.cons hq hs))
    have hexposed : (Builder.loose (.part p.start p.lead) ((p :: q :: ps).map Phrase.node) : ParseTree).exposed =
      separated ((p :: q :: ps).map Phrase.node) := rfl
    refine ⟨fun c hc => ?_, fun u d hd => ?_⟩
    · rcases mem_of_mem_separated (hexposed ▸ hc) with rfl | hc
      · rfl
      · exact Value.forall_role hvalues c hc
    · have hnamed := filter_separated (Value.forall_isNamed hvalues)
      have h := meets_loose u hp hq hs fun c hc => hd c (hexposed ▸ mem_separated hc)
      rw [← hnamed] at h
      exact h

end Operands

end SourceBlocks.ParseTree
