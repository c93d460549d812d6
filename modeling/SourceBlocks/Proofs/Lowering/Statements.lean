import SourceBlocks.Proofs.Lowering.Operands

namespace SourceBlocks.ParseTree

open Grammar (Assigned Builder Onset Phrase Piece Role marked unmarked)
open Lower Lowering
open SourceBlocks.Dialect (Demand demands)
open SourceBlocks.Tree (Mark Node Shape Stored)

variable {t u v : ParseTree} {n m k : Node} {ts us : List ParseTree} {ns ms : List Node} {p q : Phrase ParseTree}
  {p' q' : Phrase Node} {d : Nat} {o : Onset}

attribute [local simp] ofShape Lowering.statement required part? named Shape.lower Shape.children Shape.fieldNodes
  Shape.fields Tree.Field.nodes Stored.ofShape

namespace Statement

variable {s : Shape Node} {mark : Option Mark}

lemma forall_isNamed (h : List.Forall₂ Statement ts ns) : ∀ t ∈ ts, t.isNamed := by
  induction h with
  | nil => simp
  | cons h _ ih => exact List.forall_mem_cons.mpr ⟨h.isNamed, ih⟩

lemma ofMeets (hk : t.kind ∉ [.token, .block, .expressionStatement]) (hs : ∀ m, s ≠ .expr m)
    (h : ∀ d, (∀ c ∈ t.children, c.depth ≤ d) →
      Meets (demands (.mk mark s)) (Lowering.statement (upTo d) t) (Node.lower (.mk mark s))) :
    Statement t (.mk mark s) := by
  simp only [List.mem_cons, List.not_mem_nil, or_false, not_or] at hk
  refine ⟨isNamed_iff.mpr hk.1, hk.2.1, .other (fun h => absurd h hk.2.2) fun _ _ _ _ => hs _, fun d hd => ?_⟩
  obtain ⟨e, rfl, he⟩ := exists_depth hd
  exact h e he

lemma ofForm (hk : t.kind ∉ [.token, .block, .expressionStatement]) (hs : ∀ m, s ≠ .expr m)
    (hown : Dialect.own (.mk mark s) = []) (hsteps : Dialect.Step.ofShape s = s.children.map .visit)
    (h : ∀ d, (∀ c ∈ t.children, c.depth ≤ d) → Meets (s.children.flatMap demands) (Lowering.statement (upTo d) t)
      (s.lower >>= fun c => Tree.Arena.push ⟨mark, .ofShape c⟩)) : Statement t (.mk mark s) :=
  .ofMeets hk hs fun d hd => (h d hd).congr (demands_mk hown hsteps) (by rw [Node.lower])

section Simple

lemma pass : Statement (ofShape o .pass) (.mk o.mark .pass) := by
  refine .ofForm (by simp) (by simp) rfl rfl fun d _ => ?_
  simpa [-Onset.mark] using Meets.push o.mark .pass

lemma breakLoop : Statement (ofShape o .breakLoop) (.mk o.mark .breakLoop) := by
  refine .ofForm (by simp) (by simp) rfl rfl fun d _ => ?_
  simpa [-Onset.mark] using Meets.push o.mark .breakLoop

lemma continueLoop : Statement (ofShape o .continueLoop) (.mk o.mark .continueLoop) := by
  refine .ofForm (by simp) (by simp) rfl rfl fun d _ => ?_
  simpa [-Onset.mark] using Meets.push o.mark .continueLoop

lemma returnValue {t : Option ParseTree} {n : Option Node} (ht : Option.Rel Value t n) :
    Statement (ofShape o (.returnValue t)) (.mk o.mark (.returnValue n)) := by
  refine .ofForm (by simp) (by simp) rfl rfl fun d hd => ?_
  have h := (Value.optional ht fun c hc => hd c (by simp_all)).last fun i => .push o.mark (.returnValue i)
  cases ht with
  | none => simpa [-Onset.mark] using h
  | some ht => simpa [-Onset.mark, ht.isNamed] using h

lemma delete {ps : List (Phrase ParseTree)} {ps' : List (Phrase Node)} (hs : List.Forall₂ Operand ps ps') :
    Statement (ofShape o (.delete (ps.map Phrase.node))) (.mk o.mark (.delete (ps'.map Phrase.node))) := by
  refine .ofForm (by simp) (by simp) rfl rfl fun d hd => ?_
  have hvalues := Value.ofOperands hs
  have hmeets : (∀ c ∈ ps.map Phrase.node, c.depth ≤ d) → _ := fun hall =>
    (Value.all hvalues hall).last fun is => .push o.mark (.delete is)
  have hlist : Lowering.statement (upTo d)
      (node o .deleteStatement [token "del", inner .expressionList (separated (ps.map Phrase.node))]) =
      (upTo d).all (ps.map Phrase.node) >>= fun is => push o.mark (.delete is) := by
    simp [-Onset.mark, filter_separated (Value.forall_isNamed hvalues)]
  rcases hs with _ | ⟨hp, _ | ⟨hq, hs⟩⟩
  · exact hlist ▸ hmeets (by simp)
  · have h := hmeets (by simpa using hd _ (by simp))
    simpa [-Onset.mark, hp.value.isNamed, hp.kind, Lowering.all] using h
  · have h := hmeets fun c hc =>
      depth_le_of_mem (t := inner .expressionList _) (mem_separated hc) (hd _ (List.mem_cons_of_mem _ List.mem_cons_self))
    rw [← hlist] at h
    simpa [-Onset.mark] using h

lemma raise {t u : Option ParseTree} {n m : Option Node} (ht : Option.Rel Value t n) (hu : Option.Rel Value u m) :
    Statement (ofShape o (.raise t u)) (.mk o.mark (.raise n m)) := by
  refine .ofForm (by simp) (by simp) rfl rfl fun d hd => ?_
  have h := (Value.optional ht fun c hc => hd c (by simp_all)).bind fun i =>
    (Value.optional_fill hu .cause fun c hc => hd _ (by simp_all)).last fun j => .push o.mark (.raise i j)
  cases ht with
  | none => cases hu <;> simpa [-Onset.mark] using h
  | some ht => cases hu <;> simpa [-Onset.mark, ht.isNamed, ht.hasRole] using h

lemma globalNames (ids : List String) : Statement (ofShape o (.globalNames ids)) (.mk o.mark (.globalNames ids)) := by
  refine .ofForm (by simp) (by simp) rfl rfl fun d _ => ?_
  have hnamed : ∀ t ∈ ids.map (fun id => leaf .identifier id.toList), t.isNamed := List.forall_mem_map.mpr fun _ _ => rfl
  simpa [-Onset.mark, filter_separated hnamed, Function.comp_def] using Meets.push o.mark (.globalNames ids)

lemma nonlocalNames (ids : List String) :
    Statement (ofShape o (.nonlocalNames ids)) (.mk o.mark (.nonlocalNames ids)) := by
  refine .ofForm (by simp) (by simp) rfl rfl fun d _ => ?_
  have hnamed : ∀ t ∈ ids.map (fun id => leaf .identifier id.toList), t.isNamed := List.forall_mem_map.mpr fun _ _ => rfl
  simpa [-Onset.mark, filter_separated hnamed, Function.comp_def] using Meets.push o.mark (.nonlocalNames ids)

lemma typeAlias (ht : Value t n) (hu : Value u m) : Statement (ofShape o (.other "type_alias_statement" [t, u]))
    (.mk o.mark (.other "type_alias_statement" [n, m])) := by
  have hnode : ofShape o (.other "type_alias_statement" [t, u]) = node o .typeAliasStatement [t, u] := rfl
  rw [hnode]
  exact .ofMeets (by simp) (by simp) fun d hd =>
    meets_parts (k := .typeAliasStatement) (.cons ht.part (.cons hu.part .nil)) hd

lemma assertion {t' : Option ParseTree} {n' : Option Node} (ht : Value t n) (ht' : Option.Rel Value t' n')
    (hus : t' = none → us = []) :
    Statement ((ofShape o (.assertion t t')).append us) (.mk o.mark (.assertion n n')) := by
  refine .ofForm (by simp [node, append]) (by simp) rfl rfl fun d hd => ?_
  have hparts : ∀ c ∈ t :: t'.toList, c.depth ≤ d := fun c hc =>
    hd c (List.mem_append_left _ (List.mem_cons_of_mem _ (mem_separated hc)))
  have h := (ht.expr d (hparts t (by simp))).bind fun i => (Value.optional ht' fun c hc => hparts c (by simp_all)).last
    fun j => .push o.mark (.assertion i j)
  cases ht' with
  | none =>
    simp only [hus rfl]
    simpa [-Onset.mark, node, append, separated, ht.isNamed] using h
  | some ht' => simpa [-Onset.mark, node, append, separated, ht.isNamed, ht'.isNamed] using h

lemma exec (ht : Value t n) (hs : List.Forall₂ Value ts ns) :
    Statement ((ofShape o (.exec t ts[0]? ts[1]?)).append (ts.drop 2)) (.mk o.mark (.exec n ns[0]? ns[1]?)) := by
  refine .ofForm (by simp [node, append]) (by simp) rfl rfl fun d hd => ?_
  have hbody := ht.expr d (hd t (by simp [node, append]))
  rcases hs with _ | ⟨ha, _ | ⟨hb, _⟩⟩
  · have h := hbody.last fun i => .push o.mark (.exec i none none)
    simpa [-Onset.mark, node, append, ht.isNamed, Lowering.optional, Tree.lowerMaybe] using h
  · have h := hbody.bind fun i => (ha.expr d (hd _ (by simp [node, append]))).last fun j =>
      .push o.mark (.exec i (some j) none)
    simpa [-Onset.mark, node, append, ht.isNamed, ha.isNamed, Lowering.optional, Tree.lowerMaybe] using h
  · have h := hbody.bind fun i => (ha.expr d (hd _ (by simp [node, append]))).bind fun j =>
      (hb.expr d (hd _ (by simp [node, append]))).last fun l => .push o.mark (.exec i (some j) (some l))
    simpa [-Onset.mark, node, append, ht.isNamed, ha.isNamed, hb.isNamed, Lowering.optional, Tree.lowerMaybe] using h

end Simple

section Print

lemma meets_printed (hs : List.Forall₂ Value ts ns) (hd : ∀ t ∈ ts, t.depth ≤ d) (r : Option Nat × List Nat) :
    Meets (ns.flatMap demands) (ts.foldlM (printed (upTo d)) r) ((fun is => (r.1, r.2 ++ is)) <$> Tree.lowerAll ns) := by
  induction hs generalizing r with
  | nil => simpa [Tree.lowerAll] using Meets.pure r
  | cons ht _ ih =>
    obtain ⟨hdt, hds⟩ := List.forall_mem_cons.mp hd
    have hkind := Kind.ne_of_isValue ht.kind (m := .chevron) rfl
    have h := (ht.expr d hdt).bind fun i => ih hds (r.1, r.2 ++ [i])
    simpa [printed, hkind, Tree.lowerAll] using h

lemma print {t : Option ParseTree} {n : Option Node} {start : Position} (newline : Bool) (ht : Option.Rel Value t n)
    (hs : List.Forall₂ Value ts ns) : Statement (ofShape (.token start) (.print t ts newline))
      (.mk (some (.known start)) (.print n ns newline)) := by
  refine .ofMeets (by simp) (by simp) fun d hd => ?_
  let parts := t.toList.map (fun c => inner .chevron [token ">>", c]) ++ ts
  have hdepth : ∀ c ∈ parts, c.depth ≤ d := fun c hc =>
    hd c (List.mem_append_left _ (List.mem_cons_of_mem _ (mem_separated hc)))
  have hnamed : ∀ c ∈ parts, c.isNamed :=
    List.forall_mem_append.mpr ⟨List.forall_mem_map.mpr fun _ _ => rfl, Value.forall_isNamed hs⟩
  have hends : (token "print" :: separated parts ++ (if newline then [] else [token ","])).getLast?.any (isToken ",") =
      !newline := by
    cases newline with
    | false => simp [List.getLast?_cons]
    | true =>
      rw [if_pos rfl, List.append_nil, List.getLast?_cons, getLast?_separated]
      cases hlast : parts.getLast? with
      | none => simp
      | some c => simp [isToken_of_isNamed (hnamed c (List.mem_of_getLast? hlast))]
  have hprinted : Meets (n.toList.flatMap demands ++ ns.flatMap demands) (parts.foldlM (printed (upTo d)) (none, []))
      (Tree.lowerMaybe n >>= fun i => (fun is => (i, is)) <$> Tree.lowerAll ns) := by
    have htail := fun i => meets_printed hs (fun c hc => hdepth c (List.mem_append_right _ hc)) (i, [])
    cases ht with
    | none => simpa [parts, Tree.lowerMaybe] using htail none
    | @some c _ ht =>
      have hc : c.depth ≤ d := depth_le_of_mem (t := inner .chevron [token ">>", c]) (by simp) (hdepth _ (by simp [parts]))
      have h := (ht.expr d hc).bind fun i => htail (some i)
      simpa [parts, printed, Lowering.optional, ht.isNamed, Tree.lowerMaybe] using h
  have h := (Meets.meet (.printStatement start)).bind fun _ => hprinted.last fun r =>
    .push (some (.known start)) (.print r.1 r.2 newline)
  have hdemands : demands (.mk (some (.known start)) (.print n ns newline)) =
      [.printStatement start] ++ (n.toList.flatMap demands ++ ns.flatMap demands) := by
    rw [Dialect.demands_eq]
    simp [Dialect.own, Node.shape, Dialect.placeOf, Node.mark, Dialect.Step.ofShape, List.flatMap_map, Dialect.Step.demands]
  have hparts : (ofShape (.token start) (.print t ts newline)).named = parts := by
    cases newline <;> simpa [-Onset.mark, List.filter_append] using filter_separated hnamed
  have hprint : Lowering.statement (upTo d) (ofShape (.token start) (.print t ts newline)) =
      meet (.printStatement start) >>= fun _ => parts.foldlM (printed (upTo d)) (none, []) >>= fun r =>
        push (some (.known start)) (.print r.1 r.2 newline) := by
    have hrow := congrArg (fun b => !b) hends
    rw [Bool.not_not] at hrow
    change Lowering.print (upTo d) (ofShape (.token start) (.print t ts newline)) = _
    rw [Lowering.print, hparts]
    exact congrArg (fun b => meet (.printStatement start) >>= fun _ => parts.foldlM (printed (upTo d)) (none, []) >>=
      fun r => push (some (.known start)) (.print r.1 r.2 b)) hrow
  rw [hdemands, hprint]
  simpa [Node.lower] using h

end Print

section Imports

lemma meets_importAlias (h : Imported t n) : Meets [] (Prod.snd <$> importAlias t) n.lower := by
  obtain ⟨-, -, name, asname, rfl, h⟩ := h
  rw [h]
  simpa [Node.lower] using Meets.push none (.importAlias name asname t.span.place)

lemma meets_imported (h : List.Forall₂ Imported ts ns) :
    Meets [] (List.map Prod.snd <$> ts.mapM importAlias) (Tree.lowerAll ns) := by
  induction h with
  | nil => exact .pure []
  | cons ht _ ih =>
    have h := (meets_importAlias ht).step fun i => ih.step fun is => .pure (i :: is)
    simpa [Tree.lowerAll] using h

lemma forall_imported (h : List.Forall₂ Imported ts ns) : ∀ t ∈ ts, t.isNamed ∧ t.role = none := by
  induction h with
  | nil => simp
  | cons h _ ih => exact List.forall_mem_cons.mpr ⟨⟨h.isNamed, h.role⟩, ih⟩

lemma demands_imported (h : List.Forall₂ Imported ts ns) : ns.flatMap demands = [] := by
  induction h with
  | nil => rfl
  | cons h _ ih =>
    obtain ⟨-, -, name, asname, rfl, -⟩ := h
    rw [List.flatMap_cons, ih, demands_mk rfl rfl]
    rfl

lemma importNames (h : List.Forall₂ Imported ts ns) :
    Statement (ofShape o (.importNames ts)) (.mk o.mark (.importNames ns)) := by
  refine .ofForm (by simp) (by simp) rfl rfl fun d hd => ?_
  have hmeets := (meets_imported h).step fun is => .push o.mark (.importNames is)
  have hnamed := filter_separated fun t ht => (forall_imported h t ht).1
  simpa [-Onset.mark, demands_imported h, hnamed] using hmeets

lemma meets_features (h : List.Forall₂ Imported ts ns) :
    Meets (ns.flatMap Dialect.featureDemand) (ts.mapM feature) (Tree.lowerAll ns) := by
  rw [lowerAll_eq_mapM]
  refine .mapM (h.imp fun t n ht => ?_)
  obtain ⟨-, -, name, asname, rfl, h⟩ := ht
  have hfeature := (Meets.push none (.importAlias name asname t.span.place)).step fun i =>
    (Meets.meet (.feature name t.span.place)).last fun _ => .pure i
  simpa [feature, h, Node.lower, Dialect.featureDemand, Node.shape] using hfeature

lemma futureImport (h : List.Forall₂ Imported ts ns) :
    Statement (node o .futureImportStatement ([token "from", token "__future__", token "import"] ++ separated ts))
      (.mk o.mark (.importFrom (some Dialect.featureModule) ns 0)) := by
  refine .ofMeets (by simp) (by simp) fun d hd => ?_
  have hdemands : demands (.mk o.mark (.importFrom (some Dialect.featureModule) ns 0)) =
      ns.flatMap Dialect.featureDemand := by
    rw [Dialect.demands_eq]
    simp [Dialect.own, Node.shape, Dialect.Step.ofShape, List.flatMap_map, Dialect.Step.demands, demands_imported h]
  have hnamed := filter_separated fun t ht => (forall_imported h t ht).1
  have hmeets := (meets_features h).last fun is => .push o.mark (.importFrom (some Dialect.featureModule) is 0)
  rw [hdemands]
  simpa [-Onset.mark, Lowering.futureImport, hnamed, Node.lower] using hmeets

lemma importFrom (source : Option String) (level : Nat) (h : List.Forall₂ Imported ts ns) :
    Statement (ofShape o (.importFrom source ts level)) (.mk o.mark (.importFrom source ns level)) := by
  rw [ofShape, ParseTree.importFrom]
  split
  · rename_i hfuture
    obtain ⟨rfl, rfl⟩ := hfuture
    exact futureImport h
  rename_i hfuture
  have hown : Dialect.own (.mk o.mark (.importFrom source ns level)) = [] := by
    rw [Dialect.own, Node.shape]
    split
    · cases ‹Shape.importFrom _ _ _ = _›
    · obtain ⟨rfl, -, rfl⟩ := Shape.importFrom.inj ‹_›
      exact if_neg fun h => hfuture ⟨congrArg some h, rfl⟩
    · cases ‹Shape.importFrom _ _ _ = _›
    · rfl
  refine .ofForm (by simp) (by simp) hown rfl fun d hd => ?_
  have hrole : ∀ t ∈ ts, t.hasRole .moduleName = false := fun t ht => hasRole_of_role (forall_imported h t ht).2 _
  have hnames : (separated ts).filter (fun c => !c.hasRole .moduleName && c.isNamed) = ts := by
    rw [← List.filter_filter, filter_separated fun t ht => (forall_imported h t ht).1]
    exact List.filter_eq_self.mpr fun t ht => by simp [hrole t ht]
  have hnone : (separated ts).find? (hasRole .moduleName) = none := by
    refine List.find?_eq_none.mpr fun t ht => ?_
    rcases mem_of_mem_separated ht with rfl | ht
    · simp
    · simp [hrole t ht]
  have hmeets := (meets_imported h).step fun is => .push o.mark (.importFrom source is level)
  cases source <;> by_cases hlevel : level = 0 <;>
    simpa [-Onset.mark, Lowering.importFrom, importedModule, ParseTree.text, hlevel, hnames,
      hnone, demands_imported h] using hmeets

end Imports

section Values

lemma ofLiteral (h : Literal t n) {mark : Mark} (hmark : t.mark = some mark) :
    LiteralStatement (node o .expressionStatement [t]) (.mk (some mark) (.expr n)) := by
  cases h with
  | pieces start text ps hps =>
    obtain ⟨k, ts, -, -, hof⟩ := exists_ofPieces hps
    rw [hof] at hmark
    obtain rfl := Option.some.inj hmark
    exact .pieces o start text ps
  | grouped hkind => exact .grouped rfl (by simp [isNamed_iff, hkind]) hkind
  | other hstring hconcat hshape =>
    refine .other (fun _ u hu => ?_) fun m v b w hexpr => hshape v b w ?_
    · obtain rfl : u = t := by
        have hmem : u ∈ [t] := List.mem_of_mem_filter (hu.symm ▸ List.mem_singleton_self u)
        exact List.mem_singleton.mp hmem
      rw [literals?, if_neg hstring, if_neg hconcat]
    · rw [Shape.expr.inj hexpr, Node.shape]

lemma expr (hp : Operand p p') : Statement (p.opening (.expr p.node)) (p'.opening (.expr p'.node)) := by
  have hnode : p.opening (.expr p.node) = node (.part p.start p.lead) .expressionStatement [p.node] := by
    rw [← exposed_of_isValue hp.value.kind]
    rfl
  rw [hnode, Grammar.Abstract.opening_eq]
  refine ⟨rfl, by simp, ofLiteral hp.value.literal hp.mark, fun d hd => ?_⟩
  obtain ⟨e, rfl, he⟩ := exists_depth hd
  have hassign := Kind.ne_of_isValue hp.value.kind (m := .assignment) rfl
  have haug := Kind.ne_of_isValue hp.value.kind (m := .augmentedAssignment) rfl
  have h := (hp.value.expr e (he _ (by simp))).last fun i => .push (some p.mark) (.expr i)
  rw [mark_eq hp.phrases, demands_mk rfl rfl]
  simpa [expressionStatement, hp.value.isNamed, hassign, haug, Node.lower, Phrase.mark] using h

lemma exprs {ps : List (Phrase ParseTree)} {ps' : List (Phrase Node)} (hp : Operand p p') (hq : Operand q q')
    (hs : List.Forall₂ Operand ps ps') :
    Statement (p.opening (.expr (Builder.loose (.part p.start p.lead) ((p :: q :: ps).map Phrase.node))))
      (p'.opening (.expr (Builder.loose (.part p'.start p'.lead) ((p' :: q' :: ps').map Phrase.node)))) := by
  have hnode : p.opening (.expr (Builder.loose (.part p.start p.lead) ((p :: q :: ps).map Phrase.node))) =
    node (.part p.start p.lead) .expressionStatement (separated ((p :: q :: ps).map Phrase.node)) := rfl
  have hnamed : (node (.part p.start p.lead) .expressionStatement (separated ((p :: q :: ps).map Phrase.node))).named =
    (p :: q :: ps).map Phrase.node := filter_separated (Value.forall_isNamed (Value.ofOperands (.cons hp (.cons hq hs))))
  rw [hnode, Grammar.Abstract.opening_eq]
  have hliteral : ∀ m v b w, Shape.expr (Builder.loose (.part p'.start p'.lead) ((p' :: q' :: ps').map Phrase.node)) ≠
      .expr (Node.mk m (.str v b w)) := fun m v b w hexpr => by
    rw [Grammar.Abstract.loose_eq] at hexpr
    simp at hexpr
  refine ⟨rfl, by simp, .other (fun _ u hu => ?_) hliteral, fun d hd => ?_⟩
  · rw [hnamed] at hu
    cases hu
  obtain ⟨e, rfl, he⟩ := exists_depth hd
  have h := (meets_loose (node (.part p.start p.lead) .expressionStatement (separated ((p :: q :: ps).map Phrase.node)))
    hp hq hs fun c hc => he c (mem_separated hc)).last fun i => .push (Onset.part p.start p.lead).mark (.expr i)
  have hstatement : Lowering.statement (upTo e)
      (node (.part p.start p.lead) .expressionStatement (separated ((p :: q :: ps).map Phrase.node))) =
      expressionStatement (upTo e)
        (node (.part p.start p.lead) .expressionStatement (separated ((p :: q :: ps).map Phrase.node))) := rfl
  have hmark : some p'.mark = (Onset.part p.start p.lead).mark := congrArg some (mark_eq hp.phrases)
  rw [hmark, demands_mk rfl rfl, stmt_upTo_succ, hstatement, expressionStatement, hnamed]
  simpa [-Onset.mark, Node.lower] using h

end Values

end Statement

end SourceBlocks.ParseTree
