import SourceBlocks.Proofs.Lowering.Statements

namespace SourceBlocks.ParseTree

open Grammar (Assigned Builder Caught Onset Parameter Phrase Role marked unmarked)
open Lower Lowering
open SourceBlocks.Dialect (demands)
open SourceBlocks.Tree (Mark Node Shape Stored)

variable {t u : ParseTree} {n m : Node} {ts us vs : List ParseTree} {ns ms ks : List Node} {p : Phrase ParseTree}
  {p' : Phrase Node} {d : Nat} {o : Onset}

attribute [local simp] ofShape Lowering.statement required part? named Shape.lower Shape.children Shape.fieldNodes
  Shape.fields Tree.Field.nodes Stored.ofShape

section Suites

lemma Statement.bodyPart (h : Statement t n) (hd : t.depth ≤ d) :
    Meets ([n].flatMap demands) (Lowering.bodyPart (upTo d) t) (Tree.lowerAll [n]) := by
  have hone := (h.stmt d hd).last fun i => Meets.pure [i]
  simpa [Lowering.bodyPart, h.kind, Tree.lowerAll] using hone

lemma meets_body (hc : t.children = ts) (h : List.Forall₂ Statement ts ns) (hd : t.depth ≤ d) :
    Meets (ns.flatMap demands) ((upTo d).body t) (Tree.lowerAll ns) := by
  obtain ⟨e, rfl, he⟩ := exists_depth hd
  subst hc
  have hnamed : t.named = t.children := List.filter_eq_self.mpr (Statement.forall_isNamed h)
  have hparts : List.Forall₂ (fun c ms => Meets (ms.flatMap demands) (bodyPart (upTo e) c) (Tree.lowerAll ms)) t.named
      (ns.map ([·])) := by
    rw [hnamed, List.forall₂_map_right_iff]
    exact ((List.forall₂_and_left _ _).mpr ⟨he, h⟩).imp fun c n h => h.2.bodyPart h.1
  have hflat := Meets.flatten hparts
  rw [← List.flatMap_def, List.flatMap_singleton'] at hflat
  simpa [statements] using hflat

lemma meets_suite (r : Role) (h : List.Forall₂ Statement ts ns) (hd : (suite r ts).depth ≤ d) :
    Meets (ns.flatMap demands) (bodyPart (upTo d) (suite r ts)) (Tree.lowerAll ns) := meets_body rfl h hd

lemma meets_continued (word : String) (h : List.Forall₂ Statement ts ns) (hd : (continued word ts).depth ≤ d) :
    Meets (ns.flatMap demands) (clauseBody (upTo d) (continued word ts)) (Tree.lowerAll ns) := by
  by_cases hword : word = "finally"
  · rw [continued, if_pos hword] at hd ⊢
    exact meets_body (t := inner .block ts) rfl h (depth_le_of_mem (by simp) hd)
  · rw [continued, if_neg hword] at hd ⊢
    exact meets_suite .body h (depth_le_of_mem (by simp) hd)

lemma meets_alternative (hu : links.Otherwise us ms) (hd : ∀ c ∈ us, c.depth ≤ d)
    (ht : t.part? .alternative = us.find? (hasRole .alternative)) :
    Meets (ms.flatMap demands) (alternative (upTo d) t) (Tree.lowerAll ms) := by
  rw [alternative, ht]
  cases hu with
  | nothing => exact .pure []
  | clause hu => exact meets_continued "else" hu (hd _ List.mem_cons_self)

lemma meets_elseChain (h : links.Orelse us ms) (hd : ∀ c ∈ us, c.depth ≤ d) :
    Meets (ms.flatMap demands) (elseChain (upTo d) us) (Tree.lowerAll ms) := by
  induction h with
  | last h =>
    cases h with
    | nothing => exact .pure []
    | clause h => exact meets_continued "else" h (hd _ List.mem_cons_self)
  | @further t n ts us ns ms start ht hs _ ih =>
    obtain ⟨hfirst, hrest⟩ := List.forall_mem_cons.mp hd
    have hmeets := (ht.fill .condition (depth_le_of_mem (by simp) hfirst)).bind fun i =>
      (meets_suite .consequence hs (depth_le_of_mem (by simp) hfirst)).bind fun is => (ih hrest).last fun js =>
        (Meets.push (some (.known start)) (.branch i is js)).step fun l => .pure [l]
    have hdemands : demands (marked start (.branch n ns ms)) = demands n ++ (ns.flatMap demands ++ ms.flatMap demands) := by
      rw [marked, Grammar.Abstract.node_eq, demands_mk rfl rfl]
      simp
    have hinset : start.inset links.shift = start := rfl
    rw [Grammar.Abstract.furtherBranch_eq, hinset, List.flatMap_singleton, hdemands]
    simpa [Builder.furtherBranch, elseChain, Tree.lowerAll, Node.lower, marked] using hmeets

lemma kind_of_mem_orelse (h : links.Orelse us ms) :
    ∀ c ∈ us, c.isNamed ∧ (c.kind = .elifClause ∨ c.kind = .elseClause) := by
  induction h with
  | last h =>
    cases h with
    | nothing => simp
    | clause h => exact List.forall_mem_singleton.mpr ⟨rfl, .inr rfl⟩
  | further start ht hs _ ih => exact List.forall_mem_cons.mpr ⟨⟨rfl, .inl rfl⟩, ih⟩

end Suites

@[local simp] lemma find_async (b : Bool) (r : Role) : (async b).find? (hasRole r) = none := by cases b <;> simp [async]

@[local simp] lemma filter_async (b : Bool) : (async b).filter isNamed = [] := by cases b <;> simp [async]

@[local simp] lemma isToken_async (b : Bool) {s : String} (hs : s ≠ "async") :
    isToken "async" ((async b).head?.getD (token s)) = b := by cases b <;> simp [async, hs]

namespace Statement

section Branches

lemma branch (ht : Value t n) (hs : List.Forall₂ Statement ts ns) (hu : links.Orelse us ms) :
    Statement (ofShape o (.branch t ts us)) (.mk o.mark (.branch n ns ms)) := by
  refine .ofForm (by simp) (by simp) rfl rfl fun d hd => ?_
  have h := (ht.fill .condition (hd _ (by simp))).bind fun i => (meets_suite .consequence hs (hd _ (by simp))).bind
    fun is => (meets_elseChain hu fun c hc => hd c (by simp [hc])).last fun js => .push o.mark (.branch i is js)
  have hclauses : us.filter (fun c => (c.kind = .elifClause || c.kind = .elseClause) && c.isNamed) = us :=
    List.filter_eq_self.mpr fun c hc => by simpa [and_comm] using kind_of_mem_orelse hu c hc
  have helif := Kind.ne_of_isValue ht.kind (m := .elifClause) rfl
  have helse := Kind.ne_of_isValue ht.kind (m := .elseClause) rfl
  simpa [-Onset.mark, hclauses, helif, helse] using h

lemma whileLoop (ht : Value t n) (hs : List.Forall₂ Statement ts ns) (hu : links.Otherwise us ms) :
    Statement (ofShape o (.whileLoop t ts us)) (.mk o.mark (.whileLoop n ns ms)) := by
  refine .ofForm (by simp) (by simp) rfl rfl fun d hd => ?_
  have halternative := meets_alternative (t := ofShape o (.whileLoop t ts us)) hu (fun c hc => hd c (by simp [hc])) (by simp)
  have h := (ht.fill .condition (hd _ (by simp))).bind fun i => (meets_suite .body hs (hd _ (by simp))).bind fun is =>
    halternative.last fun js => .push o.mark (.whileLoop i is js)
  simpa [-Onset.mark] using h

lemma forLoop (isAsync : Bool) (ht : Value t n) (hu : Value u m) (hs : List.Forall₂ Statement ts ns)
    (hv : links.Otherwise vs ks) :
    Statement (ofShape o (.forLoop t u ts vs isAsync)) (.mk o.mark (.forLoop n m ns ks isAsync)) := by
  refine .ofForm (by simp) (by simp) rfl rfl fun d hd => ?_
  have halternative := meets_alternative (t := ofShape o (.forLoop t u ts vs isAsync)) hv (fun c hc => hd c (by simp [hc]))
    (by simp)
  have h := (ht.fill .left (hd _ (by simp))).bind fun i => (hu.fill .right (hd _ (by simp))).bind fun j =>
    (meets_suite .body hs (hd _ (by simp))).bind fun is => halternative.last fun js =>
      .push o.mark (.forLoop i j is js isAsync)
  simpa [-Onset.mark, startsAsync] using h

end Branches

section With

lemma item (hp : Operand p p') : Item (Grammar.withItem p) (Grammar.withItem p') := by
  have hnode : Grammar.withItem p = inner .withItem [p.node.fill .value] := rfl
  have hnode' : Grammar.withItem p' = .mk none (.withItem (Grammar.splitName p').1 (Grammar.splitName p').2) := rfl
  rw [hnode, hnode']
  refine ⟨rfl, fun d hd => ?_⟩
  have hdepth : (p.node.fill .value).depth ≤ d := depth_le_of_mem (t := inner .withItem _) List.mem_cons_self hd
  rw [demands_mk rfl rfl]
  cases hp.aliased with
  | none hkind hsplit =>
    have h := (hp.value.fill .value hdepth).last fun i => .push none (.withItem i none)
    simpa [hsplit, hkind, withItem, Node.lower, Tree.lowerMaybe] using h
  | @some t u n m o text ht hu hpattern hsplit _ =>
    have hparts : ∀ c ∈ [t, Builder.aliasTarget text u], c.depth ≤ d := fun c hc =>
      depth_le_of_mem (t := p.node.fill .value) (by rw [hpattern]; exact hc) hdepth
    have h := (ht.expr d (hparts t (by simp))).bind fun i => (stands_aliasTarget text hu d (hparts _ (by simp))).last
      fun j => .push none (.withItem i (some j))
    have halias : (Builder.aliasTarget text u).hasRole .alias = true := rfl
    simpa [hpattern, hsplit, withItem, Node.lower, Tree.lowerMaybe, Lowering.optional, ht.isNamed, ht.hasRole,
      halias] using h

lemma meets_items (hs : List.Forall₂ Item ts ns) (hd : ∀ t ∈ ts, t.depth ≤ d) :
    Meets (ns.flatMap demands) (ts.mapM (withItem (upTo d))) (Tree.lowerAll ns) := by
  rw [lowerAll_eq_mapM]
  exact .mapM (((List.forall₂_and_left _ _).mpr ⟨hd, hs⟩).imp fun t n h => h.2.item d h.1)

lemma forall_item (h : List.Forall₂ Item ts ns) : ∀ t ∈ ts, t.isNamed := by
  induction h with
  | nil => simp
  | cons h _ ih => exact List.forall_mem_cons.mpr ⟨h.isNamed, ih⟩

lemma withBlock (isAsync : Bool) (hs : List.Forall₂ Item ts ns) (hu : List.Forall₂ Statement us ms) :
    Statement (ofShape o (.withBlock ts us isAsync)) (.mk o.mark (.withBlock ns ms isAsync)) := by
  refine .ofForm (by simp) (by simp) rfl rfl fun d hd => ?_
  have hitems : ∀ t ∈ ts, t.depth ≤ d := fun t ht =>
    depth_le_of_mem (t := inner .withClause (separated ts)) (mem_separated ht) (hd _ (by simp))
  have h := (meets_items hs hitems).bind fun is => (meets_suite .body hu (hd _ (by simp))).last fun js =>
    .push o.mark (.withBlock is js isAsync)
  simpa [-Onset.mark, startsAsync, filter_separated (forall_item hs), List.filter_append] using h

end With

section Try

lemma handler {a : Caught ParseTree} {a' : Caught Node} (ha : links.Catches a a') (hs : List.Forall₂ Statement ts ns) :
    Handler (ofShape o (.exceptHandler a.type a.name ts)) (.mk o.mark (.exceptHandler a'.type a'.name ns)) := by
  refine ⟨rfl, fun d hd => ?_⟩
  have hchildren : ∀ c ∈ (ofShape o (.exceptHandler a.type a.name ts)).children, c.depth ≤ d := fun _ h =>
    depth_le_of_mem h hd
  have hbody := meets_body (t := inner .block ts) rfl hs (hchildren _ (by simp))
  rw [demands_mk rfl rfl]
  cases ha with
  | all =>
    have h := hbody.last fun is => .push o.mark (.exceptHandler none none is)
    simpa [-Onset.mark, Lowering.handler, clauseBody, Lowering.bodyPart, Node.lower, Tree.lowerMaybe] using h
  | @pair p p' id hp =>
    have hkind := Kind.ne_of_isValue hp.value.kind (m := .block) rfl
    have h := (hp.value.expr d (hchildren _ (by simp))).bind fun i => hbody.last fun is =>
      .push o.mark (.exceptHandler (some i) (some id) is)
    simpa [-Onset.mark, Lowering.handler, clauseBody, Lowering.bodyPart, Node.lower, Tree.lowerMaybe, hkind,
      hp.value.isNamed, hp.value.hasRole] using h
  | @phrase p p' hp =>
    have hkind := Kind.ne_of_isValue hp.value.kind (m := .block) rfl
    have hcaught : (Caught.ofPhrase p : Caught ParseTree) = ⟨some p.node, none⟩ := rfl
    rw [hcaught] at hchildren ⊢
    cases hp.aliased with
    | none has hsplit =>
      have hcaught' : Caught.ofPhrase p' = ⟨some p'.node, none⟩ := by
        rw [Caught.ofPhrase, Grammar.Abstract.unalias_eq, hsplit]
      have h := (hp.value.expr d (hchildren _ (by simp))).bind fun i => hbody.last fun is =>
        .push o.mark (.exceptHandler (some i) none is)
      simpa [-Onset.mark, Lowering.handler, clauseBody, Lowering.bodyPart, Node.lower, Tree.lowerMaybe, hkind, hcaught', has,
        hp.value.isNamed, hp.value.hasRole] using h
    | @some t u n m o' text ht hu hpattern hsplit haliased =>
      have hcaught' : Caught.ofPhrase p' = ⟨some n, some (String.ofList text)⟩ := by
        rw [Caught.ofPhrase, Grammar.Abstract.unalias_eq, hsplit, haliased]
        rfl
      have hdepth : t.depth ≤ d := depth_le_of_mem (t := p.node) (by simp [hpattern]) (hchildren _ (by simp))
      have h := (ht.expr d hdepth).bind fun i => hbody.last fun is =>
        .push o.mark (.exceptHandler (some i) (some (String.ofList text)) is)
      have halias : (Builder.aliasTarget text u).hasRole .alias = true := rfl
      have htext : (Builder.aliasTarget text u).string = String.ofList text := rfl
      simpa [-Onset.mark, Lowering.handler, clauseBody, Lowering.bodyPart, Node.lower, Tree.lowerMaybe, hcaught', hpattern,
        Lowering.optional, ht.isNamed, ht.hasRole, halias, htext] using h

lemma foldlM_handlers (g : Lowering) (hs : List.Forall₂ Handler ts ns) (c : Clauses) :
    ts.foldlM (tryClause g) c = ts.mapM (Lowering.handler g) >>= fun is => pure { c with handlers := c.handlers ++ is } := by
  induction hs generalizing c with
  | nil => simp
  | cons ht _ ih => simp [tryClause, ht.kind, ih]

lemma meets_handlers (hs : List.Forall₂ Handler ts ns) (hd : ∀ t ∈ ts, t.depth ≤ d) :
    Meets (ns.flatMap demands) (ts.mapM (Lowering.handler (upTo d))) (Tree.lowerAll ns) := by
  rw [lowerAll_eq_mapM]
  exact .mapM (((List.forall₂_and_left _ _).mpr ⟨hd, hs⟩).imp fun t n h => h.2.handler d h.1)

lemma forall_handler (h : List.Forall₂ Handler ts ns) : ∀ t ∈ ts, t.isNamed ∧ t.kind = .exceptClause := by
  induction h with
  | nil => simp
  | cons h _ ih => exact List.forall_mem_cons.mpr ⟨⟨isNamed_iff.mpr (by simp [h.kind]), h.kind⟩, ih⟩

lemma meets_ending (hu : links.Otherwise us ms) (hv : links.Final vs ks) (hd : ∀ t ∈ us ++ vs, t.depth ≤ d) (is : List Nat) :
    Meets (ms.flatMap demands ++ ks.flatMap demands) ((us ++ vs).foldlM (tryClause (upTo d)) ⟨is, [], []⟩)
      (Tree.lowerAll ms >>= fun os => Tree.lowerAll ks >>= fun fs => pure ⟨is, os, fs⟩) := by
  have helse : ∀ {ts : List ParseTree}, (continued "else" ts).kind = .elseClause := rfl
  have hfinally : ∀ {ts : List ParseTree}, (continued "finally" ts).kind = .finallyClause := rfl
  cases hu with
  | nothing =>
    cases hv with
    | nothing => exact .pure _
    | clause hv =>
      have h := (meets_continued "finally" hv (hd _ (by simp [Builder.clause]))).last fun fs =>
        Meets.pure (⟨is, [], fs⟩ : Clauses)
      simpa [Builder.clause, tryClause, hfinally, Tree.lowerAll] using h
  | clause hu =>
    have hbody := meets_continued "else" hu (hd _ (by simp [Builder.clause]))
    cases hv with
    | nothing =>
      have h := hbody.last fun os => Meets.pure (⟨is, os, []⟩ : Clauses)
      simpa [Builder.clause, tryClause, helse, Tree.lowerAll] using h
    | clause hv =>
      have h := hbody.bind fun os => (meets_continued "finally" hv (hd _ (by simp [Builder.clause]))).last fun fs =>
        Meets.pure (⟨is, os, fs⟩ : Clauses)
      simpa [Builder.clause, tryClause, helse, hfinally] using h

lemma tryBlock {hs : List ParseTree} {gs : List Node} (ht : List.Forall₂ Statement ts ns) (hh : List.Forall₂ Handler hs gs)
    (hu : links.Otherwise us ms) (hv : links.Final vs ks) :
    Statement (ofShape o (.tryBlock ts hs us vs)) (.mk o.mark (.tryBlock ns gs ms ks)) := by
  refine .ofForm (by simp) (by simp) rfl rfl fun d hd => ?_
  have helse : us.filter ParseTree.isNamed = us := by cases hu <;> rfl
  have hfinally : vs.filter ParseTree.isNamed = vs := by cases hv <;> rfl
  have hhandlers : hs.filter ParseTree.isNamed = hs := List.filter_eq_self.mpr fun t h => (forall_handler hh t h).1
  have hskip : ∀ c, tryClause (upTo d) c (suite .body ts) = pure c := fun _ => rfl
  have h := (meets_suite .body ht (hd _ (by simp))).bind fun bs =>
    (meets_handlers hh fun c hc => hd c (by simp [hc])).bind fun is =>
      (meets_ending hu hv (fun c hc => hd c (by
        rcases List.mem_append.mp hc with hc | hc <;> simp [hc])) is).last fun c =>
        .push o.mark (.tryBlock bs c.handlers c.orelse c.final)
  simpa [-Onset.mark, hskip, hhandlers, helse, hfinally, List.filter_cons, List.filter_append, foldlM_handlers _ hh] using h

end Try

section Definitions

lemma mapM_decorators (g : Lowering) (h : ∀ t ∈ ts, t.isNamed) :
    (ts.map fun c => inner .decorator [token "@", c]).mapM g.firstNamed = g.all ts := by
  rw [Lowering.all]
  induction ts with
  | nil => rfl
  | cons t ts ih =>
    obtain ⟨ht, hts⟩ := List.forall_mem_cons.mp h
    simp [ih hts, firstNamed, ht]

lemma statement_definition {F : ParseTree → List Nat → Option Mark → Lower Nat} {k : Kind} {parts : List ParseTree}
    (hk : k = .functionDefinition ∧ F = Lowering.functionDef (upTo d) ∨ k = .classDefinition ∧ F = Lowering.classDef (upTo d))
    (hs : List.Forall₂ Value ts ns) (hd : ∀ c ∈ (definition o ts k parts).children, c.depth ≤ d) :
    ∃ t : ParseTree, t.children = parts ∧ (∀ c ∈ ts, c.depth ≤ d) ∧ (∀ c ∈ parts, c.depth ≤ d) ∧
      Lowering.statement (upTo d) (definition o ts k parts) = ((upTo d).all ts >>= fun is => F t is o.mark) := by
  by_cases hts : ts = []
  · subst hts
    refine ⟨node o k parts, rfl, by simp, hd, ?_⟩
    rcases hk with ⟨rfl, rfl⟩ | ⟨rfl, rfl⟩ <;> simp [-Onset.mark, definition, Lowering.all]
  · have hnode : definition o ts k parts = node o .decoratedDefinition
        (ts.map (fun c => inner .decorator [token "@", c]) ++ [(inner k parts).fill .definition]) := by
      simp [definition, hts]
    rw [hnode] at hd ⊢
    refine ⟨(inner k parts).fill .definition, by simp, fun c hc => ?_, fun c hc => ?_, ?_⟩
    · exact depth_le_of_mem (t := inner .decorator [token "@", c]) (by simp)
        (hd _ (List.mem_append_left _ (List.mem_map_of_mem hc)))
    · exact depth_le_of_mem (t := (inner k parts).fill .definition) (by simpa using hc) (hd _ (by simp))
    · have hmap := mapM_decorators (upTo d) (Value.forall_isNamed hs)
      have hnone : ts.find? (fun _ => false) = none := List.find?_eq_none.mpr (by simp)
      rcases hk with ⟨rfl, rfl⟩ | ⟨rfl, rfl⟩ <;>
        simp [-Onset.mark, decorated, List.filter_append, List.filter_map, Function.comp_def, hmap, hnone]

lemma functionDef {ps : List (Parameter ParseTree)} {ps' : List (Parameter Node)} {t : Option ParseTree} {n : Option Node}
    (id : String) (isAsync : Bool) (hs : List.Forall₂ Value ts ns) (hp : List.Forall₂ links.Parameters ps ps')
    (ht : Option.Rel Value t n) (hu : List.Forall₂ Statement us ms) :
    Statement (ofShape o (.functionDef id ts (Builder.parameters ps) t us isAsync))
      (.mk o.mark (.functionDef id ns (Builder.parameters ps') n ms isAsync)) := by
  refine .ofForm (by rw [ofShape, definition]; split <;> simp) (by simp) rfl rfl fun d hd => ?_
  rw [ofShape] at hd ⊢
  obtain ⟨c, hc, hdecorators, hparts, hstatement⟩ := statement_definition (.inl ⟨rfl, rfl⟩) hs hd
  have hreturns : Option.Rel Stands (t.map (ParseTree.hint .returnType)) n := by
    cases ht with
    | none => exact .none
    | some ht => exact .some (ht.hint .returnType)
  have h := (Value.all hs hdecorators).bind fun is => (meets_parameters hp .parameters (hparts _ (by simp))).bind fun a =>
    (Stands.optional hreturns fun c hc => hparts c (by simp_all)).bind fun r =>
      (meets_suite .body hu (hparts _ (by simp))).last fun b => .push o.mark (.functionDef id is a r b isAsync)
  rw [hstatement]
  cases t <;> simpa [-Onset.mark, Lowering.functionDef, hc, startsAsync] using h

lemma classDef (id : String) (hs : List.Forall₂ Value ts ns) (hu : List.Forall₂ Value us ms)
    (hv : List.Forall₂ Statement vs ks) :
    Statement (ofShape o (.classDef id ts us vs)) (.mk o.mark (.classDef id ns ms ks)) := by
  refine .ofForm (by rw [ofShape, definition]; split <;> simp) (by simp) rfl rfl fun d hd => ?_
  rw [ofShape] at hd ⊢
  obtain ⟨c, hc, hdecorators, hparts, hstatement⟩ := statement_definition (.inr ⟨rfl, rfl⟩) hs hd
  have hbody := meets_suite .body hv (hparts _ (by simp))
  rw [hstatement]
  by_cases hbases : us = []
  · subst hbases
    cases hu
    have h := (Value.all hs hdecorators).bind fun is => hbody.last fun b => .push o.mark (.classDef id is [] b)
    simpa [-Onset.mark, Lowering.classDef, hc, Tree.lowerAll] using h
  · have h := (Value.all hs hdecorators).bind fun is =>
      (meets_arguments (r := .superclasses) hu (hparts _ (by simp [hbases]))).bind fun js => hbody.last fun b =>
        .push o.mark (.classDef id is js b)
    simpa [-Onset.mark, Lowering.classDef, hc, hbases, arguments_eq hu] using h

end Definitions

section Choices

lemma ofParts {k : Kind} (hk : k ∉ [.token, .block, .expressionStatement])
    (hother : ∀ g ts, Lowering.statement g (node o k ts) = other g (node o k ts)) (hs : List.Forall₂ Part ts ns)
    (hu : List.Forall₂ Statement us ms) :
    Statement (node o k (ts ++ Builder.block us)) (.mk o.mark (.other k.name (ns ++ ms))) := by
  refine .ofMeets hk (by simp) fun d hd => ?_
  have hnamed : (node o k (ts ++ Builder.block us)).named = ts ++ [inner .block us] :=
    List.filter_eq_self.mpr (List.forall_mem_append.mpr ⟨Part.forall_isNamed hs, List.forall_mem_singleton.mpr rfl⟩)
  have hparts : List.Forall₂ (fun c ms => Meets (ms.flatMap demands) (Lowering.otherPart (upTo d) c) (Tree.lowerAll ms))
      (node o k (ts ++ Builder.block us)).named (ns.map ([·]) ++ [ms]) := by
    rw [hnamed]
    exact List.rel_append (Part.all hs fun c hc => hd c (List.mem_append_left _ hc))
      (.cons (meets_body rfl hu (hd _ (List.mem_append_right _ List.mem_cons_self))) .nil)
  have h := meets_other hparts
  rw [List.flatten_append, ← List.flatMap_def, List.flatMap_singleton'] at h
  rw [hother]
  simpa [-Onset.mark] using h

lemma choice (hs : List.Forall₂ Value ts ns) (hu : List.Forall₂ Statement us ms) :
    Statement (ofShape o (.other "match_statement" (ts ++ Builder.block us)))
      (.mk o.mark (.other "match_statement" (ns ++ ms))) :=
  ofParts (k := .matchStatement) (by simp) (fun _ _ => rfl) (hs.imp fun _ _ => Value.part) hu

lemma case (hs : List.Forall₂ Value ts ns) (hg : links.Guard us ms) (hv : List.Forall₂ Statement vs ks) :
    Statement (ofShape o (.other "case_clause" (ts ++ us ++ Builder.block vs)))
      (.mk o.mark (.other "case_clause" (ns ++ ms ++ ks))) := by
  have hguard : List.Forall₂ Part us ms := by
    cases hg with
    | nothing => exact .nil
    | test start ht =>
      refine .cons (.ofStands (t := node (.token start) .ifClause _) (by simp [Kind.statements]) fun d hd => ?_) .nil
      obtain ⟨e, rfl, he⟩ := exists_depth hd
      exact meets_parts (k := .ifClause) (.cons ht.part .nil) he
  exact ofParts (k := .other "case_clause") (by simp) (fun _ _ => rfl)
    (List.rel_append (hs.imp fun _ _ => Value.part) hguard) hv

end Choices

end Statement

section Assignments

variable {a : Assigned ParseTree} {a' : Assigned Node}

lemma other_fill (g : Lowering) (r : Role) (t : ParseTree) : other g (t.fill r) = other g t := by cases t; rfl

structure Nested (t : ParseTree) (n : Node) : Prop where
  kind : t.kind ∉ .token :: .block :: Kind.statements
  expr : Stands t n
  assigned : ∀ r d, t.depth ≤ d → Meets (demands n) (assigned (upTo d) (t.fill r)) n.lower

namespace Nested

lemma part (h : Nested t n) (r : Role) : Part (t.fill r) n := .ofStands ((kind_fill r t).symm ▸ h.kind) (h.expr.fill r)

lemma ofValue (h : Value t n) : Nested t n := by
  refine ⟨Kind.not_mem_of_isValue h.kind, h.expr, fun r d hd => ?_⟩
  have hassign := Kind.ne_of_isValue h.kind (m := .assignment) rfl
  have haug := Kind.ne_of_isValue h.kind (m := .augmentedAssignment) rfl
  simpa [Lowering.assigned, hassign, haug] using h.fill r (d := d) (by simpa using hd)

lemma ofParts {k : Kind} (hk : k = .assignment ∨ k = .augmentedAssignment) (hs : List.Forall₂ Part ts ns) :
    Nested (node o k ts) (.mk o.mark (.other k.name ns)) := by
  have hother : ∀ g, expression g (node o k ts) = other g (node o k ts) := by rcases hk with rfl | rfl <;> exact fun _ => rfl
  refine ⟨by rcases hk with rfl | rfl <;> simp [Kind.statements], fun d hd => ?_, fun r d hd => ?_⟩
  · obtain ⟨e, rfl, he⟩ := exists_depth hd
    rw [expr_upTo_succ, hother]
    exact meets_parts hs he
  · rw [Lowering.assigned, if_pos (by simpa using hk), other_fill]
    exact meets_parts hs fun c hc => depth_le_of_mem (t := node o k ts) hc hd

lemma ofAssigned (h : links.Assignments a a') : Nested a.node a'.node := by
  have hmark : ∀ {p : Phrase ParseTree} {p' : Phrase Node} {s : Shape Node}, links.Phrases p p' →
      p'.opening s = .mk (Onset.part p.start p.lead).mark s := fun hp => by
    rw [Grammar.Abstract.opening_eq, mark_eq hp]
    rfl
  induction h with
  | value hp => exact .ofValue hp.value
  | plain hp _ ih =>
    rw [Assigned.node, Assigned.node, hmark hp]
    exact .ofParts (.inl rfl) (.cons ((ofValue hp.value).part .left) (.cons (ih.part .right) .nil))
  | hinted hp hq =>
    rw [Assigned.node, Assigned.node, hmark hp]
    exact .ofParts (.inl rfl) (.cons ((ofValue hp.value).part .left) (.cons ((ofValue hq.value).part .type) .nil))
  | typed hp hq _ ih =>
    rw [Assigned.node, Assigned.node, hmark hp]
    exact .ofParts (.inl rfl)
      (.cons ((ofValue hp.value).part .left) (.cons ((ofValue hq.value).part .type) (.cons (ih.part .right) .nil)))
  | augmented op hp _ ih =>
    rw [Assigned.node, Assigned.node, hmark hp]
    exact .ofParts (.inr rfl) (.cons ((ofValue hp.value).part .left) (.cons (ih.part .right) .nil))

end Nested

lemma chain_eq_assigned (g : Lowering) (ht : t.kind = .assignment → (t.part? .type).isSome) :
    chain g t = assigned g t >>= fun i => pure ([], i) := by
  obtain ⟨kind, role, span, text, children⟩ := t
  rw [chain]
  refine if_neg fun h => ?_
  have hsome := ht h.1
  rw [Option.isSome_iff_ne_none] at hsome
  exact hsome (Option.isNone_iff_eq_none.mp h.2)

lemma chain_assignments (g : Lowering) (r : Role) :
    chain g ((inner .assignment [t.fill .left, token "=", u.fill .right]).fill r) =
      g.expr (t.fill .left) >>= fun i => chain g (u.fill .right) >>= fun is => pure (i :: is.1, is.2) := by
  have hnode : (inner .assignment [t.fill .left, token "=", u.fill .right]).fill r =
    ParseTree.mk .assignment (some r) .unknown [] [t.fill .left, token "=", u.fill .right] := rfl
  rw [hnode, chain]
  simp [rightChain]

lemma meets_chain (h : links.Assignments a a') (hd : (assignments a.chain.1 a.chain.2).depth ≤ d) :
    Meets (a'.chain.1.flatMap demands ++ demands a'.chain.2)
      (chain (upTo d) ((assignments a.chain.1 a.chain.2).fill .right))
      (Tree.lowerAll a'.chain.1 >>= fun is => a'.chain.2.lower >>= fun i => pure (is, i)) := by
  have hone : ∀ {a : Assigned ParseTree} {a' : Assigned Node}, links.Assignments a a' → a.node.depth ≤ d →
      (a.node.kind = .assignment → (a.node.part? .type).isSome) →
      Meets (demands a'.node) (chain (upTo d) (a.node.fill .right)) (a'.node.lower >>= fun i => pure ([], i)) :=
    fun h hd htype => by
      rw [chain_eq_assigned _ (by simpa using htype)]
      exact ((Nested.ofAssigned h).assigned .right d hd).last fun i => .pure ([], i)
  induction h with
  | value hp =>
    have h := hone (.value hp) hd fun hk => absurd hk (Kind.ne_of_isValue hp.value.kind rfl)
    simpa [Assigned.chain, assignments, Tree.lowerAll, Assigned.node] using h
  | hinted hp hq =>
    have h := hone (.hinted hp hq) hd fun _ => by simp [Assigned.node, Phrase.opening, Builder.node, Builder.fill]
    simpa [Assigned.chain, assignments, Tree.lowerAll] using h
  | typed hp hq ha =>
    have h := hone (.typed hp hq ha) hd fun _ => by simp [Assigned.node, Phrase.opening, Builder.node, Builder.fill]
    simpa [Assigned.chain, assignments, Tree.lowerAll] using h
  | augmented op hp ha =>
    have h := hone (.augmented op hp ha) hd fun hk => by cases hk
    simpa [Assigned.chain, assignments, Tree.lowerAll] using h
  | @plain p p' a a' hp _ ih =>
    have hright := ih (by
      have hmem := depth_le_of_mem (c := (assignments a.chain.1 a.chain.2).fill .right)
        (by simp [Assigned.chain, assignments]) hd
      simpa using hmem)
    have hleft : (p.node.fill .left).depth ≤ d := depth_le_of_mem (by simp [Assigned.chain, assignments]) hd
    have h := (hp.value.fill .left hleft).bind fun i => hright.last fun is => .pure (i :: is.1, is.2)
    simpa [Assigned.chain, assignments, chain_assignments, Tree.lowerAll] using h

lemma Statement.ofAssignment {s : Shape Node} (hk : u.kind = .assignment ∨ u.kind = .augmentedAssignment)
    (hs : ∀ m, s ≠ .expr m) (hown : Dialect.own (.mk o.mark s) = [])
    (hsteps : Dialect.Step.ofShape s = s.children.map .visit)
    (h : ∀ d, (∀ c ∈ u.children, c.depth ≤ d) → Meets (s.children.flatMap demands)
      (expressionStatement (upTo d) (node o .expressionStatement [u]))
      (s.lower >>= fun c => Tree.Arena.push ⟨o.mark, .ofShape c⟩)) :
    Statement (node o .expressionStatement [u]) (.mk o.mark s) := by
  have hnamed : (node o .expressionStatement [u]).named = [u] :=
    List.filter_eq_self.mpr (List.forall_mem_singleton.mpr (isNamed_iff.mpr (by rcases hk with hk | hk <;> simp [hk])))
  refine ⟨rfl, by simp, .other (fun _ v hv => ?_) fun _ _ _ _ => hs _, fun d hd => ?_⟩
  · obtain rfl := List.head_eq_of_cons_eq (hnamed.symm.trans hv)
    rcases hk with hk | hk <;> simp [literals?, hk]
  · obtain ⟨e, rfl, he⟩ := exists_depth hd
    exact (h e fun c hc => depth_le_of_mem hc (he u List.mem_cons_self)).congr (demands_mk hown hsteps) (by rw [Node.lower])

lemma Statement.assignment (h : links.Assignments a a') (ha : ∀ p, a ≠ .value p) : Statement a.statement a'.statement := by
  have hopening : ∀ {p : Phrase ParseTree} {p' : Phrase Node} {s : Shape Node}, links.Phrases p p' →
      p'.opening s = .mk (Onset.part p.start p.lead).mark s := fun hp => by
    rw [Grammar.Abstract.opening_eq, mark_eq hp]
    rfl
  cases h with
  | value hp => exact absurd rfl (ha _)
  | @plain p p' a a' hp h =>
    rw [Assigned.statement, Assigned.statement, hopening hp, Phrase.opening]
    refine .ofAssignment (u := inner .assignment [p.node.fill .left, token "=", _]) (.inl rfl) (by simp) rfl rfl
      fun d hd => ?_
    have hright := meets_chain h (by simpa using hd ((assignments a.chain.1 a.chain.2).fill .right) (by simp))
    have hmeets := (hp.value.fill .left (hd _ (by simp))).bind fun i => hright.last fun is =>
      .push (Onset.part p.start p.lead).mark (.assign (i :: is.1) is.2)
    simpa [-Onset.mark, expressionStatement, Lowering.assignment, Tree.lowerAll] using hmeets
  | @hinted p q p' q' hp hq =>
    rw [Assigned.statement, Assigned.statement, hopening hp, Phrase.opening]
    refine .ofAssignment (.inl rfl) (by simp) rfl rfl fun d hd => ?_
    have hmeets := (hp.value.fill .left (hd _ (by simp))).bind fun i =>
      (hq.value.hint .type d (hd _ (by simp))).last fun j =>
        .push (Onset.part p.start p.lead).mark (.annAssign i j none)
    simpa [-Onset.mark, expressionStatement, Lowering.assignment, Tree.lowerMaybe] using hmeets
  | @typed p q p' q' a a' hp hq h =>
    rw [Assigned.statement, Assigned.statement, hopening hp, Phrase.opening]
    refine .ofAssignment (.inl rfl) (by simp) rfl rfl fun d hd => ?_
    have hmeets := (hp.value.fill .left (hd _ (by simp))).bind fun i =>
      (hq.value.hint .type d (hd _ (by simp))).bind fun j =>
        ((Nested.ofAssigned h).assigned .right d (by simpa using hd (a.node.fill .right) (by simp))).last fun l =>
        .push (Onset.part p.start p.lead).mark (.annAssign i j (some l))
    simpa [-Onset.mark, expressionStatement, Lowering.assignment, Tree.lowerMaybe] using hmeets
  | @augmented p p' a a' op hp h =>
    rw [Assigned.statement, Assigned.statement, hopening hp, Phrase.opening]
    refine .ofAssignment (.inr rfl) (by simp) rfl rfl fun d hd => ?_
    have hmeets := (hp.value.fill .left (hd _ (by simp))).bind fun i =>
      ((Nested.ofAssigned h).assigned .right d (by simpa using hd (a.node.fill .right) (by simp))).last fun l =>
        .push (Onset.part p.start p.lead).mark (.augAssign i op l)
    simpa [-Onset.mark, expressionStatement, Lowering.assignment] using hmeets

end Assignments

lemma Imported.ofWritten (start : Position) (written : List Char) (asname : Option String) :
    Imported (ParseTree.imported start written asname)
      (.mk none (.importAlias (String.ofList (Text.squash written)) asname start)) := by
  cases asname with
  | some asname =>
    exact ⟨rfl, rfl, _, _, rfl, by simp [ParseTree.imported, importAlias, node, Span.place, Span.ofOnset, span]⟩
  | none =>
    by_cases hwritten : written = ['*']
    · subst hwritten
      exact ⟨rfl, rfl, "*", none, rfl, rfl⟩
    · rw [ParseTree.imported, if_neg hwritten]
      exact ⟨rfl, rfl, _, _, rfl, rfl⟩

end SourceBlocks.ParseTree
