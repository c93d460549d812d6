import SourceBlocks.Proofs.Lowering.Values

namespace SourceBlocks

open Grammar (Builder Onset headOf knownNames knownValueNames)
open Lower Lowering
open SourceBlocks.Dialect (demands)
open SourceBlocks.Tree (Node Shape Stored)

lemma Kind.ofName_of_not_mem {k : String} (h : k ∉ knownNames) : Kind.ofName k = .other k := by
  simp only [knownNames, List.mem_cons, List.not_mem_nil, or_false, not_or] at h
  simp [Kind.ofName, h]

namespace ParseTree

variable {t u v : ParseTree} {n m k : Node} {ts : List ParseTree} {ns : List Node} {d : Nat} {o : Onset}

structure Part (t : ParseTree) (n : Node) : Prop where
  isNamed : t.isNamed
  part : ∀ d, t.depth ≤ d → Meets ([n].flatMap demands) (otherPart (upTo d) t) (Tree.lowerAll [n])

namespace Part

lemma ofStands (hk : t.kind ∉ .token :: .block :: Kind.statements) (h : Stands t n) : Part t n := by
  simp only [List.mem_cons, not_or] at hk
  refine ⟨isNamed_iff.mpr hk.1, fun d hd => ?_⟩
  have hone := (h d hd).last fun i => Meets.pure [i]
  simpa [Lowering.otherPart, hk.2, Tree.lowerAll] using hone

lemma forall_isNamed (h : List.Forall₂ Part ts ns) : ∀ t ∈ ts, t.isNamed := by
  induction h with
  | nil => simp
  | cons h _ ih => exact List.forall_mem_cons.mpr ⟨h.isNamed, ih⟩

lemma all (h : List.Forall₂ Part ts ns) (hd : ∀ t ∈ ts, t.depth ≤ d) :
    List.Forall₂ (fun t ns => Meets (ns.flatMap demands) (otherPart (upTo d) t) (Tree.lowerAll ns)) ts (ns.map ([·])) := by
  rw [List.forall₂_map_right_iff]
  exact ((List.forall₂_and_left _ _).mpr ⟨hd, h⟩).imp fun t n h => h.2.part d h.1

end Part

lemma Value.part (h : Value t n) : Part t n := .ofStands (Kind.not_mem_of_isValue h.kind) h.expr

lemma meets_other {nss : List (List Node)}
    (h : List.Forall₂ (fun t ns => Meets (ns.flatMap demands) (otherPart (upTo d) t) (Tree.lowerAll ns)) t.named nss) :
    Meets (demands (.mk t.mark (.other t.kind.name nss.flatten))) (other (upTo d) t)
      (Node.lower (.mk t.mark (.other t.kind.name nss.flatten))) := by
  have hparts := (Meets.flatten h).last fun is => .push t.mark (.other t.kind.name is)
  rw [demands_mk rfl rfl]
  simpa [Lowering.other, Node.lower, Shape.lower, Shape.children, Shape.fieldNodes, Shape.fields, Tree.Field.nodes,
    Stored.ofShape] using hparts

lemma meets_parts {k : Kind} (hs : List.Forall₂ Part ts ns) (hd : ∀ t ∈ ts, t.depth ≤ d) :
    Meets (demands (.mk o.mark (.other k.name ns))) (other (upTo d) (node o k ts))
      (Node.lower (.mk o.mark (.other k.name ns))) := by
  have hnamed : (node o k ts).named = ts := List.filter_eq_self.mpr (Part.forall_isNamed hs)
  have h := meets_other (hnamed.symm ▸ Part.all hs hd)
  rwa [← List.flatMap_def, List.flatMap_singleton', mark_node, kind_node] at h

lemma operators_filter {ops : List String} (h : ∀ t ∈ ts, t.isNamed) (hlen : ops.length = ts.length) :
    ((ops.zip ts).flatMap fun c => [token c.1, c.2]).filter isNamed = ts ∧
      (((ops.zip ts).flatMap fun c => [token c.1, c.2]).filter (!·.isNamed)).map string = ops := by
  induction ops generalizing ts with
  | nil =>
    obtain rfl := List.eq_nil_of_length_eq_zero hlen.symm
    exact ⟨rfl, rfl⟩
  | cons op ops ih =>
    cases ts with
    | nil => cases hlen
    | cons t ts =>
      obtain ⟨ht, hts⟩ := List.forall_mem_cons.mp h
      obtain ⟨hnamed, hops⟩ := ih hts (Nat.succ.inj hlen)
      simp [ht, hnamed, hops]

lemma bounds_optional (g : Lowering) {t : Option ParseTree} (ht : ∀ c ∈ t, c.isNamed) (ts : List ParseTree) {i : Nat}
    (hi : i < 3) (b : Bounds) :
    bounds g (t.toList ++ ts) i b = g.optional t >>= fun x => bounds g ts i (x.elim b (b.set i)) := by
  cases t with
  | none => simp [Lowering.optional]
  | some t => simp [bounds, Lowering.optional, ht t rfl, hi]

lemma bounds_slice (g : Lowering) {t u v : Option ParseTree} (ht : ∀ c ∈ t, c.isNamed) (hu : ∀ c ∈ u, c.isNamed)
    (hv : ∀ c ∈ v, c.isNamed) :
    bounds g (t.toList ++ token ":" :: (u.toList ++ v.toList.flatMap fun t => [token ":", t])) 0 ⟨none, none, none⟩ =
      g.optional t >>= fun i => g.optional u >>= fun j => g.optional v >>= fun l => pure ⟨i, j, l⟩ := by
  have hcolon : ∀ ts i b, bounds g (token ":" :: ts) i b = bounds g ts (i + 1) b := by simp [bounds]
  have hstep : ∀ b, bounds g (v.toList.flatMap fun t => [token ":", t]) 1 b =
      g.optional v >>= fun x => pure (x.elim b (b.set 2)) := fun b => by
    cases v with
    | none => simp [bounds, Lowering.optional]
    | some v => simp [bounds, Lowering.optional, hv v rfl]
  rw [bounds_optional g ht _ (by simp)]
  simp only [hcolon, Nat.zero_add, bounds_optional g hu _ (by simp : 1 < 3), hstep]
  refine bind_congr fun i => bind_congr fun j => bind_congr fun l => ?_
  cases i <;> cases j <;> cases l <;> rfl

lemma lowerEntries_eq_mapM (es : List (Option Node × Node)) : Tree.lowerEntries es = es.mapM Tree.lowerEntry := by
  induction es with
  | nil => rfl
  | cons e es ih => rw [Tree.lowerEntries, ih, List.mapM_cons]

structure Iterated (t : ParseTree) (n : Node) : Prop where
  role : ∀ c ∈ t.exposed, c.role = none
  loose : ∀ u d, (∀ c ∈ t.exposed, c.depth ≤ d) →
    Meets (demands n) (loose (upTo d) u (t.exposed.filter isNamed)) n.lower

inductive Clause : ParseTree → Node → Prop
  | mk {t u : ParseTree} {n m : Node} {ts : List ParseTree} {ns : List Node} (isAsync : Bool) : Value t n → Iterated u m →
      List.Forall₂ Value ts ns → Clause (clause t u ts isAsync) (.mk none (.comprehension n m ns isAsync))

section Clauses

lemma pending_conditions (g : Lowering) (hs : ∀ t ∈ ts, t.isNamed) (us : List ParseTree) (p : Pending) (ps : List Pending) :
    pending g (ts.map (fun t => inner .ifClause [token "if", t]) ++ us) (p :: ps) =
      g.all ts >>= fun is => pending g us ({ p with ifs := p.ifs ++ is } :: ps) := by
  induction ts generalizing p with
  | nil => simp [Lowering.all]
  | cons t ts ih =>
    obtain ⟨ht, hts⟩ := List.forall_mem_cons.mp hs
    simp [pending, firstNamed, named, ht, ih hts, Lowering.all]

def entryOf (p : Pending) : Tree.Entry := ⟨none, .plain p.shape⟩

lemma forInClause_eq (g : Lowering) (isAsync : Bool) (ht : t.isNamed) (hr : ∀ c ∈ u.exposed, c.role = none) :
    ∃ v, v.children = async isAsync ++ [token "for", t.fill .left, token "in"] ++ u.exposed ∧
    (clause t u ts isAsync).exposed = v :: ts.map (fun t => inner .ifClause [token "if", t]) ∧ v.kind = .forInClause ∧
    forInClause g v = g.expr (t.fill .left) >>= fun i => loose g v (u.exposed.filter isNamed) >>= fun j =>
      pure ⟨i, j, [], isAsync⟩ := by
  refine ⟨inner .forInClause (async isAsync ++ [token "for", t.fill .left, token "in"] ++ u.exposed), rfl, rfl, rfl, ?_⟩
  have hrights : u.exposed.filter (fun c => !c.hasRole .left && c.isNamed) = u.exposed.filter isNamed :=
    List.filter_congr fun c hc => by simp [hasRole_of_role (hr c hc)]
  cases isAsync <;> simp [forInClause, required, part?, async, named, ht, hrights, startsAsync]

lemma meets_pending (h : List.Forall₂ Clause ts ns) (hd : ∀ c ∈ ts.flatMap exposed, c.depth ≤ d) (ps : List Pending) :
    Meets (ns.flatMap demands) (List.map entryOf <$> pending (upTo d) (ts.flatMap exposed) ps)
      ((ps.reverse.map entryOf ++ ·) <$> Tree.lowerPending ns) := by
  induction h generalizing ps with
  | nil => simpa [pending, Tree.lowerPending] using Meets.pure _
  | @cons _ _ us ms h _ ih =>
    obtain @⟨t, u, n, m, ts, ns, isAsync, ht, hu, hs⟩ := h
    obtain ⟨v, hv, hexposed, hkind, hclause⟩ := @forInClause_eq t u ts (upTo d) isAsync ht.isNamed hu.role
    rw [List.flatMap_cons (f := exposed), hexposed] at hd ⊢
    obtain ⟨hdv, hd⟩ := List.forall_mem_cons.mp hd
    obtain ⟨hds, hdus⟩ := List.forall_mem_append.mp hd
    have hparts : ∀ c ∈ async isAsync ++ [token "for", t.fill .left, token "in"] ++ u.exposed, c.depth ≤ d :=
      fun c hc => depth_le_of_mem (hv ▸ hc) hdv
    have hifs : ∀ c ∈ ts, c.depth ≤ d := fun c hc =>
      depth_le_of_mem (t := inner .ifClause [token "if", c]) (by simp) (hds _ (List.mem_map_of_mem hc))
    have hmeets := (ht.fill .left (hparts _ (by simp))).bind fun i =>
      (hu.loose v d fun c hc => hparts c (List.mem_append_right _ hc)).bind fun j =>
        (Value.all hs hifs).bind fun is => ih hdus (⟨i, j, is, isAsync⟩ :: ps)
    have hdemands : demands (.mk none (.comprehension n m ns isAsync)) = demands n ++ (demands m ++ ns.flatMap demands) := by
      rw [demands_mk rfl rfl]
      simp [Shape.children, Shape.fieldNodes, Shape.fields, Tree.Field.nodes]
    have hpending : pending (upTo d) (v :: ts.map (fun t => inner .ifClause [token "if", t]) ++ us.flatMap exposed) ps =
        (upTo d).expr (t.fill .left) >>= fun i => loose (upTo d) v (u.exposed.filter isNamed) >>= fun j =>
          (upTo d).all ts >>= fun is => pending (upTo d) (us.flatMap exposed) (⟨i, j, is, isAsync⟩ :: ps) := by
      simp [pending, hkind, hclause, pending_conditions _ (Value.forall_isNamed hs)]
    rw [hpending]
    simpa [hdemands, Tree.lowerPending, Shape.lower, Stored.ofShape, entryOf, Pending.shape] using hmeets

lemma isNamed_of_clauses (h : List.Forall₂ Clause ts ns) : ∀ c ∈ ts.flatMap exposed, c.isNamed := by
  induction h with
  | nil => simp
  | cons h _ ih =>
    rw [List.flatMap_cons, List.forall_mem_append]
    refine ⟨?_, ih⟩
    cases h
    simp [clause, exposed, isNamed]

lemma meets_generators {opening closing : String} {kind : Kind} (h : List.Forall₂ Clause ts ns) (ht : t.isNamed)
    (hfor : t.kind ≠ .forInClause) (hif : t.kind ≠ .ifClause)
    (hd : ∀ c ∈ (comprehension o kind opening closing t ts).children, c.depth ≤ d) :
    Meets (ns.flatMap demands) (generators (upTo d) (comprehension o kind opening closing t ts))
      (Tree.lowerPending ns >>= Tree.pushAll) := by
  have hclauses : ∀ c ∈ ts.flatMap exposed, c.depth ≤ d := fun c hc =>
    hd c (List.mem_cons_of_mem _ (List.mem_cons_of_mem _ (List.mem_append_left _ hc)))
  have hnamed : (comprehension o kind opening closing t ts).named = t.fill .body :: ts.flatMap exposed := by
    have hfilter : (ts.flatMap exposed).filter isNamed = ts.flatMap exposed :=
      List.filter_eq_self.mpr (isNamed_of_clauses h)
    simp [comprehension, named, ht, hfilter]
  have hskip : pending (upTo d) (t.fill .body :: ts.flatMap exposed) [] = pending (upTo d) (ts.flatMap exposed) [] := by
    rw [pending, kind_fill]
    split <;> simp_all
  have hpush : ∀ es : List Tree.Entry, Meets [] (es.mapM fun e => record e.mark e.construct) (Tree.pushAll es) :=
    Meets.each fun e => .record e.mark e.construct
  have hmeets := (meets_pending h hclauses []).last hpush
  simpa [generators, hnamed, hskip, List.mapM_map, Function.comp_def, entryOf, push] using hmeets

end Clauses

lemma meets_entry {e : Option ParseTree × ParseTree} {e' : Option Node × Node} (hk : Option.Rel Value e.1 e'.1)
    (hv : Value e.2 e'.2) (hd : (entry e).depth ≤ d) :
    Meets ((e'.1.toList ++ [e'.2]).flatMap demands) (Lowering.entry (upTo d) (entry e)) (Tree.lowerEntry e') := by
  obtain ⟨key, value⟩ := e
  obtain ⟨key', value'⟩ := e'
  cases hk with
  | none =>
    have h := (hv.expr d (depth_le_of_mem (by simp [entry]) hd)).last fun i => .pure ((none : Option Nat), i)
    simpa [Lowering.entry, entry, firstNamed, named, hv.isNamed, Tree.lowerEntry, Tree.lowerMaybe] using h
  | some hk =>
    have h := (hk.fill .key (depth_le_of_mem (by simp [entry]) hd)).bind fun i =>
      (hv.fill .value (depth_le_of_mem (by simp [entry]) hd)).last fun j => .pure (some i, j)
    simpa [Lowering.entry, entry, required, part?, Tree.lowerEntry, Tree.lowerMaybe] using h

lemma arguments_eq (h : List.Forall₂ Value ts ns) (r : Grammar.Role) :
    arguments r ts = (inner .argumentList (token "(" :: separated ts ++ [token ")"])).fill r := by
  rcases h with _ | ⟨h, _ | _⟩
  · rfl
  · simp [arguments, arguments.list, h.role]
  · rfl

lemma meets_arguments {r : Grammar.Role} (h : List.Forall₂ Value ts ns) (hd : (arguments r ts).depth ≤ d) :
    Meets (ns.flatMap demands) (Lowering.arguments (upTo d) (arguments r ts)) (Tree.lowerAll ns) := by
  rw [arguments_eq h] at hd ⊢
  have hdepth : ∀ t ∈ ts, t.depth ≤ d := fun t ht => depth_le_of_mem (by simp [mem_separated ht]) hd
  rw [lowerAll_eq_mapM]
  have hargs := Meets.mapM (((List.forall₂_and_left _ _).mpr ⟨hdepth, h⟩).imp fun t n h => h.2.argument d h.1)
  simpa [Lowering.arguments, named, filter_separated (Value.forall_isNamed h)] using hargs

lemma exposed_subscripts (h : ∀ c ∈ t :: ts, c.isNamed) : (Builder.subscripts t ts).exposed.filter isNamed = t :: ts ∧
    (Builder.subscripts t ts).exposed.any (isToken ",") = true := by
  have hexposed : (Builder.subscripts t ts).exposed = separated (t :: ts) ++ if ts.isEmpty then [token ","] else [] := rfl
  rw [hexposed, List.filter_append, filter_separated h]
  cases ts <;> simp [separated]

namespace Value

attribute [local simp] ofShape expression required part? named Shape.lower Shape.children Shape.fieldNodes Shape.fields
  Tree.Field.nodes Stored.ofShape

lemma ofOther {k : Kind} (hk : k.isCommon) (hh : ∀ o ts, (node o k ts).head = .other)
    (he : ∀ g o ts, expression g (node o k ts) = other g (node o k ts)) (hs : List.Forall₂ Part ts ns) :
    Value (node o k ts) (.mk o.mark (.other k.name ns)) := by
  refine .ofCommon hk rfl (hh o ts) (by simp [Node.shape]) fun d hd => ?_
  rw [he]
  exact meets_parts hs hd

lemma other {kind : String} (hk : kind ∉ knownNames ∨ kind ∈ knownValueNames) (hs : List.Forall₂ Value ts ns) :
    Value (ofShape o (.other kind ts)) (.mk o.mark (.other kind ns)) := by
  have hparts : List.Forall₂ Part ts ns := hs.imp fun _ _ => Value.part
  rw [ofShape]
  rcases hk with hk | hk
  · rw [Kind.ofName_of_not_mem hk]
    exact ofOther rfl (fun _ _ => rfl) (fun _ _ _ => rfl) hparts
  · simp only [knownValueNames, List.mem_cons, List.not_mem_nil, or_false] at hk
    rcases hk with rfl | rfl
    · exact @ofOther ts ns o .asPattern rfl (fun _ _ => rfl) (fun _ _ _ => rfl) hparts
    · exact @ofOther ts ns o .dottedName rfl (fun _ _ => rfl) (fun _ _ _ => rfl) hparts

lemma keyword (id : Option String) (ht : Value t n) :
    Value (ofShape .hidden (.keyword id t)) (.mk none (.keyword id n)) := by
  have hlower : ∀ {c d}, Meets (demands n) ((upTo d).expr c) n.lower →
      Meets (demands (.mk none (.keyword id n))) ((upTo d).expr c >>= fun i => push none (.keyword id i))
        (Node.lower (.mk none (.keyword id n))) := fun {c d} h =>
    (h.last fun i => .push none (.keyword id i)).congr (by rw [demands_mk rfl rfl]; simp)
      (by simp [Node.lower])
  cases id with
  | none =>
    refine ⟨rfl, rfl, rfl, .other (by simp) (by simp) (by simp [Node.shape]), fun d hd => ?_, fun d hd => ?_⟩
    · obtain ⟨e, rfl, he⟩ := exists_depth hd
      have h := hlower (ht.expr e (he t (by simp)))
      simpa [loneArgument, firstNamed, ht.isNamed, ht.hasRole] using h
    · have h := hlower (ht.expr d (depth_le_of_mem (by simp) hd))
      simpa [Lowering.argument, firstNamed, ht.isNamed] using h
  | some id =>
    refine ⟨rfl, rfl, rfl, .other (by simp) (by simp) (by simp [Node.shape]), fun d hd => ?_, fun d hd => ?_⟩
    · obtain ⟨e, rfl, he⟩ := exists_depth hd
      have h := hlower (ht.fill .value (he _ (by simp)))
      simpa [loneArgument] using h
    · have h := hlower (ht.fill .value (depth_le_of_mem (by simp) hd))
      simpa [Lowering.argument] using h

lemma compare {ops : List String} (ht : Value t n) (hs : List.Forall₂ Value ts ns) (hlen : ops.length = ts.length) :
    Value (ofShape o (.compare t ops ts)) (.mk o.mark (.compare n ops ns)) := by
  refine .ofForm rfl rfl rfl (by simp) rfl rfl fun d hd => ?_
  obtain ⟨hnamed, hops⟩ := operators_filter (forall_isNamed hs) hlen
  have hall : ∀ c ∈ ts, c.depth ≤ d := fun c hc => hd c (by
    rw [← hnamed] at hc
    exact List.mem_cons_of_mem _ (List.mem_of_mem_filter hc))
  have h := (ht.expr d (hd t (by simp))).bind fun i => (all hs hall).last fun is => .push o.mark (.compare i ops is)
  simpa [-Onset.mark, comparison, ht.isNamed, hnamed, hops] using h

lemma slice {t u v : Option ParseTree} {n m k : Option Node} (ht : Option.Rel Value t n) (hu : Option.Rel Value u m)
    (hv : Option.Rel Value v k) : Value (ofShape .hidden (.slice t u v)) (.mk none (.slice n m k)) := by
  refine .ofForm rfl rfl rfl (by simp) rfl rfl fun d hd => ?_
  have h := (optional ht fun c hc => hd c (by simp_all)).bind fun i => (optional hu fun c hc => hd c (by simp_all)).bind
    fun j => (optional hv fun c hc => hd c (by simp_all)).last fun l => .push none (.slice i j l)
  have hbounds := bounds_slice (upTo d) (isNamed_of_mem ht) (isNamed_of_mem hu) (isNamed_of_mem hv)
  simpa [Lowering.slice, hbounds] using h

lemma dict {es : List (Option ParseTree × ParseTree)} {es' : List (Option Node × Node)}
    (hs : List.Forall₂ (fun e e' => Option.Rel Value e.1 e'.1 ∧ Value e.2 e'.2) es es') :
    Value (ofShape o (.dict es)) (.mk o.mark (.dict es')) := by
  refine .ofForm rfl rfl rfl (by simp) rfl rfl fun d hd => ?_
  have hnamed : ∀ t ∈ es.map entry, t.isNamed := by
    rintro t ht
    obtain ⟨⟨_ | key, value⟩, -, rfl⟩ := List.mem_map.mp ht <;> rfl
  have hentries : List.Forall₂ (fun e e' => Meets ((e'.1.toList ++ [e'.2]).flatMap demands)
      (Lowering.entry (upTo d) (entry e)) (Tree.lowerEntry e')) es es' := by
    have hdepth : ∀ e ∈ es, (entry e).depth ≤ d := fun e he =>
      hd _ (by simp [mem_separated (List.mem_map_of_mem he)])
    exact ((List.forall₂_and_left _ _).mpr ⟨hdepth, hs⟩).imp fun e e' he => meets_entry he.2.1 he.2.2 he.1
  have h := (Meets.mapM hentries).last fun is => .record o.mark (.dict (is.map Prod.fst) (is.map Prod.snd))
  simpa [-Onset.mark, filter_separated hnamed, lowerEntries_eq_mapM, List.mapM_map, List.flatMap_assoc,
    Function.comp_def] using h

lemma meets_comprehension {kind : Kind} {opening closing : String} {d : Nat} (form : Nat → List Nat → Shape Nat)
    (ht : Value t n) (hs : List.Forall₂ Clause ts ns)
    (hd : ∀ c ∈ (comprehension o kind opening closing t ts).children, c.depth ≤ d) :
    Meets (demands n ++ ns.flatMap demands) (do
      let i ← (upTo d).expr (t.fill .body)
      let is ← generators (upTo d) (comprehension o kind opening closing t ts)
      push o.mark (form i is)) (do
      let i ← n.lower
      let is ← Tree.lowerPending ns >>= Tree.pushAll
      Tree.Arena.push ⟨o.mark, .plain (form i is)⟩) :=
  (ht.fill .body (hd _ (by simp [comprehension]))).bind fun i =>
    (meets_generators hs ht.isNamed (Kind.ne_of_isValue ht.kind rfl) (Kind.ne_of_isValue ht.kind rfl) hd).last fun is =>
      .push o.mark (form i is)

lemma listComp (ht : Value t n) (hs : List.Forall₂ Clause ts ns) :
    Value (ofShape o (.listComp t ts)) (.mk o.mark (.listComp n ns)) := by
  refine .ofForm rfl rfl rfl (by simp) rfl rfl fun d hd => ?_
  simpa [-Onset.mark, comprehension] using meets_comprehension .listComp ht hs hd

lemma setComp (ht : Value t n) (hs : List.Forall₂ Clause ts ns) :
    Value (ofShape o (.setComp t ts)) (.mk o.mark (.setComp n ns)) := by
  refine .ofForm rfl rfl rfl (by simp) rfl rfl fun d hd => ?_
  simpa [-Onset.mark, comprehension] using meets_comprehension .setComp ht hs hd

lemma generatorExp (ht : Value t n) (hs : List.Forall₂ Clause ts ns) :
    Value (ofShape o (.generatorExp t ts)) (.mk o.mark (.generatorExp n ns)) := by
  refine .ofForm rfl rfl rfl (by simp) rfl rfl fun d hd => ?_
  simpa [-Onset.mark, comprehension] using meets_comprehension .generatorExp ht hs hd

lemma dictComp (ht : Value t n) (hu : Value u m) (hs : List.Forall₂ Clause ts ns) :
    Value (ofShape o (.dictComp t u ts)) (.mk o.mark (.dictComp n m ns)) := by
  refine .ofForm rfl rfl rfl (by simp) rfl rfl fun d hd => ?_
  have hpair : ∀ c ∈ (entry (some t, u)).children, c.depth ≤ d := fun c hc =>
    depth_le_of_mem (t := (entry (some t, u)).fill .body) (by simpa using hc) (hd _ (by simp [comprehension]))
  have h := (ht.fill .key (hpair _ (by simp [entry]))).bind fun i =>
    (hu.fill .value (hpair _ (by simp [entry]))).bind fun j =>
    (meets_generators hs (t := entry (some t, u)) rfl (by simp [entry]) (by simp [entry]) hd).last fun is =>
      .push o.mark (.dictComp i j is)
  simpa [-Onset.mark, comprehension, entry] using h

lemma subscript (ht : Value t n) (hu : Value u m) : Value (ofShape o (.subscript t u)) (.mk o.mark (.subscript n m)) := by
  refine .ofForm rfl rfl rfl (by simp) rfl rfl fun d hd => ?_
  have h := (ht.fill .value (hd _ (by simp))).bind fun i =>
    (hu.expr d (hd _ (by simp [exposed_of_isValue hu.kind]))).last fun j => .push o.mark (.subscript i j)
  simpa [-Onset.mark, index, exposed_of_isValue hu.kind, ht.isNamed, hu.isNamed, hu.hasRole, hu.isToken, ht.isToken] using h

lemma subscripts (ht : Value t n) (hu : Value u m) (hs : List.Forall₂ Value ts ns) :
    Value (ofShape o (.subscript t (Builder.subscripts u ts)))
      (.mk o.mark (.subscript n (.mk m.mark (.tuple (m :: ns))))) := by
  have hall : List.Forall₂ Value (u :: ts) (m :: ns) := .cons hu hs
  have htuple : demands (.mk m.mark (.tuple (m :: ns))) = (m :: ns).flatMap demands := by
    rw [demands_mk rfl rfl]
    simp
  refine .ofForm rfl rfl rfl (by simp) rfl rfl fun d hd => ?_
  obtain ⟨hnamed, hcomma⟩ := exposed_subscripts (forall_isNamed hall)
  rw [ofShape] at hd ⊢
  generalize (Builder.subscripts u ts).exposed = xs at hd hnamed hcomma
  have hdepth : ∀ c ∈ u :: ts, c.depth ≤ d := fun c hc => hd c (by
    rw [← hnamed] at hc
    simp [List.mem_of_mem_filter hc])
  have hrole : (u :: ts).filter (fun c => !c.hasRole .value) = u :: ts := List.filter_eq_self.mpr fun c hc => by
    rw [hasRole_of_role (forall_role hall c hc)]
    rfl
  have hindex : index (upTo d) (node o .subscript (t.fill .value :: token "[" :: (xs ++ [token "]"]))) =
      (upTo d).all (u :: ts) >>= fun is => firstMark is >>= fun mark => push mark (.tuple is) := by
    simp [index, ht.isNamed, hnamed, hrole, hcomma]
  have hfirst := Meets.firstMark (k := fun is mark => push mark (.tuple is)) (all hall hdepth) fun is =>
    .push m.mark (.tuple is)
  have h := (ht.fill .value (hd _ (by simp))).bind fun i => hfirst.last fun j => .push o.mark (.subscript i j)
  simpa [-Onset.mark, hindex, htuple, Node.lower] using h

lemma call (ht : Value t n) (hs : List.Forall₂ Value ts ns) : Value (ofShape o (.call t ts)) (.mk o.mark (.call n ns)) := by
  refine .ofForm rfl rfl rfl (by simp) rfl rfl fun d hd => ?_
  have hargs := meets_arguments (r := .arguments) hs (hd _ (by simp))
  have h := (ht.fill .function (hd _ (by simp))).bind fun i => hargs.last fun is => .push o.mark (.call i is)
  have hkind : (arguments .arguments ts).kind ≠ .generatorExpression := by simp [arguments_eq hs]
  have hrole : (arguments .arguments ts).hasRole .arguments = true := by simp [arguments_eq hs]
  simpa [-Onset.mark, Lowering.call, hkind, hrole] using h

lemma callSole (ht : Value t n) (hu : Value u m) (hk : u.kind = .generatorExpression) :
    Value (ofShape o (.call t (Builder.soleArgument u))) (.mk o.mark (.call n [m])) := by
  refine .ofForm rfl rfl rfl (by simp) rfl rfl fun d hd => ?_
  have hsole : arguments .arguments (Builder.soleArgument u) = u.fill .arguments := by
    simp [Builder.soleArgument, arguments]
  rw [ofShape, hsole] at hd ⊢
  have h := (ht.fill .function (hd _ (by simp))).bind fun i =>
    (hu.fill .arguments (hd _ (by simp))).last fun j => .push o.mark (.call i [j])
  simpa [-Onset.mark, Lowering.call, hk, Tree.lowerAll] using h

end Value

end ParseTree

end SourceBlocks
