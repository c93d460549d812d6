import SourceBlocks.Proofs.Lowering.Links

namespace SourceBlocks.ParseTree

open Grammar (Builder Parameter marked)
open Lower Lowering
open SourceBlocks.Dialect (Demand demands placeOf)
open SourceBlocks.Tree (Node Shape Stored)

variable {t : ParseTree} {n : Node} {d : Nat} {c : Collected}

lemma Value.hint (h : Value t n) (r : Grammar.Role) : Stands (hint r t) n := by
  intro d hd
  obtain ⟨e, rfl, he⟩ := exists_depth hd
  have ht := h.expr e (he t (by simp [ParseTree.hint]))
  simpa [ParseTree.hint, expression, wrapped, named, h.isNamed] using ht

@[simp] lemma hasRole_hint (r r' : Grammar.Role) (t : ParseTree) : (hint r t).hasRole r' = decide (r = r') := by
  simp [ParseTree.hint]

lemma isNamed_ofParameter {p : Parameter ParseTree} {p' : Parameter Node} (h : links.Parameters p p') :
    (ofParameter p).isNamed := by
  rcases h with ⟨⟨_, _, _ | _⟩, _ | _⟩ | ⟨_ | _⟩ | ⟨_ | _⟩ | _ | _ <;> rfl

def namedDemands (c : Collected) (p : Node × Option Node) : List Demand :=
  (if !c.starred && p.2.isNone && !c.defaults.isEmpty then [.default (placeOf p.1)] else []) ++
    (demands p.1 ++ p.2.toList.flatMap demands)

lemma meets_namedParameter (t name : ParseTree) {type default : Option ParseTree} {m k : Option Node} (start : Position)
    (hspan : t.span = .ofOnset (.token start)) (htype : Option.Rel Stands type m) (hdefault : Option.Rel Stands default k)
    (hd : ∀ u ∈ type, u.depth ≤ d) (hd' : ∀ u ∈ default, u.depth ≤ d) :
    Meets (namedDemands c (marked start (.arg name.string m), k)) (namedParameter (upTo d) c t name type default)
      (Tree.lowerParameter (marked start (.arg name.string m), k) >>= fun p => pure (c.add p.1 p.2)) := by
  have hnone : default.isNone = k.isNone := by cases hdefault <;> rfl
  have harg : demands (marked start (.arg name.string m)) = m.toList.flatMap demands := by
    rw [marked, Grammar.Abstract.node_eq, demands_mk rfl rfl]
    simp [Shape.children, Shape.fieldNodes, Shape.fields, Tree.Field.nodes]
  have hmark : t.mark = some (.known start) := by rw [mark, hspan]; rfl
  have hplace : t.span.place = start := by rw [hspan]; rfl
  have h := (Stands.optional htype hd).bind fun i => Meets.step (.push t.mark (.arg name.string i)) fun j =>
    (Stands.optional hdefault hd').last fun l => .pure (c.add j l)
  have hdemand : placeOf (marked start (.arg name.string m)) = start := rfl
  rw [namedParameter, namedDemands, hnone, hplace, harg, hdemand]
  cases !c.starred && k.isNone && !c.defaults.isEmpty with
  | false => simpa [hmark, Tree.lowerParameter, marked, Node.lower, Shape.lower, Stored.ofShape] using h
  | true =>
    have hmeet := (Meets.meet (.default start)).bind fun _ => h
    simpa [hmark, Tree.lowerParameter, marked, Node.lower, Shape.lower, Stored.ofShape] using hmeet

lemma meets_named {arg : ParseTree} {n : Node} {t : Option ParseTree} {m : Option Node} (ha : Arg arg n)
    (ht : Option.Rel Value t m) (hd : (ofParameter (.named arg t)).depth ≤ d) :
    Meets (namedDemands c (n, m)) (parameter (upTo d) c (ofParameter (.named arg t)))
      (Tree.lowerParameter (n, m) >>= fun p => pure (c.add p.1 p.2)) := by
  have hdepth : ∀ u ∈ (ofParameter (.named arg t)).children, u.depth ≤ d := fun u hu => depth_le_of_mem hu hd
  obtain ⟨start, id, htype⟩ := ha
  have hid : (mk .identifier none (.ofOnset (.token start)) id.toList []).string = id := String.ofList_toList
  cases htype with
  | none =>
    have harg : marked start (.arg id none) = mk .identifier none (.ofOnset (.token start)) id.toList [] := rfl
    rw [harg] at hdepth ⊢
    cases ht with
    | none =>
      have h := meets_namedParameter (d := d) (c := c) (mk .identifier none (.ofOnset (.token start)) id.toList [])
        (mk .identifier none (.ofOnset (.token start)) id.toList []) start rfl .none .none (by simp) (by simp)
      simpa [ofParameter, parameter, hid] using h
    | @some v _ ht =>
      have hv := hdepth (v.fill .value) (by simp [ofParameter, withDefault])
      have h := meets_namedParameter (d := d) (c := c)
        (ofParameter (.named (mk .identifier none (.ofOnset (.token start)) id.toList []) (some v)))
        ((mk .identifier none (.ofOnset (.token start)) id.toList []).fill .name) start rfl .none
        (.some (ht.expr.fill .value)) (by simp) (by simpa using hv)
      simpa [ofParameter, withDefault, parameter, required, part?, hid] using h
  | @some u _ htype =>
    have harg : marked start (.arg id (some u)) =
        mk .typedParameter none (.ofOnset (.token start)) [] [leaf .identifier id.toList, token ":", hint .type u] := rfl
    rw [harg] at hdepth ⊢
    have hu := hdepth (hint .type u)
    cases ht with
    | none =>
      have h := meets_namedParameter (d := d) (c := c) (mk .typedParameter none (.ofOnset (.token start)) []
        [leaf .identifier id.toList, token ":", hint .type u]) (leaf .identifier id.toList) start rfl
        (.some (htype.hint .type)) .none (by simpa [ofParameter] using hu) (by simp)
      simpa [ofParameter, parameter, part?, named] using h
    | @some v _ ht =>
      have hv := hdepth (v.fill .value) (by simp [ofParameter, withDefault])
      have h := meets_namedParameter (d := d) (c := c) (ofParameter (.named (mk .typedParameter none
        (.ofOnset (.token start)) [] [leaf .identifier id.toList, token ":", hint .type u]) (some v)))
        ((leaf .identifier id.toList).fill .name) start rfl (.some (htype.hint .type)) (.some (ht.expr.fill .value))
        (by simpa [ofParameter, withDefault] using hu) (by simpa using hv)
      simpa [ofParameter, withDefault, parameter, required, part?] using h

lemma lowerParameters_cons (p : Node × Option Node) (ps : List (Node × Option Node)) :
    Tree.lowerParameters (p :: ps) = Tree.lowerParameter p >>= fun q => (q :: ·) <$> Tree.lowerParameters ps := by
  rw [Tree.lowerParameters]
  simp

lemma parameter_rest (g : Lowering) (c : Collected) (s : List Char) (t : Option ParseTree) :
    parameter g c (ofParameter (.rest s t)) = pure (c.rest (Grammar.nameBehindStars s)) := by
  cases t <;> simp [ofParameter, splat, parameter, splatName, named]

lemma parameter_options (g : Lowering) (c : Collected) (s : List Char) (t : Option ParseTree) :
    parameter g c (ofParameter (.options s t)) = pure (c.options (Grammar.nameBehindStars s)) := by
  cases t <;> simp [ofParameter, splat, parameter, splatName, named]

lemma getLast?_filterMap_cons {α β : Type} (f : α → Option β) (a : α) (as : List α) :
    ((a :: as).filterMap f).getLast? = (as.filterMap f).getLast?.or (f a) := by
  rw [List.filterMap_cons]
  cases f a with
  | none => simp
  | some b => cases h : (as.filterMap f).getLast? <;> simp [List.getLast?_cons, h]

def partDemands (p : Node × Option Node) : List Demand := demands p.1 ++ p.2.toList.flatMap demands

def collect (c : Collected) (ps : List (Parameter Node)) (qs ks : List (Nat × Option Nat)) : Stored Nat :=
  .arguments (c.args ++ qs.map Prod.fst) ((ps.filterMap Parameter.restName?).getLast?.or c.vararg)
    (c.keywordOnly ++ ks.map Prod.fst) (c.keywordDefaults ++ ks.map Prod.snd)
    ((ps.filterMap Parameter.optionsName?).getLast?.or c.kwarg) (c.defaults ++ qs.filterMap Prod.snd)

section Collect

variable (c : Collected) (ps : List (Parameter Node)) (s : List Char) (hint : Option Node)

lemma collect_nil : collect c [] [] [] = c.construct := by simp [collect, Collected.construct]

lemma collect_rest : collect (c.rest (Grammar.nameBehindStars s)) ps = collect c (.rest s hint :: ps) := by
  funext qs ks
  rw [collect, collect, getLast?_filterMap_cons, getLast?_filterMap_cons, Option.or_assoc, Option.or_assoc]
  rfl

lemma collect_options : collect (c.options (Grammar.nameBehindStars s)) ps = collect c (.options s hint :: ps) := by
  funext qs ks
  rw [collect, collect, getLast?_filterMap_cons, getLast?_filterMap_cons, Option.or_assoc, Option.or_assoc]
  rfl

lemma collect_keywordMark : collect { c with starred := true } ps = collect c (.keywordMark :: ps) := rfl

lemma collect_positionalMark : collect c ps = collect c (.positionalMark :: ps) := rfl

variable {c} (a : Node) (d : Option Node) (i : Nat) (j : Option Nat)

lemma collect_keyword (hc : c.starred = true) (qs : List (Nat × Option Nat)) :
    collect (c.add i j) ps qs = fun ks => collect c (.named a d :: ps) qs ((i, j) :: ks) := by
  funext ks
  simp [collect, Collected.add, hc, List.filterMap_cons, Parameter.restName?, Parameter.optionsName?]

lemma collect_positional (hc : c.starred = false) (qs : List (Nat × Option Nat)) :
    collect (c.add i j) ps qs = collect c (.named a d :: ps) ((i, j) :: qs) := by
  funext ks
  cases j <;> simp [collect, Collected.add, hc, List.filterMap_cons, Parameter.restName?, Parameter.optionsName?]

end Collect

lemma meets_behind {ps : List (Parameter ParseTree)} {ps' : List (Parameter Node)} (h : List.Forall₂ links.Parameters ps ps')
    (hd : ∀ p ∈ ps, (ofParameter p).depth ≤ d) (hc : c.starred = true) :
    Meets ((Parameter.keywordOnly true ps').flatMap partDemands)
      (Collected.construct <$> (ps.map ofParameter).foldlM (parameter (upTo d)) c)
      (collect c ps' [] <$> Tree.lowerParameters (Parameter.keywordOnly true ps')) := by
  induction h generalizing c with
  | nil => simpa [Tree.lowerParameters, Parameter.keywordOnly, collect_nil] using Meets.pure c.construct
  | cons hp _ ih =>
    obtain ⟨hd, hds⟩ := List.forall_mem_cons.mp hd
    rw [List.map_cons, List.foldlM_cons]
    cases hp with
    | @named _ a _ def' ha ht =>
      have hadd : ∀ i j, (c.add i j).starred = true := fun i j => by simp [Collected.add, hc]
      have hmeets := (meets_named (c := c) ha ht hd).bind_of (P := fun c => c.starred = true)
        (fun _ => hadd _ _) fun c' hc' => ih hds hc'
      simpa [namedDemands, partDemands, hc, collect_keyword _ a def' _ _ hc, lowerParameters_cons,
        Parameter.keywordOnly] using hmeets
    | @rest s _ hint ht =>
      have hmeets := @ih (c.rest (Grammar.nameBehindStars s)) hds rfl
      simpa [parameter_rest, collect_rest c _ s hint, Parameter.keywordOnly] using hmeets
    | @options s _ hint ht =>
      have hmeets := @ih (c.options (Grammar.nameBehindStars s)) hds hc
      simpa [parameter_options, collect_options c _ s hint, Parameter.keywordOnly] using hmeets
    | keywordMark =>
      have hmeets := @ih { c with starred := true } hds rfl
      simpa [ofParameter, parameter, collect_keywordMark, Parameter.keywordOnly] using hmeets
    | positionalMark => simpa [ofParameter, parameter, ← collect_positionalMark, Parameter.keywordOnly] using ih hds hc

/-- Where no star has come by yet. A parameter without a default is asked for one if an earlier one has one. -/
lemma meets_before {ps : List (Parameter ParseTree)} {ps' : List (Parameter Node)} (h : List.Forall₂ links.Parameters ps ps')
    (hd : ∀ p ∈ ps, (ofParameter p).depth ≤ d) (hc : c.starred = false) {seen : Bool} (hseen : (!c.defaults.isEmpty) = seen) :
    Meets ((Dialect.Step.positional seen (Parameter.positional ps')).flatMap Dialect.Step.demands ++
        (Parameter.keywordOnly false ps').flatMap partDemands)
      (Collected.construct <$> (ps.map ofParameter).foldlM (parameter (upTo d)) c)
      (do
        let qs ← Tree.lowerParameters (Parameter.positional ps')
        collect c ps' qs <$> Tree.lowerParameters (Parameter.keywordOnly false ps')) := by
  induction h generalizing c seen with
  | nil =>
    simpa [Tree.lowerParameters, Dialect.Step.positional, Parameter.keywordOnly, Parameter.positional, collect_nil] using
      Meets.pure c.construct
  | cons hp hps ih =>
    obtain ⟨hd, hds⟩ := List.forall_mem_cons.mp hd
    rw [List.map_cons, List.foldlM_cons]
    cases hp with
    | @named _ a _ def' ha ht =>
      have hadd : ∀ i j, (c.add i j).starred = false ∧ (!(c.add i j).defaults.isEmpty) = (seen || j.isSome) := by
        intro i j
        cases j <;> simp [Collected.add, hc, ← hseen]
      have hmeets := (meets_named (c := c) ha ht hd).bind_of
        (P := fun c => c.starred = false ∧ (!c.defaults.isEmpty) = (seen || def'.isSome))
        (fun r => by
          have hj : (r.after (Tree.lowerParameter (a, def'))).1.2.isSome = def'.isSome := by cases def' <;> rfl
          exact hj ▸ hadd _ _) fun c' hc' => ih hds hc'.1 hc'.2
      simp only [bind_pure_comp, bind_map_left, collect_positional _ a def' _ _ hc] at hmeets
      cases ht with
      | none =>
        cases seen <;> simpa [namedDemands, hc, hseen, lowerParameters_cons,
          Parameter.keywordOnly, Parameter.positional, Dialect.Step.positional, Dialect.Step.demands] using hmeets
      | some ht =>
        simpa [namedDemands, hc, hseen, lowerParameters_cons,
          Parameter.keywordOnly, Parameter.positional, Dialect.Step.positional, Dialect.Step.demands] using hmeets
    | @rest s _ hint ht =>
      have hmeets := @meets_behind _ (c.rest (Grammar.nameBehindStars s)) _ _ hps hds rfl
      simpa [parameter_rest, collect_rest c _ s hint, Parameter.keywordOnly, Parameter.positional,
        Dialect.Step.positional, Tree.lowerParameters] using hmeets
    | @options s _ hint ht =>
      have hmeets := @ih (c.options (Grammar.nameBehindStars s)) hds hc seen hseen
      simpa [parameter_options, collect_options c _ s hint, Parameter.keywordOnly, Parameter.positional] using hmeets
    | keywordMark =>
      have hmeets := @meets_behind _ { c with starred := true } _ _ hps hds rfl
      simpa [ofParameter, parameter, collect_keywordMark, Parameter.keywordOnly, Parameter.positional,
        Dialect.Step.positional, Tree.lowerParameters] using hmeets
    | positionalMark =>
      simpa [ofParameter, parameter, ← collect_positionalMark, Parameter.keywordOnly, Parameter.positional] using
        ih hds hc hseen

lemma isNamed_of_mem_parameters {ps : List (Parameter ParseTree)} {ps' : List (Parameter Node)}
    (h : List.Forall₂ links.Parameters ps ps') : ∀ t ∈ ps.map ofParameter, t.isNamed := by
  induction h with
  | nil => simp
  | cons hp _ ih => exact List.forall_mem_cons.mpr ⟨isNamed_ofParameter hp, ih⟩

lemma meets_parameters {ps : List (Parameter ParseTree)} {ps' : List (Parameter Node)}
    (h : List.Forall₂ links.Parameters ps ps') (r : Grammar.Role)
    (hd : ((Builder.parameters ps : ParseTree).fill r).depth ≤ d) :
    Meets (demands (Builder.parameters ps')) (parameters (upTo d) (some ((Builder.parameters ps).fill r)))
      (Node.lower (Builder.parameters ps')) := by
  have hparts : ∀ p ∈ ps, (ofParameter p).depth ≤ d := fun p hp =>
    depth_le_of_mem (t := (Builder.parameters ps).fill r)
      (by simpa [Builder.parameters] using mem_separated (List.mem_map_of_mem hp)) hd
  have hnamed : ((Builder.parameters ps : ParseTree).fill r).named = ps.map ofParameter := by
    simpa [Builder.parameters, named] using filter_separated (isNamed_of_mem_parameters h)
  have hnode : Builder.parameters ps' = Node.mk none (Parameter.shape ps') := rfl
  have hdemands : demands (Node.mk none (Parameter.shape ps')) =
      (Dialect.Step.positional false (Parameter.positional ps')).flatMap Dialect.Step.demands ++
        (Parameter.keywordOnly false ps').flatMap partDemands := by
    rw [Dialect.demands_eq]
    simp [Node.shape, Parameter.shape, Dialect.own, Dialect.Step.ofShape, List.flatMap_assoc, Dialect.Step.demands,
      List.flatMap_map]
    rfl
  have hmeets := (meets_before (c := .nothing) h hparts rfl rfl).last fun s => .record none s
  rw [hnode, hdemands, parameters, Option.map_some, Option.getD_some, hnamed]
  simpa [Node.lower, Parameter.shape, Shape.lower, Stored.ofShape, collect, Collected.nothing] using hmeets

end SourceBlocks.ParseTree
