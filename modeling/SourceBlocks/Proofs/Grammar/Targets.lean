import SourceBlocks.Proofs.Grammar.Written

namespace SourceBlocks.Grammar

open Lexis Grammar.Parser Literal
open SourceBlocks.Tree (Node Shape)

variable {S : Source} {s t : List Char} {g : Rules Node} {follow : Follow} {v : Value} {vs : List Value}

lemma eval_name (mark : Option Tree.Mark) (id : String) : eval (.mk mark (.name id)) = .error (malformed (.mk mark (.name id))) := by
  rw [eval]
  rfl

lemma stuck_simpleTarget (ht : Closing t) (hb : 0 < g.bound) (h : Reaches S (atom g follow) s t (Evaluates v)) :
    Stuck S (simpleTarget g follow) s := by
  refine .after h fun p hp => .step (reaches_trailers ht hb) ?_
  obtain ⟨⟨mark, shape⟩⟩ := p
  obtain ⟨heval, -⟩ := hp
  cases shape with
  | name id => simp [eval_name] at heval
  | _ => exact .require rfl

lemma stuck_atom_negative {k : Int} (hk : k < 0) : Stuck S (atom g follow) ((Value.int k).write ++ t) := by
  rw [write_negative hk, List.cons_append]
  refine .get fun c hc => ?_
  rw [hc.rest]
  refine .step (reaches_startsWith "...") ?_
  refine .get fun d hd => ?_
  rw [hd.rest]
  exact .require rfl

lemma reaches_noTrailer (ht : Closing t) : Reaches S (noTrailer follow) t t fun _ => True := by
  have hnext : t.head?.any ['.', '[', '('].contains = false := by
    rcases ht.eq_or with rfl | ⟨s, rfl | rfl | rfl | rfl | rfl⟩ <;> rfl
  refine ht.reaches_look.after fun more => ?_
  cases more with
  | false => exact .pure trivial
  | true =>
    have hin : Reaches S (nextIn ['.', '[', '(']) t t (· = false) := fun c hc => ⟨_, c, rfl, hc, by rw [hc.rest, hnext]⟩
    exact hin.step (.pure trivial)

section Items

variable {closing : String} {item : Parser (Phrase Node)}

lemma stops_nextItem (hc : closing ∈ closers) (hs : Opening s) (h : Stops S item s t fun _ => True) :
    Stops S (nextItem closing item) (',' :: ' ' :: s) t fun r => ∃ a, r = some (some a) := by
  have hcomma : Closing (',' :: ' ' :: s) := .cons rfl _
  refine .after hcomma.toBracket fun _ => .step (reaches_symbol? "," _) ?_
  refine .after (reaches_toToken_blank hs.solid) fun _ => .step (reaches_startsWith closing) ?_
  rw [hs.closer hc]
  exact h.bind fun a _ => .pure ⟨a, rfl⟩

lemma stops_series (hc : closing ∈ closers) (hvs : ∀ v ∈ vs, v.Exact)
    (h : ∀ v ∈ vs, ∀ t, Closing t → Stops S item (v.write ++ t) t fun _ => True) (n : Nat) :
    Stops S (series (nextItem closing item) n) (Value.listed Value.write vs ++ (closing.toList ++ t))
      (closing.toList ++ t) fun _ => True := by
  have ht := Closing.closer hc t
  induction n generalizing vs with
  | zero => exact .of_stuck .fail
  | succ n ih =>
    cases vs with
    | nil => exact .step (reaches_nextItem_none ht (closer_ne_comma hc)) (.pure trivial)
    | cons v vs =>
      obtain ⟨hv, hvs⟩ := List.forall_mem_cons.mp hvs
      obtain ⟨hitem, hitems⟩ := List.forall_mem_cons.mp h
      rw [Value.listed, List.flatMap_cons, List.cons_append, List.cons_append, List.cons_append, List.cons_append,
        List.append_assoc]
      refine (stops_nextItem hc (Opening.write hv _) (hitem _ ht.listed)).bind fun r hr => ?_
      obtain ⟨a, rfl⟩ := hr
      exact (ih hvs hitems).bind fun _ _ => .pure trivial

variable (opening : String) {shape : List Node → Shape Node}

lemma stops_targetGroup_nil (hc : closing ∈ closers) :
    Stops S (targetGroup g opening closing shape) (opening.toList ++ (closing.toList ++ t)) t fun _ => True := by
  refine .after reaches_here fun _ => .after (reaches_symbol opening _) fun _ => ?_
  refine .after (Closing.closer hc t).toBracket fun _ => .step (reaches_startsWith closing) ?_
  rw [if_pos (by simp)]
  exact .of_reaches ((reaches_close hc).mono fun _ _ => trivial)

lemma stops_targetGroup (hc : closing ∈ closers) (hv : v.Exact)
    (hfirst : Stops S (g.target .bracket) (v.write ++ s) s fun _ => True)
    (hmore : Stops S (series (nextItem closing (g.target .bracket)) g.bound) s (closing.toList ++ t) fun _ => True) :
    Stops S (targetGroup g opening closing shape) (opening.toList ++ (v.write ++ s)) t fun _ => True := by
  have hopens := Opening.write hv s
  refine .after reaches_here fun _ => .after (reaches_symbol opening _) fun _ => ?_
  refine .after (reaches_toToken hopens.solid) fun _ => .step (reaches_startsWith closing) ?_
  rw [hopens.closer hc]
  refine hfirst.bind fun _ _ => hmore.bind fun _ _ => ?_
  exact .of_reaches ((reaches_close hc).mono fun _ _ => trivial)

end Items

def TargetsStop (S : Source) (g : Rules Node) (v : Value) : Prop :=
  ∀ follow t, Closing t → Stops S (g.target follow) (v.write ++ t) t fun _ => True

lemma stops_tupleTarget (hvs : ∀ v ∈ vs, v.Exact) (h : ∀ v ∈ vs, TargetsStop S g v) (t : List Char) :
    Stops S (tupleTarget g) ((Value.tuple vs).write ++ t) t fun _ => True := by
  have hcloser : ")" ∈ closers := by decide
  match vs with
  | [] => exact stops_targetGroup_nil "(" hcloser
  | [v] =>
    obtain ⟨hv, -⟩ := List.forall_mem_cons.mp hvs
    rw [Value.write, List.append_assoc]
    refine stops_targetGroup "(" hcloser hv (h v List.mem_cons_self _ _ (.cons rfl _)) ?_
    cases g.bound with
    | zero => exact .of_stuck .fail
    | succ n => exact .step (reaches_nextItem_open hcloser) (.pure trivial)
  | v :: w :: vs =>
    obtain ⟨hv, hvs⟩ := List.forall_mem_cons.mp hvs
    obtain ⟨hfirst, hmore⟩ := List.forall_mem_cons.mp h
    rw [Value.write_tuple_cons, List.cons_append, List.append_assoc, List.append_assoc]
    exact stops_targetGroup "(" hcloser hv (hfirst _ _ (.cons rfl _))
      (stops_series hcloser hvs (fun v hv => hmore v hv _) _)

lemma stops_listTarget (hvs : ∀ v ∈ vs, v.Exact) (h : ∀ v ∈ vs, TargetsStop S g v) (t : List Char) :
    Stops S (listTarget g) ((Value.list vs).write ++ t) t fun _ => True := by
  have hcloser : "]" ∈ closers := by decide
  cases vs with
  | nil => exact stops_targetGroup_nil "[" hcloser
  | cons v vs =>
    obtain ⟨hv, hvs⟩ := List.forall_mem_cons.mp hvs
    obtain ⟨hfirst, hmore⟩ := List.forall_mem_cons.mp h
    have hclosing : Closing (Value.listed Value.write vs ++ ("]".toList ++ t)) := (Closing.closer hcloser t).listed
    rw [Value.write_list_cons, List.cons_append, List.append_assoc, List.append_assoc]
    exact stops_targetGroup "[" hcloser hv (hfirst _ _ hclosing)
      (stops_series hcloser hvs (fun v hv => hmore v hv _) _)

lemma targetsStop {bound n : Nat} (hv : v.Exact) (hn : v.write.length ≤ n) (hb : v.write.length < bound) :
    TargetsStop S (rules bound n) v := by
  induction n generalizing v with
  | zero => exact fun _ _ _ => .of_stuck .fail
  | succ n ih =>
    intro follow t ht
    have hbound := bound_rules bound n
    have hsimple : Stuck S (simpleTarget (rules bound n : Rules Node) follow) (v.write ++ t) := by
      by_cases hsign : Unsigned v
      · refine stuck_simpleTarget ht (by omega) (reaches_atom hv hsign (fun w hw => ?_) (by omega) ht)
        have := Value.length_write_lt_of_mem hw
        exact readsBack (hv.of_mem hw) (by omega) (by omega)
      · simp only [Unsigned, not_forall, Int.not_le] at hsign
        obtain ⟨k, rfl, hk⟩ := hsign
        exact .bind (stuck_atom_negative hk)
    have hmembers : ∀ w ∈ v.members, TargetsStop S (rules bound n) w := by
      intro w hw
      have := Value.length_write_lt_of_mem hw
      exact ih (hv.of_mem hw) (by omega) (by omega)
    have hgroup : ∀ {p : Parser (Phrase Node)}, Stops S p (v.write ++ t) t (fun _ => True) →
        Stops S ((wholeGroup follow p).or (simpleTarget (rules bound n) follow)) (v.write ++ t) t fun _ => True :=
      fun hp => .or (hp.bind fun _ _ => .after (reaches_noTrailer ht) fun _ => .pure trivial) (.of_stuck hsimple)
    obtain ⟨x, s, hs, hopens, htuple, hlist⟩ := hv.write_eq_cons
    refine .get fun c hc => ?_
    rw [hc.rest, hs, List.cons_append]
    split
    next heq =>
      obtain rfl := (List.cons.inj heq).1
      cases hopens
    next heq =>
      obtain ⟨vs, rfl⟩ := htuple (List.cons.inj heq).1
      cases hv with
      | tuple hvs =>
        rw [← List.cons_append, ← hs]
        exact hgroup (stops_tupleTarget hvs hmembers t)
    next heq =>
      obtain ⟨vs, rfl⟩ := hlist (List.cons.inj heq).1
      cases hv with
      | list hvs =>
        rw [← List.cons_append, ← hs]
        exact hgroup (stops_listTarget hvs hmembers t)
    next =>
      rw [← List.cons_append, ← hs]
      exact .of_stuck hsimple

/-! Assignments. -/

lemma stops_toToken_end : Stops S (toToken follow false) [] [] fun _ => True := by
  refine .step reaches_look_end ?_
  cases decide (follow ≠ .line) with
  | false => exact .of_stuck .fail
  | true => exact .pure trivial

lemma reaches_equalsHere :
    Reaches S equalsHere s s (· = ("=".toList.isPrefixOf s && !"==".toList.isPrefixOf s)) :=
  (reaches_startsWith "=").step ((reaches_startsWith "==").step (.pure rfl))

lemma stuck_assignment {bound n : Nat} (hv : v.Exact) (hn : v.write.length ≤ n) (hb : v.write.length < bound)
    (fuel : Nat) : Stuck S (assignment (rules bound n : Rules Node) true fuel) v.write := by
  have htarget := targetsStop (S := S) hv hn hb .line [] .nil
  rw [List.append_nil] at htarget
  cases fuel with
  | zero => exact .fail
  | succ fuel =>
    have htargets : Stops S (assignmentTargets (rules bound n : Rules Node) true) v.write [] fun _ => True :=
      .get fun c _ => .require (htarget.bind fun _ _ => stops_toToken_end.bind fun _ _ =>
        .step (reaches_symbol?_none rfl) (.pure trivial))
    refine htargets.stuck fun _ _ => .step reaches_equalsHere (.step (reaches_firstHere _) ?_)
    exact .step (reaches_startsWith ":=") (.require_bind (.bind (stuck_symbol rfl)))

lemma reaches_assignedValue (hread : ReadsBack S g v) (hv : v.Exact) (hb : 0 < g.bound) :
    Reaches S (assignedValue g) v.write [] fun a => ∃ p, a = .value p ∧ Evaluates v p := by
  have hopens := Opening.write hv []
  have hexpr := hread .line Level.lowest [] .nil
  rw [List.append_nil] at hopens hexpr
  have hlist : ∀ p, Reaches S (commaList g .line p) [] [] (· = ([p], false)) := by
    intro p
    obtain ⟨n, hbound⟩ := Nat.exists_eq_succ_of_ne_zero (Nat.pos_iff_ne_zero.mp hb)
    rw [commaList, hbound]
    refine Reaches.step (a := ([], false)) ?_ (.pure rfl)
    exact .step (a := none) (reaches_look_end.step (.pure rfl)) (.pure rfl)
  refine Reaches.bind (P := Evaluates v) ?_ fun p hp => .pure ⟨p, rfl, hp⟩
  refine reaches_here.after fun _ => (reaches_keyword?_none (hopens.word_ne rfl)).step (.neg nofun ?_)
  exact hexpr.bind fun p hp => (hlist p).step (.pure hp)

def assigning (v : Value) : List Char := 'x' :: ' ' :: '=' :: ' ' :: v.write

structure Assigns (p : Position) (v : Value) (n : Node) : Prop where
  mark : n.mark = some (.known p)
  shape : ∃ target value, n.shape = .assign [target] value ∧ target.shape = .name "x" ∧ eval value = .ok v
  demands : Dialect.demands n = []

def placeBefore (S : Source) (s : List Char) : Position := S.placeAt (S.chars.length - s.length)

lemma reaches_nameTarget (hb : 0 < g.bound) : Reaches S (target g .line) ('x' :: ' ' :: '=' :: s) ('=' :: s)
    fun p => p.mark = .known (placeBefore S ('x' :: ' ' :: '=' :: s)) ∧ p.node.shape = .name "x" := by
  have hsolid : Solid ('=' :: s) := ⟨_, _, rfl, by decide⟩
  have hname : Reaches S name ('x' :: ' ' :: '=' :: s) (' ' :: '=' :: s) (· = "x") := by
    have hword : word ('x' :: ' ' :: '=' :: s) = ['x'] := rfl
    refine reaches_wordHere.step ?_
    rw [hword]
    exact .require rfl ((reaches_advance_append (s := ['x']) _ rfl).after fun _ => .pure rfl)
  have hatom : Reaches S (atom g .line) ('x' :: ' ' :: '=' :: s) (' ' :: '=' :: s)
      fun p => p.mark = .known (placeBefore S ('x' :: ' ' :: '=' :: s)) ∧ p.node.shape = .name "x" := by
    refine .get fun c hc => ?_
    rw [hc.rest]
    exact reaches_here.step (hname.step (reaches_index.after fun _ => .pure ⟨rfl, rfl⟩))
  have htrailer : Reaches S (trailer g .line) (' ' :: '=' :: s) ('=' :: s) (· = none) :=
    (reaches_look_blank hsolid).step ((reaches_symbol?_none rfl).step ((reaches_startsWith "[").step
      ((reaches_startsWith "(").step (.pure rfl))))
  refine .get fun c hc => ?_
  rw [hc.rest]
  refine hatom.bind fun p hp => (reaches_collect_nil htrailer hb).step (.pos ?_ (.require rfl (.pure hp)))
  simp [headOf, hp.2]

lemma reaches_assignment {bound n : Nat} (hv : v.Exact) (hn : v.write.length ≤ n) (hb : v.write.length < bound)
    (fuel : Nat) : Reaches S (assignment (rules bound (n + 1)) false (fuel + 1)) (assigning v) []
      fun a => Assigns (placeBefore S (assigning v)) v a.statement := by
  have hbound := bound_rules bound n
  have htargets : Reaches S (assignmentTargets (rules bound (n + 1) : Rules Node) false) (assigning v) ('=' :: ' ' :: v.write)
      fun p => p.mark = .known (placeBefore S (assigning v)) ∧ p.node.shape = .name "x" := by
    have hsolid : Solid ('=' :: ' ' :: v.write) := ⟨_, _, rfl, by decide⟩
    refine .get fun c hc => ?_
    rw [hc.rest]
    refine .require rfl ((reaches_nameTarget (by omega)).bind fun p hp => ?_)
    exact (reaches_toToken hsolid).after fun _ => (reaches_symbol?_none rfl).step (.pure hp)
  have hvalue := reaches_assignedValue (S := S) (readsBack hv (hn.trans n.le_succ) hb) hv (Nat.zero_lt_of_lt hb)
  have hnested := stuck_assignment (S := S) hv (hn.trans n.le_succ) hb fuel
  refine htargets.bind fun p hp => reaches_equalsHere.step ((reaches_symbol "=" _).after fun _ => ?_)
  have hopens := Opening.write hv []
  rw [List.append_nil] at hopens
  refine Reaches.bind (.after (reaches_toToken_blank hopens.solid) fun _ => .or_right hnested hvalue) fun a ha => .pure ?_
  obtain ⟨q, rfl, hq, hdemands⟩ := ha
  have hname : Dialect.demands p.node = [] := by
    apply demands_eq_nil
    · rw [Dialect.own, hp.2]
    · rw [hp.2]
      exact List.forall_mem_nil _
  refine ⟨congrArg some hp.1, ⟨p.node, q.node, rfl, hp.2, hq⟩, demands_eq_nil rfl ?_⟩
  exact List.forall_mem_cons.mpr ⟨hname, List.forall_mem_singleton.mpr hdemands⟩

lemma reaches_simpleStatement {bound n : Nat} (hv : v.Exact) (hn : v.write.length ≤ n) (hb : v.write.length < bound) :
    Reaches S (simpleStatement (rules bound (n + 1))) (assigning v) [] (Assigns (placeBefore S (assigning v)) v) := by
  have hend : Reaches S statementEnd [] [] fun _ => True := reaches_look_end.step (.pure trivial)
  obtain ⟨fuel, rfl⟩ := Nat.exists_eq_succ_of_ne_zero (Nat.pos_iff_ne_zero.mp (Nat.zero_lt_of_lt hb))
  have hword : word (assigning v) = ['x'] := rfl
  refine .get fun c hc => ?_
  rw [hc.rest]
  refine reaches_wordHere.step ?_
  rw [hword]
  refine .or_left (Reaches.bind ?_ fun a ha => hend.after fun _ => .pure ha)
  exact (reaches_assignment hv hn hb fuel).bind fun a ha => .pure ha

lemma reaches_statement {bound n : Nat} (hv : v.Exact) (hn : v.write.length ≤ n) (hb : v.write.length < bound) :
    Reaches S (statement (rules bound (n + 1))) (assigning v) []
      fun ns => ∃ m, ns = [m] ∧ Assigns (placeBefore S (assigning v)) v m := by
  obtain ⟨fuel, rfl⟩ := Nat.exists_eq_succ_of_ne_zero (Nat.pos_iff_ne_zero.mp (Nat.zero_lt_of_lt hb))
  have hword : word (assigning v) = ['x'] := rfl
  refine .get fun c hc => ?_
  rw [hc.rest]
  refine (reaches_startsWith "@").step (reaches_wordHere.step ?_)
  rw [hword]
  refine (reaches_simpleStatement hv hn hb).bind fun m hm => Reaches.step (a := ([], false)) ?_ (.pure ⟨m, rfl, hm⟩)
  exact .step (a := none) (reaches_look_end.step (.pure rfl)) (.pure rfl)

lemma blockStep_token {c : Cursor} (h : ahead betweenStatements (c.total + 1) c = .token c) :
    blockStep g c = (if c.rest.isEmpty then pure none else do
      let ns ← statement g
      pure (some ns) : Parser _) c := by
  simp only [blockStep, aheadHere, Bind.bind, StateT.bind, Except.bind, h]
  rfl

lemma reaches_blockStep {Q : List Node → Prop} (hs : Solid s) (h : Reaches S (statement g) s t Q) :
    Reaches S (blockStep g) s t fun r => ∃ ns, r = some ns ∧ Q ns := by
  intro c hc
  obtain ⟨ns, d, hread, hd, hns⟩ := h c hc
  refine ⟨some ns, d, ?_, hd, ns, rfl, hns⟩
  have hne : c.rest.isEmpty = false := by
    obtain ⟨x, r, rfl, -⟩ := hs
    rw [hc.rest]
    rfl
  rw [blockStep_token (ahead_solid (hc.rest ▸ hs) c.total), hne]
  simp only [Bool.false_eq_true, if_false, Bind.bind, StateT.bind, Except.bind, hread]
  rfl

lemma reaches_blockStep_end : Reaches S (blockStep g) [] [] (· = none) := by
  intro c hc
  refine ⟨none, c, ?_, hc, rfl⟩
  have hempty : c.rest.isEmpty = true := by
    rw [hc.rest]
    rfl
  rw [blockStep_token (ahead_end hc.rest hc.indents rfl c.total), hempty]
  rfl

lemma reaches_block {Q : List Node → Prop} (hs : Solid s) (hb : 1 < g.bound) (h : Reaches S (statement g) s [] Q) :
    Reaches S (block g) s [] Q := by
  obtain ⟨b, hbound⟩ : ∃ b, g.bound = b + 1 + 1 := ⟨g.bound - 2, by omega⟩
  have hcollect : Reaches S (collect (blockStep g) g.bound) s [] fun nss => ∃ ns, nss = [ns] ∧ Q ns := by
    rw [hbound]
    refine (reaches_blockStep hs h).bind fun r hr => ?_
    obtain ⟨ns, rfl, hns⟩ := hr
    exact Reaches.step (.step reaches_blockStep_end (.pure rfl)) (.pure ⟨ns, rfl, hns⟩)
  refine hcollect.bind fun nss hnss => .pure ?_
  obtain ⟨ns, rfl, hns⟩ := hnss
  rwa [List.flatten_singleton]

theorem read_assigning (hv : v.Exact) (margin : Nat) :
    ∃ m, read margin (assigning v) = .ok (Tree.Node.mk none (.module [m])) ∧ Assigns ⟨0, margin⟩ v m := by
  let S : Source := ⟨margin, assigning v⟩
  have hsolid : Solid (assigning v) := ⟨_, _, rfl, by decide⟩
  have hlength : (assigning v).length = v.write.length + 4 := rfl
  have hbound := bound_rules ((assigning v).length + 16) (depth (assigning v))
  have hstatement : Reaches S (statement (rules ((assigning v).length + 16) (depth (assigning v)))) (assigning v) []
      fun ns => ∃ m, ns = [m] ∧ Assigns (placeBefore S (assigning v)) v m := by
    have hdepth : depth (assigning v) = 4 * (assigning v).length + 63 + 1 := rfl
    rw [hdepth]
    exact reaches_statement hv (by omega) (by omega)
  have hplace : placeBefore S (assigning v) = ⟨0, margin⟩ := by
    rw [placeBefore, Nat.sub_self]
    rfl
  obtain ⟨ns, d, hread, -, m, rfl, hm⟩ := reaches_block hsolid (by omega) hstatement
    (Cursor.ofSource margin (assigning v)) ⟨S.has_ofSource, rfl, rfl, rfl⟩
  refine ⟨m, ?_, hplace ▸ hm⟩
  rw [read]
  simp only [hread]
  rfl

end SourceBlocks.Grammar
