import SourceBlocks.Proofs.Grammar.Literals

namespace SourceBlocks.Literal.Value

variable {v : Value} {vs : List Value}

inductive Exact : Value → Prop
  | nothing : Exact nothing
  | bool (b : Bool) : Exact (bool b)
  | int {n : Int} (hn : n.natAbs < 2 ^ 127) : Exact (int n)
  | str (s : String) : Exact (str s)
  | bytes (bs : List UInt8) : Exact (bytes bs)
  | tuple {vs : List Value} (hvs : ∀ v ∈ vs, Exact v) : Exact (tuple vs)
  | list {vs : List Value} (hvs : ∀ v ∈ vs, Exact v) : Exact (list vs)
  | set {vs : List Value} (hne : vs ≠ []) (hvs : ∀ v ∈ vs, Exact v) : Exact (set vs)
  | dict {es : List (Value × Value)} (hks : ∀ e ∈ es, Exact e.1) (hvs : ∀ e ∈ es, Exact e.2) : Exact (dict es)

def listed {β : Type} (w : β → List Char) (bs : List β) : List Char := bs.flatMap fun b => ',' :: ' ' :: w b

def writeEntry (e : Value × Value) : List Char := e.1.write ++ ':' :: ' ' :: e.2.write

lemma commas_cons {β : Type} (w : β → List Char) (b : β) (bs : List β) :
    commas ((b :: bs).map w) = w b ++ listed w bs := by
  induction bs generalizing b with
  | nil => simp [commas, listed]
  | cons c bs ih =>
    rw [List.map_cons, List.map_cons, commas, ← List.map_cons, ih]
    rfl

lemma writeAll_eq (vs : List Value) : writeAll vs = vs.map write := by
  induction vs with
  | nil => rfl
  | cons v vs ih => rw [writeAll, ih, List.map_cons]

lemma writeEntries_eq (es : List (Value × Value)) : writeEntries es = es.map writeEntry := by
  induction es with
  | nil => rfl
  | cons e es ih =>
    rw [writeEntries, ih]
    rfl

lemma write_tuple_cons (v w : Value) (vs : List Value) :
    write (tuple (v :: w :: vs)) = '(' :: (v.write ++ (listed write (w :: vs) ++ [')'])) := by
  rw [write, writeAll_eq, commas_cons, List.cons_append, List.append_assoc]
  simp

lemma write_list_cons (v : Value) (vs : List Value) :
    write (list (v :: vs)) = '[' :: (v.write ++ (listed write vs ++ [']'])) := by
  rw [write, writeAll_eq, commas_cons, List.cons_append, List.append_assoc]

lemma write_set_cons (v : Value) (vs : List Value) :
    write (set (v :: vs)) = '\x7b' :: (v.write ++ (listed write vs ++ ['\x7d'])) := by
  rw [write, writeAll_eq, commas_cons, List.cons_append, List.append_assoc]
  simp

lemma write_dict_cons (e : Value × Value) (es : List (Value × Value)) :
    write (dict (e :: es)) = '\x7b' :: (e.1.write ++ ':' :: ' ' :: (e.2.write ++ (listed writeEntry es ++ ['\x7d']))) := by
  rw [write, writeEntries_eq, commas_cons, List.cons_append, List.append_assoc, writeEntry]
  simp

def opens (x : Char) : Bool := x ∈ ['N', 'T', 'F', '-', '\'', '"', 'b', '(', '[', '\x7b'] || Number.isDigit x

lemma exists_write (n : Nat) : ∃ d s, Number.write 10 n = d :: s ∧ Number.isDigit d = true := by
  obtain ⟨d, s, hs, -⟩ := Number.write_eq_cons (by decide : 1 < 10) n
  exact ⟨d, s, hs, Number.isDigit_of_mem_write (hs ▸ List.mem_cons_self)⟩

lemma Exact.write_eq_cons (hv : v.Exact) :
    ∃ x s, v.write = x :: s ∧ opens x = true ∧ (x = '(' → ∃ vs, v = Value.tuple vs) ∧
      (x = '[' → ∃ vs, v = Value.list vs) := by
  cases hv with
  | nothing => exact ⟨_, _, rfl, rfl, by simp, by simp⟩
  | bool b => cases b <;> exact ⟨_, _, rfl, rfl, by simp, by simp⟩
  | @int n =>
    rw [write, writeInt]
    by_cases hn : n < 0
    · rw [if_pos hn]
      exact ⟨_, _, rfl, rfl, by simp, by simp⟩
    · obtain ⟨d, s, hs, hd⟩ := exists_write n.natAbs
      rw [if_neg hn]
      exact ⟨d, s, hs, by simp [opens, hd], fun h => absurd h (ne_of_isDigit hd rfl),
        fun h => absurd h (ne_of_isDigit hd rfl)⟩
  | str s =>
    rw [write, quote]
    rcases chooseQuote_cases s.toList with h | h <;> rw [h] <;> exact ⟨_, _, rfl, rfl, by simp, by simp⟩
  | bytes bs => exact ⟨_, _, rfl, rfl, by simp, by simp⟩
  | @tuple vs =>
    rcases vs with _ | ⟨v, _ | ⟨w, vs⟩⟩
    · exact ⟨_, _, rfl, rfl, fun _ => ⟨_, rfl⟩, by simp⟩
    · exact ⟨_, _, rfl, rfl, fun _ => ⟨_, rfl⟩, by simp⟩
    · exact ⟨_, _, write_tuple_cons v w vs, rfl, fun _ => ⟨_, rfl⟩, by simp⟩
  | list => exact ⟨_, _, rfl, rfl, by simp, fun _ => ⟨_, rfl⟩⟩
  | @set vs hne =>
    obtain ⟨v, vs, rfl⟩ := List.exists_cons_of_ne_nil hne
    exact ⟨_, _, write_set_cons v vs, rfl, by simp, by simp⟩
  | dict => exact ⟨_, _, rfl, rfl, by simp, by simp⟩

end SourceBlocks.Literal.Value

namespace SourceBlocks.Grammar

open Lexis Grammar.Parser Literal
open SourceBlocks.Tree (Node Shape)

variable {S : Source} {s t : List Char} {g : Rules Node} {site : Site} {follow : Follow} {level : Int} {v : Value}
  {vs : List Value}

def Opening (s : List Char) : Prop := ∃ x r, s = x :: r ∧ Value.opens x = true

namespace Opening

lemma write (hv : v.Exact) (t : List Char) : Opening (v.write ++ t) := by
  obtain ⟨x, s, hs, hx, -⟩ := hv.write_eq_cons
  exact ⟨x, s ++ t, by rw [hs, List.cons_append], hx⟩

lemma head (hs : Opening s) : ∀ x, s.head? = some x → Value.opens x = true := by
  obtain ⟨y, r, rfl, hy⟩ := hs
  rintro x hx
  obtain rfl := Option.some.inj hx
  exact hy

lemma isPrefixOf (hs : Opening s) {w : String} (hw : (w.toList.head?.any fun x => !Value.opens x) = true) :
    w.toList.isPrefixOf s = false := isPrefixOf_eq_false hs.head hw

lemma solid (hs : Opening s) : Solid s := by
  obtain ⟨x, r, rfl, hx⟩ := hs
  refine ⟨x, r, rfl, ?_⟩
  simp only [Value.opens, Bool.or_eq_true, List.mem_cons, List.not_mem_nil, or_false, decide_eq_true_eq] at hx
  rcases hx with hx | hx
  · rcases hx with rfl | rfl | rfl | rfl | rfl | rfl | rfl | rfl | rfl | rfl <;> decide
  · refine ⟨?_, ne_of_isDigit hx rfl, ne_of_isDigit hx rfl⟩
    simp only [Number.isDigit, Bool.and_eq_true, decide_eq_true_eq, Char.le_def, UInt32.le_iff_toNat_le] at hx
    have hlow : 48 ≤ x.toNat := hx.1
    have hhigh : x.toNat ≤ 57 := hx.2
    have hblank : x ≠ ' ' := by
      rintro rfl
      exact absurd hlow (by decide)
    simp [isGap, hblank]
    omega

lemma word_ne (hs : Opening s) {w : String} (hw : (w.toList.head?.any fun x => !Value.opens x) = true) :
    String.ofList (word s) ≠ w := by
  rintro rfl
  obtain ⟨x, r, rfl, hx⟩ := hs
  by_cases hstart : isWordStart x = true <;> simp [word, hstart, hx] at hw

end Opening

lemma Closing.reaches_toToken (ht : Closing t) (hf : follow ≠ .line) {string : Bool} :
    Reaches S (toToken follow string) t t fun _ => True := by
  rcases ht.cases with rfl | hs
  · refine reaches_look_end.step ?_
    rw [decide_eq_true hf]
    exact .pure trivial
  · exact Grammar.reaches_toToken hs

lemma Closing.toBracket (ht : Closing t) {string : Bool} : Reaches S (toToken .bracket string) t t fun _ => True :=
  ht.reaches_toToken (by decide)

lemma Closing.isPrefixOf (ht : Closing t) {w : String} (hw : (w.toList.head?.any fun x => !isCloser x) = true) :
    w.toList.isPrefixOf t = false := isPrefixOf_eq_false ht hw

lemma Closing.word_ne (ht : Closing t) {w : String} (hw : w ≠ "") : String.ofList (Lexis.word t) ≠ w := by
  rw [ht.word]
  exact hw.symm

lemma reaches_forHere (ht : Closing t) : Reaches S forHere t t (· = false) := by
  refine reaches_wordHere.step (.neg (ht.word_ne ?_) (.neg (ht.word_ne ?_) (.pure rfl)))
  all_goals decide

lemma reaches_starHere (hs : Opening s) : Reaches S starHere s s (· = false) := by
  have hstar : ['*'].isPrefixOf s = false := hs.isPrefixOf (w := "*") rfl
  intro c hc
  refine ⟨_, c, rfl, hc, ?_⟩
  rw [hc.rest, hstar, Bool.false_and]

/-! Lists with commas. -/

section Items

variable {α β : Type} {closing : String} {item : Parser α} {w : β → List Char} {Q : β → α → Prop} {bs : List β}

def closers : List String := [")", "]", "\x7d"]

lemma Closing.closer (hc : closing ∈ closers) (t : List Char) : Closing (closing.toList ++ t) := by
  simp only [closers, List.mem_cons, List.not_mem_nil, or_false] at hc
  rcases hc with rfl | rfl | rfl <;> exact .cons rfl t

lemma Opening.closer (hs : Opening s) (hc : closing ∈ closers) : closing.toList.isPrefixOf s = false := by
  simp only [closers, List.mem_cons, List.not_mem_nil, or_false] at hc
  rcases hc with rfl | rfl | rfl <;> exact hs.isPrefixOf rfl

lemma closer_ne_comma (hc : closing ∈ closers) : ",".toList.isPrefixOf (closing.toList ++ t) = false := by
  simp only [closers, List.mem_cons, List.not_mem_nil, or_false] at hc
  rcases hc with rfl | rfl | rfl <;> rfl

def nextItem (closing : String) (item : Parser α) : Parser (Option (Option α)) := do
  toToken .bracket false
  if !(← symbol? ",") then pure none
  else do
    toToken .bracket true
    if ← startsWith closing then pure (some none)
    else do
      let a ← item
      pure (some (some a))

lemma reaches_nextItem_none (ht : Closing t) (hcomma : ",".toList.isPrefixOf t = false) :
    Reaches S (nextItem closing item) t t (· = none) :=
  ht.toBracket.after fun _ => (reaches_symbol?_none hcomma).step (.pure rfl)

lemma reaches_nextItem_open (hc : closing ∈ closers) :
    Reaches S (nextItem closing item) (',' :: (closing.toList ++ t)) (closing.toList ++ t) (· = some none) := by
  have hcomma : Closing (',' :: (closing.toList ++ t)) := .cons rfl _
  refine hcomma.toBracket.after fun _ => (reaches_symbol? "," _).step ?_
  refine (Closing.closer hc t).toBracket.after fun _ => (reaches_startsWith closing).step (.pos ?_ (.pure rfl))
  simp

lemma reaches_nextItem (hc : closing ∈ closers) (hs : Opening s) {Q : α → Prop} (h : Reaches S item s t Q) :
    Reaches S (nextItem closing item) (',' :: ' ' :: s) t fun r => ∃ a, r = some (some a) ∧ Q a := by
  have hcomma : Closing (',' :: ' ' :: s) := .cons rfl _
  refine hcomma.toBracket.after fun _ => (reaches_symbol? "," _).step ?_
  refine (reaches_toToken_blank hs.solid).after fun _ => (reaches_startsWith closing).step ?_
  rw [hs.closer hc]
  exact .neg nofun (h.bind fun a ha => .pure ⟨a, rfl, ha⟩)

lemma Closing.listed (ht : Closing t) : Closing (Value.listed w bs ++ t) := by
  cases bs with
  | nil => exact ht
  | cons b bs => exact .cons rfl _

lemma reaches_series (hc : closing ∈ closers) (hopens : ∀ b ∈ bs, ∀ t, Opening (w b ++ t))
    (h : ∀ b ∈ bs, ∀ t, Closing t → Reaches S item (w b ++ t) t (Q b)) {n : Nat} (hn : bs.length < n) :
    Reaches S (series (nextItem closing item) n) (Value.listed w bs ++ (closing.toList ++ t)) (closing.toList ++ t)
      fun r => List.Forall₂ Q bs r.1 ∧ r.2 = false := by
  have ht := Closing.closer hc t
  induction bs generalizing n with
  | nil =>
    obtain ⟨n, rfl⟩ := Nat.exists_eq_succ_of_ne_zero (Nat.pos_iff_ne_zero.mp hn)
    exact (reaches_nextItem_none ht (closer_ne_comma hc)).step (.pure ⟨.nil, rfl⟩)
  | cons b bs ih =>
    obtain ⟨n, rfl⟩ := Nat.exists_eq_succ_of_ne_zero (Nat.pos_iff_ne_zero.mp (Nat.zero_lt_of_lt hn))
    obtain ⟨hb, hbs⟩ := List.forall_mem_cons.mp h
    obtain ⟨hob, hobs⟩ := List.forall_mem_cons.mp hopens
    have hrest := ih hobs hbs (Nat.lt_of_succ_lt_succ hn)
    rw [Value.listed, List.flatMap_cons, List.cons_append, List.cons_append, List.cons_append, List.cons_append,
      List.append_assoc]
    refine (reaches_nextItem hc (hob _) (hb _ ht.listed)).bind fun r hr => ?_
    obtain ⟨a, rfl, ha⟩ := hr
    refine hrest.bind fun r hr => .pure ⟨.cons ha hr.1, hr.2⟩

end Items

lemma reaches_close {start : Position} {closing : String} {shape : Shape Node} (hc : closing ∈ closers) :
    Reaches S (close start closing shape) (closing.toList ++ t) t fun p => p.node.shape = shape :=
  (Closing.closer hc t).toBracket.after fun _ => (reaches_symbol closing t).after fun _ =>
    reaches_index.after fun _ => .pure rfl

/-! Members of collections. -/

def ReadsBack (S : Source) (g : Rules Node) (v : Value) : Prop :=
  ∀ site level t, Closing t → Reaches S (g.expr site level) (v.write ++ t) t (Evaluates v)

lemma stuck_starGroup (hv : v.Exact) (n : Nat) (t : List Char) : Stuck S (starGroup g n) (v.write ++ t) := by
  induction n generalizing v t with
  | zero => exact .fail
  | succ n ih =>
    have hstar : ∀ {s}, "*".toList.isPrefixOf s = false → Stuck S (starElement g) s :=
      fun h => .after reaches_here fun _ _ => .bind (stuck_symbol h)
    -- behind the bracket stands a member, and none begins with a star
    have htuple : ∀ {w : Value} {r}, w.Exact → Stuck S (starGroup g (n + 1)) ('(' :: (w.write ++ r)) := by
      intro w r hw
      have hopens := Opening.write hw r
      refine .after reaches_here fun _ _ => .after (reaches_symbol "(" _) fun _ _ => ?_
      refine .after (reaches_toToken hopens.solid) fun _ _ => .step (reaches_startsWith "(") ?_
      split_ifs
      · exact .bind (ih hw r)
      · exact .bind (hstar (hopens.isPrefixOf rfl))
    obtain ⟨x, s, hs, -, htup, -⟩ := hv.write_eq_cons
    by_cases hx : x = '('
    · obtain ⟨vs, rfl⟩ := htup hx
      cases hv with
      | tuple hvs =>
        match vs with
        | [] =>
          have hclose : Closing (')' :: t) := .cons rfl t
          refine .after reaches_here fun _ _ => .after (reaches_symbol "(" (')' :: t)) fun _ _ => ?_
          refine .after hclose.toBracket fun _ _ => .step (reaches_startsWith "(") ?_
          exact .bind (hstar rfl)
        | [v] =>
          rw [Value.write, List.append_assoc]
          exact htuple (hvs v List.mem_cons_self)
        | v :: w :: vs =>
          rw [Value.write_tuple_cons, List.cons_append, List.append_assoc]
          exact htuple (hvs v List.mem_cons_self)
    · refine .after reaches_here fun _ _ => .bind (stuck_symbol ?_)
      simp [hs, List.isPrefixOf, Ne.symm hx]

lemma reaches_element (hv : v.Exact) (h : ReadsBack S g v) (ht : Closing t) (isFirst : Bool) :
    Reaches S (element g isFirst) (v.write ++ t) t (Evaluates v) := by
  have hopens := Opening.write hv t
  have hplain := h .bracket Level.lowest t ht
  refine (reaches_starHere hopens).step (.neg nofun ((reaches_startsWith "(").step ?_))
  split_ifs
  · refine reaches_here.after fun _ => (Reaches.optional_none (.bind (stuck_starGroup hv _ t))).step hplain
  · refine reaches_here.after fun _ => (reaches_keyword?_none (hopens.word_ne rfl)).step (.neg nofun hplain)

lemma reaches_moreElements {closing : String} (hc : closing ∈ closers) (hvs : ∀ v ∈ vs, v.Exact)
    (h : ∀ v ∈ vs, ReadsBack S g v) (hn : vs.length < g.bound) :
    Reaches S (moreElements g closing) (Value.listed Value.write vs ++ (closing.toList ++ t)) (closing.toList ++ t)
      fun r => List.Forall₂ Evaluates vs r.1 ∧ r.2 = !vs.isEmpty := by
  have hitem : ∀ v ∈ vs, ∀ t, Closing t → Reaches S (element g false) (v.write ++ t) t (Evaluates v) :=
    fun v hv t ht => reaches_element (hvs v hv) (h v hv) ht false
  refine (reaches_series hc (fun v hv => Opening.write (hvs v hv)) hitem hn).bind ?_
  rintro ⟨ps, isOpen⟩ ⟨hps, rfl⟩
  refine .pure ⟨hps, ?_⟩
  cases hps <;> rfl

/-! The values of collections. -/

lemma eval_tuple (mark : Option Tree.Mark) (ns : List Node) :
    eval (.mk mark (.tuple ns)) = Value.tuple <$> ns.mapM eval := by
  rw [eval]
  simp [Node.shape]

lemma eval_list (mark : Option Tree.Mark) (ns : List Node) :
    eval (.mk mark (.list ns)) = Value.list <$> ns.mapM eval := by
  rw [eval]
  simp [Node.shape]

lemma eval_set (mark : Option Tree.Mark) (ns : List Node) :
    eval (.mk mark (.set ns)) = Value.set <$> ns.mapM eval := by
  rw [eval]
  simp [Node.shape]

lemma Evaluates.collection {make : List Value → Value} {shape : List Node → Shape Node}
    (heval : ∀ mark ns, eval (.mk mark (shape ns)) = make <$> ns.mapM eval)
    (hown : ∀ mark ns, Dialect.own (.mk mark (shape ns)) = [])
    (hsteps : ∀ ns, Dialect.Step.ofShape (shape ns) = ns.map .visit)
    {ps : List (Phrase Node)} (hps : List.Forall₂ Evaluates vs ps) {p : Phrase Node} (hp : p.node.shape = shape (ps.map Phrase.node)) :
    Evaluates (make vs) p := by
  obtain ⟨hdemands, hvalues⟩ := (List.forall₂_and_left _ _).mp (hps.flip.imp fun _ _ h => And.symm h)
  have hmapM : (ps.map Phrase.node).mapM eval = .ok vs := by
    rw [Outcome.mapM_eq_ok, List.forall₂_map_left_iff]
    exact hvalues
  obtain ⟨⟨mark, s⟩⟩ := p
  obtain rfl : s = _ := hp
  refine ⟨?_, demands_eq_nil (hown mark _) fun s hs => ?_⟩
  · rw [heval, hmapM]
    rfl
  · rw [Node.shape, hsteps, List.map_map] at hs
    obtain ⟨q, hq, rfl⟩ := List.mem_map.mp hs
    exact hdemands q hq

lemma Evaluates.tuple {ps : List (Phrase Node)} (hps : List.Forall₂ Evaluates vs ps) {p : Phrase Node}
    (hp : p.node.shape = .tuple (ps.map Phrase.node)) : Evaluates (.tuple vs) p :=
  .collection eval_tuple (fun _ _ => rfl) (fun _ => by simp [Dialect.Step.ofShape, Shape.children, Shape.fieldNodes,
    Shape.fields, Tree.Field.nodes]) hps hp

lemma Evaluates.list {ps : List (Phrase Node)} (hps : List.Forall₂ Evaluates vs ps) {p : Phrase Node}
    (hp : p.node.shape = .list (ps.map Phrase.node)) : Evaluates (.list vs) p :=
  .collection eval_list (fun _ _ => rfl) (fun _ => by simp [Dialect.Step.ofShape, Shape.children, Shape.fieldNodes,
    Shape.fields, Tree.Field.nodes]) hps hp

lemma Evaluates.set {ps : List (Phrase Node)} (hps : List.Forall₂ Evaluates vs ps) {p : Phrase Node}
    (hp : p.node.shape = .set (ps.map Phrase.node)) : Evaluates (.set vs) p :=
  .collection eval_set (fun _ _ => rfl) (fun _ => by simp [Dialect.Step.ofShape, Shape.children, Shape.fieldNodes,
    Shape.fields, Tree.Field.nodes]) hps hp

/-! Collections. -/

lemma reaches_listAtom (hvs : ∀ v ∈ vs, v.Exact) (h : ∀ v ∈ vs, ReadsBack S g v) (hn : vs.length ≤ g.bound)
    (t : List Char) : Reaches S (listAtom g) ((Value.list vs).write ++ t) t (Evaluates (.list vs)) := by
  have hcloser : "]" ∈ closers := by decide
  cases vs with
  | nil =>
    have hclose : Closing (']' :: t) := .cons rfl t
    refine reaches_here.after fun _ => (reaches_symbol "[" (']' :: t)).after fun _ => hclose.toBracket.after fun _ => ?_
    refine (reaches_startsWith "]").step (.pos (by rfl) ?_)
    exact (reaches_close hcloser).mono fun _ hp => .list .nil hp
  | cons v vs =>
    obtain ⟨hv, hvs⟩ := List.forall_mem_cons.mp hvs
    obtain ⟨hreadv, hreadvs⟩ := List.forall_mem_cons.mp h
    have hclosing : Closing (Value.listed Value.write vs ++ ("]".toList ++ t)) := (Closing.closer hcloser t).listed
    rw [Value.write_list_cons, List.cons_append, List.append_assoc, List.append_assoc]
    have hopens := Opening.write hv (Value.listed Value.write vs ++ ("]".toList ++ t))
    refine reaches_here.after fun _ => (reaches_symbol "[" _).after fun _ => ?_
    refine (reaches_toToken hopens.solid).after fun _ => (reaches_startsWith "]").step ?_
    rw [hopens.closer hcloser]
    refine (reaches_element hv hreadv hclosing true).bind fun p hp => hclosing.toBracket.after fun _ => ?_
    refine (reaches_forHere hclosing).step ((reaches_moreElements hcloser hvs hreadvs hn).bind fun r hr => ?_)
    exact (reaches_close hcloser).mono fun _ hq => .list (.cons hp hr.1) hq

lemma reaches_parenAtom (hvs : ∀ v ∈ vs, v.Exact) (h : ∀ v ∈ vs, ReadsBack S g v) (hn : vs.length ≤ g.bound)
    (t : List Char) : Reaches S (parenAtom g follow) ((Value.tuple vs).write ++ t) t (Evaluates (.tuple vs)) := by
  have hcloser : ")" ∈ closers := by decide
  -- a first member and what says that it is one of several
  have hfirst : ∀ {v : Value} {r : List Char} {vs : List Value}, v.Exact → ReadsBack S g v → Closing r →
      Reaches S (moreElements g ")") r (")".toList ++ t) (fun m => List.Forall₂ Evaluates vs m.1 ∧ m.2 = true) →
      Reaches S (parenAtom g follow) ('(' :: (v.write ++ r)) t (Evaluates (.tuple (v :: vs))) := by
    intro v r vs hv hread hr hmore
    have hopens := Opening.write hv r
    refine reaches_here.after fun _ => (reaches_symbol "(" _).after fun _ => ?_
    refine (reaches_toToken hopens.solid).after fun _ => (reaches_startsWith ")").step ?_
    rw [hopens.closer hcloser]
    refine .get fun c hc => (reaches_starHere hopens).step ?_
    refine (reaches_element hv hread hr true).bind fun p hp => hr.toBracket.after fun _ => ?_
    refine (reaches_forHere hr).step (hmore.bind ?_)
    rintro ⟨ps, comma⟩ ⟨hps, rfl⟩
    exact (reaches_close hcloser).mono fun _ hq => .tuple (.cons hp hps) hq
  match vs with
  | [] =>
    have hclose : Closing (')' :: t) := .cons rfl t
    refine reaches_here.after fun _ => (reaches_symbol "(" (')' :: t)).after fun _ => hclose.toBracket.after fun _ => ?_
    refine (reaches_startsWith ")").step (.pos (by rfl) ?_)
    exact (reaches_close hcloser).mono fun _ hp => .tuple .nil hp
  | [v] =>
    rw [Value.write, List.append_assoc]
    have hread := h v List.mem_cons_self
    refine hfirst (hvs v List.mem_cons_self) hread (.cons rfl _) ?_
    obtain ⟨n, hbound⟩ : ∃ n, g.bound = n + 1 := Nat.exists_eq_succ_of_ne_zero (Nat.pos_iff_ne_zero.mp hn)
    have hseries : Reaches S (series (nextItem ")" (element g false)) g.bound) (',' :: (")".toList ++ t)) (")".toList ++ t)
        (· = ([], true)) := by
      rw [hbound]
      exact (reaches_nextItem_open hcloser).step (.pure rfl)
    exact hseries.step (.pure ⟨.nil, rfl⟩)
  | v :: w :: vs =>
    obtain ⟨hv, hvs⟩ := List.forall_mem_cons.mp hvs
    obtain ⟨hreadv, hreadvs⟩ := List.forall_mem_cons.mp h
    rw [Value.write_tuple_cons, List.cons_append, List.append_assoc, List.append_assoc]
    exact hfirst hv hreadv (.cons rfl _) (reaches_moreElements hcloser hvs hreadvs hn)

lemma reaches_braceAtom_set (hne : vs ≠ []) (hvs : ∀ v ∈ vs, v.Exact) (h : ∀ v ∈ vs, ReadsBack S g v)
    (hn : vs.length ≤ g.bound) (t : List Char) :
    Reaches S (braceAtom g) ((Value.set vs).write ++ t) t (Evaluates (.set vs)) := by
  have hcloser : "\x7d" ∈ closers := by decide
  obtain ⟨v, vs, rfl⟩ := List.exists_cons_of_ne_nil hne
  obtain ⟨hv, hvs⟩ := List.forall_mem_cons.mp hvs
  obtain ⟨hreadv, hreadvs⟩ := List.forall_mem_cons.mp h
  have hclosing : Closing (Value.listed Value.write vs ++ ("\x7d".toList ++ t)) := (Closing.closer hcloser t).listed
  have hcolon : ":".toList.isPrefixOf (Value.listed Value.write vs ++ ("\x7d".toList ++ t)) = false := by
    cases vs <;> rfl
  have hopens := Opening.write hv (Value.listed Value.write vs ++ ("\x7d".toList ++ t))
  rw [Value.write_set_cons, List.cons_append, List.append_assoc, List.append_assoc]
  refine reaches_here.after fun _ => (reaches_symbol "\x7b" _).after fun _ => ?_
  refine (reaches_toToken hopens.solid).after fun _ => (reaches_startsWith "\x7d").step ?_
  rw [hopens.closer hcloser]
  refine (reaches_symbol?_none (hopens.isPrefixOf rfl)).step ((reaches_startsWith "**").step ?_)
  rw [hopens.isPrefixOf rfl]
  refine (reaches_element hv hreadv hclosing true).bind fun p hp => hclosing.toBracket.after fun _ => ?_
  refine (reaches_symbol?_none hcolon).step ((reaches_forHere hclosing).step ?_)
  refine (reaches_moreElements hcloser hvs hreadvs hn).bind fun r hr => ?_
  exact (reaches_close hcloser).mono fun _ hq => .set (.cons hp hr.1) hq

def EvaluatesEntry (e : Value × Value) (q : Option Node × Node) : Prop :=
  (∃ k, q.1 = some k ∧ eval k = .ok e.1 ∧ Dialect.demands k = []) ∧ eval q.2 = .ok e.2 ∧ Dialect.demands q.2 = []

lemma Evaluates.dict {es : List (Value × Value)} {qs : List (Option Node × Node)}
    (hqs : List.Forall₂ EvaluatesEntry es qs) {p : Phrase Node} (hp : p.node.shape = .dict qs) :
    Evaluates (.dict es) p := by
  obtain ⟨⟨mark, s⟩⟩ := p
  obtain rfl : s = _ := hp
  have hqs := hqs.flip
  have hparts : ∀ q ∈ qs, ∀ n ∈ q.1.toList ++ [q.2], Dialect.demands n = [] := by
    refine ((List.forall₂_and_left _ _).mp (hqs.imp fun q e h => ⟨?_, h⟩)).1
    obtain ⟨⟨k, hkey, -, hk⟩, -, hn⟩ := h
    simp [hkey, hk, hn]
  refine ⟨?_, demands_eq_nil rfl fun s hs => ?_⟩
  · rw [← qs.attach_map_subtype_val, List.forall₂_map_left_iff] at hqs
    rw [eval]
    refine Outcome.bind_eq_ok.mpr ⟨es, Outcome.mapM_eq_ok.mpr (hqs.imp ?_), rfl⟩
    rintro ⟨⟨key, n⟩, hq⟩ e ⟨⟨k, rfl, hk, -⟩, hn, -⟩
    exact Outcome.bind_eq_ok.mpr ⟨e.1, hk, Outcome.bind_eq_ok.mpr ⟨e.2, hn, rfl⟩⟩
  · obtain ⟨n, hn, rfl⟩ := List.mem_map.mp hs
    obtain ⟨q, hq, hn⟩ := List.mem_flatMap.mp hn
    exact hparts q hq n hn

lemma reaches_entryValue (hv : v.Exact) (hread : ReadsBack S g v) (ht : Closing t) :
    Reaches S (entryValue g) (' ' :: (v.write ++ t)) t fun n => eval n = .ok v ∧ Dialect.demands n = [] :=
  (reaches_toToken_blank (Opening.write hv t).solid).after fun _ =>
    (hread .bracket Level.lowest t ht).bind fun _ hp => .pure hp

lemma reaches_entry {e : Value × Value} (hk : e.1.Exact) (hv : e.2.Exact) (hreadk : ReadsBack S g e.1)
    (hreadv : ReadsBack S g e.2) (ht : Closing t) :
    Reaches S (entry g) (Value.writeEntry e ++ t) t (EvaluatesEntry e) := by
  have hcolon : Closing (':' :: ' ' :: (e.2.write ++ t)) := .cons rfl _
  rw [Value.writeEntry, List.append_assoc]
  refine (reaches_symbol?_none ((Opening.write hk _).isPrefixOf rfl)).step ?_
  refine (hreadk .inner Level.lowest _ hcolon).bind fun p hp => (hcolon.reaches_toToken (by decide)).after fun _ => ?_
  refine (reaches_symbol ":" _).after fun _ => (reaches_entryValue hv hreadv ht).bind fun n hn => .pure ?_
  exact ⟨⟨p.node, rfl, hp⟩, hn⟩

lemma reaches_moreEntries {es : List (Value × Value)} (hks : ∀ e ∈ es, e.1.Exact) (hvs : ∀ e ∈ es, e.2.Exact)
    (hreadks : ∀ e ∈ es, ReadsBack S g e.1) (hreadvs : ∀ e ∈ es, ReadsBack S g e.2) (hn : es.length < g.bound) :
    Reaches S (moreEntries g) (Value.listed Value.writeEntry es ++ ("\x7d".toList ++ t)) ("\x7d".toList ++ t)
      (List.Forall₂ EvaluatesEntry es) := by
  have hopens : ∀ e ∈ es, ∀ t, Opening (Value.writeEntry e ++ t) := by
    intro e he t
    rw [Value.writeEntry, List.append_assoc]
    exact Opening.write (hks e he) _
  have hitem : ∀ e ∈ es, ∀ t, Closing t → Reaches S (entry g) (Value.writeEntry e ++ t) t (EvaluatesEntry e) :=
    fun e he t ht => reaches_entry (hks e he) (hvs e he) (hreadks e he) (hreadvs e he) ht
  exact (reaches_series (by decide) hopens hitem hn).bind fun r hr => .pure hr.1

lemma reaches_braceAtom_dict {es : List (Value × Value)} (hks : ∀ e ∈ es, e.1.Exact) (hvs : ∀ e ∈ es, e.2.Exact)
    (hreadks : ∀ e ∈ es, ReadsBack S g e.1) (hreadvs : ∀ e ∈ es, ReadsBack S g e.2) (hn : es.length ≤ g.bound)
    (t : List Char) : Reaches S (braceAtom g) ((Value.dict es).write ++ t) t (Evaluates (.dict es)) := by
  have hcloser : "\x7d" ∈ closers := by decide
  cases es with
  | nil =>
    have hclose : Closing ('\x7d' :: t) := .cons rfl t
    refine reaches_here.after fun _ => (reaches_symbol "\x7b" ('\x7d' :: t)).after fun _ => ?_
    refine hclose.toBracket.after fun _ => (reaches_startsWith "\x7d").step (.pos (by rfl) ?_)
    exact (reaches_close hcloser).mono fun _ hp => .dict .nil hp
  | cons e es =>
    obtain ⟨hk, hks⟩ := List.forall_mem_cons.mp hks
    obtain ⟨hv, hvs⟩ := List.forall_mem_cons.mp hvs
    obtain ⟨hreadk, hreadks⟩ := List.forall_mem_cons.mp hreadks
    obtain ⟨hreadv, hreadvs⟩ := List.forall_mem_cons.mp hreadvs
    have hclosing : Closing (Value.listed Value.writeEntry es ++ ("\x7d".toList ++ t)) :=
      (Closing.closer hcloser t).listed
    have hcolon : Closing (':' :: ' ' :: (e.2.write ++ (Value.listed Value.writeEntry es ++ ("\x7d".toList ++ t)))) :=
      .cons rfl _
    have hopens := Opening.write hk (':' :: ' ' :: (e.2.write ++ (Value.listed Value.writeEntry es ++ ("\x7d".toList ++ t))))
    have hwrite : (Value.dict (e :: es)).write ++ t = '\x7b' :: (e.1.write ++
        ':' :: ' ' :: (e.2.write ++ (Value.listed Value.writeEntry es ++ ("\x7d".toList ++ t)))) := by
      simp [Value.write_dict_cons]
    rw [hwrite]
    refine reaches_here.after fun _ => (reaches_symbol "\x7b" _).after fun _ => ?_
    refine (reaches_toToken hopens.solid).after fun _ => (reaches_startsWith "\x7d").step ?_
    rw [hopens.closer hcloser]
    refine (reaches_symbol?_none (hopens.isPrefixOf rfl)).step ((reaches_startsWith "**").step ?_)
    rw [hopens.isPrefixOf rfl]
    refine (reaches_element hk hreadk hcolon true).bind fun p hp => hcolon.toBracket.after fun _ => ?_
    refine (reaches_symbol? ":" _).step ((reaches_entryValue hv hreadv hclosing).bind fun n hn' => ?_)
    refine hclosing.toBracket.after fun _ => (reaches_forHere hclosing).step ?_
    refine (reaches_moreEntries hks hvs hreadks hreadvs hn).bind fun qs hqs => ?_
    exact (reaches_close hcloser).mono fun _ hq => .dict (.cons ⟨⟨p.node, rfl, hp⟩, hn'⟩ hqs) hq

end SourceBlocks.Grammar
