import SourceBlocks.Proofs.Grammar.Begins
import SourceBlocks.Proofs.Lexis.Layout

/-! What stands between two statements. -/

namespace SourceBlocks

open Lexis Lexis.Source Grammar Grammar.Parser
open SourceBlocks.Tree (Extent Mark Node Shape)

inductive Tree.Node.EndsAt : Node → Position → Prop
  | literal {row : Nat} {n : Node} {value : String} {bytes : Bool} {written : Extent} :
      n.mark = some (.endsOn row) → n.shape = .str value bytes written → EndsAt n written.stop
  | expr {row : Nat} {n v : Node} {e : Position} : n.mark = some (.endsOn row) → n.shape = .expr v → EndsAt v e →
      EndsAt n e

namespace Grammar

namespace Parser.Gives

variable {α β : Type} {c : Cursor} {S : Source} {p : Parser α} {P Q : α → Cursor → Prop}

lemma and (h : Gives c p P) (h' : Gives c p Q) : Gives c p fun a d => P a d ∧ Q a d :=
  fun a d hd => ⟨h a d hd, h' a d hd⟩

lemma reads {R : Nat → α → Nat → Prop} (h : S.Reads p R) (hc : S.Has c) :
    Gives c p fun a d => S.Has d ∧ R c.index a d.index := fun a d hd => h c.index c hc rfl a d hd

lemma ite_bind {b : Prop} [Decidable b] {q : Parser α} {f : α → Parser β} {R : β → Cursor → Prop}
    (h : Gives c (if b then p else q) P) (hf : ∀ a d, P a d → Gives d (f a) R) :
    Gives c (if b then p >>= f else q >>= f) R := by
  split_ifs at h ⊢
  · exact h.bind hf
  · exact h.bind hf

lemma set {d : Cursor} {f : PUnit → Parser β} {R : β → Cursor → Prop} (h : Gives d (f ()) R) :
    Gives c (MonadStateOf.set d >>= f) R := h

lemma aheadHere {e : Expectation} {f : Ahead → Parser β} {R : β → Cursor → Prop}
    (h : Gives c (f (ahead e (c.total + 1) c)) R) : Gives c (Grammar.aheadHere e >>= f) R := h

lemma index {f : Nat → Parser β} {R : β → Cursor → Prop} (h : Gives c (f c.index) R) :
    Gives c (Grammar.index >>= f) R := h

lemma optional_none (p : Parser α) : Gives c (Parser.optional p) fun o d => o = none → d = c := by
  intro o d hd ho
  simp only [Parser.optional] at hd
  split at hd
  · obtain ⟨rfl, -⟩ := Prod.mk.inj (Except.ok.inj hd)
    cases ho
  · exact (Prod.mk.inj (Except.ok.inj hd)).2.symm

lemma symbol? {s : String} {f : Bool → Parser β} {R : β → Cursor → Prop}
    (hread : s.toList.isPrefixOf c.rest = true → Gives (c.skip s.length) (f true) R)
    (hstay : Gives c (f false) R) : Gives c (Grammar.symbol? s >>= f) R := by
  simp only [Grammar.symbol?, bind_assoc]
  refine .startsWith ?_
  split_ifs with hs
  · rw [bind_assoc]
    exact hread hs
  · exact hstay

lemma symbol {s : String} {q : Parser β} {R : β → Cursor → Prop}
    (h : s.toList.isPrefixOf c.rest = true → Gives (c.skip s.length) q R) :
    Gives c (Grammar.symbol s >>= fun _ => q) R := by
  simp only [Grammar.symbol, bind_assoc]
  refine .symbol? (fun hs => ?_) ?_
  · exact .require fun _ => h hs
  · exact .require fun h => absurd h Bool.false_ne_true

lemma collect_nil {p : Parser (Option α)} {Q : Cursor → Prop} (h : Gives c p fun o d => o = none → Q d) (n : Nat) :
    Gives c (collect p n) fun as d => as = [] → Q d := by
  cases n with
  | zero => exact .fail
  | succ n =>
    rw [collect]
    refine h.bind fun o d ho => ?_
    cases o with
    | none => exact .pure fun _ => ho rfl
    | some a => exact .after fun as _ => .pure fun h => absurd h (List.cons_ne_nil a as)

lemma series_nil {p : Parser (Option (Option α))} {Q : Cursor → Prop}
    (h : Gives c p fun o d => (∀ a, o ≠ some (some a)) → Q d) (n : Nat) :
    Gives c (series p n) fun r d => r.1 = [] → Q d := by
  cases n with
  | zero => exact .fail
  | succ n =>
    rw [series]
    refine h.bind fun o d ho => ?_
    rcases o with _ | _ | a
    · exact .pure fun _ => ho (by simp)
    · exact .pure fun _ => ho (by simp)
    · exact .after fun r _ => .pure fun h => absurd h (List.cons_ne_nil a r.1)

lemma collect_last {p : Parser (Option α)} {I : Nat → Cursor → Prop} {at? : α → Nat} {P : α → Prop}
    (h : ∀ i c, I i c → Gives c p fun o d => (o = none → I i d) ∧ ∀ a ∈ o, P a ∧ I (at? a) d) (n : Nat) {i : Nat}
    (hi : I i c) : Gives c (collect p n) fun as d => (∀ a ∈ as, P a) ∧ I ((as.getLast?.map at?).getD i) d := by
  induction n generalizing i c with
  | zero => exact .fail
  | succ n ih =>
    rw [collect]
    refine (h i c hi).bind fun o d ho => ?_
    cases o with
    | none => exact .pure ⟨by simp, ho.1 rfl⟩
    | some a =>
      obtain ⟨ha, hd⟩ := ho.2 a rfl
      refine (ih hd).bind fun as d' has => .pure ⟨List.forall_mem_cons.mpr ⟨ha, has.1⟩, ?_⟩
      have hlast : ((a :: as).getLast?.map at?).getD i = (as.getLast?.map at?).getD (at? a) := by
        rw [List.getLast?_cons]
        cases as.getLast? <;> rfl
      exact hlast ▸ has.2

end Parser.Gives

section Look

variable {S : Source} {c d : Cursor}

def EndsLine (c : Cursor) : Prop := ahead (Follow.line.expect false) (c.total + 1) c = .lineEnd

lemma gives_look (hc : S.Has c) (f : Follow) (string : Bool) : Gives c (look f string) fun found d =>
    S.Has d ∧ S.Clear c.index d.index ∧
      (found = false → d = c ∧ ahead (f.expect string) (c.total + 1) c = .lineEnd) := by
  rw [look]
  refine .aheadHere ?_
  cases hahead : ahead (f.expect string) (c.total + 1) c with
  | token d => exact .set (.pure ⟨(ahead_token hc hahead).1, hc.clear_ahead hahead, by simp⟩)
  | lineEnd => exact .pure ⟨hc, .refl _, fun _ => ⟨rfl, rfl⟩⟩
  | deeper | shallower => exact .fail

end Look

def Endless (n : Node) : Prop := ∀ e, ¬ n.EndsAt e

lemma endless_of_known {n : Node} {p : Position} (h : n.mark = some (.known p)) : Endless n := by
  intro e he
  cases he with
  | literal hm => simp [hm] at h
  | expr hm => simp [hm] at h

lemma endless_of_isComposite {n : Node} (h : isComposite n = true) : Endless n := by
  intro e he
  cases he with
  | literal _ hs => simp [isComposite, hs] at h
  | expr _ hs => simp [isComposite, hs] at h

def EndsWhere (S : Source) (Q : Nat → Prop) (n : Node) : Prop := ∀ e, n.EndsAt e → ∃ i, e = S.placeAt i ∧ Q i

lemma EndsWhere.mono {S : Source} {Q Q' : Nat → Prop} {n : Node} (h : EndsWhere S Q n) (hQ : ∀ i, Q i → Q' i) :
    EndsWhere S Q' n := by
  intro e he
  obtain ⟨i, hi, hq⟩ := h e he
  exact ⟨i, hi, hQ i hq⟩

lemma Endless.endsWhere {S : Source} {n : Node} (h : Endless n) (Q : Nat → Prop) : EndsWhere S Q n :=
  fun e he => absurd he (h e)

def Rests (S : Source) (n : Node) (c : Cursor) : Prop := EndsWhere S (S.Trails · c.index) n

lemma Rests.trans {S : Source} {n : Node} {c d : Cursor} (h : Rests S n c) (hd : S.Clear c.index d.index) :
    Rests S n d := h.mono fun _ htrails => htrails.trans hd

section Phrases

variable {S : Source} {g : Rules Node} {c : Cursor}

lemma gives_stringPiece (g : Rules Node) : Gives c (stringPiece g) fun p d => p.stop = d.place := by
  rw [stringPiece]
  refine .get ?_
  split
  · exact .fail
  · exact .skip <| .skip <| .get (.pure rfl)

lemma stringShape_eq_str {ps : List Piece} {text : List Char} {written written' : Extent} {value : String}
    {bytes : Bool} (h : stringShape ps text written = .str value bytes written') : written' = written := by
  rw [stringShape] at h
  split_ifs at h
  split at h
  · cases h
  · dsimp only at h
    split_ifs at h
    exact (Shape.str.inj h).2.2.symm

lemma stringShape_ne_expr (ps : List Piece) (text : List Char) (written : Extent) (v : Node) :
    stringShape ps text written ≠ .expr v := by
  rw [stringShape]
  split_ifs
  · simp
  · split
    · simp
    · dsimp only
      split_ifs <;> simp

lemma rests_stringRun (hg : g.Sound S) (hc : S.Has c) (follow : Follow) :
    Gives c (stringRun g follow) fun a d => Rests S a.node d := by
  have hpiece : ∀ {c}, S.Has c → Gives c (stringPiece g) fun p d => S.Has d ∧ p.stop = S.placeAt d.index := by
    intro c hc
    refine ((Gives.reads (reads_stringPiece hg) hc).and (gives_stringPiece g)).mono fun p d ⟨⟨hd, _⟩, hstop⟩ => ?_
    exact ⟨hd, hstop.trans hd.place⟩
  dsimp only [stringRun]
  refine .get ((hpiece hc).bind fun first d ⟨hd, hfirst⟩ => .index ?_)
  have hnext : ∀ i c, S.Has c ∧ S.Clear i c.index → Gives c (do
      if !(← look follow true) then pure none
      else do
        let d ← get
        if (Quote.atStart? d.rest).isSome then do
          let p ← stringPiece g
          let i ← index
          pure (some (p, i))
        else pure none : Parser (Option (Piece × Nat))) fun o d =>
      (o = none → S.Has d ∧ S.Clear i d.index) ∧
        ∀ a ∈ o, a.1.stop = S.placeAt a.2 ∧ S.Has d ∧ S.Clear a.2 d.index := by
    intro i c ⟨hc, hi⟩
    refine (gives_look hc follow true).bind fun _ d ⟨hd, hclear, _⟩ => ?_
    have hpassed : S.Has d ∧ S.Clear i d.index := ⟨hd, hi.trans hclear⟩
    refine .fork (.pure ⟨fun _ => hpassed, nofun⟩) <| .get (.fork ?_ ?_)
    · refine (hpiece hd).bind fun p d' ⟨hd', hp⟩ => .index (.pure ⟨nofun, ?_⟩)
      rintro _ ⟨⟩
      exact ⟨hp, hd', .refl _⟩
    · exact .pure ⟨fun _ => hpassed, nofun⟩
  refine (Gives.collect_last hnext g.bound ⟨hd, .refl _⟩).bind fun more d' ⟨hmore, _, hclear⟩ => .pure ?_
  intro e he
  cases he with
  | expr _ hs => exact absurd hs (stringShape_ne_expr _ _ _ _)
  | literal _ hs =>
    refine ⟨_, ?_, .inl hclear⟩
    rw [stringShape_eq_str hs, List.getLast?_cons, List.getLast?_map]
    cases hlast : more.getLast? with
    | none => exact hfirst
    | some a => exact hmore a (List.mem_of_getLast? hlast)

lemma clear_trailers (hc : S.Has c) (follow : Follow) :
    Gives c (trailers g follow) fun ts d => ts = [] → S.Clear c.index d.index := by
  refine .collect_nil ?_ _
  rw [trailer]
  refine (gives_look hc follow false).bind fun _ d hlook => ?_
  have hclear := hlook.2.1
  refine .fork (.pure fun _ => hclear) ?_
  refine .symbol? (fun _ => .skip <| .skip <| .skip <| .pure (by simp)) ?_
  refine .startsWith (.fork (.skip <| .skip <| .pure (by simp)) ?_)
  exact .startsWith (.fork (.skip <| .skip <| .pure (by simp)) <| .pure fun _ => hclear)

lemma rests_primary (hg : g.Sound S) (hc : S.Has c) (hq : (Quote.atStart? c.rest).isSome) (follow : Follow) :
    Gives c (primary g follow) fun a d => Rests S a.node d := by
  have hatom : Gives c (atom g follow) fun a d => S.Has d ∧ Rests S a.node d := by
    rw [atom]
    refine .get (.ite (fun _ => ?_) fun h => absurd hq h)
    exact ((Gives.reads (reads_stringRun hg follow) hc).and (rests_stringRun hg hc follow)).mono fun _ _ h =>
      ⟨h.1.1, h.2⟩
  rw [primary]
  refine hatom.bind fun p d h => ?_
  obtain ⟨hd, hp⟩ := h
  refine (clear_trailers hd follow).bind fun ts d' hts => .pure ?_
  by_cases hnil : ts = []
  · subst hnil
    exact hp.trans (hts rfl)
  · exact (endless_of_isComposite (isComposite_apply (.inl hnil))).endsWhere _

section Operators

variable (site : Site) (level : Int)

lemma comparison?_none : Gives c comparison? fun o d => o = none → d = c := by
  rw [comparison?]
  refine .stay (stays_firstHere _) fun shift => .stay (stays_firstHere _) fun sign => ?_
  split
  · exact .skip <| .pure (by simp)
  · refine .wordHere (.fork (.skip <| .pure (by simp)) <| .fork ?_ ?_)
    · exact .skip <| .fork (.pure (by simp)) <| .skip <| .pure (by simp)
    · refine .fork ?_ <| .pure fun _ => rfl
      exact (Gives.optional_none _).bind fun o d ho => .pure fun h => ho (Option.map_eq_none_iff.mp h)

lemma clear_comparisons (hc : S.Has c) :
    Gives c (comparisons g site) fun cs d => cs = [] → S.Clear c.index d.index := by
  dsimp only [comparisons]
  refine .collect_nil ?_ _
  refine (gives_look hc _ _).bind fun _ d ⟨_, hclear, _⟩ => .fork (.pure fun _ => hclear) ?_
  refine comparison?_none.bind fun o d' ho => ?_
  cases o with
  | none => exact .pure fun _ => (ho rfl).symm ▸ hclear
  | some op => exact .skip <| .pure nofun

lemma clear_operators (hc : S.Has c) (n : Nat) (p : Phrase Node) :
    Gives c (operators g site level n p) fun a d => isComposite a.node = true ∨ a = p ∧ S.Clear c.index d.index := by
  cases n with
  | zero => exact .fail
  | succ n =>
    have hother : ∀ {q d}, isComposite q.node = true → Gives d (operators g site level n q) fun a d =>
        isComposite a.node = true ∨ a = p ∧ S.Clear c.index d.index := by
      intro q d hq
      refine (gives_operators g site level n q).mono fun a _ ha => .inl ?_
      rcases ha with rfl | ha
      · exact hq
      · exact ha.2
    dsimp only [operators]
    refine (gives_look hc _ _).bind fun _ d ⟨hd, hclear, _⟩ => .fork (.pure (.inr ⟨rfl, hclear⟩)) ?_
    refine .stay stays_fun fun o => ?_
    split
    · refine .fork (.pure (.inr ⟨rfl, hclear⟩)) <| .skip <| .after fun _ _ => ?_
      exact hother rfl
    · have hcs : Gives d (if level < Level.comparison then comparisons g site else pure []) fun cs d' =>
          cs = [] → S.Clear c.index d'.index := by
        refine .fork ?_ <| .pure fun _ => hclear
        exact (clear_comparisons site hd).mono fun _ _ h hnil => hclear.trans (h hnil)
      refine hcs.ite_bind fun cs d' hd' => ?_
      split
      · exact hother rfl
      next hlast =>
      have hclear' := hd' (List.getLast?_eq_none_iff.mp hlast)
      refine .wordHere (.fork ?_ <| .fork ?_ <| .fork ?_ ?_)
      · exact .skip <| .after fun q _ => hother rfl
      · exact .skip <| .after fun q _ => hother rfl
      · exact .skip <| (startsAt_aliased g site p _).bind fun q d hq => hother hq.2
      · refine .fork ?_ <| .pure (.inr ⟨rfl, hclear'⟩)
        exact .skip <| (startsAt_conditional g site p _).bind fun q d hq => hother hq.2

lemma rests_expression (hg : g.Sound S) (hc : S.Has c) (hq : (Quote.atStart? c.rest).isSome) :
    Gives c (expression g site level) fun a d => Rests S a.node d := by
  have hoperand : Gives c (operand g site level) fun a d => S.Has d ∧ Rests S a.node d := by
    refine ((Gives.reads (reads_operand hg site level) hc).and ?_).mono fun _ _ h => ⟨h.1.1, h.2⟩
    rw [operand]
    exact .get (.ite (fun _ => rests_primary hg hc hq _) fun h => absurd hq h)
  rw [expression]
  refine hoperand.bind fun p d hp => ?_
  obtain ⟨hd, hp⟩ := hp
  refine (clear_operators site level hd _ p).mono fun a d' h => ?_
  rcases h with h | ⟨rfl, hclear⟩
  · exact (endless_of_isComposite h).endsWhere _
  · exact hp.trans hclear

end Operators

end Phrases

def Rules.Rest (S : Source) (g : Rules Node) : Prop := ∀ site level c, S.Has c → (Quote.atStart? c.rest).isSome →
  Gives c (g.expr site level) fun a d => Rests S a.node d

lemma rest_rules (S : Source) (bound n : Nat) : (rules bound n).Rest S := by
  cases n with
  | zero => exact fun _ _ _ _ _ => .fail
  | succ n => exact fun site level _ hc hq => rests_expression site level (sound_rules S bound n) hc hq

section Statements

variable {S : Source} {g : Rules Node} {c : Cursor}

lemma getElem?_of_isPrefixOf {s : String} {x : Char} {r : List Char} (hc : S.Has c) (hs : s.toList = x :: r)
    (h : s.toList.isPrefixOf c.rest = true) : S.chars[c.index]? = some x := by
  rw [hs, List.isPrefixOf_iff_prefix] at h
  obtain ⟨r', hr'⟩ := h
  rw [← List.head?_drop, ← hc.rest, ← hr']
  rfl

lemma parted_of_sign {d : Cursor} {s : String} {x : Char} {r : List Char} (hd : S.Has d) (hs : s.toList = x :: r)
    (hhash : x ≠ '#') (hblank : Text.isBlank x = false) (h : s.toList.isPrefixOf d.rest = true)
    (hclear : S.Clear c.index d.index) {k : Nat} (hk : (d.skip s.length).index ≤ k) (i : Nat)
    (hi : S.Trails i c.index) : S.Parted i k := by
  have hparted := (hi.trans hclear).parted (getElem?_of_isPrefixOf hd hs h) hhash hblank
  exact hparted.mono (Nat.le_trans (d.le_index_skip _) hk)

lemma trails_commaList (hc : S.Has c) (site : Site) (first : Phrase Node) :
    Gives c (commaList g site first) fun r d => ∃ more, r.1 = first :: more ∧
      (more = [] → ∀ i, S.Trails i c.index → S.Trails i d.index) := by
  dsimp only [commaList]
  refine (Gives.series_nil (Q := fun d => ∀ i, S.Trails i c.index → S.Trails i d.index) ?_ _).bind
    fun (more, _) d h => .pure ⟨more, rfl, h⟩
  refine (gives_look hc _ _).bind fun _ d ⟨hd, hclear, _⟩ => ?_
  have hpassed : ∀ i, S.Trails i c.index → S.Trails i d.index := fun i hi => hi.trans hclear
  refine .fork (.pure fun _ => hpassed) <| .symbol? (fun hcomma => ?_) (.pure fun _ => hpassed)
  refine (gives_look (hd.skip _) _ _).bind fun _ d₁ ⟨_, hclear₁, _⟩ => ?_
  have hparted : ∀ i, S.Trails i c.index → S.Trails i d₁.index := fun i hi =>
    .inr (parted_of_sign hd rfl (by decide) (by decide) hcomma hclear hclear₁.1 i hi)
  refine .fork (.pure fun _ => hparted) <| .stay stays_fun fun _ => ?_
  exact .fork (.after fun p _ => .pure fun h => absurd rfl (h p)) <| .pure fun _ => hparted

lemma rests_valueStatement (hg : g.Sound S) (hr : g.Rest S) (hc : S.Has c) (hq : (Quote.atStart? c.rest).isSome) :
    Gives c (valueStatement g) fun n d => Rests S n d := by
  rw [valueStatement]
  refine .here (.keyword? (fun _ d => ?_) ?_)
  · refine (startsAt_yieldValue g _ _ d).bind fun p d' hp => .pure ?_
    obtain ⟨hstart, hlead⟩ := Prod.mk.inj hp.1
    refine (endless_of_known (p := c.place) ?_).endsWhere _
    simp [Node.mark, Phrase.mark, markOf, hlead, hstart]
  · have hfirst := (Gives.reads (hg.expr .line Level.lowest) hc).and (hr .line Level.lowest c hc hq)
    refine hfirst.bind fun first d h => ?_
    obtain ⟨⟨hd, -⟩, hrests⟩ := h
    refine (trails_commaList hd _ _).bind fun r d' h => ?_
    obtain ⟨ps, _⟩ := r
    obtain ⟨more, hps, htrails⟩ := h
    dsimp only at hps ⊢
    subst hps
    cases more with
    | nil =>
      refine .pure fun e he => ?_
      cases he with
      | literal _ hs => cases hs
      | expr _ hs he =>
        obtain rfl := Shape.expr.inj hs
        exact hrests.mono (htrails rfl) e he
    | cons q qs =>
      refine .pure fun e he => ?_
      cases he with
      | literal _ hs => cases hs
      | expr _ hs he =>
        obtain rfl := Shape.expr.inj hs
        exact absurd he (endless_of_isComposite rfl e)

lemma assignment_ne_value {τ : Type} [Builder τ] {g : Rules τ} (isNested : Bool) (n : Nat) :
    Gives c (assignment g isNested n) fun a _ => ∀ p, a ≠ .value p := by
  cases n with
  | zero => exact .fail
  | succ n =>
    dsimp only [assignment]
    refine .skip <| .skip <| .fork ?_ <| .after fun _ _ => ?_
    · exact .skip <| .skip <| .pure (by simp)
    split
    · exact .skip <| .skip <| .pure (by simp)
    · refine .skip <| .skip <| .skip <| .skip <| .skip <| .after fun _ _ => ?_
      refine .fork ?_ <| .pure (by simp)
      exact .skip <| .skip <| .pure (by simp)

lemma isComposite_assignment (isNested : Bool) (n : Nat) :
    Gives c (assignment g isNested n) fun a _ => isComposite a.statement = true := by
  refine (assignment_ne_value isNested n).mono fun a _ ha => ?_
  cases a with
  | value p => exact absurd rfl (ha p)
  | _ => rfl

lemma rests_whole {p : Parser Node} (hp : S.Reads p S.NodeIn) (hc : S.Has c)
    (h : Gives c p fun n d => Rests S n d) : Gives c (whole p) fun n d => Rests S n d := by
  rw [whole]
  refine ((Gives.reads hp hc).and h).bind fun n d hn => ?_
  obtain ⟨⟨hd, -⟩, hn⟩ := hn
  have hend : Gives d statementEnd fun _ d' => S.Clear d.index d'.index := by
    rw [statementEnd]
    refine (gives_look hd _ _).bind fun _ d₁ hlook => ?_
    have hclear := hlook.2.1
    refine .fork ?_ <| .pure hclear
    refine .stay (stays_startsWith _) fun found => ?_
    cases found with
    | false => exact .fail
    | true => exact .pure hclear
  exact hend.bind fun _ _ hclear => .pure (hn.trans hclear)

lemma rests_simpleStatement (hg : g.Sound S) (ho : g.Open) (hr : g.Rest S) (hc : S.Has c) :
    Gives c (simpleStatement g) fun n d => Rests S n d := by
  by_cases hq : (Quote.atStart? c.rest).isSome
  · dsimp only [simpleStatement]
    refine .get (.ite (fun _ => ?_) fun h => absurd hq h)
    dsimp only [expressionStatement]
    refine .or ?_ (rests_whole (reads_valueStatement hg) hc (rests_valueStatement hg hr hc hq))
    rw [whole]
    refine Gives.bind (P := fun n _ => isComposite n = true) ?_ fun n _ hn => .skip <| .pure ?_
    · exact (isComposite_assignment false _).bind fun a _ ha => .pure ha
    · exact (endless_of_isComposite hn).endsWhere _
  · -- a statement that begins with no literal is marked with its place
    refine (gives_simpleStatement ho).mono fun n d hm => ?_
    exact (endless_of_known (hm.2.resolve_right fun h => hq h.1)).endsWhere _

end Statements

def Settled (S : Source) (i : Nat) (d : Cursor) : Prop := S.Parted i d.index ∨ S.Clear i d.index ∧ EndsLine d

lemma Settled.parted {S : Source} {i : Nat} {c d : Cursor} (h : Settled S i c) (hc : S.Has c)
    (hd : ahead betweenStatements (c.total + 1) c = .token d) (hne : d.rest ≠ []) : S.Parted i d.index := by
  have hclear := hc.clear_ahead hd
  rcases h with h | ⟨h, hend⟩
  · exact h.mono hclear.1
  · rcases hc.newline_of_lineEnd rfl rfl hend hd with hnil | hmem | hhead
    · exact absurd hnil hne
    · exact .inl ((mem_between_iff h.1 hclear.1).mpr (.inr hmem))
    · refine (h.trans hclear).parted (x := '\\') ?_ (by decide) (by decide)
      rw [← List.head?_drop, ← (ahead_token hc hd).1.rest, hhead]

inductive Spaced (S : Source) (hi : Nat) (Q : Nat → Prop) : List Node → Prop
  | last {n : Node} : EndsWhere S Q n → Spaced S hi Q [n]
  | cons {k : Nat} {n : Node} {ns : List Node} : EndsWhere S (S.Parted · k) n → S.Laid k ns hi →
      Spaced S hi Q ns → Spaced S hi Q (n :: ns)

namespace Spaced

variable {S : Source} {hi hi' k : Nat} {Q Q' : Nat → Prop} {ns ms : List Node}

lemma mono (h : Spaced S hi Q ns) (hle : hi ≤ hi') (hQ : ∀ i, Q i → Q' i) : Spaced S hi' Q' ns := by
  induction h with
  | last hn => exact .last (hn.mono hQ)
  | cons hn hns _ ih => exact .cons hn (hns.mono_hi hle) ih

lemma append (h : Spaced S hi Q ns) (hQ : ∀ i, Q i → S.Parted i k) (hk : hi ≤ k) (hms : S.Laid k ms hi')
    (h' : Spaced S hi' Q' ms) : Spaced S hi' Q' (ns ++ ms) := by
  induction h with
  | last hn => exact .cons (hn.mono hQ) hms h'
  | cons hn hns _ ih => exact .cons hn (hns.append (hms.mono_lo hk)) ih

lemma parted {before after : List Node} {n m : Node} {e : Position} (h : Spaced S hi Q (before ++ n :: m :: after))
    (he : n.EndsAt e) : ∃ i k, e = S.placeAt i ∧ S.Parted i k ∧ S.Laid k (m :: after) hi := by
  induction before with
  | nil =>
    cases h with
    | cons hn hns =>
      obtain ⟨i, hi, hparted⟩ := hn e he
      exact ⟨i, _, hi, hparted, hns⟩
  | cons _ before ih =>
    cases hrest : before ++ n :: m :: after with
    | nil => simp at hrest
    | cons _ _ =>
      rw [List.cons_append, hrest] at h
      cases h with
      | cons _ _ h => exact ih (hrest ▸ h)

end Spaced

section Blocks

variable {S : Source} {g : Rules Node} {c : Cursor}

variable (hg : g.Sound S)

include hg

lemma gives_nextStatement (ho : g.Open) (hr : g.Rest S) (hc : S.Has c) {n : Node} (hn : Rests S n c) :
    Gives c (do
      if !(← look .line false) then pure none
      else do
        symbol ";"
        if ← look .line true then do
          let n ← simpleStatement g
          pure (some (some n))
        else pure (some none) : Parser (Option (Option Node))) fun o d => match o with
      | none => d = c ∧ EndsLine c
      | some none => c.index ≤ d.index ∧ EndsWhere S (S.Parted · d.index) n
      | some (some m) => S.Has d ∧ Rests S m d ∧
          ∃ k, c.index ≤ k ∧ S.Laid k [m] d.index ∧ EndsWhere S (S.Parted · k) n := by
  refine (gives_look hc _ _).bind fun found d ⟨hd, hclear, hend⟩ => .ite (fun hf => ?_) fun _ => ?_
  · exact .pure (hend (by simpa using hf))
  refine .symbol fun hsign => (gives_look (hd.skip _) _ _).bind fun _ d₁ ⟨hd₁, hclear₁, _⟩ => ?_
  have hle : c.index ≤ d₁.index := Nat.le_trans hclear.1 (Nat.le_trans (d.le_index_skip _) hclear₁.1)
  have hparted : EndsWhere S (S.Parted · d₁.index) n :=
    hn.mono (parted_of_sign hd rfl (by decide) (by decide) hsign hclear hclear₁.1)
  refine .fork ?_ <| .pure ⟨hle, hparted⟩
  have hm := (Gives.reads (reads_simpleStatement hg) hd₁).and (rests_simpleStatement hg ho hr hd₁)
  exact hm.bind fun m d₂ ⟨⟨hd₂, hlaid⟩, hrests⟩ => .pure ⟨hd₂, hrests, d₁.index, hle, hlaid, hparted⟩

lemma spaced_statementLine (ho : g.Open) (hr : g.Rest S) (hc : S.Has c) :
    Gives c (statementLine g) fun ns d => Spaced S d.index (Settled S · d) ns := by
  dsimp only [statementLine]
  have hfirst := (Gives.reads (reads_simpleStatement hg) hc).and (rests_simpleStatement hg ho hr hc)
  refine hfirst.bind fun first c₁ hc₁ => ?_
  obtain ⟨⟨hc₁, -⟩, hrests⟩ := hc₁
  refine Gives.bind (P := fun r d => S.Laid c₁.index r.1 d.index ∧ Spaced S d.index (Settled S · d) (first :: r.1)) ?_
    fun r d hr => .pure hr.2
  -- the statement before a step is the one whose end the step settles
  generalize g.bound = fuel
  induction fuel generalizing c₁ first with
  | zero => exact .fail
  | succ fuel ih =>
    rw [series]
    refine (gives_nextStatement hg ho hr hc₁ hrests).bind fun o d ho' => ?_
    rcases o with _ | _ | m
    · obtain ⟨rfl, hend⟩ := ho'
      refine .pure ⟨.nil (Nat.le_refl _), .last (hrests.mono fun i htrails => ?_)⟩
      exact htrails.elim (fun h => .inr ⟨h, hend⟩) .inl
    · exact .pure ⟨.nil ho'.1, .last (ho'.2.mono fun _ => .inl)⟩
    · obtain ⟨hd, hm, k, hk, hlaid, hparted⟩ := ho'
      refine (ih m d hm hd).bind fun r d' h => .pure ?_
      obtain ⟨hmore, hspaced⟩ := h
      have hall : S.Laid k (m :: r.1) d'.index := hlaid.append hmore
      exact ⟨hall.mono_lo hk, .cons hparted hall hspaced⟩

lemma spaced_statement (ho : g.Open) (hr : g.Rest S) (hc : S.Has c) :
    Gives c (statement g) fun ns d => Spaced S d.index (Settled S · d) ns := by
  refine gives_statement (spaced_statementLine hg ho hr hc) fun {p start d} hp => ?_
  exact (hp d).bind fun n d' hn => .pure (.last ((endless_of_known hn.1).endsWhere _))

lemma gives_blockStep (ho : g.Open) (hr : g.Rest S) (hc : S.Has c) :
    Gives c (blockStep g) fun o d => S.Has d ∧ c.index ≤ d.index ∧ ∀ ns ∈ o, ∃ k, c.index ≤ k ∧
      S.Laid k ns d.index ∧ Spaced S d.index (Settled S · d) ns ∧ ∀ i, Settled S i c → S.Parted i k := by
  rw [blockStep]
  refine .aheadHere ?_
  cases hahead : ahead betweenStatements (c.total + 1) c with
  | lineEnd | deeper => exact .fail
  | shallower =>
    exact (Gives.reads reads_closeBlock hc).bind fun _ d hd => .pure ⟨hd.1, hd.2, by simp⟩
  | token c₁ =>
    obtain ⟨hc₁, hle⟩ := ahead_token hc hahead
    refine .set (.ite (fun _ => .pure ⟨hc₁, hle, by simp⟩) fun hne => ?_)
    have hns := (Gives.reads (reads_statement hg) hc₁).and (spaced_statement hg ho hr hc₁)
    refine hns.bind fun ns d h => ?_
    obtain ⟨⟨hd, hlaid⟩, hspaced⟩ := h
    refine .pure ⟨hd, Nat.le_trans hle hlaid.le, fun ms hms => ?_⟩
    obtain rfl := Option.some.inj hms
    refine ⟨c₁.index, hle, hlaid, hspaced, fun i hi => hi.parted hc hahead ?_⟩
    simpa using hne

lemma spaced_steps (ho : g.Open) (hr : g.Rest S) (hc : S.Has c) (n : Nat) :
    Gives c (collect (blockStep g) n) fun nss d => c.index ≤ d.index ∧ (nss.flatten = [] ∨
      ∃ k, c.index ≤ k ∧ S.Laid k nss.flatten d.index ∧ Spaced S d.index (fun _ => True) nss.flatten ∧
        ∀ i, Settled S i c → S.Parted i k) := by
  induction n generalizing c with
  | zero => exact .fail
  | succ n ih =>
    rw [collect]
    refine (gives_blockStep hg ho hr hc).bind fun o d hstep => ?_
    obtain ⟨hd, hle, hstep⟩ := hstep
    cases o with
    | none => exact .pure ⟨hle, .inl rfl⟩
    | some ns =>
      obtain ⟨k, hk, hlaid, hspaced, hparted⟩ := hstep ns rfl
      refine (ih hd).bind fun nss d' htail => .pure ⟨Nat.le_trans hle htail.1, .inr ⟨k, hk, ?_⟩⟩
      obtain ⟨hle', hnil | ⟨k', hk', hlaid', hspaced', hparted'⟩⟩ := htail
      · rw [List.flatten_cons, hnil, List.append_nil]
        exact ⟨hlaid.mono_hi hle', hspaced.mono hle' fun _ _ => trivial, hparted⟩
      · exact ⟨hlaid.append (hlaid'.mono_lo hk'), hspaced.append hparted' hk' hlaid' hspaced', hparted⟩

lemma spaced_block (ho : g.Open) (hr : g.Rest S) (hc : S.Has c) :
    Gives c (block g) fun ns d => ns = [] ∨ Spaced S d.index (fun _ => True) ns := by
  rw [block]
  refine (spaced_steps hg ho hr hc _).bind fun nss d h => .pure ?_
  refine h.2.imp_right fun h => ?_
  obtain ⟨_, _, _, hspaced, _⟩ := h
  exact hspaced

end Blocks

lemma read_spaced {S : Source} {ns : List Node} (h : read S.margin S.chars = .ok (Tree.Node.mk none (.module ns))) :
    ns = [] ∨ Spaced S S.chars.length (fun _ => True) ns := by
  simp only [read] at h
  split at h
  · next ns' d hd =>
    cases h
    have hg := sound_rules S (S.chars.length + 16) (depth S.chars)
    have hle : d.index ≤ S.chars.length := (reads_block hg 0 _ S.has_ofSource rfl _ d hd).1.le
    have hns := spaced_block hg (open_rules _ _) (rest_rules S _ _) S.has_ofSource _ d hd
    exact hns.imp_right fun h => h.mono hle fun _ _ => trivial
  · cases h

end Grammar

end SourceBlocks
