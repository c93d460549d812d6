import SourceBlocks.Proofs.Grammar.Kept.Basic

namespace SourceBlocks.Lexis.Source

open Grammar Grammar.Parser
open SourceBlocks.Tree (Extent Field Mark Node Shape Written)

variable {S : Source} {g : Rules Node} {c d : Cursor} {l : List Written}

attribute [local simp] Shape.literal? Shape.children Shape.fieldNodes Shape.fields Field.nodes List.flatMap_map

section Lists

variable {α : Type} {R : α → Cursor → Prop}

variable (hg : g.Keeps S)

include hg

lemma gives_commaList (site : Site) (first : Phrase Node) (h : S.Bears c l d) :
    Gives d (commaList g site first) fun r e => ∃ more, r.1 = first :: more ∧ (r.2 = false → more = []) ∧
      S.Bears c (l ++ more.flatMap fun p => p.node.literals) e := by
  dsimp only [commaList]
  refine (Keeps.series (f := fun p : Phrase Node => p.node.literals) (fun c hc => ?_) _).step h fun (more, isOpen) e h => ?_
  · refine (quiet_look _ _).step (.refl hc) fun _ d h => .fork (.pure h) ?_
    refine (quiet_symbol? (by decide)).step h fun _ d h => .fork (.pure h) ?_
    refine (quiet_look _ _).step h fun _ d h => .fork (.pure (by simpa using h)) ?_
    refine .stay stays_operandHere fun _ => .fork ?_ <| .pure (by simpa using h)
    exact (hg.expr _ _).step h fun p d h => .pure (by simpa using h)
  · exact .pure ⟨more, rfl, by simp, h⟩

lemma gives_listed (site : Site) {k : Phrase Node → List (Phrase Node) × Bool → Parser α} (h : S.Bears c l d)
    (hk : ∀ first more b e, (b = false → more = []) →
      S.Bears c (l ++ (first :: more).flatMap fun p => p.node.literals) e → Gives e (k first (first :: more, b)) R) :
    Gives d (do
      let first ← g.expr site Level.lowest
      let r ← commaList g site first
      k first r) R := by
  refine (hg.expr _ _).step h fun first d h => ?_
  refine (gives_commaList hg site first h).bind fun (ps, b) e ⟨more, hps, hb, h⟩ => ?_
  obtain rfl : ps = first :: more := hps
  exact hk first more b e hb (by simpa using h)

lemma keeps_expressions (site : Site) : S.Keeps (expressions g site) fun p => p.node.literals := by
  intro c hc
  rw [expressions]
  refine gives_listed hg site (.refl hc) fun first more b d hb h => ?_
  refine .ite (fun _ => .pure (by simpa using h)) fun hnot => .pure ?_
  obtain rfl := hb (by simpa using hnot)
  simpa using h

lemma keeps_yieldValue (site : Site) (start : Position) :
    S.Keeps (yieldValue g site start) fun p => p.node.literals := by
  intro c hc
  rw [yieldValue]
  refine .stay stays_index fun _ => (quiet_look _ _).step (.refl hc) fun _ d h => ?_
  refine .fork (.pure (by simpa using h)) ?_
  refine (quiet_keyword? _).step h fun _ d h => .fork ?_ ?_
  · refine h.operand fun d h => (hg.expr _ _).step h fun p d h => .pure ?_
    simpa using h
  · refine .stay stays_operandHere fun _ => .fork ?_ <| .pure (by simpa using h)
    exact (keeps_expressions hg site).step h fun p d h => .pure (by simpa using h)

lemma keeps_orYield (site : Site) {p : Parser (Phrase Node)} (hp : S.Keeps p fun q => q.node.literals) :
    S.Keeps (orYield g site p) fun q => q.node.literals := by
  intro c hc
  rw [orYield]
  refine .here ((quiet_keyword? _).step (.refl hc) fun _ d h => .fork ?_ ?_)
  · exact (keeps_yieldValue hg site _).last h
  · exact hp.last h

end Lists

section Bodies

lemma roams_advance (n : Nat) : S.Roams (advance n) := by
  intro c hc a d hd
  obtain ⟨-, rfl⟩ := Prod.mk.inj (Except.ok.inj hd)
  exact hc.moves_skip n

lemma roams_conversion? : S.Roams conversion? := by
  intro c hc b d hd
  rw [conversion?] at hd
  split at hd
  · split_ifs at hd
    · obtain ⟨-, rfl⟩ := Prod.mk.inj (Except.ok.inj hd)
      exact hc.moves_skip 2
    · obtain ⟨-, rfl⟩ := Prod.mk.inj (Except.ok.inj hd)
      exact .refl hc
  · obtain ⟨-, rfl⟩ := Prod.mk.inj (Except.ok.inj hd)
    exact .refl hc

lemma roams_formatText {field : Parser Unit} (hf : S.Roams field) (n : Nat) : S.Roams (formatText field n) := by
  induction n with
  | zero => exact fun _ _ => .fail
  | succ n ih =>
    intro c hc
    rw [formatText]
    refine .stay stays_next? fun x => ?_
    cases x with
    | none => exact .fail
    | some x =>
      refine .fork (.pure (.refl hc)) <| .fork ?_ ?_
      · exact hf.step (.refl hc) fun _ d h => ih.last h
      · exact (roams_advance 1).step (.refl hc) fun _ d h => ih.last h

variable (hg : g.Keeps S)

include hg

lemma roams_field (n : Nat) : S.Roams (field g n) := by
  induction n with
  | zero => exact fun _ _ => .fail
  | succ n ih =>
    intro c hc
    rw [field]
    refine (quiet_symbol (by decide)).roams.step (.refl hc) fun _ d h => quiet_toOperand.roams.step h fun _ d h => ?_
    refine (keeps_orYield hg _ (keeps_expressions hg _)).roams.step h fun _ d h => ?_
    refine (quiet_toToken _ _).roams.step h fun _ d h => (quiet_symbol? (by decide)).roams.step h fun _ d h => ?_
    refine (quiet_toToken _ _).roams.step h fun _ d h => roams_conversion?.step h fun _ d h => ?_
    refine (quiet_toToken _ _).roams.step h fun _ d h => (quiet_symbol? (by decide)).roams.step h fun _ d h => ?_
    have closing : ∀ e, S.Moves c e → Gives e (symbol "\x7d") fun _ e' => S.Moves c e' := fun e he =>
      (quiet_symbol (by decide)).roams.last he
    exact .fork ((roams_formatText ih _).step h fun _ e he => closing e he) <| closing d h

lemma roams_bodyRemainder : S.Roams (bodyRemainder g) := by
  intro c hc
  rw [bodyRemainder]
  refine .get ?_
  split
  · exact roams_advance _ c hc
  · refine (roams_advance _).step (.refl hc) fun _ d h => .get ?_
    split
    · exact (roams_advance _).last h
    · exact (roams_field hg _).last h

lemma roams_stringBody (q : Quote) (n : Nat) : S.Roams (stringBody g q n) := by
  induction n with
  | zero => exact fun _ _ => .fail
  | succ n ih =>
    intro c hc
    have goOn : ∀ {p : Parser Unit}, S.Roams p → Gives c (p >>= fun _ => stringBody g q n) fun _ d => S.Moves c d :=
      fun hp => hp.step (.refl hc) fun _ d h => ih.last h
    rw [stringBody]
    refine .get (.fork (goOn (roams_advance 2)) <| .fork (goOn (roams_field hg _)) ?_)
    split
    · refine (roams_advance _).step (.refl hc) fun _ d h e f hf => ?_
      obtain ⟨-, rfl⟩ := Prod.mk.inj (Except.ok.inj hf)
      exact ⟨h.has.of_eq rfl rfl rfl rfl, h.le, h.indents⟩
    · exact goOn (roams_advance _)
    · exact goOn (roams_bodyRemainder hg)

lemma roams_stringPiece : S.Roams (stringPiece g) := by
  intro c hc
  rw [stringPiece]
  refine .get ?_
  split
  · exact .fail
  · next q n _ =>
    have hopened : S.Moves c { c.skip n with inFields := q.fields } :=
      ⟨(hc.skip n).of_eq rfl rfl rfl rfl, c.le_index_skip n, .inl (c.indents_skip n)⟩
    exact .set ((roams_stringBody hg q _).step hopened fun _ d h => .get (.pure h))

end Bodies

section Runs

variable {i j stop : Nat} {p first : Piece} {ps rest : List Piece}

lemma token_of_stringPiece (hg : g.Keeps S) (hc : S.Has c) (h : stringPiece g c = .ok (p, d)) :
    S.Token c.index p d.index := by
  obtain ⟨bound, n, rfl⟩ := hg.tied
  exact ⟨bound, n, c, d, hc, rfl, h, rfl⟩

lemma IsRun.exists_token (h : S.IsRun i ps j) (hp : p ∈ ps) : ∃ i j, S.Token i p j := by
  induction h with
  | last ht =>
    obtain rfl := List.mem_singleton.mp hp
    exact ⟨_, _, ht⟩
  | more ht _ _ ih =>
    rcases List.mem_cons.mp hp with rfl | hp
    · exact ⟨_, _, ht⟩
    · exact ih hp

lemma literal?_stringShape (h : ¬ ∀ p ∈ ps, IsPlain p) (text : List Char) (written : Extent) :
    (stringShape ps text written).literal? = none := by
  by_contra hsome
  apply h
  intro p hp
  rw [stringShape] at hsome
  split_ifs at hsome
  · simp at hsome
  split at hsome
  · simp at hsome
  · next hread =>
    dsimp only at hsome
    split_ifs at hsome with hformatted
    · simp at hsome
    have hp' := List.find?_eq_none.mp hread p hp
    cases hd : Literal.decode p.text with
    | error => simp [hd, Except.toOption] at hp'
    | ok d =>
      refine ⟨d, hd, ?_⟩
      by_contra hf
      apply hformatted
      simp only [List.any_eq_true, List.mem_filterMap]
      exact ⟨d, ⟨p, hp, by rw [hd]; rfl⟩, by simpa using hf⟩

lemma shape_stringPhrase (hfirst : first.start = c.place) : (stringPhrase c stop (first :: rest) : Phrase Node).node.shape =
    stringShape (first :: rest) (c.textTo stop) (literalOf (first :: rest)).2 := by
  have hlast : (((first :: rest).getLast?.map Piece.stop).getD c.place) =
      (((first :: rest).getLast?.map Piece.stop).getD .start) := by
    rw [List.getLast?_cons]
    rfl
  rw [stringPhrase, Abstract.string_eq, literalOf, List.head?_cons, Option.map_some, Option.getD_some, hfirst, hlast]
  rfl

lemma literal?_stringPhrase (hfirst : first.start = c.place) (hplain : ∀ p ∈ first :: rest, IsPlain p) :
    (stringPhrase c stop (first :: rest) : Phrase Node).node.shape.literal? = some (literalOf (first :: rest)) := by
  obtain ⟨bytes, hshape⟩ := stringShape_plain hplain (c.textTo stop) (literalOf (first :: rest)).2
  rw [shape_stringPhrase hfirst, hshape]
  rfl

lemma IsRun.sifts (h : S.IsRun i (first :: rest) j) (hfirst : first.start = c.place) :
    S.Sifts i [first :: rest] (stringPhrase c stop (first :: rest) : Phrase Node).node.literals := by
  have hnode : (stringPhrase c stop (first :: rest) : Phrase Node).node.literals =
      (stringPhrase c stop (first :: rest) : Phrase Node).node.shape.literal?.toList := by
    have hchildren := children_stringShape (first :: rest) (c.textTo stop)
      ⟨c.place, ((first :: rest).getLast?.map Piece.stop).getD c.place⟩
    simp only [stringPhrase, Abstract.string_eq, Node.literals_mk, hchildren, List.flatMap_nil, List.append_nil]
    rfl
  rw [hnode]
  by_cases hplain : ∀ p ∈ first :: rest, IsPlain p
  · rw [literal?_stringPhrase hfirst hplain]
    exact .keep hplain .nil
  · rw [shape_stringPhrase hfirst, literal?_stringShape hplain]
    refine .special ?_ .nil
    push Not at hplain
    obtain ⟨p, hp, hspecial⟩ := hplain
    obtain ⟨a, b, ht⟩ := h.exists_token hp
    rw [ht.isPlain_iff] at hspecial
    refine ⟨p, hp, ?_⟩
    by_contra hnot
    simp only [not_or, Bool.not_eq_true] at hnot
    exact hspecial hnot

lemma IsRun.bears (h : S.IsRun c.index (first :: rest) d.index) (hd : S.Moves c d) (hfirst : first.start = c.place) :
    S.Bears c (stringPhrase c stop (first :: rest) : Phrase Node).node.literals d :=
  ⟨hd, [first :: rest], .run h .nil, h.sifts hfirst⟩

def GoesOn (S : Source) (d : Cursor) (o : Option (Piece × Nat)) (e : Cursor) : Prop :=
  (o = none → S.Bears d [] e ∧ S.Ends d.index) ∧
    ∀ a ∈ o, ∃ k, S.Next d.index k ∧ S.Token k a.1 e.index ∧ S.Moves d e

lemma goesOn_nextString (hg : g.Keeps S) (follow : Follow) (hd : S.Has d) : Gives d (do
      if !(← look follow true) then pure none
      else do
        let e ← get
        if (Quote.atStart? e.rest).isSome then do
          let p ← stringPiece g
          let i ← index
          pure (some (p, i))
        else pure none : Parser (Option (Piece × Nat))) (S.GoesOn d) := by
  have hlook : Gives d (look follow true) fun found e => look follow true d = .ok (found, e) ∧ S.Bears d [] e :=
    fun found e h => ⟨h, quiet_look follow true d hd found e h⟩
  refine hlook.bind fun found e ⟨hfound, h⟩ => ?_
  cases found with
  | false => exact .pure ⟨fun _ => ⟨h, .inl ⟨follow, true, d, e, hd, rfl, hfound⟩⟩, nofun⟩
  | true =>
    have hnext : S.Next d.index e.index := ⟨follow, true, d, e, hd, rfl, hfound, rfl⟩
    refine .get (.ite (fun _ => ?_) fun hquote => ?_)
    · have hpiece : Gives e (stringPiece g) fun p f => S.Token e.index p f.index ∧ S.Moves d f :=
        fun p f hf => ⟨token_of_stringPiece hg h.has hf, h.toMoves.trans (roams_stringPiece hg e h.has p f hf)⟩
      refine hpiece.bind fun p f ⟨ht, hf⟩ => .stay stays_index fun _ => .pure ⟨nofun, ?_⟩
      rintro _ ⟨⟩
      exact ⟨e.index, hnext, ht, hf⟩
    · refine .pure ⟨fun _ => ⟨h, .inr ⟨e.index, hnext, ?_⟩⟩, nofun⟩
      rw [← h.has.rest]
      simpa using hquote

lemma gives_moreStrings {next : Parser (Option (Piece × Nat))} (hnext : ∀ d, S.Has d → Gives d next (S.GoesOn d))
    (n : Nat) (ht : S.Token i p d.index) (hd : S.Has d) : Gives d (collect next n) fun more f =>
      ∃ e, S.Moves d e ∧ S.IsRun i (p :: more.map Prod.fst) e.index ∧ S.Bears e [] f := by
  induction n generalizing i p d with
  | zero => exact .fail
  | succ n ih =>
    rw [collect]
    refine (hnext d hd).bind fun o e h => ?_
    obtain ⟨hnone, hsome⟩ := h
    cases o with
    | none =>
      obtain ⟨h, hends⟩ := hnone rfl
      exact .pure ⟨d, .refl hd, .last ht hends, h⟩
    | some a =>
      obtain ⟨k, hk, htoken, hmoves⟩ := hsome a rfl
      refine (ih htoken hmoves.has).bind fun more f h => .pure ?_
      obtain ⟨e', he', hrun, h⟩ := h
      exact ⟨e', hmoves.trans he', .more ht hk hrun, h⟩

lemma gives_stringPiece_token (hg : g.Keeps S) (hc : S.Has c) : Gives c (stringPiece g) fun p d =>
    p.start = c.place ∧ S.Token c.index p d.index ∧ S.Moves c d := by
  intro p d hd
  have hsound : g.Sound S := by
    obtain ⟨bound, n, rfl⟩ := hg.tied
    exact sound_rules S bound n
  obtain ⟨-, hstart, -⟩ := gives_stringPiece_text hsound hc p d hd
  exact ⟨hstart, token_of_stringPiece hg hc hd, roams_stringPiece hg c hc p d hd⟩

lemma gives_run (hg : g.Keeps S) (follow : Follow) (hc : S.Has c) : Gives c (stringRun g follow) fun p f =>
    ∃ first rest stop e, p = stringPhrase c stop (first :: rest) ∧ first.start = c.place ∧ S.Moves c e ∧
      S.IsRun c.index (first :: rest) e.index ∧ S.Bears e [] f := by
  dsimp only [stringRun]
  refine .get ((gives_stringPiece_token hg hc).bind fun first d ⟨hfirst, ht, hd⟩ => .stay stays_index fun _ => ?_)
  refine (gives_moreStrings (fun d hd => goesOn_nextString hg follow hd) _ ht hd.has).bind ?_
  rintro more f ⟨e, he, hrun, h⟩
  exact .pure ⟨first, more.map Prod.fst, _, e, rfl, hfirst, hd.trans he, hrun, h⟩

lemma keeps_stringRun (hg : g.Keeps S) (follow : Follow) :
    S.Keeps (stringRun g follow) fun p => p.node.literals := by
  intro c hc
  refine (gives_run hg follow hc).mono ?_
  rintro p f ⟨first, rest, stop, e, rfl, hfirst, he, hrun, h⟩
  simpa using (hrun.bears he hfirst).append h

end Runs

end SourceBlocks.Lexis.Source
