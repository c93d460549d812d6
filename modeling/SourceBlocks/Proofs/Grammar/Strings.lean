import SourceBlocks.Proofs.Grammar.Laid

namespace SourceBlocks.Lexis

lemma Quote.opening?_length {q r : Quote} {n m : Nat} {s : List Char} (h : opening? q n s = some (r, m)) :
    n < m := by
  induction s generalizing q n with
  | nil => simp [opening?] at h
  | cons c s ih =>
    rw [opening?] at h
    split_ifs at h
    all_goals first
      | exact Nat.lt_of_succ_lt (ih h)
      | (obtain ⟨-, rfl⟩ := Prod.mk.inj (Option.some.inj h); omega)

end SourceBlocks.Lexis

namespace SourceBlocks.Lexis.Source

open Grammar Grammar.Parser
open SourceBlocks.Tree (Extent Field Mark Node Shape)

variable {S : Source} {g : Rules Node} {lo hi : Nat}

attribute [local simp] Shape.children Shape.fieldNodes Shape.fields Field.nodes

lemma stays_operandHere : Stays operandHere := stays_fun

section

variable (hg : g.Sound S)

include hg

lemma reads_commaList (site : Site) (first : Phrase Node) :
    S.Reads (commaList g site first)
      (fun i r j => ∃ more, r.1 = first :: more ∧ Chained S.PhraseIn i more j) := by
  intro i
  dsimp only [commaList]
  refine (reads_series (R := S.PhraseIn) (fun k => ?_) _ i).bind fun (more, _) j h => .pure ⟨more, rfl, h⟩
  refine (reads_look _ _ k).bind fun _ j₁ h₁ => .fork (.pure h₁) ?_
  refine (reads_symbol? (by decide) j₁).bind fun _ j₂ ⟨h₂, _⟩ => ?_
  refine .fork (.pure (show k ≤ j₂ by omega)) ?_
  refine (reads_look _ _ j₂).bind fun _ j₃ h₃ => .fork (.pure (show k ≤ j₃ by omega)) ?_
  refine .stay stays_operandHere fun _ => .fork ?_ <| .pure (show k ≤ j₃ by omega)
  exact (hg.expr _ _ j₃).bind fun p j₄ h₄ => .pure (PhraseIn.lowers h₄ (by omega))

lemma yields_listed {α : Type} (site : Site) {i : Nat}
    {f : Phrase Node → List (Phrase Node) × Bool → Parser α} {Q : α → Nat → Prop}
    (h : ∀ first more b k j, S.PhraseIn i first k → Chained S.PhraseIn k more j →
      S.Yields j (f first (first :: more, b)) Q) :
    S.Yields i (do
      let first ← g.expr site Level.lowest
      let r ← commaList g site first
      f first r) Q := by
  refine (hg.expr _ _ i).bind fun first k hf => ?_
  refine (reads_commaList hg site first k).bind fun (ps, b) j ⟨more, hps, hmore⟩ => ?_
  obtain rfl : ps = first :: more := hps
  exact h first more b k j hf hmore

lemma reads_expressions (site : Site) : S.Reads (expressions g site) S.PhraseIn := by
  intro i
  rw [expressions]
  refine yields_listed hg site fun first more b k j hf hmore => ?_
  refine .fork (.pure ?_) <| .pure (hf.mono (Nat.le_refl i) hmore.laid_nodes.le)
  exact hf.extend (by simp) hmore.laid_nodes

lemma yields_yieldValue (site : Site) {i j : Nat} (hij : i < j) :
    S.Yields j (yieldValue g site (S.placeAt i)) (S.PhraseIn i) := by
  rw [yieldValue]
  refine .stay stays_index fun stop => ?_
  have bare : ∀ k, j ≤ k → S.PhraseIn i (.leaf (S.placeAt i) stop (.yieldValue none)) k := fun k hk =>
    .leaf (Nat.le_refl i) (by omega) (by simpa using .nil (by omega))
  refine (reads_look _ _ j).bind fun _ k hk => .fork (.pure (bare k hk)) ?_
  refine (reads_keyword? (by decide) k).bind fun _ k₁ hk₁ => .fork ?_ ?_
  all_goals have h₁ := hk₁.1
  · refine .operand fun k₂ h₂ => (hg.expr _ _ k₂).bind fun p k₃ h₃ => .pure ?_
    exact .leaf (Nat.le_refl i) (by have := h₃.lt; omega) (by simpa using h₃.laid.mono_lo (by omega))
  · refine .stay stays_operandHere fun _ => .fork ?_ <| .pure (bare k₁ (by omega))
    refine (reads_expressions hg site k₁).bind fun p k₂ h₂ => .pure ?_
    exact .leaf (Nat.le_refl i) (by have := h₂.lt; omega) (by simpa using h₂.laid.mono_lo (by omega))

lemma reads_orYield (site : Site) {p : Parser (Phrase Node)} (hp : S.Reads p S.PhraseIn) :
    S.Reads (orYield g site p) S.PhraseIn := by
  intro i
  rw [orYield]
  refine yields_here ((reads_keyword? (by decide) i).bind fun b j ⟨hj, hlt⟩ => ?_)
  refine .ite (fun hb => yields_yieldValue hg site (hlt hb)) fun _ => ?_
  exact (hp j).mono fun p k h => PhraseIn.lowers h hj

end

lemma reads_conversion? : S.Reads conversion? Goes := by
  intro i c hc hi b d hd
  rw [conversion?] at hd
  split at hd
  · split_ifs at hd
    · obtain ⟨rfl, rfl⟩ := Prod.mk.inj (Except.ok.inj hd)
      exact ⟨hc.skip 2, hi ▸ c.le_index_skip 2⟩
    · obtain ⟨rfl, rfl⟩ := Prod.mk.inj (Except.ok.inj hd)
      exact ⟨hc, Nat.le_of_eq hi.symm⟩
  · obtain ⟨rfl, rfl⟩ := Prod.mk.inj (Except.ok.inj hd)
    exact ⟨hc, Nat.le_of_eq hi.symm⟩

lemma reads_formatText {field : Parser Unit} (hf : S.Reads field Goes) (n : Nat) :
    S.Reads (formatText field n) Goes := by
  induction n with
  | zero => exact fun _ => .fail
  | succ n ih =>
    intro i
    rw [formatText]
    refine .stay stays_next? fun x => ?_
    cases x with
    | none => exact .fail
    | some x =>
      refine .fork (.pure (Nat.le_refl i)) <| .fork ?_ ?_
      · refine (hf i).bind fun _ j hj => (ih j).mono fun _ k hk => ?_
        exact Nat.le_trans hj hk
      · refine (reads_advance 1 i).bind fun _ j hj => (ih j).mono fun _ k hk => ?_
        exact Nat.le_trans hj hk

lemma reads_field (hg : g.Sound S) (n : Nat) : S.Reads (field g n) Goes := by
  induction n with
  | zero => exact fun _ => .fail
  | succ n ih =>
    intro i
    rw [field]
    refine .symbol (by decide) fun j₁ h₁ => .operand fun j₂ h₂ => ?_
    refine (reads_orYield hg _ (reads_expressions hg _) j₂).bind fun p j₃ h₃ => ?_
    refine .token fun j₄ h₄ => ?_
    refine (reads_symbol? (by decide) j₄).bind fun _ j₅ ⟨h₅, _⟩ => ?_
    refine .token fun j₆ h₆ => (reads_conversion? j₆).bind fun _ j₇ h₇ => ?_
    refine .token fun j₈ h₈ => ?_
    refine (reads_symbol? (by decide) j₈).bind fun _ j₉ ⟨h₉, _⟩ => ?_
    have := h₃.lt
    have closing : ∀ j, j₉ ≤ j → S.Yields j (symbol "\x7d") (Goes i) := fun j hj =>
      (reads_symbol (by decide) j).mono fun _ k hk => by
        have : j < k := hk
        omega
    refine .fork ?_ <| closing j₉ (Nat.le_refl _)
    exact (reads_formatText ih _ j₉).bind fun _ j hj => closing j hj

lemma reads_bodyRemainder (hg : g.Sound S) : S.Reads (bodyRemainder g) Goes := by
  intro i
  rw [bodyRemainder]
  refine .get fun c _ _ => ?_
  split
  · exact reads_advance _ i
  · refine (reads_advance _ i).bind fun _ j hj => .get fun d _ _ => ?_
    split
    · exact (reads_advance _ j).mono fun _ k hk => Nat.le_trans hj hk
    · exact (reads_field hg _ j).mono fun _ k hk => Nat.le_trans hj hk

lemma reads_leaveFields : S.Reads (modify (fun c => { c with inFields := false }) : Parser PUnit)
    (fun i _ j => j = i) := by
  intro i c hc hi a d hd
  obtain ⟨rfl, rfl⟩ := Prod.mk.inj (Except.ok.inj hd)
  exact ⟨hc.of_eq rfl rfl rfl rfl, hi⟩

lemma reads_stringBody (hg : g.Sound S) (q : Quote) (n : Nat) : S.Reads (stringBody g q n) Goes := by
  induction n with
  | zero => exact fun _ => .fail
  | succ n ih =>
    intro i
    have goOn : ∀ {p : Parser Unit}, S.Reads p Goes → S.Yields i (p >>= fun _ => stringBody g q n) (Goes i) :=
      fun hp => (hp i).bind fun _ j hj => (ih j).mono fun _ k hk => Nat.le_trans hj hk
    rw [stringBody]
    refine .get fun c _ _ => .fork (goOn (reads_advance 2)) ?_
    refine .fork (goOn (reads_field hg _)) ?_
    split
    · refine (reads_advance _ i).bind fun _ j hj => (reads_leaveFields j).mono fun _ k hk => ?_
      exact hk ▸ hj
    · exact goOn (reads_advance _)
    · exact goOn (reads_bodyRemainder hg)

lemma reads_stringPiece (hg : g.Sound S) :
    S.Reads (stringPiece g) (fun i p j => p.start = S.placeAt i ∧ S.PieceIn i p j) := by
  intro i
  rw [stringPiece]
  refine .get fun c hc hi => ?_
  split
  · exact .fail
  · next q n hq =>
    have hlt : i < (c.skip n).index := by
      refine hi ▸ lt_index_skip (fun hr => ?_) (Nat.ne_of_gt (Quote.opening?_length hq))
      simp [hr, Quote.atStart?, Quote.opening?] at hq
    refine .set (c := { c.skip n with inFields := q.fields }) ((hc.skip n).of_eq rfl rfl rfl rfl) ?_
    refine (reads_stringBody hg q _ _).bind fun _ j (hj : (c.skip n).index ≤ j) => ?_
    refine .get fun d hd hdj => .pure ⟨hi ▸ hc.place, i, j, Nat.le_refl i, by omega, Nat.le_refl j, ?_⟩
    refine ⟨hi ▸ hc.place, hdj ▸ hd.place, ?_, ?_⟩
    · rw [Cursor.textTo, hc.rest, hi, hdj]
    · rw [← hi, ← hc.rest, hq]
      rfl

lemma children_stringShape (ps : List Piece) (text : List Char) (written : Extent) :
    (stringShape ps text written).children = [] := by
  rw [stringShape]
  split_ifs
  · simp
  · split
    · simp
    · dsimp only
      split_ifs <;> simp

lemma not_isBackQuoted {p : Piece} (h : IsPlain p) : isBackQuoted p = false := by
  obtain ⟨d, hd, -⟩ := h
  by_contra hb
  obtain ⟨r, hr⟩ : ∃ r, p.text = '\x60' :: r := by
    cases ht : p.text with
    | nil => simp [isBackQuoted, ht, startsWithChar] at hb
    | cons x r =>
      obtain rfl : x = '\x60' := by simpa [isBackQuoted, ht, startsWithChar] using hb
      exact ⟨r, rfl⟩
  simp [hr, Literal.decode, Literal.isMarkLetter, Literal.openingQuotes] at hd

lemma flatMap_value {ps : List Piece} (h : ∀ p ∈ ps, IsPlain p) :
    (ps.filterMap (fun p => (Literal.decode p.text).toOption)).flatMap (·.value) =
      ps.flatMap pieceValue := by
  induction ps with
  | nil => rfl
  | cons p ps ih =>
    obtain ⟨d, hd, -⟩ := h p (by simp)
    have hsome : (Literal.decode p.text).toOption = some d := by rw [hd]; rfl
    have hps := ih fun q hq => h q (List.mem_cons_of_mem p hq)
    simp [pieceValue, hsome, hps]

lemma stringShape_plain {ps : List Piece} (h : ∀ p ∈ ps, IsPlain p) (text : List Char)
    (written : Extent) : ∃ bytes, stringShape ps text written =
      .str (String.ofList (ps.flatMap pieceValue)) bytes written := by
  have hback : ps.any isBackQuoted = false := by
    simpa using fun p hp => not_isBackQuoted (h p hp)
  have hread : ps.find? (fun p => (Literal.decode p.text).toOption.isNone) = none := by
    rw [List.find?_eq_none]
    intro p hp
    obtain ⟨d, hd, -⟩ := h p hp
    simp [hd, Except.toOption]
  have hplain : (ps.filterMap (fun p => (Literal.decode p.text).toOption)).any (·.formatted) = false := by
    simp only [List.any_eq_false, List.mem_filterMap]
    rintro d ⟨p, hp, hpd⟩
    obtain ⟨d', hd', hf⟩ := h p hp
    obtain rfl : d' = d := by simpa [hd', Except.toOption] using hpd
    simp [hf]
  simp only [stringShape, hback, hread, hplain, flatMap_value h, Bool.false_eq_true, if_false]
  exact ⟨_, rfl⟩

lemma leadOf?_eq_some {ps : List Piece} {row : Nat} (h : leadOf? ps = some row) :
    (∀ p ∈ ps, IsPlain p) ∧ ∃ first rest, ps = first :: rest ∧ first.start.row ≠ first.stop.row ∧
      row = first.stop.row := by
  simp only [leadOf?] at h
  split_ifs at h with hplain
  constructor
  · intro p hp
    have := List.all_eq_true.mp hplain p hp
    split at this
    · next d hd => exact ⟨d, hd, by simpa using this⟩
    · cases this
  · cases ps with
    | nil => simp at h
    | cons first rest =>
      simp only [List.head?_cons, Option.bind_some, Piece.lead?] at h
      split_ifs at h with hrow
      exact ⟨first, rest, rfl, hrow, (Option.some.inj h).symm⟩

lemma phraseIn_stringPhrase {c : Cursor} {i j stop : Nat} {first : Piece} {rest : List Piece}
    (hc : c.place = S.placeAt i) (hfirst : first.start = S.placeAt i)
    (h : Chained S.PieceIn i (first :: rest) j) : S.PhraseIn i (stringPhrase c stop (first :: rest)) j := by
  have hlt : i < j := by
    cases h with
    | cons hp hps => exact Nat.lt_of_lt_of_le hp.lt (hps.le fun h => Nat.le_of_lt h.lt)
  cases hl : leadOf? (first :: rest) with
  | none =>
    refine ⟨i, Nat.le_refl i, hlt, hc, ?_, fun row hrow => by simp [stringPhrase, hl] at hrow⟩
    refine .known (k := j) ?_ (Nat.le_refl i) hlt ?_ (.nil (Nat.le_refl j))
    · simp [stringPhrase, Node.mark, hl, markOf, hc]
    · have hnil : (stringPhrase c stop (first :: rest) : Phrase Node).node.children = [] := children_stringShape _ _ _
      exact hnil ▸ .nil (Nat.le_of_lt hlt)
  | some row =>
    obtain ⟨hplain, first', rest', heq, hrows, rfl⟩ := leadOf?_eq_some hl
    obtain ⟨rfl, rfl⟩ := List.cons.inj heq
    have hmark : (stringPhrase c stop (first :: rest) : Phrase Node).node.mark = some (.endsOn first.stop.row) := by
      simp [stringPhrase, Node.mark, hl, markOf]
    refine ⟨i, Nat.le_refl i, hlt, hc, ?_, ?_⟩
    · obtain ⟨bytes, hs⟩ := stringShape_plain hplain (c.textTo stop)
        ⟨c.place, ((first :: rest).getLast (by simp)).stop⟩
      have hshape : (stringPhrase c stop (first :: rest) : Phrase Node).node.shape =
          .str (String.ofList ((first :: rest).flatMap pieceValue)) bytes
            ⟨first.start, ((first :: rest).getLast (by simp)).stop⟩ := by
        rw [hfirst, ← hc, ← hs]
        simp [stringPhrase, Node.shape, List.getLast?_eq_some_getLast]
      exact .literal hmark hshape ⟨first, rest, h, hplain, rfl, rfl, hrows, rfl⟩ (.nil (Nat.le_refl j))
    · intro row hrow
      obtain rfl : first.stop.row = row := by simpa [stringPhrase, hl] using hrow
      exact hmark

lemma reads_singleString (hg : g.Sound S) : S.Reads (singleString g) S.PhraseIn := by
  intro i
  rw [singleString]
  refine .get fun c hc hi => (reads_stringPiece hg i).bind fun p j ⟨hs, hp⟩ => ?_
  refine .stay stays_index fun stop => .pure ?_
  exact phraseIn_stringPhrase (hi ▸ hc.place) hs (.cons hp (.nil (Nat.le_refl j)))

lemma reads_stringRun (hg : g.Sound S) (follow : Follow) : S.Reads (stringRun g follow) S.PhraseIn := by
  intro i
  dsimp only [stringRun]
  refine .get fun c hc hi => (reads_stringPiece hg i).bind fun p j ⟨hs, hp⟩ => .stay stays_index fun _ => ?_
  refine (reads_collect (R := fun i r j => S.PieceIn i r.1 j) (fun k => ?_) _ j).bind
    fun more m hmore => .pure ?_
  · refine (reads_look _ _ k).bind fun _ k₁ h₁ => .fork (.pure h₁) <| .get fun d _ _ => ?_
    refine .fork ?_ <| .pure h₁
    refine (reads_stringPiece hg k₁).bind fun q k₂ ⟨_, hq⟩ => .stay stays_index fun _ => .pure ?_
    exact hq.mono h₁ (Nat.le_refl _)
  · exact phraseIn_stringPhrase (hi ▸ hc.place) hs (.cons hp (hmore.map fun _ _ _ h => h))

end SourceBlocks.Lexis.Source
