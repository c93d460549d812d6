import SourceBlocks.Proofs.Dialect
import SourceBlocks.Proofs.Grammar.Reaches
import SourceBlocks.Proofs.Literal.Quoted
import SourceBlocks.Proofs.Literal.Spelling

namespace SourceBlocks.Grammar

open Lexis Grammar.Parser Literal
open SourceBlocks.Tree (Node Shape)

variable {S : Source} {s t u r : List Char} {g : Rules Node} {site : Site} {follow : Follow} {level : Int}

def isCloser (x : Char) : Bool := x ∈ [',', ':', ')', ']', '\x7d']

def Closing (t : List Char) : Prop := ∀ x, t.head? = some x → isCloser x = true

namespace Closing

lemma nil : Closing [] := nofun

lemma cons {x : Char} (hx : isCloser x = true) (t : List Char) : Closing (x :: t) := by
  rintro y hy
  obtain rfl := Option.some.inj hy
  exact hx

lemma eq_or (ht : Closing t) :
    t = [] ∨ ∃ s, t = ',' :: s ∨ t = ':' :: s ∨ t = ')' :: s ∨ t = ']' :: s ∨ t = '\x7d' :: s := by
  cases t with
  | nil => exact .inl rfl
  | cons x t => exact .inr ⟨t, by simpa [isCloser] using ht x rfl⟩

lemma cases (ht : Closing t) : t = [] ∨ Solid t := by
  rcases ht.eq_or with rfl | ⟨s, rfl | rfl | rfl | rfl | rfl⟩
  · exact .inl rfl
  all_goals exact .inr ⟨_, s, rfl, by decide⟩

lemma reaches_look (ht : Closing t) {string : Bool} : Reaches S (look follow string) t t fun _ => True := by
  rcases ht.cases with rfl | hs
  · exact reaches_look_end.mono fun _ _ => trivial
  · exact (Grammar.reaches_look hs).mono fun _ _ => trivial

lemma word (ht : Closing t) : word t = [] := by
  rcases ht.eq_or with rfl | ⟨s, rfl | rfl | rfl | rfl | rfl⟩ <;> rfl

lemma atStart? (ht : Closing t) : Quote.atStart? t = none := by
  rcases ht.eq_or with rfl | ⟨s, rfl | rfl | rfl | rfl | rfl⟩ <;> rfl

end Closing

lemma reaches_trailer (ht : Closing t) : Reaches S (trailer g follow) t t (· = none) := by
  refine ht.reaches_look.after fun b => ?_
  cases b with
  | false => exact .pos rfl (.pure rfl)
  | true =>
    refine .neg nofun ((reaches_symbol?_none (isPrefixOf_eq_false ht rfl)).step (.neg nofun ?_))
    refine (reaches_startsWith _).step ?_
    rw [isPrefixOf_eq_false ht rfl]
    refine .neg nofun ((reaches_startsWith _).step ?_)
    rw [isPrefixOf_eq_false ht rfl]
    exact .neg nofun (.pure rfl)

lemma reaches_collect_nil {α : Type} {next : Parser (Option α)} {n : Nat} (h : Reaches S next s t (· = none))
    (hn : 0 < n) : Reaches S (collect next n) s t (· = []) := by
  obtain ⟨n, rfl⟩ := Nat.exists_eq_succ_of_ne_zero (Nat.pos_iff_ne_zero.mp hn)
  exact h.step (.pure rfl)

lemma reaches_trailers (ht : Closing t) (hb : 0 < g.bound) : Reaches S (trailers g follow) t t (· = []) :=
  reaches_collect_nil (reaches_trailer ht) hb

lemma reaches_comparison? (ht : Closing t) : Reaches S comparison? t t (· = none) := by
  have hsigns : comparisonSigns.find? (fun w => w.toList.isPrefixOf t) = none :=
    find?_isPrefixOf_eq_none (f := id) ht rfl
  refine (reaches_firstHere _).after fun shift => (reaches_firstHere _).step ?_
  rw [hsigns]
  split
  next heq => cases heq
  next =>
    refine reaches_wordHere.step ?_
    rw [ht.word]
    exact .neg (by decide) (.neg (by decide) (.neg (by decide) (.pure rfl)))

lemma reaches_comparisons (ht : Closing t) (hb : 0 < g.bound) : Reaches S (comparisons g site) t t (· = []) := by
  refine reaches_collect_nil (ht.reaches_look.after fun b => ?_) hb
  cases b with
  | false => exact .pos rfl (.pure rfl)
  | true => exact .neg nofun ((reaches_comparison? ht).step (.pure rfl))

lemma reaches_operators (ht : Closing t) (hb : 0 < g.bound) {n : Nat} (hn : 0 < n) (p : Phrase Node) :
    Reaches S (operators g site level n p) t t (· = p) := by
  obtain ⟨n, rfl⟩ := Nat.exists_eq_succ_of_ne_zero (Nat.pos_iff_ne_zero.mp hn)
  refine ht.reaches_look.after fun b => ?_
  cases b with
  | false => exact .pos rfl (.pure rfl)
  | true =>
    have hoperator : Reaches S valueOperatorHere t t (· = none) := fun c hc =>
      ⟨_, c, rfl, hc, by rw [hc.rest]; exact find?_isPrefixOf_eq_none ht rfl⟩
    have hcomparisons : Reaches S (if level < Level.comparison then comparisons g site else pure []) t t (· = []) := by
      split_ifs
      · exact reaches_comparisons ht hb
      · exact .pure rfl
    refine .neg nofun (hoperator.step ?_)
    refine hcomparisons.ite_bind fun cs hcs => ?_
    subst hcs
    refine reaches_wordHere.step ?_
    rw [ht.word]
    refine .neg ?_ (.neg ?_ (.neg ?_ (.neg ?_ (.pure rfl))))
    all_goals simp

def Evaluates (v : Value) (p : Phrase Node) : Prop := eval p.node = .ok v ∧ Dialect.demands p.node = []

lemma reaches_primary {Q : Phrase Node → Prop} (ht : Closing t) (hb : 0 < g.bound) (h : Reaches S (atom g follow) s t Q) :
    Reaches S (primary g follow) s t Q :=
  h.bind fun _ hp => (reaches_trailers ht hb).step (.pure hp)

lemma reaches_expression {Q : Phrase Node → Prop} (ht : Closing t) (hb : 0 < g.bound)
    (h : Reaches S (operand g site level) s t Q) : Reaches S (expression g site level) s t Q :=
  h.bind fun p hp => (reaches_operators ht hb hb p).mono fun _ hq => hq ▸ hp

/-! Numbers and constants. -/

lemma demands_eq_nil {n : Node} (hown : Dialect.own n = [])
    (hsteps : ∀ s ∈ Dialect.Step.ofShape n.shape, s.demands = []) : Dialect.demands n = [] := by
  rw [Dialect.demands_eq, hown, List.nil_append]
  exact List.flatMap_eq_nil_iff.mpr hsteps

lemma Closing.endsNumeral (ht : Closing t) : EndsNumeral t := by
  intro x hx
  have := ht x hx
  simp only [isCloser, List.mem_cons, List.not_mem_nil, or_false, decide_eq_true_eq] at this
  rcases this with rfl | rfl | rfl | rfl | rfl <;> decide

def IsNumeral (n : Nat) (p : Phrase Node) : Prop := ∃ text, p.node.shape = .num text ∧ evalNumeral text = .ok (.int n)

lemma IsNumeral.evaluates {n : Nat} {p : Phrase Node} (h : IsNumeral n p) : Evaluates (.int n) p := by
  obtain ⟨text, hp, htext⟩ := h
  obtain ⟨⟨mark, shape⟩⟩ := p
  obtain rfl : shape = _ := hp
  refine ⟨?_, demands_eq_nil rfl nofun⟩
  rw [eval]
  exact htext

lemma reaches_numeral (ht : Closing t) {n : Nat} (hn : n < 2 ^ 127) :
    Reaches S numeral (Number.write 10 n ++ t) t (IsNumeral n) := by
  have hlength := numeralLength_write (n := n) ht.endsNumeral
  have hpos : (Number.write 10 n).length ≠ 0 := by
    obtain ⟨d, s, hs, -⟩ := Number.write_eq_cons (by decide : 1 < 10) n
    simp [hs]
  refine .get fun c hc => ?_
  rw [hc.rest, hlength]
  refine .require (by simpa using hpos) ((reaches_advance_append _ rfl).after fun _ => .pure ?_)
  rw [List.take_left]
  exact ⟨_, rfl, evalNumeral_write hn⟩

lemma Closing.takeWhile_isWordPart (ht : Closing t) : t.takeWhile isWordPart = [] := by
  rcases ht.eq_or with rfl | ⟨s, rfl | rfl | rfl | rfl | rfl⟩ <;> rfl

def constants : List String := ["True", "False", "None"]

lemma word_constant (ht : Closing t) {w : String} (hw : w ∈ constants) : word (w.toList ++ t) = w.toList := by
  simp only [constants, List.mem_cons, List.not_mem_nil, or_false] at hw
  rcases hw with rfl | rfl | rfl <;>
    simp [word, isWordStart, isWordPart, isAsciiLetter, ht.takeWhile_isWordPart]

lemma atStart?_constant {w : String} (hw : w ∈ constants) (t : List Char) : Quote.atStart? (w.toList ++ t) = none := by
  simp only [constants, List.mem_cons, List.not_mem_nil, or_false] at hw
  rcases hw with rfl | rfl | rfl <;> rfl

lemma reaches_nameAtom {w : String} {v : Value} (ht : Closing t) (hw : w ∈ constants) (hv : constant? w = some v) :
    Reaches S nameAtom (w.toList ++ t) t fun p => p.node.shape = .nameConstant w ∧ Evaluates v p := by
  have hname : Reaches S name (w.toList ++ t) t (· = w) := by
    refine reaches_wordHere.step ?_
    rw [word_constant ht hw, String.ofList_toList]
    refine .require ?_ ((reaches_advance_append _ w.length_toList).after fun _ => .pure rfl)
    simp only [constants, List.mem_cons, List.not_mem_nil, or_false] at hw
    rcases hw with rfl | rfl | rfl <;> rfl
  refine reaches_here.after fun start => hname.step (reaches_index.after fun stop => .pos hw (.pure ?_))
  refine ⟨rfl, ?_, demands_eq_nil rfl nofun⟩
  rw [eval]
  simp only [Phrase.leaf, Abstract.node_eq, Node.shape, hv, orMalformed]

/-! Strings. -/

section Strings

variable {α : Type} {l : List α} {f : α → Char} {w : α → List Char} {q : Quote}

lemma reaches_escape {c : Char} {e : List Char} (h : Quotes q.mark c ('\\' :: e)) (t : List Char) :
    Reaches S (bodyRemainder g) ('\\' :: e ++ t) t fun _ => True := by
  refine .get fun d hd => ?_
  rw [hd.rest, List.cons_append]
  change Reaches S (advance (1 + escapeLength (e ++ t))) _ _ _
  rw [escapeLength_append h, Nat.add_comm]
  exact reaches_advance_append (s := '\\' :: e) _ rfl

lemma reaches_stringBody (hq : q.Plain) (h : ∀ a ∈ l, Quotes q.mark (f a) (w a)) {n : Nat} (hn : l.length < n)
    (t : List Char) : Reaches S (stringBody g q n) (l.flatMap w ++ q.mark :: t) t fun _ => True := by
  induction n generalizing l with
  | zero => omega
  | succ n ih =>
    refine .get fun c hc => ?_
    rw [hc.rest, hq.fields]
    refine .neg Bool.false_ne_true (.neg Bool.false_ne_true ?_)
    cases l with
    | nil =>
      rw [List.flatMap_nil, List.nil_append, run_mark hq, if_neg Bool.false_ne_true]
      refine (reaches_advance_append (s := [q.mark]) _ rfl).after fun _ => ?_
      exact fun d hd => ⟨(), _, rfl, ⟨hd.has.of_eq rfl rfl rfl rfl, hd.rest, hd.indents, rfl⟩, trivial⟩
    | cons a l =>
      obtain ⟨ha, hl⟩ := List.forall_mem_cons.mp h
      by_cases hescape : ∃ e, w a = '\\' :: e
      · obtain ⟨e, he⟩ := hescape
        rw [he] at ha
        rw [List.flatMap_cons, he, List.append_assoc, List.cons_append, run_slash hq ha]
        exact (reaches_escape ha _).after fun _ => ih hl (by simpa using hn)
      generalize hw : w a = u at ha
      cases ha with
      | plain hzero hslash hmark hline =>
        obtain ⟨l₁, l₂, rfl, hrun⟩ := run_body hq hl 1 t
        rw [List.flatMap_cons, hw, List.singleton_append, List.cons_append,
          run_plain hq hzero hslash hmark hline, hrun]
        have hl₂ : ∀ b ∈ l₂, Quotes q.mark (f b) (w b) := fun b hb => hl b (List.mem_append_right _ hb)
        have hadvance := reaches_advance_append (S := S) (s := f a :: l₁.flatMap w) (t := l₂.flatMap w ++ q.mark :: t)
          (1 + (l₁.flatMap w).length) (by rw [List.length_cons, Nat.add_comm])
        rw [List.flatMap_append, List.append_assoc]
        refine hadvance.after fun _ => ih hl₂ ?_
        simp only [List.length_cons, List.length_append] at hn
        omega
      | letter => exact absurd ⟨_, hw⟩ hescape
      | code => exact absurd ⟨_, hw⟩ hescape

variable {letters : List Char} {mark : Char}

lemma atStart?_piece (hmark : mark = '\'' ∨ mark = '"') (hletters : letters = [] ∨ letters = ['b'])
    (h : ∀ a ∈ l, Quotes mark (f a) (w a)) (ht : Closing t) :
    Quote.atStart? (letters ++ mark :: (l.flatMap w ++ mark :: t)) =
      some (⟨mark, false, false, !letters.isEmpty, false⟩, letters.length + 1) := by
  refine atStart?_quoted hmark hletters (head_flatMap_ne hmark h) fun hx => ?_
  have := ht mark hx
  rcases hmark with rfl | rfl <;> cases this

lemma reaches_stringPiece (hmark : mark = '\'' ∨ mark = '"') (hletters : letters = [] ∨ letters = ['b'])
    (h : ∀ a ∈ l, Quotes mark (f a) (w a)) (hl : l.length < g.bound) (ht : Closing t) :
    Reaches S (stringPiece g) (letters ++ mark :: (l.flatMap w ++ mark :: t)) t
      fun p => p.text = letters ++ mark :: (l.flatMap w ++ [mark]) := by
  have hopen := atStart?_piece hmark hletters h ht
  have hsplit : letters ++ mark :: (l.flatMap w ++ mark :: t) = (letters ++ mark :: (l.flatMap w ++ [mark])) ++ t := by
    simp
  refine .get fun c hc => ?_
  rw [hc.rest, hopen]
  have hskip : Before S (l.flatMap w ++ mark :: t) { c.skip (letters.length + 1) with inFields := false } := by
    have hskip := hc.skip (n := letters.length + 1) (by simp)
    rw [List.append_cons, List.drop_left' (by simp)] at hskip
    exact ⟨hskip.has.of_eq rfl rfl rfl rfl, hskip.rest, hskip.indents, rfl⟩
  refine .set hskip ?_
  have hplain : Quote.Plain ⟨mark, false, false, !letters.isEmpty, false⟩ := ⟨hmark, rfl, rfl, rfl⟩
  refine (reaches_stringBody hplain h hl t).after fun _ => .get fun d hd => .pure ?_
  have hlength : d.index - c.index = (letters ++ mark :: (l.flatMap w ++ [mark])).length := by
    have hci := hc.index
    have hdi := hd.index
    rw [hsplit, List.length_append] at hci
    omega
  rw [Cursor.textTo, hlength, hc.rest, hsplit, List.take_left]

lemma stringShape_single {p : Piece} {d : Decoded} (hp : isBackQuoted p = false) (hd : decode p.text = .ok d)
    (hformatted : d.formatted = false) (text : List Char) (written : Tree.Extent) :
    stringShape [p] text written = .str (String.ofList d.value) d.bytes written := by
  simp [stringShape, hp, hd, hformatted, Except.toOption]

lemma reaches_stringRun (hmark : mark = '\'' ∨ mark = '"') (hletters : letters = [] ∨ letters = ['b'])
    (h : ∀ a ∈ l, Quotes mark (f a) (w a)) (hl : l.length < g.bound) (ht : Closing t) :
    Reaches S (stringRun g follow) (letters ++ mark :: (l.flatMap w ++ mark :: t)) t fun p =>
      ∃ written, p.node.shape = .str (String.ofList (l.map f)) (!letters.isEmpty) written := by
  refine .get fun c hc => (reaches_stringPiece hmark hletters h hl ht).bind fun p hp => ?_
  refine reaches_index.after fun stop => ?_
  have hnext : ∀ {next : Parser (Option (Piece × Nat))}, Reaches S next t t (· = none) →
      Reaches S (collect next g.bound) t t (· = []) := fun h => reaches_collect_nil h (by omega)
  refine (hnext (ht.reaches_look.after fun b => ?_)).step (.pure ⟨⟨c.place, p.stop⟩, ?_⟩)
  · cases b with
    | false => exact .pos rfl (.pure rfl)
    | true =>
      refine .neg nofun (.get fun d hd => ?_)
      rw [hd.rest, ht.atStart?]
      exact .neg nofun (.pure rfl)
  · have hdecode : decode p.text = .ok ⟨l.map f, !letters.isEmpty, false⟩ := by
      rw [hp]
      exact decode_quoted hmark h hletters
    have hback : isBackQuoted p = false := by
      rw [isBackQuoted, hp]
      rcases hletters with rfl | rfl <;> rcases hmark with rfl | rfl <;> rfl
    exact stringShape_single hback hdecode rfl _ _

end Strings

lemma demands_str {n : Node} {value : String} {bytes : Bool} {written : Tree.Extent}
    (h : n.shape = .str value bytes written) : Dialect.demands n = [] := by
  apply demands_eq_nil
  · rw [Dialect.own, h]
  · rw [h]
    nofun

lemma reaches_quote (s : String) (hs : s.length < g.bound) (ht : Closing t) :
    Reaches S (stringRun g follow) (quote s.toList ++ t) t (Evaluates (.str s)) := by
  have hmark := chooseQuote_cases s.toList
  rw [quote, List.cons_append, List.cons_append, List.append_assoc, List.singleton_append]
  refine (reaches_stringRun (f := id) hmark (.inl rfl) (fun c _ => quotes_quoteChar hmark c) hs ht).mono fun p hp => ?_
  obtain ⟨written, hp⟩ := hp
  rw [List.map_id, String.ofList_toList] at hp
  refine ⟨?_, demands_str hp⟩
  obtain ⟨⟨mark, shape⟩⟩ := p
  obtain rfl : shape = _ := hp
  rw [eval]
  rfl

lemma isSome_atStart?_quote (s : List Char) (ht : Closing t) : (Quote.atStart? (quote s ++ t)).isSome = true := by
  have hmark := chooseQuote_cases s
  have hopen := atStart?_piece (f := id) hmark (.inl rfl) (fun c (_ : c ∈ s) => quotes_quoteChar hmark c) ht
  rw [quote, List.cons_append, List.cons_append, List.append_assoc, List.singleton_append]
  exact Option.isSome_of_eq_some hopen

lemma reaches_quoteBytes (bs : List UInt8) (hs : bs.length < g.bound) (ht : Closing t) :
    Reaches S (stringRun g follow) (quoteBytes bs ++ t) t (Evaluates (.bytes bs)) := by
  have hmark := chooseQuote_cases (bs.map fun b => Char.ofNat b.toNat)
  rw [quoteBytes, List.cons_append, List.cons_append, List.cons_append, List.cons_append, List.append_assoc,
    List.singleton_append]
  refine (reaches_stringRun hmark (.inr rfl) (fun b _ => quotes_quoteByte hmark b) hs ht).mono fun p hp => ?_
  obtain ⟨written, hp⟩ := hp
  refine ⟨?_, demands_str hp⟩
  obtain ⟨⟨mark, shape⟩⟩ := p
  obtain rfl : shape = _ := hp
  have hbytes : (String.ofList (bs.map charOf)).toList.map byteOf = bs := by
    rw [String.toList_ofList, map_byteOf_charOf]
  rw [eval]
  exact congrArg (fun bs => Except.ok (Value.bytes bs)) hbytes

lemma isSome_atStart?_quoteBytes (bs : List UInt8) (ht : Closing t) :
    (Quote.atStart? (quoteBytes bs ++ t)).isSome = true := by
  have hmark := chooseQuote_cases (bs.map fun b => Char.ofNat b.toNat)
  have hopen := atStart?_piece hmark (.inr rfl) (fun b (_ : b ∈ bs) => quotes_quoteByte hmark b) ht
  rw [quoteBytes, List.cons_append, List.cons_append, List.cons_append, List.cons_append, List.append_assoc,
    List.singleton_append]
  exact Option.isSome_of_eq_some hopen

end SourceBlocks.Grammar
