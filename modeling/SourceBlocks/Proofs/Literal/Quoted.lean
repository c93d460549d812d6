import SourceBlocks.Lexis.StringBody
import SourceBlocks.Literal.Evaluation
import SourceBlocks.Literal.Token
import SourceBlocks.Proofs.Literal.Numeral

/-! Strings and byte strings between quotes are decoded to what was quoted. -/

namespace SourceBlocks.Literal

open Lexis (isHexRun)

variable {q c : Char} {u r : List Char} {bytes : Bool}

inductive Quotes (q : Char) : Char → List Char → Prop
  | plain {c : Char} : c.toNat ≠ 0 → c ≠ '\\' → c ≠ q → c ≠ '\n' → Quotes q c [c]
  | letter {c e : Char} : e ∈ ['\\', '\'', '"', 'n', 'r', 't'] → letterEscape? e = some c → Quotes q c ['\\', e]
  | code {c : Char} : c.toNat < 256 → Quotes q c (hexEscape c.toNat)

lemma quotes_quoteChar (hq : q = '\'' ∨ q = '"') (c : Char) : Quotes q c (quoteChar q c) := by
  unfold quoteChar
  split_ifs with hslash hline hreturn htab hquote hcode
  · subst hslash
    exact .letter (by decide) rfl
  · subst hline
    exact .letter (by decide) rfl
  · subst hreturn
    exact .letter (by decide) rfl
  · subst htab
    exact .letter (by decide) rfl
  · subst hquote
    rcases hq with rfl | rfl
    · exact .letter (by decide) rfl
    · exact .letter (by decide) rfl
  · exact .code (by omega)
  · exact .plain (by omega) hslash hquote hline

def charOf (b : UInt8) : Char := Char.ofNat b.toNat

lemma toNat_charOf (b : UInt8) : (charOf b).toNat = b.toNat := by
  have hb : b.toNat.isValidChar := .inl (by have := b.toNat_lt; omega)
  rw [charOf, Char.ofNat, dif_pos hb]
  rfl

lemma byteOf_charOf (b : UInt8) : byteOf (charOf b) = b := by
  have hb := b.toNat_lt
  rw [byteOf, toNat_charOf, if_pos (by omega)]
  simp

lemma map_byteOf_charOf (bs : List UInt8) : (bs.map charOf).map byteOf = bs := by
  have hid : byteOf ∘ charOf = id := funext byteOf_charOf
  rw [List.map_map, hid, List.map_id]

lemma quotes_quoteByte (hq : q = '\'' ∨ q = '"') (b : UInt8) : Quotes q (charOf b) (quoteByte q b) := by
  have hb := b.toNat_lt
  rw [quoteByte, ← toNat_charOf] at *
  simp only [Char.ofNat_toNat]
  split_ifs with hslash hline hreturn htab hquote hcode
  · exact .letter (by decide) (by rw [hslash]; rfl)
  · exact .letter (by decide) (by rw [hline]; rfl)
  · exact .letter (by decide) (by rw [hreturn]; rfl)
  · exact .letter (by decide) (by rw [htab]; rfl)
  · rw [hquote]
    rcases hq with rfl | rfl
    · exact .letter (by decide) rfl
    · exact .letter (by decide) rfl
  · exact .plain (by omega) hslash hquote hline
  · exact .code (by omega)

lemma unescape_cons (hc : c ≠ '\\') (bytes : Bool) (r : List Char) :
    unescape bytes (c :: r) = c :: unescape bytes r := by
  rw [unescape.eq_def]
  simp only [hc, if_false]

lemma unescape_slash (bytes : Bool) (e : Char) (r : List Char) :
    unescape bytes ('\\' :: e :: r) = (escape bytes e r).1 ++ unescape bytes (escape bytes e r).2 := by
  rw [unescape.eq_def]
  simp only [if_true]

lemma length_writePadded {n : Nat} (h : n < 256) : (Number.writePadded 16 2 n).length = 2 := by
  have hle : (Number.write 16 n).length ≤ 2 := (Nat.length_toDigits_le_iff (by omega) (by omega)).mpr h
  simp only [Number.writePadded, List.length_append, List.length_replicate]
  omega

lemma isHexDigit_of_readFrom? {n k : Nat} {s : List Char} (h : Number.readFrom? 16 n s = some k) :
    s.all Number.isHexDigit = true := by
  induction s generalizing n with
  | nil => rfl
  | cons c s ih =>
    rw [Number.readFrom?] at h
    cases hc : Number.digit? 16 c with
    | none => simp [hc] at h
    | some d =>
      rw [hc] at h
      simp [Number.isHexDigit, hc, ih h]

lemma writePadded_append {n : Nat} (h : n < 256) (r : List Char) :
    isHexRun 2 (Number.writePadded 16 2 n ++ r) = true ∧
      (Number.writePadded 16 2 n ++ r).take 2 = Number.writePadded 16 2 n ∧
      (Number.writePadded 16 2 n ++ r).drop 2 = r := by
  have hlength := length_writePadded h
  have hall := isHexDigit_of_readFrom? (Number.readFrom?_writePadded (by decide) (Nat.le_refl 16) 2 n)
  have htake : (Number.writePadded 16 2 n ++ r).take 2 = Number.writePadded 16 2 n := List.take_left' hlength
  refine ⟨?_, htake, List.drop_left' hlength⟩
  rw [isHexRun, htake, hall, Bool.and_true, decide_eq_true_eq, List.length_append, hlength]
  omega

lemma escape_code (hc : c.toNat < 256) (bytes : Bool) (r : List Char) :
    escape bytes 'x' (Number.writePadded 16 2 c.toNat ++ r) = ([c], r) := by
  obtain ⟨hrun, htake, hdrop⟩ := writePadded_append hc r
  have hcode : charOfCode (codeOf 16 (Number.writePadded 16 2 c.toNat)) = c := by
    rw [codeOf, Number.readFrom?_writePadded (by omega) (by omega), Option.getD_some, charOfCode,
      if_pos (.inl (by omega)), Char.ofNat_toNat]
  have hletter : letterEscape? 'x' = none := rfl
  have hwidth : hexWidth? bytes 'x' = some 2 := rfl
  rw [isHexRun, Bool.and_eq_true, decide_eq_true_eq] at hrun
  rw [escape, if_neg (by decide), hletter]
  simp only [show isOctalDigit 'x' = false from rfl, Bool.false_eq_true, if_false, hwidth]
  rw [if_pos hrun, htake, hcode, hdrop]

lemma unescape_append (h : Quotes q c u) (bytes : Bool) (r : List Char) :
    unescape bytes (u ++ r) = c :: unescape bytes r := by
  cases h with
  | plain _ hslash _ _ => exact unescape_cons hslash bytes r
  | @letter e he hc =>
    have hline : e ≠ '\n' := by
      rintro rfl
      exact absurd he (by decide)
    rw [List.cons_append, List.singleton_append, unescape_slash, escape, if_neg hline, hc]
    rfl
  | code hc =>
    rw [hexEscape, List.cons_append, List.cons_append, unescape_slash, escape_code hc]
    rfl

lemma Quotes.head_ne (h : Quotes q c u) (hq : q = '\'' ∨ q = '"') : ∃ x s, u = x :: s ∧ x ≠ q := by
  have hslash : '\\' ≠ q := by rcases hq with rfl | rfl <;> decide
  cases h with
  | plain _ _ hne _ => exact ⟨_, _, rfl, hne⟩
  | letter => exact ⟨_, _, rfl, hslash⟩
  | code => exact ⟨_, _, rfl, hslash⟩

section Token

variable {α : Type} {s : List α} {f : α → Char} {w : α → List Char}

lemma unescape_flatMap (h : ∀ a ∈ s, Quotes q (f a) (w a)) (bytes : Bool) : unescape bytes (s.flatMap w) = s.map f := by
  induction s with
  | nil => rw [List.flatMap_nil, unescape]; rfl
  | cons a s ih =>
    obtain ⟨ha, hs⟩ := List.forall_mem_cons.mp h
    rw [List.flatMap_cons, unescape_append ha, ih hs, List.map_cons]

lemma head_flatMap_ne (hq : q = '\'' ∨ q = '"') (h : ∀ a ∈ s, Quotes q (f a) (w a)) :
    (s.flatMap w).head? ≠ some q := by
  cases s with
  | nil => simp
  | cons a s =>
    obtain ⟨x, t, hx, hne⟩ := (h a List.mem_cons_self).head_ne hq
    simp [hx, hne]

lemma openingQuotes_eq {body : List Char} (hq : q = '\'' ∨ q = '"') (h : body.head? ≠ some q) :
    openingQuotes (q :: (body ++ [q])) = [q] := by
  have hthree : ∀ r, body ++ [q] ≠ q :: q :: r := by
    cases body with
    | nil => simp
    | cons x body =>
      intro r heq
      exact h (congrArg some (List.cons.inj heq).1)
  rcases hq with rfl | rfl
  · exact openingQuotes.eq_4 _ hthree
  · exact openingQuotes.eq_3 _ hthree

lemma decode_quoted {letters : List Char} (hq : q = '\'' ∨ q = '"') (h : ∀ a ∈ s, Quotes q (f a) (w a))
    (hletters : letters = [] ∨ letters = ['b']) :
    decode (letters ++ q :: (s.flatMap w ++ [q])) = .ok ⟨s.map f, !letters.isEmpty, false⟩ := by
  have hmark : isMarkLetter q = false := by rcases hq with rfl | rfl <;> decide
  have htake : (letters ++ q :: (s.flatMap w ++ [q])).takeWhile isMarkLetter = letters := by
    rcases hletters with rfl | rfl
    · simp [hmark]
    · simp [hmark, show isMarkLetter 'b' = true from rfl]
  have hdrop : (letters ++ q :: (s.flatMap w ++ [q])).dropWhile isMarkLetter = q :: (s.flatMap w ++ [q]) := by
    rcases hletters with rfl | rfl
    · simp [hmark]
    · simp [hmark, show isMarkLetter 'b' = true from rfl]
  have hbody : (s.flatMap w ++ [q]).take (s.flatMap w).length = s.flatMap w := List.take_left
  have hsuffix : [q].isSuffixOf (q :: (s.flatMap w ++ [q])) = true := by
    rw [List.isSuffixOf_iff_suffix]
    exact ⟨q :: s.flatMap w, rfl⟩
  rw [decode, htake, hdrop, openingQuotes_eq hq (head_flatMap_ne hq h)]
  have hlength : (q :: (s.flatMap w ++ [q])).length = (s.flatMap w).length + 2 := by simp
  simp only [reduceCtorEq, if_false, hsuffix, hlength, List.length_singleton, not_true_eq_false, or_false,
    Nat.mul_one, Nat.add_sub_cancel, List.drop_succ_cons, List.drop_zero, hbody]
  rw [if_neg (by omega), unescape_flatMap h]
  rcases hletters with rfl | rfl
  · rfl
  · rfl

end Token

lemma chooseQuote_cases (s : List Char) : chooseQuote '\'' '"' s = '\'' ∨ chooseQuote '\'' '"' s = '"' := by
  unfold chooseQuote
  split_ifs
  · exact .inr rfl
  · exact .inl rfl

lemma decode_quote (s : List Char) : decode (quote s) = .ok ⟨s, false, false⟩ := by
  have hq := chooseQuote_cases s
  have hletters : ([] : List Char) = [] ∨ [] = ['b'] := .inl rfl
  have h := decode_quoted (f := id) hq (fun c (_ : c ∈ s) => quotes_quoteChar hq c) hletters
  rw [List.map_id] at h
  exact h

lemma decode_quoteBytes (bs : List UInt8) : decode (quoteBytes bs) = .ok ⟨bs.map charOf, true, false⟩ := by
  have hq := chooseQuote_cases (bs.map charOf)
  have hletters : ['b'] = [] ∨ ['b'] = ['b'] := .inr rfl
  exact decode_quoted hq (fun b _ => quotes_quoteByte hq b) hletters

/-- A string that is quoted is decoded to itself. -/
theorem decode_undoes_quoting (s : String) (bs : List UInt8) :
    decode (quoteString s).toList = .ok ⟨s.toList, false, false⟩ ∧
    ∃ cs, decode (quoteBytes bs) = .ok ⟨cs, true, false⟩ ∧ cs.map byteOf = bs ∧
      ∀ mark written, eval (.mk mark (.str (String.ofList cs) true written)) = .ok (.bytes bs) := by
  constructor
  · rw [quoteString, String.toList_ofList]
    exact decode_quote s.toList
  · refine ⟨bs.map charOf, decode_quoteBytes bs, map_byteOf_charOf bs, fun mark written => ?_⟩
    rw [eval]
    change Except.ok (Value.bytes ((String.ofList (bs.map charOf)).toList.map byteOf)) = _
    rw [String.toList_ofList, map_byteOf_charOf]

end SourceBlocks.Literal

namespace SourceBlocks.Lexis

open SourceBlocks.Literal

variable {q : Quote} {c : Char} {u r : List Char}

lemma escapeLength_append {e : List Char} (h : Quotes q.mark c ('\\' :: e)) (r : List Char) :
    escapeLength (e ++ r) = e.length := by
  cases h with
  | plain _ hne => exact absurd rfl hne
  | @letter e he =>
    simp only [List.mem_cons, List.not_mem_nil, or_false] at he
    rcases he with rfl | rfl | rfl | rfl | rfl | rfl <;> rfl
  | code hc =>
    rw [List.length_cons, length_writePadded hc, List.cons_append, escapeLength]
    simp [writePadded_append hc]

lemma byteEscapeLength_append {e : List Char} (h : Quotes q.mark c ('\\' :: e)) (r : List Char) :
    byteEscapeLength (e ++ r) = 0 := by
  cases h with
  | plain _ hne => exact absurd rfl hne
  | @letter e he =>
    simp only [List.mem_cons, List.not_mem_nil, or_false] at he
    rcases he with rfl | rfl | rfl | rfl | rfl | rfl <;> rfl
  | code hc => rfl

section Body

variable {α : Type} {s : List α} {f : α → Char} {w : α → List Char}

structure Quote.Plain (q : Quote) : Prop where
  mark : q.mark = '\'' ∨ q.mark = '"'
  triple : q.triple = false
  raw : q.raw = false
  fields : q.fields = false

lemma Quote.Plain.mark_ne (hq : q.Plain) : q.mark.toNat ≠ 0 ∧ q.mark ≠ '\\' := by
  rcases hq.mark with h | h
  · rw [h]
    decide
  · rw [h]
    decide

lemma run_mark (hq : q.Plain) (some : Bool) (n : Nat) (t : List Char) :
    run q some n (q.mark :: t) = if some then .content n else .closed (n + 1) := by
  obtain ⟨hzero, hslash⟩ := hq.mark_ne
  rw [run.eq_def]
  simp [hzero, hslash, hq.fields, quotesHere, hq.triple]

lemma run_slash (hq : q.Plain) {e : List Char} (h : Quotes q.mark c ('\\' :: e)) (some : Bool) (n : Nat)
    (t : List Char) : run q some n ('\\' :: (e ++ t)) = Run.orStuck some n := by
  rw [run.eq_def]
  simp [hq.fields, hq.raw, byteEscapeLength_append h]

lemma run_plain (hq : q.Plain) (hzero : c.toNat ≠ 0) (hslash : c ≠ '\\') (hmark : c ≠ q.mark) (hline : c ≠ '\n')
    (some : Bool) (n : Nat) (t : List Char) : run q some n (c :: t) = run q true (n + 1) t := by
  rw [run.eq_def]
  simp [hzero, hslash, hmark, hline, hq.fields]

lemma run_body (hq : q.Plain) (h : ∀ a ∈ s, Quotes q.mark (f a) (w a)) (n : Nat) (t : List Char) :
    ∃ s₁ s₂, s = s₁ ++ s₂ ∧
      run q true n (s.flatMap w ++ q.mark :: t) = .content (n + (s₁.flatMap w).length) := by
  induction s generalizing n with
  | nil => exact ⟨[], [], rfl, run_mark hq true n t⟩
  | cons a s ih =>
    obtain ⟨ha, hs⟩ := List.forall_mem_cons.mp h
    have hescape : ∀ e, w a = '\\' :: e → ∃ s₁ s₂, a :: s = s₁ ++ s₂ ∧
        run q true n ((a :: s).flatMap w ++ q.mark :: t) = .content (n + (s₁.flatMap w).length) := by
      intro e he
      refine ⟨[], a :: s, rfl, ?_⟩
      rw [List.flatMap_cons, he, List.cons_append, List.cons_append, List.append_assoc]
      exact run_slash hq (he ▸ ha) true n _
    generalize hw : w a = u at ha
    cases ha with
    | plain hzero hslash hmark hline =>
      obtain ⟨s₁, s₂, hsplit, hrun⟩ := ih hs (n + 1)
      refine ⟨a :: s₁, s₂, by rw [hsplit, List.cons_append], ?_⟩
      rw [List.flatMap_cons, List.flatMap_cons, hw, List.singleton_append, List.cons_append,
        run_plain hq hzero hslash hmark hline, hrun, List.singleton_append, List.length_cons, Nat.add_assoc,
        Nat.add_comm 1]
    | letter => exact hescape _ hw
    | code => exact hescape _ hw

end Body

lemma atStart?_quoted {mark : Char} {letters body t : List Char} (hmark : mark = '\'' ∨ mark = '"')
    (hletters : letters = [] ∨ letters = ['b']) (hbody : body.head? ≠ some mark) (ht : t.head? ≠ some mark) :
    Quote.atStart? (letters ++ mark :: (body ++ mark :: t)) =
      some (⟨mark, false, false, !letters.isEmpty, false⟩, letters.length + 1) := by
  have hthree : [mark, mark].isPrefixOf (body ++ mark :: t) = false := by
    cases body with
    | nil =>
      cases t with
      | nil => simp
      | cons y t =>
        have hne : mark ≠ y := fun h => ht (congrArg some h.symm)
        simp [List.isPrefixOf, hne]
    | cons x body =>
      have hne : mark ≠ x := fun h => hbody (congrArg some h.symm)
      simp [List.isPrefixOf, hne]
  rcases hmark with rfl | rfl <;> rcases hletters with rfl | rfl <;>
    simp [Quote.atStart?, Quote.opening?, Quote.plain, hthree]

end SourceBlocks.Lexis
