import Mathlib.Data.List.Forall2
import Mathlib.Data.Nat.Digits.Defs
import SourceBlocks.Proofs.Literal.Numeral

namespace SourceBlocks.Literal

open SourceBlocks.Number
open SourceBlocks.Text (lowercase)

def Stands (d : Nat) (c : Char) : Prop := c = d.digitChar ∨ c = d.digitChar.toUpper
deriving Decidable

structure Digits (base n : Nat) (ds : List Nat) (s : List Char) : Prop where
  ne_nil : ds ≠ []
  stand : List.Forall₂ (fun d c => d < base ∧ Stands d c) ds s
  value : Nat.ofDigits base ds.reverse = n

def announced : List (Char × Nat) := [('x', 16), ('X', 16), ('o', 8), ('O', 8), ('b', 2), ('B', 2)]

inductive Spells (n : Nat) : List Char → Prop
  | decimal {ds : List Nat} {s : List Char} : Digits 10 n ds s → (s.head? = some '0' → s = ['0']) → Spells n s
  | octal {ds : List Nat} {s : List Char} : Digits 8 n ds s → Spells n ('0' :: s)
  | based {base : Nat} {c : Char} {ds : List Nat} {s : List Char} : (c, base) ∈ announced → Digits base n ds s →
      Spells n ('0' :: c :: s)

inductive Underscored : List Char → List Char → Prop
  | nil : Underscored [] []
  | keep {c : Char} {s t : List Char} : Underscored s t → Underscored (c :: s) (c :: t)
  | insert {s t : List Char} : Underscored s t → Underscored s ('_' :: t)

def IsSpelling (n : Nat) (t : List Char) : Prop :=
  ∃ u, ∃ suffix ∈ [[], ['l'], ['L']], Spells n u ∧ Underscored (u ++ suffix) t

variable {base d n : Nat} {ds : List Nat} {c : Char} {s t u : List Char}

lemma Stands.lowercase_eq (h : Stands d c) (hd : d < 16) : lowercase c = d.digitChar := by
  rcases h with rfl | rfl
  · interval_cases d <;> decide
  · interval_cases d <;> decide

lemma isDigit_digitChar (hd : d < 10) : isDigit d.digitChar = true := by
  interval_cases d <;> decide

lemma digitChar_not_mem (hd : d < 16) : d.digitChar ∉ ['_', 'j', 'l', '+', '-'] := by
  interval_cases d <;> decide

lemma readFrom?_digitChar (hbase : base ≤ 16) (h : ∀ d ∈ ds, d < base) (m : Nat) :
    readFrom? base m (ds.map Nat.digitChar) = some (ds.foldl (fun m d => m * base + d) m) := by
  induction ds generalizing m with
  | nil => rfl
  | cons d ds ih =>
    obtain ⟨hd, hds⟩ := List.forall_mem_cons.mp h
    simp only [List.map_cons, readFrom?, digit?_digitChar hd hbase, List.foldl_cons]
    exact ih hds _

lemma foldl_eq_ofDigits (base : Nat) (ds : List Nat) :
    ds.foldl (fun m d => m * base + d) 0 = Nat.ofDigits base ds.reverse := by
  rw [Nat.ofDigits_eq_foldr, List.foldr_reverse]
  congr 1
  funext m d
  rw [Nat.cast_id, Nat.add_comm, Nat.mul_comm]

namespace Digits

lemma lt_base (h : Digits base n ds s) : ∀ d ∈ ds, d < base := by
  have hstand := h.stand
  clear h
  induction hstand with
  | nil => simp
  | cons hd _ ih => exact List.forall_mem_cons.mpr ⟨hd.1, ih⟩

lemma map_lowercase (h : Digits base n ds s) (hbase : base ≤ 16) : s.map lowercase = ds.map Nat.digitChar := by
  have hstand := h.stand
  clear h
  induction hstand with
  | nil => rfl
  | cons hd _ ih => rw [List.map_cons, List.map_cons, ih, hd.2.lowercase_eq (hd.1.trans_le hbase)]

lemma readSigned?_eq (h : Digits base n ds s) (hbase : base ≤ 16) :
    readSigned? base (s.map lowercase) = some (n : Int) := by
  have hread := readFrom?_digitChar hbase h.lt_base 0
  rw [foldl_eq_ofDigits, h.value] at hread
  rw [h.map_lowercase hbase]
  obtain ⟨d, ds, rfl⟩ := List.exists_cons_of_ne_nil h.ne_nil
  have hsign := digitChar_not_mem ((h.lt_base d List.mem_cons_self).trans_le hbase)
  simp only [List.mem_cons, List.not_mem_nil, not_or] at hsign
  unfold readSigned?
  split
  next heq => exact absurd (List.cons.inj heq).1 hsign.2.2.2.1
  next heq => exact absurd (List.cons.inj heq).1 hsign.2.2.2.2.1
  next => rw [read?, List.map_cons, List.isEmpty_cons, ← List.map_cons, hread]; rfl

lemma not_mem (h : Digits base n ds s) (hbase : base ≤ 16) : ∀ c ∈ s, lowercase c ∉ ['_', 'j', 'l'] := by
  intro c hc
  have hmem := List.mem_map_of_mem (f := lowercase) hc
  rw [h.map_lowercase hbase] at hmem
  obtain ⟨d, hd, heq⟩ := List.mem_map.mp hmem
  have hnot := digitChar_not_mem ((h.lt_base d hd).trans_le hbase)
  rw [heq] at hnot
  simp only [List.mem_cons, not_or] at hnot ⊢
  exact ⟨hnot.1, hnot.2.1, hnot.2.2.1, List.not_mem_nil⟩

lemma exists_cons (h : Digits base n ds s) : ∃ c r, s = c :: r := by
  apply List.exists_cons_of_ne_nil
  rintro rfl
  exact h.ne_nil (List.forall₂_nil_right_iff.mp h.stand)

lemma eq_map (h : Digits base n ds s) (hbase : base ≤ 10) : s = ds.map Nat.digitChar := by
  have hstand := h.stand
  clear h
  induction hstand with
  | nil => rfl
  | @cons d c _ _ hd _ ih =>
    have hc : c = d.digitChar := by
      have hlt : d < 10 := hd.1.trans_le hbase
      rcases hd.2 with rfl | rfl
      · rfl
      · interval_cases d <;> decide
    rw [List.map_cons, ← ih, hc]

lemma map_lowercase_self (h : Digits base n ds s) (hbase : base ≤ 10) : s.map lowercase = s :=
  (h.map_lowercase (hbase.trans (by decide))).trans (h.eq_map hbase).symm

lemma isDigit (h : Digits base n ds s) (hbase : base ≤ 10) : ∀ c ∈ s, isDigit c = true := by
  rw [h.eq_map hbase]
  intro c hc
  obtain ⟨d, hd, rfl⟩ := List.mem_map.mp hc
  exact isDigit_digitChar ((h.lt_base d hd).trans_le hbase)

end Digits

lemma integerParts?_of_isDigit (h : ∀ x ∈ c :: s, isDigit x = true) :
    integerParts? (c :: s) = if c = '0' ∧ s ≠ [] then some (8, s) else some (10, c :: s) := by
  have hletter : ∀ x r, isDigit x = false → c :: s ≠ '0' :: x :: r := by
    intro x r hx heq
    have := h x (by simp [heq])
    simp [hx] at this
  have hall : (c :: s).all isDigit = true := List.all_eq_true.mpr h
  unfold integerParts?
  split
  next heq => exact absurd heq (hletter _ _ rfl)
  next heq => exact absurd heq (hletter _ _ rfl)
  next heq => exact absurd heq (hletter _ _ rfl)
  · simp only [List.isEmpty_cons, hall, Bool.not_true, Bool.or_self, Bool.false_eq_true, if_false]
    split
    next heq =>
      obtain ⟨rfl, rfl⟩ := List.cons.inj heq
      rw [if_pos ⟨rfl, List.cons_ne_nil _ _⟩]
    next hne =>
      rw [if_neg]
      rintro ⟨rfl, hs⟩
      obtain ⟨d, r, rfl⟩ := List.exists_cons_of_ne_nil hs
      exact hne d r rfl

lemma announces (hc : (c, base) ∈ announced) : base ≤ 16 ∧ lowercase c ∉ ['_', 'j', 'l'] ∧
    ∀ r, integerParts? ('0' :: lowercase c :: r) = some (base, r) := by
  simp only [announced, List.mem_cons, Prod.mk.injEq, List.not_mem_nil, or_false] at hc
  rcases hc with ⟨rfl, rfl⟩ | ⟨rfl, rfl⟩ | ⟨rfl, rfl⟩ | ⟨rfl, rfl⟩ | ⟨rfl, rfl⟩ | ⟨rfl, rfl⟩ <;>
    exact ⟨by decide, by decide, fun r => rfl⟩

namespace Spells

lemma integerParts?_eq (h : Spells n u) :
    ∃ base r, integerParts? (u.map lowercase) = some (base, r) ∧ readSigned? base r = some (n : Int) := by
  cases h with
  | decimal h hzero =>
    have hread := h.readSigned?_eq (by decide)
    rw [h.map_lowercase_self (by decide)] at hread ⊢
    obtain ⟨c, s, rfl⟩ := h.exists_cons
    refine ⟨10, c :: s, ?_, hread⟩
    rw [integerParts?_of_isDigit (h.isDigit (by decide)), if_neg]
    rintro ⟨rfl, hs⟩
    exact hs (List.cons.inj (hzero rfl)).2
  | @octal _ s h =>
    have hread := h.readSigned?_eq (by decide)
    rw [h.map_lowercase_self (by decide)] at hread
    rw [List.map_cons, h.map_lowercase_self (by decide)]
    refine ⟨8, s, ?_, hread⟩
    have hs : s ≠ [] := by
      obtain ⟨c, r, rfl⟩ := h.exists_cons
      exact List.cons_ne_nil c r
    exact (integerParts?_of_isDigit (List.forall_mem_cons.mpr ⟨rfl, h.isDigit (by decide)⟩)).trans (if_pos ⟨rfl, hs⟩)
  | @based base c _ s hc h =>
    obtain ⟨hbase, -, hparts⟩ := announces hc
    exact ⟨base, s.map lowercase, hparts _, h.readSigned?_eq hbase⟩

lemma not_mem (h : Spells n u) : ∀ c ∈ u, lowercase c ∉ ['_', 'j', 'l'] := by
  cases h with
  | decimal h => exact h.not_mem (by decide)
  | octal h => exact List.forall_mem_cons.mpr ⟨by decide, h.not_mem (by decide)⟩
  | based hc h =>
    obtain ⟨hbase, hletter, -⟩ := announces hc
    exact List.forall_mem_cons.mpr ⟨by decide, List.forall_mem_cons.mpr ⟨hletter, h.not_mem hbase⟩⟩

end Spells

lemma Underscored.refl (s : List Char) : Underscored s s := by
  induction s with
  | nil => exact .nil
  | cons c s ih => exact .keep ih

lemma Underscored.filter_eq (h : Underscored s t) (hs : ∀ c ∈ s, c ≠ '_') : t.filter (· ≠ '_') = s := by
  induction h with
  | nil => rfl
  | @keep c s t _ ih =>
    obtain ⟨hc, hs⟩ := List.forall_mem_cons.mp hs
    rw [List.filter_cons_of_pos (by simpa using hc), ih hs]
  | insert _ ih => rw [List.filter_cons_of_neg (by simp), ih hs]

lemma inRange_natCast (n : Nat) : inRange n = decide (n < 2 ^ 127) := by
  have hpow : Int.pow 2 127 = ((2 ^ 127 : Nat) : Int) := rfl
  rw [inRange, hpow, ← Bool.decide_and, decide_eq_decide]
  omega

lemma numeral?_of_isSpelling (h : IsSpelling n t) :
    numeral? t = if n < 2 ^ 127 then some (.int n) else none := by
  obtain ⟨u, suffix, hsuffix, hu, hscore⟩ := h
  have hnot := hu.not_mem
  have hsuffix' : (∀ c ∈ suffix, c ≠ '_') ∧ (suffix.map lowercase = [] ∨ suffix.map lowercase = ['l']) := by
    simp only [List.mem_cons, List.not_mem_nil, or_false] at hsuffix
    rcases hsuffix with rfl | rfl | rfl
    · exact ⟨by simp, .inl rfl⟩
    · exact ⟨by simp, .inr rfl⟩
    · exact ⟨by simp, .inr rfl⟩
  have hfilter : t.filter (· ≠ '_') = u ++ suffix := by
    apply hscore.filter_eq
    intro c hc
    rcases List.mem_append.mp hc with hc | hc
    · rintro rfl
      exact hnot _ hc (by decide)
    · exact hsuffix'.1 c hc
  have hlast : ∀ x ∈ ['_', 'j', 'l'], (u.map lowercase).getLast? ≠ some x := by
    intro x hx heq
    obtain ⟨c, hc, rfl⟩ := List.mem_map.mp (List.mem_of_getLast? heq)
    exact hnot c hc hx
  obtain ⟨base, r, hparts, hread⟩ := hu.integerParts?_eq
  have hj : dropLast? 'j' (u.map lowercase ++ suffix.map lowercase) = none := by
    rw [dropLast?, if_neg]
    rcases hsuffix'.2 with heq | heq
    · rw [heq, List.append_nil]
      exact hlast _ (by decide)
    · rw [heq, List.getLast?_concat]
      decide
  have hl : (dropLast? 'l' (u.map lowercase ++ suffix.map lowercase)).getD
      (u.map lowercase ++ suffix.map lowercase) = u.map lowercase := by
    rcases hsuffix'.2 with heq | heq
    · rw [heq, List.append_nil, dropLast?, if_neg (hlast _ (by decide)), Option.getD_none]
    · rw [heq, dropLast?, if_pos List.getLast?_concat, Option.getD_some, List.dropLast_concat]
  simp only [numeral?, hfilter, List.map_append, hj, hl, hparts, hread]
  by_cases hn : n < 2 ^ 127
  · rw [if_pos hn, Option.filter_some_pos (by rw [inRange_natCast, decide_eq_true hn]), Option.map_some]
  · rw [if_neg hn, Option.filter_some_neg (by rw [inRange_natCast, decide_eq_false hn]), Option.map_none]

lemma digits_write (hbase : 1 < base) (n : Nat) : ∃ ds, Digits base n ds (write base n) := by
  induction n using Nat.strongRecOn with
  | ind n ih =>
    rw [write]
    by_cases h : n < base
    · refine ⟨[n], by simp, ?_, by simp⟩
      rw [Nat.toDigits_of_lt_base h]
      exact .cons ⟨h, .inl rfl⟩ .nil
    · obtain ⟨ds, -, hstand, hvalue⟩ := ih _ (Nat.div_lt_self (by omega) hbase)
      refine ⟨ds ++ [n % base], by simp, ?_, ?_⟩
      · rw [Nat.toDigits_of_base_le hbase (by omega)]
        exact List.rel_append hstand (.cons ⟨Nat.mod_lt n (by omega), .inl rfl⟩ .nil)
      · rw [List.reverse_append, List.reverse_singleton, List.singleton_append, Nat.ofDigits_cons, hvalue]
        exact Nat.mod_add_div n base

lemma evalNumeral_write (hn : n < 2 ^ 127) : evalNumeral (String.ofList (write 10 n)) = .ok (.int n) := by
  obtain ⟨ds, hds⟩ := digits_write (by decide : 1 < 10) n
  have hspelling : IsSpelling n (write 10 n) := by
    refine ⟨write 10 n, [], by simp, .decimal hds ?_, ?_⟩
    · obtain ⟨c, s, hs, hzero⟩ := write_eq_cons (by decide : 1 < 10) n
      rw [hs]
      intro hc
      obtain rfl := Option.some.inj hc
      rw [(hzero rfl).2]
    · rw [List.append_nil]
      exact .refl _
  rw [evalNumeral, String.toList_ofList, numeral?_of_isSpelling hspelling, if_pos hn]

/-- An integer in any of its spellings is read exactly if it has 128 bits, and is refused with its text if not. -/
theorem evalNumeral_of_spelling (n : Nat) (t : String) (h : IsSpelling n t.toList) :
    evalNumeral t =
      if n < 2 ^ 127 then .ok (.int n) else .error (.literal s!"invalid numeric literal: {t}") := by
  rw [evalNumeral, numeral?_of_isSpelling h]
  by_cases hn : n < 2 ^ 127
  · simp only [if_pos hn]
  · simp only [if_neg hn]

theorem evalNumeral_of_spelling_hex_octal :
    evalNumeral "0X7f_FL" = .ok (.int 2047) ∧
    evalNumeral "02000000000000000000000000000000000000000000" =
      .error (.literal "invalid numeric literal: 02000000000000000000000000000000000000000000") := by
  constructor
  · refine evalNumeral_of_spelling 2047 "0X7f_FL" ⟨['0', 'X', '7', 'f', 'F'], ['L'], by decide, ?_, ?_⟩
    · refine @Spells.based _ 16 'X' [7, 15, 15] ['7', 'f', 'F'] (by decide) ⟨by decide, by decide, by decide⟩
    · exact .keep (.keep (.keep (.keep (.insert (.refl _)))))
  · refine evalNumeral_of_spelling (2 ^ 127) _ ⟨_, [], by decide, ?_, by rw [List.append_nil]; exact .refl _⟩
    exact @Spells.octal _ (2 :: List.replicate 42 0) _ ⟨by decide, by decide, by decide⟩

end SourceBlocks.Literal
