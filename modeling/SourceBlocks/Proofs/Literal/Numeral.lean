import Mathlib.Tactic.Common
import Mathlib.Tactic.IntervalCases
import SourceBlocks.Literal.Numeral
import SourceBlocks.Lexis.Numeral

namespace SourceBlocks.Number

variable {base d n : Nat}

lemma digit?_digitChar (hd : d < base) (hbase : base ≤ 16) : digit? base d.digitChar = some d := by
  have hlt : d < 16 := by omega
  interval_cases d <;> simp [digit?, Nat.digitChar, hd]

lemma readFrom?_append (m : Nat) (s t : List Char) :
    readFrom? base m (s ++ t) = (readFrom? base m s).bind fun k => readFrom? base k t := by
  induction s generalizing m with
  | nil => rfl
  | cons c s ih =>
    simp only [List.cons_append, readFrom?]
    cases digit? base c with
    | none => rfl
    | some d => exact ih _

lemma readFrom?_write (hbase : 1 < base) (hle : base ≤ 16) (n : Nat) : readFrom? base 0 (write base n) = some n := by
  induction n using Nat.strongRecOn with
  | ind n ih =>
    rw [write]
    by_cases h : n < base
    · simp [Nat.toDigits_of_lt_base h, readFrom?, digit?_digitChar h hle]
    · have hdiv : n / base < n := Nat.div_lt_self (by omega) hbase
      have hmod : n % base < base := Nat.mod_lt n (by omega)
      rw [Nat.toDigits_of_base_le hbase (by omega), readFrom?_append]
      have := ih _ hdiv
      rw [write] at this
      simp [this, readFrom?, digit?_digitChar hmod hle, Nat.div_add_mod']

lemma readFrom?_writePadded (hbase : 1 < base) (hle : base ≤ 16) (width n : Nat) :
    readFrom? base 0 (writePadded base width n) = some n := by
  have hzero : digit? base '0' = some 0 := digit?_digitChar (d := 0) (by omega) hle
  have hzeros : ∀ k, readFrom? base 0 (List.replicate k '0') = some 0 := by
    intro k
    induction k with
    | zero => rfl
    | succ k ih => simpa [List.replicate_succ, readFrom?, hzero] using ih
  rw [writePadded, readFrom?_append, hzeros]
  exact readFrom?_write hbase hle n

lemma isDigit_of_mem_write {c : Char} (h : c ∈ write 10 n) : isDigit c = true := by
  have hc := Nat.isDigit_of_mem_toDigits (by omega) (by omega) h
  simpa [isDigit, Char.isDigit, Char.le_def, UInt32.le_iff_toNat_le] using hc

lemma mem_of_isDigit {c : Char} (hc : isDigit c = true) : c ∈ ['0', '1', '2', '3', '4', '5', '6', '7', '8', '9'] := by
  simp only [isDigit, Bool.and_eq_true, decide_eq_true_eq, Char.le_def, UInt32.le_iff_toNat_le] at hc
  have hlow : 48 ≤ c.toNat := hc.1
  have hhigh : c.toNat ≤ 57 := hc.2
  rw [← Char.ofNat_toNat c]
  generalize c.toNat = n at hlow hhigh
  interval_cases n <;> decide

lemma write_eq_cons (hbase : 1 < base) (n : Nat) :
    ∃ d s, write base n = d :: s ∧ (d = '0' → n = 0 ∧ s = []) := by
  induction n using Nat.strongRecOn with
  | ind n ih =>
    rw [write]
    by_cases h : n < base
    · refine ⟨n.digitChar, [], Nat.toDigits_of_lt_base h, fun hd => ⟨?_, rfl⟩⟩
      exact Nat.digitChar_eq_zero.mp hd
    · have hdiv : 0 < n / base := Nat.div_pos (by omega) (by omega)
      obtain ⟨d, s, hs, hzero⟩ := ih _ (Nat.div_lt_self (by omega) hbase)
      rw [write] at hs
      refine ⟨d, s ++ [(n % base).digitChar], ?_, fun hd => absurd (hzero hd).1 (by omega)⟩
      rw [Nat.toDigits_of_base_le hbase (by omega), hs, List.cons_append]

end SourceBlocks.Number

namespace SourceBlocks.Literal

open SourceBlocks.Number

lemma ne_of_isDigit {c d : Char} (hc : isDigit c = true) (hd : isDigit d = false) : c ≠ d := by
  rintro rfl
  simp [hc] at hd

end SourceBlocks.Literal

namespace SourceBlocks.Lexis

open SourceBlocks.Number

lemma digitRun_append {s r : List Char} (hs : ∀ c ∈ s, isDigit c = true) (after : Bool) :
    digitRun after (s ++ r) = s.length + digitRun (after || !s.isEmpty) r := by
  induction s generalizing after with
  | nil => simp
  | cons c s ih =>
    obtain ⟨hc, hs⟩ := List.forall_mem_cons.mp hs
    rw [List.cons_append, digitRun, if_pos hc, ih hs]
    simp
    omega

def EndsNumeral (r : List Char) : Prop := ∀ c, r.head? = some c →
  isDigit c = false ∧ c ∉ ['_', '.', 'e', 'E', 'l', 'L', 'j', 'J', 'x', 'X', 'o', 'O', 'b', 'B']

variable {n : Nat} {r : List Char}

lemma announcedBase?_write (hr : EndsNumeral r) : announcedBase? (write 10 n ++ r) = none := by
  obtain ⟨d, s, hs, hzero⟩ := write_eq_cons (by decide : 1 < 10) n
  rw [hs]
  unfold announcedBase?
  split
  next c rest heq =>
    obtain ⟨rfl, htail⟩ := List.cons.inj heq
    obtain ⟨-, rfl⟩ := hzero rfl
    have hc := (hr c (by rw [show r = c :: rest from htail]; rfl)).2
    simp only [List.mem_cons, not_or] at hc
    simp [hc]
  next => rfl

lemma decimalLength_write (hr : EndsNumeral r) : decimalLength (write 10 n ++ r) = (write 10 n).length := by
  have hpos : (write 10 n).length ≠ 0 := by
    obtain ⟨d, s, hs, -⟩ := write_eq_cons (by decide : 1 < 10) n
    simp [hs]
  have hrun : digitRun false (write 10 n ++ r) = (write 10 n).length := by
    rw [digitRun_append (fun c => isDigit_of_mem_write)]
    cases r with
    | nil => rfl
    | cons c r =>
      obtain ⟨hc, hmem⟩ := hr c rfl
      simp only [List.mem_cons, not_or] at hmem
      simp [digitRun, hc, hmem]
  have hexponent : exponentLength r = 0 := by
    cases r with
    | nil => rfl
    | cons c r =>
      have hmem := (hr c rfl).2
      simp only [List.mem_cons, not_or] at hmem
      simp [exponentLength, hmem]
  have hsuffix : suffixLength ['L', 'l', 'J', 'j'] r = 0 := by
    cases r with
    | nil => rfl
    | cons c r =>
      have hmem := (hr c rfl).2
      simp only [List.mem_cons, not_or] at hmem
      simp [suffixLength, hmem]
  have hpoint : ∀ rest, r ≠ '.' :: rest := by
    rintro rest rfl
    exact (hr '.' rfl).2 (by decide)
  unfold decimalLength
  simp only [hrun, List.drop_left]
  split
  · exact absurd ‹_› hpos
  · simp [withSuffix, withExponent, hexponent, hsuffix]

lemma numeralLength_write (hr : EndsNumeral r) : numeralLength (write 10 n ++ r) = (write 10 n).length := by
  rw [numeralLength, basedLength, announcedBase?_write hr, decimalLength_write hr, Nat.zero_max]

end SourceBlocks.Lexis
