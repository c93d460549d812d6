import Mathlib.Tactic.Common
import SourceBlocks.Features

namespace SourceBlocks

def Feature.index : Feature → Nat
  | nestedScopes => 4
  | generators => 12
  | division => 13
  | absoluteImport => 14
  | withStatement => 15
  | printFunction => 16
  | unicodeLiterals => 17

namespace Features

variable {a b : Features} {f : Feature}

def On (a : Features) (i : Nat) : Prop := a.bits.toBitVec.getLsbD i = true

lemma eq_of_on (h : ∀ i, a.On i ↔ b.On i) : a = b := by
  have hbits : a.bits = b.bits := by
    apply UInt32.toBitVec_inj.mp
    apply BitVec.eq_of_getLsbD_eq
    intro i _
    exact Bool.eq_iff_iff.mpr (h i)
  cases a
  cases b
  exact congrArg mk hbits

lemma not_on_none (i : Nat) : ¬ On .none i := by
  simp [On, none]

lemma on_union (a b : Features) (i : Nat) : On (a ||| b) i ↔ a.On i ∨ b.On i := by
  have hbits : (a ||| b).bits.toBitVec = a.bits.toBitVec ||| b.bits.toBitVec := rfl
  simp [On, hbits]

lemma contains_iff : a.contains b = true ↔ ∀ i, b.On i → a.On i := by
  rw [contains, beq_iff_eq, ← UInt32.toBitVec_inj, UInt32.toBitVec_and]
  constructor
  · intro h i hi
    have hand : (a.bits.toBitVec &&& b.bits.toBitVec).getLsbD i = true := by
      rw [h]
      exact hi
    rw [BitVec.getLsbD_and, Bool.and_eq_true] at hand
    exact hand.1
  · intro h
    apply BitVec.eq_of_getLsbD_eq
    intro i _
    rw [BitVec.getLsbD_and, Bool.and_eq_right_iff_imp]
    exact h i

lemma on_only (f : Feature) (i : Nat) : (only f).On i ↔ i = f.index := by
  have hbit : f.bit.toBitVec = BitVec.twoPow 32 f.index := by cases f <;> rfl
  have hlt : f.index < 32 := by cases f <;> decide
  simp only [On, only, hbit, BitVec.getLsbD_twoPow, hlt, decide_true, Bool.true_and, decide_eq_true_eq]
  exact eq_comm

lemma has_iff : a.has f = true ↔ a.On f.index := by
  rw [has, contains_iff]
  simp [on_only]

lemma has_union : (a ||| b).has f = true ↔ a.has f = true ∨ b.has f = true := by
  simp only [has_iff, on_union]

lemma union_none (a : Features) : a ||| .none = a := eq_of_on fun i => by
  simp [on_union, not_on_none]

lemma on_foldl_union {α : Type} (g : α → Features) (xs : List α) (a : Features) (i : Nat) :
    (xs.foldl (fun a x => a ||| g x) a).On i ↔ a.On i ∨ ∃ x ∈ xs, (g x).On i := by
  induction xs generalizing a with
  | nil => simp
  | cons x xs ih => simp [ih, on_union, or_assoc]

lemma on_ofList (fs : List Feature) (i : Nat) : (ofList fs).On i ↔ ∃ f ∈ fs, i = f.index := by
  simp [ofList, on_foldl_union, not_on_none, on_only]

end Features

end SourceBlocks
