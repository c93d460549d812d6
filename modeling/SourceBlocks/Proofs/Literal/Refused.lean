import SourceBlocks.Literal.Evaluation
import SourceBlocks.Proofs.Outcome

namespace SourceBlocks.Literal

open Outcome
open Number (Double)
open SourceBlocks.Tree (Node Shape)

def RefusesOnly {α : Type} (x : Except Error α) : Prop := ∀ e, x = .error e → ∃ m, e = .literal m

variable {α β : Type} {x : Except Error α} {f : α → Except Error β}

lemma refusesOnly_pure (a : α) : RefusesOnly (pure a) := fun _ h => (pure_eq_error.mp h).elim

lemma refusesOnly_malformed (n : Node) : RefusesOnly (.error (malformed n) : Except Error α) := by
  intro e h
  exact ⟨_, (Except.error.inj h).symm⟩

lemma RefusesOnly.bind (hx : RefusesOnly x) (hf : ∀ a, RefusesOnly (f a)) : RefusesOnly (x >>= f) := by
  intro e h
  rcases bind_eq_error.mp h with h | ⟨a, -, h⟩
  · exact hx e h
  · exact hf a e h

lemma RefusesOnly.mapM {xs : List α} (h : ∀ a ∈ xs, RefusesOnly (f a)) : RefusesOnly (xs.mapM f) := by
  induction xs with
  | nil => exact refusesOnly_pure []
  | cons a xs ih =>
    obtain ⟨ha, hxs⟩ := List.forall_mem_cons.mp h
    rw [List.mapM_cons]
    exact ha.bind fun _ => (ih hxs).bind fun _ => refusesOnly_pure _

lemma refusesOnly_evalNumeral (text : String) : RefusesOnly (evalNumeral text) := by
  intro e h
  unfold evalNumeral at h
  split at h
  · cases h
  · exact ⟨_, (Except.error.inj h).symm⟩

lemma refusesOnly_orMalformed (n : Node) (v : Option Value) : RefusesOnly (orMalformed n v) := by
  cases v with
  | none => exact refusesOnly_malformed n
  | some v => exact refusesOnly_pure v

lemma refusesOnly_number (n : Node) : RefusesOnly (number n) := by
  unfold number
  split
  · exact refusesOnly_evalNumeral _
  · exact refusesOnly_malformed n

lemma refusesOnly_signedNumber (n : Node) : RefusesOnly (signedNumber n) := by
  unfold signedNumber
  split
  · exact refusesOnly_number _
  · exact (refusesOnly_number _).bind fun _ => refusesOnly_orMalformed n _
  · exact refusesOnly_number n

lemma refusesOnly_imaginary (n right : Node) (isDifference : Bool) (re : Double) :
    RefusesOnly (number right >>= fun v => match v with
      | .complex _ im => pure (.complex re (if isDifference then im.neg else im))
      | _ => .error (malformed n) : Except Error Value) := by
  refine (refusesOnly_number right).bind fun v => ?_
  split
  · exact refusesOnly_pure _
  · exact refusesOnly_malformed n

lemma refusesOnly_complexNumber (n left right : Node) (isDifference : Bool) :
    RefusesOnly (complexNumber n left right isDifference) := by
  have hright := refusesOnly_imaginary n right isDifference
  refine (refusesOnly_signedNumber left).bind fun v => ?_
  dsimp only
  split
  · exact (refusesOnly_pure _).bind hright
  · exact (refusesOnly_pure _).bind hright
  · exact (refusesOnly_malformed n).bind hright

lemma refusesOnly_eval (n : Node) : RefusesOnly (eval n) := by
  fun_induction eval n with
  | case1 => exact refusesOnly_pure _
  | case2 => exact refusesOnly_pure _
  | case3 => exact refusesOnly_evalNumeral _
  | case4 => exact refusesOnly_orMalformed _ _
  | case5 _ _ _ ih | case6 _ _ _ ih | case7 _ _ _ ih =>
    exact (RefusesOnly.mapM fun c _ => ih c).bind fun _ => refusesOnly_pure _
  | case8 n entries _ ihkey ihvalue =>
    refine (RefusesOnly.mapM fun e _ => ?_).bind fun _ => refusesOnly_pure _
    split
    · exact refusesOnly_malformed n
    · next k v he =>
      exact (ihkey e k v he).bind fun _ => (ihvalue e k v he).bind fun _ => refusesOnly_pure _
  | case9 n => exact refusesOnly_signedNumber n
  | case10 n left right => exact refusesOnly_complexNumber n left right false
  | case11 n left right => exact refusesOnly_complexNumber n left right true
  | case12 n => exact refusesOnly_malformed n

end SourceBlocks.Literal
