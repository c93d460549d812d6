import Mathlib.Data.List.Forall2
import Mathlib.Tactic.Common

namespace SourceBlocks.Outcome

variable {ε δ ε' δ' α β γ κ : Type} {E : ε → δ → Prop} {E' : ε' → δ' → Prop} {R : α → β → Prop} {S : γ → κ → Prop}

inductive Agree (E : ε → δ → Prop) (R : α → β → Prop) : Except ε α → Except δ β → Prop
  | ok {a : α} {b : β} : R a b → Agree E R (.ok a) (.ok b)
  | error {e : ε} {d : δ} : E e d → Agree E R (.error e) (.error d)

namespace Agree

variable {x : Except ε α} {y : Except δ β}

lemma mono {R' : α → β → Prop} (h : Agree E R x y) (hR : ∀ a b, R a b → R' a b) : Agree E R' x y := by
  cases h with
  | ok h => exact .ok (hR _ _ h)
  | error h => exact .error h

lemma bind_of_ok {f : α → Except ε γ} {g : β → Except δ κ} (h : Agree E R x y)
    (hf : ∀ a b, x = .ok a → y = .ok b → R a b → Agree E S (f a) (g b)) : Agree E S (x >>= f) (y >>= g) := by
  cases h with
  | ok h => exact hf _ _ rfl rfl h
  | error h => exact .error h

lemma bind {f : α → Except ε γ} {g : β → Except δ κ} (h : Agree E R x y)
    (hf : ∀ a b, R a b → Agree E S (f a) (g b)) : Agree E S (x >>= f) (y >>= g) :=
  h.bind_of_ok fun a b _ _ => hf a b

lemma mapError {f : ε → ε'} {g : δ → δ'} (h : Agree E R x y) (hf : ∀ e d, E e d → E' (f e) (g d)) :
    Agree E' R (x.mapError f) (y.mapError g) := by
  cases h with
  | ok h => exact .ok h
  | error h => exact .error (hf _ _ h)

lemma mapM {f : α → Except ε γ} {g : β → Except δ κ} {xs : List α} {ys : List β}
    (h : List.Forall₂ (fun a b => Agree E S (f a) (g b)) xs ys) :
    Agree E (List.Forall₂ S) (xs.mapM f) (ys.mapM g) := by
  induction h with
  | nil => exact .ok .nil
  | cons hx _ ih =>
    rw [List.mapM_cons, List.mapM_cons]
    exact hx.bind fun _ _ ha => ih.bind fun _ _ has => .ok (.cons ha has)

lemma mapM_map {f : α → Except ε γ} {g : β → Except δ κ} {m : α → β} {k : γ → κ} {xs : List α}
    (h : ∀ a ∈ xs, Agree E (fun c d => d = k c) (f a) (g (m a))) :
    Agree E (fun cs ds => ds = cs.map k) (xs.mapM f) ((xs.map m).mapM g) := by
  have hall : List.Forall₂ (fun a b => Agree E (fun c d => d = k c) (f a) (g b)) xs (xs.map m) := by
    rwa [List.forall₂_map_right_iff, List.forall₂_same]
  refine (mapM hall).mono fun cs ds hcs => ?_
  induction hcs with
  | nil => rfl
  | cons hc _ ih => rw [hc, ih, List.map_cons]

lemma map_eq {y : Except ε β} {k : α → β} (h : Agree Eq (fun a b => b = k a) x y) : x.map k = y := by
  cases h with
  | ok h => rw [h]; rfl
  | error h => rw [h]; rfl

lemma exists_of_ok {a : α} (h : Agree E R x y) (hx : x = .ok a) : ∃ b, y = .ok b ∧ R a b := by
  cases h with
  | ok h =>
    obtain rfl := Except.ok.inj hx
    exact ⟨_, rfl, h⟩
  | error => simp at hx

lemma exists_ok_iff (h : Agree E R x y) : (∃ a, x = .ok a) ↔ ∃ b, y = .ok b := by
  cases h <;> simp

end Agree

end SourceBlocks.Outcome
