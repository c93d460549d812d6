import SourceBlocks.Proofs.Grammar.Widened
import SourceBlocks.Text.Blank

namespace SourceBlocks.Grammar

open Lexis

variable {s r : List Char}

/-! Words and the characters around them. -/

lemma isWordPart_of_isWordStart {x : Char} (h : isWordStart x = true) : isWordPart x = true := by
  rw [isWordStart] at h
  rw [isWordPart]
  split_ifs at h ⊢ with hx
  · rw [h, Bool.true_or]
  · rw [h, Bool.true_or]

lemma isWordPart_of_isGap {x : Char} (h : isGap x = true) : isWordPart x = false := by
  have hmem : x ∈ [9, 10, 11, 12, 13, 32, 0xfeff, 0x2060, 0x200b].map Char.ofNat := by
    have hx : x.toNat ∈ [9, 10, 11, 12, 13, 32, 0xfeff, 0x2060, 0x200b] := by
      simp only [isGap, Bool.or_eq_true, Bool.and_eq_true, decide_eq_true_eq] at h
      simp only [List.mem_cons, List.not_mem_nil, or_false]
      rcases h with (((h | rfl) | h) | h) | h
      · omega
      · simp
      all_goals simp [h]
    exact List.mem_map.mpr ⟨x.toNat, hx, Char.ofNat_toNat x⟩
  have hall : ([9, 10, 11, 12, 13, 32, 0xfeff, 0x2060, 0x200b].map Char.ofNat).all (fun x => !isWordPart x) = true := by
    decide +kernel
  simpa using List.all_eq_true.mp hall x hmem

lemma solid_of_isWordStart {x : Char} (h : isWordStart x = true) (s : List Char) : Solid (x :: s) := by
  have hpart := isWordPart_of_isWordStart h
  refine ⟨x, s, rfl, ?_, ?_, ?_⟩
  · by_contra hgap
    rw [isWordPart_of_isGap (by simpa using hgap)] at hpart
    cases hpart
  · rintro rfl
    exact absurd h (by decide)
  · rintro rfl
    exact absurd h (by decide)

def Closed (s : List Char) : Prop := ∀ x ∈ s.head?, isWordPart x = false

instance : Decidable (Closed s) :=
  decidable_of_iff (s.head?.all (fun x => !isWordPart x) = true) (by cases s <;> simp [Closed])

lemma word_append {t : List Char} (ht : word t = t) (hne : t ≠ []) (hs : Closed s) : word (t ++ s) = t := by
  cases t with
  | nil => exact absurd rfl hne
  | cons x t =>
    rw [word] at ht
    split_ifs at ht with hx
    have hall : ∀ y ∈ t, isWordPart y = true := by
      rw [← (List.cons.inj ht).2]
      exact List.all_eq_true.mp List.all_takeWhile
    have hnil : s.takeWhile isWordPart = [] := by
      cases s with
      | nil => rfl
      | cons y s => exact List.takeWhile_cons_of_neg (by simp [hs y rfl])
    rw [List.cons_append, word, if_pos hx, List.takeWhile_append_of_pos hall, hnil, List.append_nil]

lemma exists_cons_of_word {t : List Char} (ht : word t = t) (hne : t ≠ []) : ∃ x r, t = x :: r ∧ isWordStart x = true := by
  cases t with
  | nil => exact absurd rfl hne
  | cons x t =>
    rw [word] at ht
    split_ifs at ht with hx
    exact ⟨x, t, rfl, hx⟩

def symbols : List Char := ['.', ',', '(', ')', '*', ';']

inductive IsToken : List Char → List Char → Prop
  | word {t s : List Char} : t ≠ [] → Lexis.word t = t → Closed s → IsToken t s
  | symbol {x : Char} {s : List Char} : x ∈ symbols → IsToken [x] s

inductive Respaced : List Char → List Char → Prop
  | same {s : List Char} : Respaced s s
  | token {g g' t s s' : List Char} : Widened false g g' → IsToken t s → Respaced s s' →
      Respaced (g ++ (t ++ s)) (g' ++ (t ++ s'))

inductive Aligned : List Char → List Char → Prop
  | same {s : List Char} : Aligned s s
  | token {t s s' : List Char} : IsToken t s → Respaced s s' → Aligned (t ++ s) (t ++ s')

lemma IsToken.solid {t : List Char} (h : IsToken t s) (r : List Char) : Solid (t ++ r) := by
  cases h with
  | word hne ht _ =>
    obtain ⟨x, t, rfl, hx⟩ := exists_cons_of_word ht hne
    exact solid_of_isWordStart hx _
  | @symbol x _ hx =>
    have hall : symbols.all (fun x => !isGap x && x != '#' && x != '\\') = true := by decide
    refine ⟨x, r, rfl, ?_⟩
    simpa [and_assoc] using List.all_eq_true.mp hall x hx

lemma IsToken.ne_nil {t : List Char} (h : IsToken t s) : t ≠ [] := by
  cases h with
  | word hne _ _ => exact hne
  | symbol => simp

lemma Aligned.respaced {s' : List Char} (h : Aligned s s') : Respaced s s' := by
  cases h with
  | same => exact .same
  | token ht hs => exact @Respaced.token [] [] _ _ _ .nil ht hs

/-! Gaps that are the same or wider. -/

def BeginsGap (x : Char) : Prop := isGap x = true ∨ x = '#' ∨ x = '\\'

lemma BeginsGap.isWordPart {x : Char} (h : BeginsGap x) : isWordPart x = false := by
  rcases h with h | rfl | rfl
  · exact isWordPart_of_isGap h
  · decide
  · decide

lemma BeginsGap.ne_dot {x : Char} (h : BeginsGap x) : x ≠ '.' := by
  rintro rfl
  revert h
  simp [BeginsGap, isGap]

structure NoShorter (l l' : List Char) : Prop where
  le : l.length ≤ l'.length
  eq : l'.length = l.length → l' = l

namespace NoShorter

variable {a a' b b' : List Char}

lemma refl (a : List Char) : NoShorter a a := ⟨Nat.le_refl _, fun _ => rfl⟩

lemma append_eq_iff (ha : NoShorter a a') (hb : NoShorter b b') : a' ++ b' = a ++ b ↔ a' = a ∧ b' = b := by
  constructor
  · intro heq
    have hlength := congrArg List.length heq
    rw [List.length_append, List.length_append] at hlength
    have hale := ha.le
    have hble := hb.le
    exact ⟨ha.eq (by omega), hb.eq (by omega)⟩
  · rintro ⟨rfl, rfl⟩
    rfl

lemma append (ha : NoShorter a a') (hb : NoShorter b b') : NoShorter (a ++ b) (a' ++ b') := by
  have hale := ha.le
  have hble := hb.le
  constructor
  · rw [List.length_append, List.length_append]
    omega
  · intro hlength
    rw [List.length_append, List.length_append] at hlength
    rw [ha.eq (by omega), hb.eq (by omega)]

end NoShorter

lemma squash_append (s t : List Char) : Text.squash (s ++ t) = Text.squash s ++ Text.squash t := List.filter_append ..

namespace Widened

variable {hidden : Bool} {g g' : List Char}

lemma beginsGap (h : Widened hidden g g') : (∀ x ∈ g.head?, BeginsGap x) ∧ ∀ x ∈ g'.head?, BeginsGap x := by
  have hcons : ∀ {x : Char} {l : List Char}, BeginsGap x → ∀ y ∈ (x :: l).head?, BeginsGap y := by
    intro x l hx y hy
    rwa [← Option.some.inj hy]
  have hslash : ∀ {u l : List Char}, Continues u → ∀ y ∈ (u ++ l).head?, BeginsGap y := by
    rintro u l (rfl | rfl) <;> exact hcons (.inr (.inr rfl))
  induction h with
  | nil => simp
  | blank hc _ ih => exact ⟨ih.1, hcons (.inl (InMargin.isGap (hc.elim .inl fun hc => .inr (.inl hc))))⟩
  | continued hu _ _ ih => exact ⟨ih.1, hslash hu⟩
  | kept hc => exact ⟨hcons (.inl hc.isGap), hcons (.inl hc.isGap)⟩
  | keptOdd hgap => exact ⟨hcons (.inl hgap), hcons (.inl hgap)⟩
  | keptContinued hu => exact ⟨hslash hu, hslash hu⟩
  | keptComment => exact ⟨hcons (.inr (.inl rfl)), hcons (.inr (.inl rfl))⟩

lemma noShorter (h : Widened hidden g g') : NoShorter g g' := by
  have hlonger : ∀ {u l l' : List Char}, u ≠ [] → NoShorter l l' → NoShorter l (u ++ l') := by
    intro u l l' hu h
    have hpos := List.length_pos_iff.mpr hu
    have hle := h.le
    exact ⟨by rw [List.length_append]; omega, fun heq => by rw [List.length_append] at heq; omega⟩
  induction h with
  | nil => exact .refl []
  | @blank _ c _ _ _ _ ih => exact @hlonger [c] _ _ (by simp) ih
  | continued hu _ _ ih => exact hlonger (by rcases hu with rfl | rfl <;> simp) ih
  | @kept _ c _ _ _ _ ih | @keptOdd _ c _ _ _ _ _ ih => exact (NoShorter.refl [c]).append ih
  | keptContinued _ _ ih => exact (NoShorter.refl _).append ih
  | @keptComment _ b _ _ _ _ ih => simpa using (NoShorter.refl ('#' :: (b ++ ['\n']))).append ih

lemma noShorter_squash (h : Widened hidden g g') : NoShorter (Text.squash g) (Text.squash g') := by
  have hover : ∀ {u l l' : List Char}, NoShorter (Text.squash l) (Text.squash l') →
      NoShorter (Text.squash (u ++ l)) (Text.squash (u ++ l')) := by
    intro u l l' h
    rw [squash_append, squash_append]
    exact (NoShorter.refl _).append h
  induction h with
  | nil => exact .refl _
  | @blank _ c _ g' hc _ ih =>
    have hblank : Text.squash (c :: g') = Text.squash g' := by rcases hc with rfl | rfl <;> rfl
    rwa [hblank]
  | @continued _ u _ _ hu _ _ ih =>
    have hlength : (Text.squash u).length = 1 := by rcases hu with rfl | rfl <;> rfl
    have hle := ih.le
    constructor
    · rw [squash_append, List.length_append]
      omega
    · intro heq
      rw [squash_append, List.length_append] at heq
      omega
  | @kept _ c _ _ _ _ ih => exact @hover [c] _ _ ih
  | @keptOdd _ c _ _ _ _ _ ih => exact @hover [c] _ _ ih
  | keptContinued _ _ ih => exact hover ih
  | @keptComment _ b _ _ _ _ ih => simpa using @hover ('#' :: (b ++ ['\n'])) _ _ ih

end Widened

structure Spread (g g' : List Char) : Prop where
  wide : g' = g ∨ Widened false g g'
  begins : ∀ x ∈ g.head?, BeginsGap x

namespace Spread

variable {g g' : List Char}

lemma begins_wide (h : Spread g g') : ∀ x ∈ g'.head?, BeginsGap x := by
  rcases h.wide with rfl | hwide
  · exact h.begins
  · exact hwide.beginsGap.2

lemma noShorter (h : Spread g g') : NoShorter g g' := by
  rcases h.wide with rfl | hwide
  · exact .refl _
  · exact hwide.noShorter

lemma noShorter_squash (h : Spread g g') : NoShorter (Text.squash g) (Text.squash g') := by
  rcases h.wide with rfl | hwide
  · exact .refl _
  · exact hwide.noShorter_squash

end Spread

section Texts

variable {s' : List Char} {x : Char}

lemma Respaced.closed (h : Respaced s s') (hs : Closed s) : Closed s' := by
  cases h with
  | same => exact hs
  | @token g g' t s s' hwide ht _ =>
    cases hg' : g' with
    | nil =>
      have hg : g = [] := by
        have hle := hwide.noShorter.le
        rw [hg'] at hle
        exact List.length_eq_zero_iff.mp (Nat.le_zero.mp hle)
      obtain ⟨y, r, rfl⟩ := List.exists_cons_of_ne_nil ht.ne_nil
      rw [hg] at hs
      exact hs
    | cons y r =>
      intro x hx
      refine (hwide.beginsGap.2 x ?_).isWordPart
      rw [hg']
      exact hx

lemma word_of_symbol (hx : x ∈ symbols) (s : List Char) : word (x :: s) = [] := by
  have hall : symbols.all (fun x => !isWordStart x) = true := by decide
  have hstart : isWordStart x = false := by simpa using List.all_eq_true.mp hall x hx
  simp [word, hstart]

lemma Aligned.word (h : Aligned s s') : word s' = word s := by
  cases h with
  | same => rfl
  | token ht hs =>
    cases ht with
    | word hne hword hclosed => rw [word_append hword hne hclosed, word_append hword hne (hs.closed hclosed)]
    | symbol hx => rw [List.singleton_append, List.singleton_append, word_of_symbol hx, word_of_symbol hx]

lemma Aligned.drop_word (h : Aligned s s') (hne : Lexis.word s ≠ []) :
    Respaced (s.drop (Lexis.word s).length) (s'.drop (Lexis.word s).length) := by
  cases h with
  | same => exact .same
  | token ht hs =>
    cases ht with
    | word hne' hword hclosed =>
      rw [word_append hword hne' hclosed, List.drop_left, List.drop_left]
      exact hs
    | symbol hx => exact absurd (word_of_symbol hx _) hne

lemma Aligned.head (h : Aligned s s') : s'.head? = s.head? := by
  cases h with
  | same => rfl
  | token ht _ =>
    obtain ⟨y, r, rfl⟩ := List.exists_cons_of_ne_nil ht.ne_nil
    rfl

lemma Aligned.tail {r : List Char} (h : Aligned (x :: r) s') (hx : x ∈ symbols) : ∃ r', s' = x :: r' ∧ Respaced r r' := by
  generalize hs : x :: r = s at h
  cases h with
  | same => exact ⟨r, hs.symm, .same⟩
  | token ht hrest =>
    cases ht with
    | word hne hword _ =>
      obtain ⟨y, t, rfl, hy⟩ := exists_cons_of_word hword hne
      obtain ⟨rfl, -⟩ := List.cons.inj hs
      have hnil := word_of_symbol hx []
      simp [Lexis.word, hy] at hnil
    | symbol =>
      obtain ⟨rfl, rfl⟩ := List.cons.inj hs
      exact ⟨_, rfl, hrest⟩

end Texts

end SourceBlocks.Grammar
