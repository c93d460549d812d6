import SourceBlocks.Grammar.Parser
import SourceBlocks.Proofs.Lexis.Source

/-! What parsers say of what they read, whenever they start at a cursor in the source and do not
get stuck. -/

namespace SourceBlocks.Lexis.Source

open Grammar Grammar.Parser

variable {S : Source} {α β : Type} {i j : Nat}

def Yields (S : Source) (i : Nat) (p : Parser α) (Q : α → Nat → Prop) : Prop :=
  ∀ c, S.Has c → c.index = i → ∀ a d, p c = .ok (a, d) → S.Has d ∧ Q a d.index

def Reads (S : Source) (p : Parser α) (R : Nat → α → Nat → Prop) : Prop :=
  ∀ i, S.Yields i p (R i)

abbrev Goes (i : Nat) (_ : α) (j : Nat) : Prop := i ≤ j

abbrev Advances (i : Nat) (_ : α) (j : Nat) : Prop := i < j

abbrev Tests (i : Nat) (b : Bool) (j : Nat) : Prop := i ≤ j ∧ (b = true → i < j)

def Stays (p : Parser α) : Prop := ∀ c a d, p c = .ok (a, d) → d = c

namespace Yields

variable {p : Parser α} {f : α → Parser β} {Q : α → Nat → Prop} {R : β → Nat → Prop}

lemma mono {Q' : α → Nat → Prop} (hp : S.Yields i p Q) (h : ∀ a j, Q a j → Q' a j) :
    S.Yields i p Q' :=
  fun c hc hi a d hd => ⟨(hp c hc hi a d hd).1, h _ _ (hp c hc hi a d hd).2⟩

lemma pure {a : α} (h : Q a i) : S.Yields i (Pure.pure a) Q := by
  intro c hc hi b d hd
  obtain ⟨rfl, rfl⟩ := Prod.mk.inj (Except.ok.inj hd)
  exact ⟨hc, hi ▸ h⟩

lemma bind (hp : S.Yields i p Q) (hf : ∀ a j, Q a j → S.Yields j (f a) R) :
    S.Yields i (p >>= f) R := by
  intro c hc hi b e he
  simp only [Bind.bind, StateT.bind, Except.bind] at he
  split at he
  · cases he
  · next r hr =>
    obtain ⟨hd, hQ⟩ := hp c hc hi r.1 r.2 hr
    exact hf r.1 _ hQ r.2 hd rfl b e he

lemma map {g : α → β} (hp : S.Yields i p Q) (h : ∀ a j, Q a j → R (g a) j) :
    S.Yields i (g <$> p) R := by
  rw [← bind_pure_comp]
  exact hp.bind fun a j ha => .pure (h a j ha)

lemma stay (hp : Stays p) (hf : ∀ a, S.Yields i (f a) R) : S.Yields i (p >>= f) R := by
  have h : S.Yields i p (fun _ j => j = i) := fun c hc hi a d hd => by
    obtain rfl := hp c a d hd
    exact ⟨hc, hi⟩
  exact h.bind fun a j hj => hj ▸ hf a

lemma fail : S.Yields i (Parser.fail : Parser α) Q := fun _ _ _ _ _ h => nomatch h

lemma ite {c : Prop} [Decidable c] {q : Parser α} (hp : c → S.Yields i p Q) (hq : ¬ c → S.Yields i q Q) :
    S.Yields i (if c then p else q) Q := by
  split_ifs with h
  · exact hp h
  · exact hq h

lemma fork {c : Prop} [Decidable c] {q : Parser α} (hp : S.Yields i p Q) (hq : S.Yields i q Q) :
    S.Yields i (if c then p else q) Q := .ite (fun _ => hp) fun _ => hq

lemma ite_bind {c : Prop} [Decidable c] {q : Parser α} (h : S.Yields i (if c then p else q) Q)
    (hf : ∀ a j, Q a j → S.Yields j (f a) R) : S.Yields i (if c then p >>= f else q >>= f) R := by
  split_ifs at h ⊢
  · exact h.bind hf
  · exact h.bind hf

lemma ite_then {c : Prop} [Decidable c] {p : Parser Unit} {q : Parser β} {Q : Nat → Prop}
    (hp : c → S.Yields i p (fun _ => Q)) (hi : ¬ c → Q i) (hq : ∀ j, Q j → S.Yields j q R) :
    S.Yields i (if c then p >>= fun _ => q else q) R := by
  split_ifs with h
  · exact (hp h).bind fun _ j hj => hq j hj
  · exact hq i (hi h)

lemma or {q : Parser α} (hp : S.Yields i p Q) (hq : S.Yields i q Q) : S.Yields i (p.or q) Q := by
  intro c hc hi a d hd
  simp only [Parser.or] at hd
  split at hd
  · next r hr => exact hp c hc hi a d (hr.trans hd)
  · split at hd
    · next r hr => exact hq c hc hi a d (hr.trans hd)
    · cases hd

lemma optional (hp : S.Yields i p Q) :
    S.Yields i (Parser.optional p) (fun o j => (o = none ∧ j = i) ∨ ∃ a, o = some a ∧ Q a j) := by
  intro c hc hi o d hd
  simp only [Parser.optional] at hd
  split at hd
  · next a e he =>
    obtain ⟨rfl, rfl⟩ := Prod.mk.inj (Except.ok.inj hd)
    exact ⟨(hp c hc hi a _ he).1, .inr ⟨a, rfl, (hp c hc hi a _ he).2⟩⟩
  · obtain ⟨rfl, rfl⟩ := Prod.mk.inj (Except.ok.inj hd)
    exact ⟨hc, .inl ⟨rfl, hi⟩⟩

lemma require {b : Bool} {q : Parser β} (h : b = true → S.Yields i q R) :
    S.Yields i (Parser.require b >>= fun _ => q) R := by
  cases b with
  | false => exact (fail (Q := fun _ _ => False)).bind fun _ _ h => h.elim
  | true => exact (pure (Q := fun _ j => j = i) rfl).bind fun _ _ hj => hj ▸ h rfl

lemma get {f : Cursor → Parser β} (h : ∀ c, S.Has c → c.index = i → S.Yields i (f c) R) :
    S.Yields i (MonadState.get >>= f) R := by
  intro c hc hi b d hd
  exact h c hc hi c hc hi b d hd

lemma set {c : Cursor} (hc : S.Has c) {f : PUnit → Parser β} (h : S.Yields c.index (f ()) R) :
    S.Yields i (MonadStateOf.set c >>= f) R := fun _ _ _ b d hd => h c hc rfl b d hd

end Yields

inductive Chained (R : Nat → α → Nat → Prop) : Nat → List α → Nat → Prop
  | nil {i j : Nat} : i ≤ j → Chained R i [] j
  | cons {i j k : Nat} {a : α} {as : List α} : R i a j → Chained R j as k → Chained R i (a :: as) k

lemma Chained.map {R : Nat → α → Nat → Prop} {R' : Nat → β → Nat → Prop} {f : α → β} {as : List α}
    (h : Chained R i as j) (hR : ∀ i a j, R i a j → R' i (f a) j) : Chained R' i (as.map f) j := by
  induction h with
  | nil h => exact .nil h
  | cons ha _ ih => exact .cons (hR _ _ _ ha) ih

def Maybe (R : Nat → α → Nat → Prop) (i : Nat) : Option α → Nat → Prop
  | none, j => i ≤ j
  | some a, j => R i a j

lemma reads_collect {p : Parser (Option α)} {R : Nat → α → Nat → Prop} (hp : S.Reads p (Maybe R))
    (n : Nat) : S.Reads (collect p n) (Chained R) := by
  induction n with
  | zero => exact fun _ => .fail
  | succ n ih =>
    intro i
    rw [collect]
    refine (hp i).bind fun o j ho => ?_
    cases o with
    | none => exact .pure (.nil ho)
    | some a => exact (ih j).bind fun as k has => .pure (.cons ho has)

lemma reads_series {p : Parser (Option (Option α))} {R : Nat → α → Nat → Prop}
    (hp : S.Reads p (Maybe (Maybe R))) (n : Nat) :
    S.Reads (series p n) (fun i r j => Chained R i r.1 j) := by
  induction n with
  | zero => exact fun _ => .fail
  | succ n ih =>
    intro i
    rw [series]
    refine (hp i).bind fun o j ho => ?_
    rcases o with _ | _ | a
    · exact .pure (.nil ho)
    · exact .pure (.nil ho)
    · exact (ih j).bind fun r k hr => .pure (.cons ho hr)

def Lowers (R : Nat → α → Nat → Prop) : Prop := ∀ ⦃i j k a⦄, R i a j → k ≤ i → R k a j

lemma lowers_maybe {R : Nat → α → Nat → Prop} (hR : Lowers R) : Lowers (Maybe R) := by
  intro i j k o h hk
  cases o with
  | none => exact Nat.le_trans hk h
  | some a => exact hR h hk

/-! The primitive parsers. -/

lemma stays_fun {f : Cursor → α} : Stays (fun c => .ok (f c, c)) := by
  intro c a d h
  exact (Prod.mk.inj (Except.ok.inj h)).2.symm

lemma stays_wordHere : Stays wordHere := stays_fun

lemma stays_startsWith (s : String) : Stays (startsWith s) := stays_fun

lemma Yields.startsWith {i : Nat} {s : String} {f : Bool → Parser α} {R : α → Nat → Prop}
    (hf : ∀ b, S.Yields i (f b) R) : S.Yields i (Grammar.startsWith s >>= f) R := .stay (stays_startsWith s) hf

lemma stays_next? : Stays next? := stays_fun

lemma stays_firstHere (ss : List String) : Stays (firstHere ss) := stays_fun

lemma stays_nextIn (cs : List Char) : Stays (nextIn cs) := stays_fun

lemma stays_peek (p : Parser α) : Stays (peek p) := by
  intro c a d h
  simp only [peek] at h
  split at h
  · exact (Prod.mk.inj (Except.ok.inj h)).2.symm
  · cases h

lemma Stays.goes {p : Parser α} (hp : Stays p) : S.Reads p Goes := by
  intro i c hc hi a d hd
  obtain rfl := hp c a d hd
  exact ⟨hc, Nat.le_of_eq hi.symm⟩

lemma stays_pure (a : α) : Stays (pure a : Parser α) := stays_fun

lemma stays_optional {p : Parser α} (hp : Stays p) : Stays (optional p) := by
  intro c a d h
  simp only [Parser.optional] at h
  split at h
  · next b e he =>
    obtain ⟨-, rfl⟩ := Prod.mk.inj (Except.ok.inj h)
    exact hp c b _ he
  · exact (Prod.mk.inj (Except.ok.inj h)).2.symm

lemma stays_ite {c : Prop} [Decidable c] {p q : Parser α} (hp : Stays p) (hq : Stays q) :
    Stays (if c then p else q) := by
  split_ifs
  · exact hp
  · exact hq

lemma stays_bind {p : Parser α} {f : α → Parser β} (hp : Stays p) (hf : ∀ a, Stays (f a)) :
    Stays (p >>= f) := by
  intro c b e he
  simp only [Bind.bind, StateT.bind, Except.bind] at he
  split at he
  · cases he
  · next r hr =>
    obtain rfl := hp c r.1 r.2 hr
    exact hf r.1 _ b e he

lemma yields_here {f : Position → Parser β} {Q : β → Nat → Prop} (h : S.Yields i (f (S.placeAt i)) Q) :
    S.Yields i (here >>= f) Q := by
  intro c hc hi b d hd
  have hplace : c.place = S.placeAt i := hi ▸ hc.place
  exact h c hc hi b d (hplace ▸ hd)

lemma stays_index : Stays Grammar.index := stays_fun

lemma reads_advance (n : Nat) : S.Reads (advance n) Goes := by
  intro i c hc hi a d hd
  obtain ⟨rfl, rfl⟩ := Prod.mk.inj (Except.ok.inj hd)
  exact ⟨hc.skip n, hi ▸ c.le_index_skip n⟩

lemma yields_aheadHere {e : Expectation} {f : Ahead → Parser β} {Q : β → Nat → Prop}
    (h : ∀ a, (∀ c, a = .token c → S.Has c ∧ i ≤ c.index) → S.Yields i (f a) Q) :
    S.Yields i (aheadHere e >>= f) Q := by
  intro c hc hi b d hd
  refine h (ahead e (c.total + 1) c) (fun d hd => ?_) c hc hi b d hd
  exact hi ▸ ahead_token hc hd

lemma reads_look (f : Follow) (string : Bool) : S.Reads (look f string) Goes := by
  intro i
  rw [look]
  refine yields_aheadHere fun a ha => ?_
  cases a with
  | token c =>
    obtain ⟨hc, hle⟩ := ha c rfl
    exact .set hc (.pure hle)
  | lineEnd => exact .pure (Nat.le_refl i)
  | deeper n => exact .fail
  | shallower => exact .fail

lemma reads_toToken (f : Follow) (string : Bool) : S.Reads (toToken f string) Goes := by
  intro i
  rw [toToken]
  refine (reads_look f string i).bind fun b j hj => ?_
  cases b with
  | false => exact .fail
  | true => exact .pure hj

lemma lt_index_skip {c : Cursor} {n : Nat} (hr : c.rest ≠ []) (hn : n ≠ 0) :
    c.index < (c.skip n).index := by
  have := List.length_pos_iff.mpr hr
  rw [Cursor.index_skip]
  omega

lemma yields_advance {n : Nat} {c : Cursor} (hc : S.Has c) (hi : c.index = i) (hr : c.rest ≠ [])
    (hn : n ≠ 0) : S.Yields i (advance n) (Advances i) := by
  intro d hd hdi a e he
  obtain ⟨rfl, rfl⟩ := Prod.mk.inj (Except.ok.inj he)
  refine ⟨hd.skip n, hdi ▸ lt_index_skip ?_ hn⟩
  rwa [hd.rest, hdi, ← hi, ← hc.rest]

lemma tests_skip {n : Nat} {c : Cursor} (hc : S.Has c) (hi : c.index = i) (hr : c.rest ≠ []) (hn : n ≠ 0) :
    S.Has (c.skip n) ∧ Tests i true (c.skip n).index := by
  have hlt : c.index < (c.skip n).index := lt_index_skip hr hn
  exact ⟨hc.skip n, hi ▸ Nat.le_of_lt hlt, fun _ => hi ▸ hlt⟩

lemma reads_symbol? {s : String} (hs : s ≠ "") : S.Reads (symbol? s) Tests := by
  intro i c hc hi b d hd
  simp only [symbol?, startsWith, bind, StateT.bind, Except.bind] at hd
  split at hd
  · next h =>
    obtain ⟨rfl, rfl⟩ := Prod.mk.inj (Except.ok.inj hd)
    refine tests_skip hc hi (fun hr => ?_) (by simpa using hs)
    rw [hr] at h
    simp at h
    exact hs h
  · obtain ⟨rfl, rfl⟩ := Prod.mk.inj (Except.ok.inj hd)
    exact ⟨hc, Nat.le_of_eq hi.symm, nofun⟩

lemma reads_symbol {s : String} (hs : s ≠ "") : S.Reads (symbol s) Advances := by
  intro i
  rw [symbol]
  refine (reads_symbol? hs i).bind fun b j hj => ?_
  cases b with
  | false => exact .fail
  | true => exact .pure (hj.2 rfl)

lemma goes_symbol (s : String) : S.Reads (symbol s) Goes := by
  intro i
  simp only [symbol, symbol?, bind_assoc]
  refine .stay (stays_startsWith s) fun b => ?_
  cases b with
  | false => exact .fail
  | true => exact (reads_advance _ i).bind fun _ j hj => .pure hj

lemma reads_keyword? {s : String} (hs : s ≠ "") : S.Reads (keyword? s) Tests := by
  intro i c hc hi b d hd
  simp only [keyword?, wordHere, bind, StateT.bind, Except.bind] at hd
  split at hd
  · next h =>
    obtain ⟨rfl, rfl⟩ := Prod.mk.inj (Except.ok.inj hd)
    refine tests_skip hc hi (fun hr => ?_) (by simpa using hs)
    rw [hr] at h
    exact hs h.symm
  · obtain ⟨rfl, rfl⟩ := Prod.mk.inj (Except.ok.inj hd)
    exact ⟨hc, Nat.le_of_eq hi.symm, nofun⟩

lemma reads_keyword {s : String} (hs : s ≠ "") : S.Reads (keyword s) Advances := by
  intro i
  rw [keyword]
  refine (reads_keyword? hs i).bind fun b j hj => ?_
  cases b with
  | false => exact .fail
  | true => exact .pure (hj.2 rfl)

namespace Yields

variable {f : Unit → Parser β} {R : β → Nat → Prop}

lemma token {follow : Follow} {string : Bool} (h : ∀ j, i ≤ j → S.Yields j (f ()) R) :
    S.Yields i (toToken follow string >>= f) R := (reads_toToken follow string i).bind fun _ j hj => h j hj

lemma operand (h : ∀ j, i ≤ j → S.Yields j (f ()) R) : S.Yields i (toOperand >>= f) R := .token h

lemma symbol {s : String} (hs : s ≠ "") (h : ∀ j, i < j → S.Yields j (f ()) R) :
    S.Yields i (Grammar.symbol s >>= f) R := (reads_symbol hs i).bind fun _ j hj => h j hj

lemma keyword {s : String} (hs : s ≠ "") (h : ∀ j, i < j → S.Yields j (f ()) R) :
    S.Yields i (Grammar.keyword s >>= f) R := (reads_keyword hs i).bind fun _ j hj => h j hj

end Yields

lemma reads_name : S.Reads name Advances := by
  intro i c hc hi w d hd
  simp only [name, wordHere, bind, StateT.bind, Except.bind, Parser.require] at hd
  split at hd
  · cases hd
  · next r hr =>
    obtain ⟨u, e⟩ := r
    split at hr
    · next hw =>
      obtain ⟨-, rfl⟩ := Prod.mk.inj (Except.ok.inj hr)
      obtain ⟨rfl, rfl⟩ := Prod.mk.inj (Except.ok.inj hd)
      have hne : word c.rest ≠ [] := by simpa using hw
      refine ⟨hc.skip _, hi ▸ lt_index_skip (fun hr => hne (by rw [hr]; rfl)) ?_⟩
      simpa using hne
    · cases hr

lemma reads_separated {f f' : Follow} {b b' : Bool} {closing : String} {item : Parser α}
    {R : Nat → α → Nat → Prop} (h : S.Reads item R) (hR : Lowers R) :
    S.Reads (do
      toToken f b
      if !(← symbol? ",") then pure none
      else do
        toToken f' b'
        if ← startsWith closing then pure (some none)
        else do
          let a ← item
          pure (some (some a))) (Maybe (Maybe R)) := by
  intro i
  refine .token fun j₁ h₁ => ?_
  refine (reads_symbol? (by decide) j₁).bind fun _ j₂ ⟨h₂, _⟩ => ?_
  refine .fork (.pure (show i ≤ j₂ by omega)) ?_
  refine .token fun j₃ h₃ => ?_
  refine .startsWith fun _ => .fork (.pure (show i ≤ j₃ by omega)) ?_
  exact (h j₃).bind fun a j₄ h₄ => .pure (hR h₄ (by omega))

lemma yields_wordHere {c : Cursor} (hc : S.Has c) (hi : c.index = i) {f : String → Parser β}
    {Q : β → Nat → Prop} (h : S.Yields i (f (String.ofList (word c.rest))) Q) :
    S.Yields i (wordHere >>= f) Q := by
  intro d hd hdi b e he
  have hrest : d.rest = c.rest := by rw [hd.rest, hdi, ← hi, ← hc.rest]
  exact h d hd hdi b e (hrest ▸ he)

lemma yields_advanceWord {c : Cursor} (hc : S.Has c) (hi : c.index = i)
    (hw : String.ofList (word c.rest) ≠ "") :
    S.Yields i (advance (String.ofList (word c.rest)).length) (Advances i) := by
  have hne : word c.rest ≠ [] := by simpa using hw
  refine yields_advance hc hi (fun hr => hne (by rw [hr]; rfl)) ?_
  simpa using hne

lemma reads_both {p q : Parser Bool} (hp : S.Reads p Goes) (hq : S.Reads q Tests) :
    S.Reads (both p q) Tests := by
  intro i
  rw [both]
  refine (hp i).bind fun b j (hj : i ≤ j) => ?_
  refine .fork ?_ <| .pure ⟨hj, nofun⟩
  exact (hq j).mono fun b k hk => ⟨Nat.le_trans hj hk.1, fun h => Nat.lt_of_le_of_lt hj (hk.2 h)⟩

lemma goes_both {p q : Parser Bool} (hp : S.Reads p Goes) (hq : S.Reads q Goes) :
    S.Reads (both p q) Goes := by
  intro i
  rw [both]
  refine (hp i).bind fun b j (hj : i ≤ j) => .fork ?_ <| .pure hj
  exact (hq j).mono fun b k hk => Nat.le_trans hj hk

end SourceBlocks.Lexis.Source
