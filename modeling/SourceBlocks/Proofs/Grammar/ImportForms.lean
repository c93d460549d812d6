import SourceBlocks.Grammar.Imports
import SourceBlocks.Proofs.Grammar.Respaced

/-! The forms of import statements, with the gaps between their tokens. -/

namespace SourceBlocks.Grammar

open SourceBlocks.Tree (Node Shape)

variable {γ : Type}

structure Link (γ : Type) where
  before : γ
  behind : γ
  word : List Char

def Link.chars (p : γ → List Char) (token : List Char) (a : Link γ) : List Char :=
  p a.before ++ (token ++ (p a.behind ++ a.word))

structure Dotted (γ : Type) where
  first : List Char
  more : List (Link γ)

def Dotted.chars (p : γ → List Char) (a : Dotted γ) : List Char := a.first ++ a.more.flatMap (Link.chars p ['.'])

structure Named (γ : Type) where
  name : Dotted γ
  given : Option (Link γ)

def Named.chars (p : γ → List Char) (a : Named γ) : List Char :=
  a.name.chars p ++ a.given.elim [] (Link.chars p ['a', 's'])

structure Names (γ : Type) where
  first : Named γ
  more : List (γ × γ × Named γ)
  comma : Option γ

def nextChars (p : γ → List Char) (a : γ × γ × Named γ) : List Char := p a.1 ++ (',' :: (p a.2.1 ++ a.2.2.chars p))

def Names.chars (p : γ → List Char) (a : Names γ) : List Char :=
  a.first.chars p ++ (a.more.flatMap (nextChars p) ++ a.comma.elim [] fun g => p g ++ [','])

inductive Origin (γ : Type) where
  | absolute (name : Dotted γ)
  | relative (dots : List γ) (name : Option (γ × Dotted γ))

def dotChars (p : γ → List Char) (dots : List γ) : List Char := '.' :: dots.flatMap fun g => p g ++ ['.']

def Origin.chars (p : γ → List Char) : Origin γ → List Char
  | absolute name => name.chars p
  | relative dots name => dotChars p dots ++ name.elim [] fun a => p a.1 ++ a.2.chars p

inductive Clause (γ : Type) where
  | star
  | listed (names : Names γ)
  | bracketed (before : γ) (names : Names γ) (behind : γ)

def Clause.chars (p : γ → List Char) : Clause γ → List Char
  | star => ['*']
  | listed names => names.chars p
  | bracketed before names behind => '(' :: (p before ++ (names.chars p ++ (p behind ++ [')'])))

inductive ImportForm (γ : Type) where
  | names (gap : γ) (names : Names γ)
  | origin (gap : γ) (origin : Origin γ) (before behind : γ) (clause : Clause γ)

def ImportForm.chars (p : γ → List Char) : ImportForm γ → List Char
  | names gap ns => "import".toList ++ (p gap ++ ns.chars p)
  | origin gap o before behind clause =>
    "from".toList ++ (p gap ++ (o.chars p ++ (p before ++ ("import".toList ++ (p behind ++ clause.chars p)))))

/-! What is imported. -/

structure Imports where
  source : Option (Option String × Nat)
  names : List (String × Option String)
deriving DecidableEq, Repr

def importedAs (n : Node) : Option (String × Option String) := match n.shape with
  | .importAlias name asname _ => some (name, asname)
  | _ => none

lemma importedAs_unmarked (name : String) (asname : Option String) (written : Position) :
    importedAs (unmarked (.importAlias name asname written)) = some (name, asname) := rfl

def importsOf (n : Node) : Option Imports := match n.shape with
  | .importNames names => some ⟨none, names.filterMap importedAs⟩
  | .importFrom source names level => some ⟨some (source, level), names.filterMap importedAs⟩
  | _ => none

def Named.reading (p : γ → List Char) (a : Named γ) : String × Option String :=
  (String.ofList (Text.squash (a.name.chars p)), a.given.map fun b => String.ofList b.word)

def Names.reading (p : γ → List Char) (a : Names γ) : List (String × Option String) :=
  a.first.reading p :: a.more.map fun b => b.2.2.reading p

def Origin.reading (p : γ → List Char) : Origin γ → Option String × Nat
  | absolute name => (some (String.ofList (name.chars p)), 0)
  | relative dots name =>
    (name.map fun a => String.ofList (a.2.chars p), 1 + (dots.takeWhile fun g => (p g).isEmpty).length)

def Clause.reading (p : γ → List Char) : Clause γ → List (String × Option String)
  | star => [("*", none)]
  | listed names => names.reading p
  | bracketed _ names _ => names.reading p

def ImportForm.reading (p : γ → List Char) : ImportForm γ → Imports
  | names _ ns => ⟨none, ns.reading p⟩
  | origin _ o _ _ clause => ⟨some (o.reading p), clause.reading p⟩

/-! Forms whose gaps are widened. -/

structure Widening where
  narrow : List Char
  wide : List Char
  spread : Spread narrow wide

def Dotted.Keeps (q : List Char → List Char) (a : Dotted Widening) : Prop :=
  ∀ b ∈ a.more, q b.before.wide = q b.before.narrow ∧ q b.behind.wide = q b.behind.narrow

def Names.Keeps (a : Names Widening) : Prop :=
  a.first.name.Keeps Text.squash ∧ ∀ b ∈ a.more, b.2.2.name.Keeps Text.squash

def Origin.Keeps : Origin Widening → Prop
  | absolute name => name.Keeps id
  | relative dots name =>
    (∀ g ∈ dots.takeWhile fun g => g.narrow.isEmpty, g.wide = []) ∧ ∀ a ∈ name, a.2.Keeps id

def Clause.Keeps : Clause Widening → Prop
  | star => True
  | listed names => names.Keeps
  | bracketed _ names _ => names.Keeps

def ImportForm.Keeps : ImportForm Widening → Prop
  | names _ ns => ns.Keeps
  | origin _ o _ _ clause => o.Keeps ∧ clause.Keeps

structure IsView (q : List Char → List Char) : Prop where
  append : ∀ s t, q (s ++ t) = q s ++ q t
  noShorter : ∀ g : Widening, NoShorter (q g.narrow) (q g.wide)

lemma isView_id : IsView id := ⟨fun _ _ => rfl, fun g => g.spread.noShorter⟩

lemma isView_squash : IsView Text.squash := ⟨squash_append, fun g => g.spread.noShorter_squash⟩

namespace IsView

variable {q : List Char → List Char}

lemma link (h : IsView q) (t : List Char) (a : Link Widening) :
    NoShorter (q (a.chars Widening.narrow t)) (q (a.chars Widening.wide t)) ∧
      (q (a.chars Widening.wide t) = q (a.chars Widening.narrow t) ↔
        q a.before.wide = q a.before.narrow ∧ q a.behind.wide = q a.behind.narrow) := by
  have hbefore := h.noShorter a.before
  have hbehind := (h.noShorter a.behind).append (.refl (q a.word))
  have htoken := (NoShorter.refl (q t)).append hbehind
  simp only [Link.chars, h.append]
  refine ⟨hbefore.append htoken, ?_⟩
  rw [hbefore.append_eq_iff htoken, (NoShorter.refl (q t)).append_eq_iff hbehind,
    (h.noShorter a.behind).append_eq_iff (.refl (q a.word))]
  simp

lemma links (h : IsView q) (t : List Char) (as : List (Link Widening)) :
    NoShorter (q (as.flatMap (Link.chars Widening.narrow t))) (q (as.flatMap (Link.chars Widening.wide t))) ∧
      (q (as.flatMap (Link.chars Widening.wide t)) = q (as.flatMap (Link.chars Widening.narrow t)) ↔
        ∀ a ∈ as, q a.before.wide = q a.before.narrow ∧ q a.behind.wide = q a.behind.narrow) := by
  induction as with
  | nil => exact ⟨.refl _, by simp⟩
  | cons a as ih =>
    obtain ⟨ha, haiff⟩ := h.link t a
    obtain ⟨has, hasiff⟩ := ih
    simp only [List.flatMap_cons, h.append]
    exact ⟨ha.append has, by rw [ha.append_eq_iff has, haiff, hasiff, List.forall_mem_cons]⟩

lemma dotted (h : IsView q) (a : Dotted Widening) :
    q (a.chars Widening.wide) = q (a.chars Widening.narrow) ↔ a.Keeps q := by
  obtain ⟨hmore, hiff⟩ := h.links ['.'] a.more
  rw [Dotted.chars, Dotted.chars, h.append, h.append, (NoShorter.refl (q a.first)).append_eq_iff hmore, hiff, Dotted.Keeps]
  simp

end IsView

lemma Widening.narrow_eq_nil {g : Widening} (h : g.wide = []) : g.narrow = [] := by
  have hle := g.spread.noShorter.le
  rw [h] at hle
  exact List.length_eq_zero_iff.mp (Nat.le_zero.mp hle)

lemma length_takeWhile_wide_iff (dots : List Widening) :
    (dots.takeWhile fun g => g.wide.isEmpty).length = (dots.takeWhile fun g => g.narrow.isEmpty).length ↔
      ∀ g ∈ dots.takeWhile fun g => g.narrow.isEmpty, g.wide = [] := by
  induction dots with
  | nil => simp
  | cons g dots ih =>
    by_cases hnarrow : g.narrow = []
    · by_cases hwide : g.wide = []
      · simpa [hnarrow, hwide] using ih
      · simp [hnarrow, hwide]
    · have hwide : g.wide ≠ [] := fun h => hnarrow (Widening.narrow_eq_nil h)
      simp [hnarrow, hwide]

lemma Named.reading_wide_iff (a : Named Widening) :
    a.reading Widening.wide = a.reading Widening.narrow ↔ a.name.Keeps Text.squash := by
  rw [Named.reading, Named.reading, Prod.mk.injEq, String.ofList_inj, isView_squash.dotted]
  simp

lemma Names.reading_wide_iff (a : Names Widening) :
    a.reading Widening.wide = a.reading Widening.narrow ↔ a.Keeps := by
  rw [Names.reading, Names.reading, List.cons.injEq, List.map_inj_left, a.first.reading_wide_iff, Names.Keeps]
  simp only [Named.reading_wide_iff]

lemma Origin.reading_wide_iff (a : Origin Widening) :
    a.reading Widening.wide = a.reading Widening.narrow ↔ a.Keeps := by
  cases a with
  | absolute name =>
    have hname := isView_id.dotted name
    simpa [Origin.reading, Origin.Keeps, String.ofList_inj] using hname
  | relative dots name =>
    rw [Origin.reading, Origin.reading, Origin.Keeps, Prod.mk.injEq, Nat.add_left_cancel_iff, length_takeWhile_wide_iff,
      and_comm]
    refine and_congr_right fun _ => ?_
    cases name with
    | none => simp
    | some a =>
      have hname := isView_id.dotted a.2
      simpa [String.ofList_inj] using hname

lemma Clause.reading_wide_iff (a : Clause Widening) :
    a.reading Widening.wide = a.reading Widening.narrow ↔ a.Keeps := by
  cases a with
  | star => simp [Clause.reading, Clause.Keeps]
  | listed names => exact names.reading_wide_iff
  | bracketed _ names _ => exact names.reading_wide_iff

lemma ImportForm.reading_wide_iff (a : ImportForm Widening) :
    a.reading Widening.wide = a.reading Widening.narrow ↔ a.Keeps := by
  cases a with
  | names _ ns =>
    rw [ImportForm.reading, ImportForm.reading, ImportForm.Keeps, ← ns.reading_wide_iff]
    simp
  | origin _ o _ _ clause =>
    rw [ImportForm.reading, ImportForm.reading, ImportForm.Keeps, ← o.reading_wide_iff, ← clause.reading_wide_iff]
    simp

end SourceBlocks.Grammar
