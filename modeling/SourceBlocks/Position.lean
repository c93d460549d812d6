/-!
Places in a text. A place counts the line breaks and then the characters in front of it; what a
reader sees is the line and the column, which start at one.
-/

namespace SourceBlocks

structure Position where
  row : Nat
  offset : Nat
deriving DecidableEq, Repr, Inhabited

namespace Position

def start : Position := ⟨0, 0⟩

def line (p : Position) : Nat := p.row + 1

def column (p : Position) : Nat := p.offset + 1

def ofLineColumn (line column : Nat) : Position := ⟨line - 1, column - 1⟩

def lineStart (line : Nat) : Position := ofLineColumn line 1

instance : LE Position := ⟨fun a b => a.row < b.row ∨ a.row = b.row ∧ a.offset ≤ b.offset⟩

instance : LT Position := ⟨fun a b => a.row < b.row ∨ a.row = b.row ∧ a.offset < b.offset⟩

instance (a b : Position) : Decidable (a ≤ b) :=
  inferInstanceAs (Decidable (a.row < b.row ∨ a.row = b.row ∧ a.offset ≤ b.offset))

instance (a b : Position) : Decidable (a < b) :=
  inferInstanceAs (Decidable (a.row < b.row ∨ a.row = b.row ∧ a.offset < b.offset))

instance : Max Position := ⟨fun a b => if a ≤ b then b else a⟩

instance : Min Position := ⟨fun a b => if a ≤ b then a else b⟩

instance : Ord Position := ⟨fun a b => (compare a.row b.row).then (compare a.offset b.offset)⟩

theorem le_def {a b : Position} :
    a ≤ b ↔ a.row < b.row ∨ a.row = b.row ∧ a.offset ≤ b.offset := Iff.rfl

theorem lt_def {a b : Position} :
    a < b ↔ a.row < b.row ∨ a.row = b.row ∧ a.offset < b.offset := Iff.rfl

theorem le_refl (a : Position) : a ≤ a := by
  simp [le_def]

theorem le_trans {a b c : Position} (hab : a ≤ b) (hbc : b ≤ c) : a ≤ c := by
  simp only [le_def] at *
  omega

theorem le_total (a b : Position) : a ≤ b ∨ b ≤ a := by
  simp only [le_def]
  omega

theorem le_antisymm {a b : Position} (hab : a ≤ b) (hba : b ≤ a) : a = b := by
  cases a
  cases b
  simp only [le_def] at *
  simp only [mk.injEq]
  omega

theorem not_le {a b : Position} : ¬ a ≤ b ↔ b < a := by
  simp only [le_def, lt_def]
  omega

def clamp (lo hi p : Position) : Position :=
  if p < lo then lo else if hi < p then hi else p

/-- The place reached from `p` by a step measured from the place where a piece of text begins:
on its first row the step adds to the offset, on a later row it counts from the row's start. -/
def advance (p : Position) (rows offset : Nat) : Position :=
  if rows = 0 then ⟨p.row, p.offset + offset⟩ else ⟨p.row + rows, offset⟩

def plus (p q : Position) : Position := p.advance q.row q.offset

theorem start_plus (q : Position) : start.plus q = q := by
  cases q
  simp only [plus, advance, start]
  split <;> simp_all

def render (p : Position) : String := s!"({p.line},{p.column})"

end Position

end SourceBlocks
