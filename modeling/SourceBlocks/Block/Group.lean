import SourceBlocks.Block.Statement

namespace SourceBlocks.Block

variable {κ : Type}

def runs [BEq κ] : List (κ × Statement) → List (κ × List Statement)
  | [] => []
  | (k, s) :: rest => match runs rest with
    | (l, ss) :: more => if k == l then (k, s :: ss) :: more else (k, [s]) :: (l, ss) :: more
    | [] => [(k, [s])]

theorem flatMap_runs [BEq κ] (ps : List (κ × Statement)) :
    (runs ps).flatMap Prod.snd = ps.map Prod.snd := by
  induction ps with
  | nil => rfl
  | cons p r ih =>
    cases hr : runs r with
    | nil => simp_all [runs]
    | cons g gs =>
      rw [hr] at ih
      simp only [runs, hr]
      split <;> simp_all

theorem ne_nil_of_mem_runs [BEq κ] {ps : List (κ × Statement)} {g : κ × List Statement}
    (h : g ∈ runs ps) : g.2 ≠ [] := by
  induction ps with
  | nil => simp [runs] at h
  | cons p r ih =>
    cases hr : runs r with
    | nil => simp_all [runs]
    | cons f fs =>
      rw [hr] at ih
      simp only [runs, hr] at h
      grind

def keyed (key : Statement → Except Error κ) (s : Statement) : Except Error (κ × Statement) := do
  let k ← key s
  pure (k, s)

def joinRun (r : κ × List Statement) : Except Error (κ × Block) := do
  let b ← concat (r.2.map Statement.block)
  pure (r.1, b)

def groupBy [BEq κ] (key : Statement → Except Error κ) (b : Block) :
    Except Error (List (κ × Block)) := do
  let ss ← b.statements
  let pairs ← ss.mapM (keyed key)
  (runs pairs).mapM joinRun

end SourceBlocks.Block
