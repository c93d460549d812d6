/-!
Lines of a text. A line break ends a line and belongs to none, so a text has one line more than it
has line breaks.
-/

namespace SourceBlocks.Text

def splitAt (sep : Char) : List Char → List (List Char)
  | [] => [[]]
  | c :: r =>
    if c = sep then [] :: splitAt sep r
    else match splitAt sep r with
      | [] => [[c]]
      | l :: ls => (c :: l) :: ls

def joinWith (sep : Char) : List (List Char) → List Char
  | [] => []
  | [l] => l
  | l :: m :: ls => l ++ sep :: joinWith sep (m :: ls)

variable {sep : Char}

theorem splitAt_ne_nil (s : List Char) : splitAt sep s ≠ [] := by
  cases s with
  | nil => simp [splitAt]
  | cons c r =>
    simp only [splitAt]
    split
    · simp
    · split <;> simp

theorem joinWith_splitAt (s : List Char) : joinWith sep (splitAt sep s) = s := by
  induction s with
  | nil => rfl
  | cons c r ih =>
    simp only [splitAt]
    split
    · rename_i h
      cases hr : splitAt sep r with
      | nil => exact absurd hr (splitAt_ne_nil r)
      | cons l ls => simp [joinWith, ← hr, ih, h]
    · cases hr : splitAt sep r with
      | nil => exact absurd hr (splitAt_ne_nil r)
      | cons l ls =>
        rw [hr] at ih
        cases ls with
        | nil => simpa [joinWith] using ih
        | cons m ms => simpa [joinWith] using ih

theorem not_mem_of_mem_splitAt {s l : List Char} (h : l ∈ splitAt sep s) : sep ∉ l := by
  induction s generalizing l with
  | nil => simp_all [splitAt]
  | cons c r ih =>
    simp only [splitAt] at h
    split at h
    · rcases List.mem_cons.mp h with h | h
      · simp [h]
      · exact ih h
    · rename_i hc
      cases hr : splitAt sep r with
      | nil => exact absurd hr (splitAt_ne_nil r)
      | cons m ms =>
        rw [hr] at h ih
        rcases List.mem_cons.mp h with h | h
        · subst h
          simp only [List.mem_cons, not_or]
          exact ⟨fun e => hc e.symm, ih (by simp)⟩
        · exact ih (by simp [h])

theorem splitAt_cons_of_ne {c : Char} (hc : c ≠ sep) (s : List Char) :
    ∃ l ls, splitAt sep s = l :: ls ∧ splitAt sep (c :: s) = (c :: l) :: ls := by
  cases hs : splitAt sep s with
  | nil => exact absurd hs (splitAt_ne_nil s)
  | cons l ls => exact ⟨l, ls, rfl, by simp [splitAt, hc, hs]⟩

theorem splitAt_of_not_mem {s : List Char} (h : sep ∉ s) : splitAt sep s = [s] := by
  induction s with
  | nil => rfl
  | cons c s ih =>
    simp only [List.mem_cons, not_or] at h
    obtain ⟨l, ls, hl, hcons⟩ := splitAt_cons_of_ne (Ne.symm h.1) s
    rw [ih h.2] at hl
    cases hl
    exact hcons

theorem splitAt_append_sep {s : List Char} (h : sep ∉ s) (t : List Char) :
    splitAt sep (s ++ sep :: t) = s :: splitAt sep t := by
  induction s with
  | nil => simp [splitAt]
  | cons c s ih =>
    simp only [List.mem_cons, not_or] at h
    obtain ⟨l, ls, hl, hcons⟩ := splitAt_cons_of_ne (Ne.symm h.1) (s ++ sep :: t)
    rw [ih h.2] at hl
    cases hl
    exact hcons

theorem splitAt_joinWith {ls : List (List Char)} (hne : ls ≠ []) (h : ∀ l ∈ ls, sep ∉ l) :
    splitAt sep (joinWith sep ls) = ls := by
  induction ls with
  | nil => exact absurd rfl hne
  | cons l ls ih =>
    cases ls with
    | nil => exact splitAt_of_not_mem (h l (by simp))
    | cons m ms =>
      have hrest := ih (by simp) fun k hk => h k (List.mem_cons_of_mem l hk)
      rw [joinWith, splitAt_append_sep (h l (by simp)), hrest]

def splitLines (s : List Char) : List (List Char) := splitAt '\n' s

def joinLines (ls : List (List Char)) : List Char := joinWith '\n' ls

theorem splitLines_ne_nil (s : List Char) : splitLines s ≠ [] := splitAt_ne_nil s

theorem joinLines_splitLines (s : List Char) : joinLines (splitLines s) = s := joinWith_splitAt s

theorem not_mem_of_mem_splitLines {s l : List Char} (h : l ∈ splitLines s) : '\n' ∉ l :=
  not_mem_of_mem_splitAt h

def compareChars : List Char → List Char → Ordering
  | [], [] => .eq
  | [], _ :: _ => .lt
  | _ :: _, [] => .gt
  | c :: r, d :: s => (compare c.val d.val).then (compareChars r s)

def compareLines : List (List Char) → List (List Char) → Ordering
  | [], [] => .eq
  | [], _ :: _ => .lt
  | _ :: _, [] => .gt
  | l :: ls, m :: ms => (compareChars l m).then (compareLines ls ms)

def byteColumn (line : List Char) (byte : Nat) : Nat :=
  match line with
  | [] => 0
  | c :: r => if byte = 0 then 0 else byteColumn r (byte - c.utf8Size) + 1

end SourceBlocks.Text
