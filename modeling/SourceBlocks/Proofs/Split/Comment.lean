import Mathlib.Data.List.DropRight
import SourceBlocks.Proofs.Text.Slice
import SourceBlocks.Split.Comment

namespace SourceBlocks.Split

open Text (isBlank splitLines joinLines)

/-- What is left of a text when each comment is deleted, from a number sign to the end of its line. -/
def withoutComments : List Char → List Char
  | [] => []
  | c :: r => if c = '#' then withoutComments (r.dropWhile (· ≠ '\n')) else c :: withoutComments r
termination_by s => s.length
decreasing_by
  · exact Nat.lt_succ_of_le (List.dropWhile_suffix _).length_le
  · exact Nat.lt_succ_self _

@[simp] lemma withoutComments_nil : withoutComments [] = [] := by rw [withoutComments]

@[simp] lemma withoutComments_hash (r : List Char) :
    withoutComments ('#' :: r) = withoutComments (r.dropWhile (· ≠ '\n')) := by
  rw [withoutComments, if_pos rfl]

lemma withoutComments_cons {c : Char} (hc : c ≠ '#') (r : List Char) :
    withoutComments (c :: r) = c :: withoutComments r := by
  rw [withoutComments, if_neg hc]

def firstMark? (line : List Char) : Option Char := line.find? fun c => !isBlank c

lemma isBlank_newline : isBlank '\n' = true := by decide

lemma isBlank_hash : isBlank '#' = false := by decide

lemma isQuiet_true (s : List Char) : isQuiet true s = isQuiet false (s.dropWhile (· ≠ '\n')) := by
  induction s with
  | nil => rfl
  | cons c r ih =>
    by_cases hbreak : c = '\n'
    · simp [isQuiet, hbreak]
    · simpa [isQuiet, hbreak] using ih

lemma isCommentOrBlank_eq_all (s : List Char) : isCommentOrBlank s = (withoutComments s).all isBlank := by
  rw [isCommentOrBlank]
  -- the scan takes a comment character by character where the deletion takes it whole
  induction s using withoutComments.induct with
  | case1 => simp [isQuiet]
  | case2 r ih =>
    rw [withoutComments_hash, ← ih, ← isQuiet_true]
    simp [isQuiet]
  | case3 c r hc ih =>
    rw [withoutComments_cons hc, List.all_cons, ← ih]
    by_cases hbreak : c = '\n'
    · simp [isQuiet, hbreak, isBlank_newline]
    · simp [isQuiet, hbreak, hc]

lemma dropWhile_append_newline (a b : List Char) :
    (a ++ '\n' :: b).dropWhile (· ≠ '\n') = a.dropWhile (· ≠ '\n') ++ '\n' :: b := by
  rw [List.dropWhile_append]
  split_ifs with hempty
  · rw [List.isEmpty_iff.mp hempty, List.nil_append, List.dropWhile_cons_of_neg (by simp)]
  · rfl

lemma withoutComments_append_newline (a b : List Char) :
    withoutComments (a ++ '\n' :: b) = withoutComments a ++ '\n' :: withoutComments b := by
  induction a using withoutComments.induct with
  | case1 => rw [withoutComments_nil, List.nil_append, List.nil_append, withoutComments_cons (by decide)]
  | case2 r ih =>
    rw [List.cons_append, withoutComments_hash, withoutComments_hash, dropWhile_append_newline, ih]
  | case3 c r hc ih =>
    rw [List.cons_append, withoutComments_cons hc, withoutComments_cons hc, ih, List.cons_append]

lemma withoutComments_of_not_mem {line : List Char} (h : '\n' ∉ line) :
    withoutComments line = line.takeWhile (· ≠ '#') := by
  induction line with
  | nil => simp
  | cons c r ih =>
    rw [List.mem_cons, not_or] at h
    by_cases hc : c = '#'
    · have hskip : r.dropWhile (· ≠ '\n') = [] := by
        simp only [List.dropWhile_eq_nil_iff, decide_eq_true_eq]
        rintro x hx rfl
        exact h.2 hx
      rw [hc, withoutComments_hash, hskip]
      simp
    · rw [withoutComments_cons hc, ih h.2, List.takeWhile_cons_of_pos (by simpa using hc)]

lemma isCommentOrBlank_append_newline (a b : List Char) :
    isCommentOrBlank (a ++ '\n' :: b) = (isCommentOrBlank a && isCommentOrBlank b) := by
  simp only [isCommentOrBlank_eq_all, withoutComments_append_newline, List.all_append, List.all_cons, isBlank_newline,
    Bool.true_and]

lemma isCommentOrBlank_joinLines (lines : List (List Char)) :
    isCommentOrBlank (joinLines lines) = lines.all isCommentOrBlank := by
  induction lines with
  | nil => rfl
  | cons l ls ih =>
    by_cases hls : ls = []
    · subst hls
      exact (Bool.and_true _).symm
    · rw [Text.joinLines_cons hls, isCommentOrBlank_append_newline, ih, List.all_cons]

lemma all_isBlank_takeWhile_iff (line : List Char) :
    (line.takeWhile (· ≠ '#')).all isBlank = true ↔ firstMark? line = none ∨ firstMark? line = some '#' := by
  induction line with
  | nil => simp [firstMark?]
  | cons c r ih =>
    by_cases hc : c = '#'
    · simp [firstMark?, hc, isBlank_hash]
    · cases hblank : isBlank c with
      | true => simpa [firstMark?, hc, hblank] using ih
      | false => simp [firstMark?, hc, hblank]

lemma isCommentOrBlank_iff_of_not_mem {line : List Char} (h : '\n' ∉ line) :
    isCommentOrBlank line = true ↔ firstMark? line = none ∨ firstMark? line = some '#' := by
  rw [isCommentOrBlank_eq_all, withoutComments_of_not_mem h, all_isBlank_takeWhile_iff]

/-- A text has no code exactly if nothing is left when its comments are deleted and the white space
is trimmed at the end, which is to say that on each of its lines the first character that is not
white space is missing or a number sign. -/
theorem isCommentOrBlank_linewise (s : List Char) :
    (isCommentOrBlank s = true ↔ (withoutComments s).rdropWhile isBlank = []) ∧
    (isCommentOrBlank s = true ↔ ∀ line ∈ splitLines s, firstMark? line = none ∨ firstMark? line = some '#') ∧
    ∀ a b, isCommentOrBlank (a ++ '\n' :: b) = true ↔ isCommentOrBlank a = true ∧ isCommentOrBlank b = true := by
  refine ⟨?_, ?_, fun a b => ?_⟩
  · rw [isCommentOrBlank_eq_all, List.all_eq_true, List.rdropWhile_eq_nil_iff]
  · have hlines : isCommentOrBlank s = (splitLines s).all isCommentOrBlank := by
      rw [← isCommentOrBlank_joinLines, Text.joinLines_splitLines]
    rw [hlines, List.all_eq_true]
    refine forall₂_congr fun line hline => ?_
    exact isCommentOrBlank_iff_of_not_mem (Text.not_mem_of_mem_splitLines hline)
  · rw [isCommentOrBlank_append_newline, Bool.and_eq_true]

example : isCommentOrBlank " # a # b\n \n\t#\n".toList = true ∧ isCommentOrBlank "# a\nb".toList = false := by
  decide

end SourceBlocks.Split
