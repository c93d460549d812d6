import Mathlib.Data.List.Forall2
import SourceBlocks.Proofs.Text.Indented

namespace SourceBlocks.Text

variable {lines : List (List Char)} {p l : List Char}

def IsCommonMargin (lines : List (List Char)) (p : List Char) : Prop :=
  (∀ c ∈ p, isMarginChar c = true) ∧ ∀ l ∈ lines, isBare l = false → p <+: l

lemma prefix_sharedStart_iff {r s : List Char} : p <+: sharedStart r s ↔ p <+: r ∧ p <+: s := by
  induction r generalizing p s with
  | nil =>
    rw [sharedStart.eq_2 _ _ (by simp)]
    simp +contextual
  | cons c r ih =>
    cases s with
    | nil =>
      rw [sharedStart.eq_2 _ _ (by simp)]
      simp +contextual
    | cons d s =>
      cases p with
      | nil => simp
      | cons x p =>
        rw [sharedStart]
        split_ifs with hcd
        · subst hcd
          simp only [List.cons_prefix_cons, ih]
          tauto
        · simp only [List.cons_prefix_cons, List.prefix_nil, reduceCtorEq, false_iff]
          rintro ⟨⟨rfl, -⟩, rfl, -⟩
          exact hcd rfl

lemma prefix_foldl_sharedStart_iff {i : List Char} {is : List (List Char)} :
    p <+: is.foldl sharedStart i ↔ ∀ j ∈ i :: is, p <+: j := by
  induction is generalizing i with
  | nil => simp
  | cons j is ih => simp only [List.foldl_cons, ih, List.forall_mem_cons, prefix_sharedStart_iff, and_assoc]

lemma prefix_indentOf_iff : p <+: indentOf l ↔ (∀ c ∈ p, isMarginChar c = true) ∧ p <+: l := by
  constructor
  · intro h
    refine ⟨fun c hc => ?_, h.trans (List.takeWhile_prefix _)⟩
    exact List.all_eq_true.mp List.all_takeWhile c (h.subset hc)
  · rintro ⟨hp, s, rfl⟩
    rw [indentOf_append hp]
    exact List.prefix_append _ _

lemma prefix_commonIndent_iff (h : ∃ l ∈ lines, isBare l = false) :
    p <+: commonIndent lines ↔ IsCommonMargin lines p := by
  have hmem : ∀ l, l ∈ lines.filter (fun l => !isBare l) ↔ l ∈ lines ∧ isBare l = false := by
    intro l
    rw [List.mem_filter, Bool.not_eq_true']
  have hindents : p <+: commonIndent lines ↔
      ∀ i ∈ (lines.filter (fun l => !isBare l)).map indentOf, p <+: i := by
    rw [commonIndent]
    cases hcons : (lines.filter (fun l => !isBare l)).map indentOf with
    | nil =>
      obtain ⟨l, hl⟩ := h
      have hnil := List.map_eq_nil_iff.mp hcons
      have hin := (hmem l).mpr hl
      rw [hnil] at hin
      cases hin
    | cons i is => exact prefix_foldl_sharedStart_iff
  rw [hindents, List.forall_mem_map]
  simp only [hmem, prefix_indentOf_iff, IsCommonMargin]
  constructor
  · intro hall
    obtain ⟨l, hl⟩ := h
    exact ⟨(hall l hl).1, fun k hk hbare => (hall k ⟨hk, hbare⟩).2⟩
  · exact fun hall k hk => ⟨hall.1, hall.2 k hk.1 hk.2⟩

lemma commonIndent_of_bare (h : ∀ l ∈ lines, isBare l = true) : commonIndent lines = [] := by
  have hnil : lines.filter (fun l => !isBare l) = [] := by
    rw [List.filter_eq_nil_iff]
    intro l hl
    simp [h l hl]
  rw [commonIndent, hnil]
  rfl

lemma isCommonMargin_commonIndent (lines : List (List Char)) : IsCommonMargin lines (commonIndent lines) := by
  by_cases h : ∃ l ∈ lines, isBare l = false
  · exact (prefix_commonIndent_iff h).mp List.prefix_rfl
  · have hbare : ∀ l ∈ lines, isBare l = true := by simpa using h
    rw [commonIndent_of_bare hbare]
    exact ⟨by simp, by simp⟩

lemma margin_dedent (lines : List (List Char)) : (dedent lines).margin = commonIndent lines := by
  rw [dedent]
  split_ifs with h
  · exact (List.isEmpty_iff.mp h).symm
  · rfl

lemma cutMargin_append (margin l : List Char) : cutMargin margin (margin ++ l) = l := by simp [cutMargin]

lemma cutMargin_cases (margin l : List Char) :
    l = margin ++ cutMargin margin l ∨ ¬ margin <+: l ∧ cutMargin margin l = [] := by
  by_cases h : margin <+: l
  · obtain ⟨s, rfl⟩ := h
    exact .inl (by rw [cutMargin_append])
  · exact .inr ⟨h, by simp [cutMargin, h]⟩

lemma lines_dedent (hne : lines ≠ []) (hlines : ∀ l ∈ lines, '\n' ∉ l) :
    splitLines (dedent lines).chars = lines.map (cutMargin (dedent lines).margin) := by
  have hsplit : (ofChars (joinLines lines)).lines = lines := splitLines_joinLines hne hlines
  have h := splitLines_dedent (ofChars (joinLines lines))
  rwa [source, hsplit] at h

lemma commonIndent_cut (lines : List (List Char)) : commonIndent (lines.map (cutMargin (commonIndent lines))) = [] := by
  set margin := commonIndent lines with hmargin
  obtain ⟨hchars, hstart⟩ := isCommonMargin_commonIndent lines
  rw [← hmargin] at hchars hstart
  by_cases h : ∃ l ∈ lines.map (cutMargin margin), isBare l = false
  · obtain ⟨hmore, hcut⟩ := (prefix_commonIndent_iff h).mp List.prefix_rfl
    set more := commonIndent (lines.map (cutMargin margin))
    -- a margin that was left would make the common one longer
    have hlonger : IsCommonMargin lines (margin ++ more) := by
      refine ⟨fun c hc => (List.mem_append.mp hc).elim (hchars c) (hmore c), fun l hl hbare => ?_⟩
      obtain ⟨s, rfl⟩ := hstart l hl hbare
      rw [isBare_append hchars] at hbare
      have hs : s ∈ lines.map (cutMargin margin) := List.mem_map.mpr ⟨_, hl, cutMargin_append margin s⟩
      exact (List.prefix_append_right_inj margin).mpr (hcut s hs hbare)
    have hline : ∃ l ∈ lines, isBare l = false := by
      obtain ⟨s, hs, hbare⟩ := h
      obtain ⟨l, hl, rfl⟩ := List.mem_map.mp hs
      rcases cutMargin_cases margin l with hl' | ⟨-, hnil⟩
      · refine ⟨l, hl, ?_⟩
        rw [hl', isBare_append hchars]
        exact hbare
      · rw [hnil] at hbare
        cases hbare
    have hle := ((prefix_commonIndent_iff hline).mpr hlonger).length_le
    rw [← hmargin, List.length_append] at hle
    exact List.eq_nil_of_length_eq_zero (by omega)
  · exact commonIndent_of_bare (by simpa using h)

/-- A text loses the longest margin that its lines have in common, and nothing else but the blanks of bare lines
that lack it; what is left has no margin to lose. -/
theorem dedent_takes_margin (hne : lines ≠ []) (hlines : ∀ l ∈ lines, '\n' ∉ l) :
    ((∃ l ∈ lines, isBare l = false) → IsCommonMargin lines (dedent lines).margin ∧
      ∀ p, IsCommonMargin lines p → p <+: (dedent lines).margin) ∧
    ((∀ l ∈ lines, isBare l = true) → (dedent lines).margin = []) ∧
    (splitLines (dedent lines).chars).length = lines.length ∧
    List.Forall₂ (fun l s =>
        l = (dedent lines).margin ++ s ∨
          isBare l = true ∧ (dedent lines).margin ≠ [] ∧ ¬ (dedent lines).margin <+: l ∧ s = [])
      lines (splitLines (dedent lines).chars) ∧
    dedent (splitLines (dedent lines).chars) = ⟨(dedent lines).chars, []⟩ := by
  have hcommon := isCommonMargin_commonIndent lines
  rw [margin_dedent, lines_dedent hne hlines, margin_dedent]
  refine ⟨fun h => ⟨hcommon, fun p => (prefix_commonIndent_iff h).mpr⟩, commonIndent_of_bare, by simp, ?_, ?_⟩
  · rw [List.forall₂_map_right_iff, List.forall₂_same]
    intro l hl
    rcases cutMargin_cases (commonIndent lines) l with heq | ⟨hlacks, hnil⟩
    · exact .inl heq
    · refine .inr ⟨?_, ?_, hlacks, hnil⟩
      · by_contra hbare
        exact hlacks (hcommon.2 l hl (by simpa using hbare))
      · intro hempty
        exact hlacks (hempty ▸ List.nil_prefix)
  · have hjoin : joinLines (lines.map (cutMargin (commonIndent lines))) = (dedent lines).chars := by
      rw [← margin_dedent, ← lines_dedent hne hlines, joinLines_splitLines]
    rw [dedent, commonIndent_cut, hjoin]
    rfl

theorem dedent_takes_margin_mixed :
    dedent (["  \tx", " ", "   y", ""].map String.toList) = ⟨"\tx\n\n y\n".toList, [' ', ' ']⟩ ∧
    (∀ p, IsCommonMargin (["  \tx", " ", "   y", ""].map String.toList) p → p <+: [' ', ' ']) ∧
    dedent (splitLines "\tx\n\n y\n".toList) = ⟨"\tx\n\n y\n".toList, []⟩ := by
  have hvalue : dedent (["  \tx", " ", "   y", ""].map String.toList) = ⟨"\tx\n\n y\n".toList, [' ', ' ']⟩ := by
    decide
  have h := @dedent_takes_margin (["  \tx", " ", "   y", ""].map String.toList) (by decide) (by simp)
  rw [hvalue] at h
  exact ⟨hvalue, (h.1 ⟨"  \tx".toList, by decide, by decide⟩).2, h.2.2.2.2⟩

end SourceBlocks.Text
