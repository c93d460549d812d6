import SourceBlocks.Proofs.Lexis.Layout
import SourceBlocks.Proofs.Text.Moved
import SourceBlocks.Proofs.Text.Pieces

namespace SourceBlocks

open Lexis (Source)

lemma Lexis.Source.row_placeAt_between {S : Source} {i j : Nat} (hij : i ≤ j) :
    (S.placeAt j).row = (S.placeAt i).row + (Text.extent (S.between i j)).row := by
  have htake : S.chars.take j = S.chars.take i ++ S.between i j := by
    rw [Source.between, ← List.take_add, Nat.add_sub_cancel' hij]
  change (Text.extent (S.chars.take j)).row = _
  rw [htake, Text.extent_append, Position.row_plus]
  rfl

namespace Text

variable {t : Text} {i j m : Nat} {c : Char}

lemma row_extent_pos {s : List Char} (h : '\n' ∈ s) : 0 < (extent s).row := by
  obtain ⟨u, v, rfl⟩ := List.append_of_mem h
  rw [extent_append, extent_cons, Position.row_plus, Position.row_plus]
  simp only [charExtent, if_true]
  omega

lemma row_placeAt_lt (hij : i ≤ j) (h : '\n' ∈ t.source.between i j) : (t.placeAt i).row < (t.placeAt j).row := by
  have hrow := Source.row_placeAt_between (S := t.source) hij
  have hpos := row_extent_pos h
  simp only [placeAt, Position.row_plus]
  omega

lemma getElem?_cutMargin {margin row : List Char} {n : Nat} (h : (cutMargin margin row)[n]? = some c) :
    row[margin.length + n]? = some c := by
  simp only [cutMargin] at h
  split_ifs at h
  · rwa [List.getElem?_drop] at h
  · simp at h

lemma placeAt_eq_point (h : t.source.chars[i]? = some c) (hc : c ≠ '\n') :
    ∃ m, t.chars[m]? = some c ∧ t.placeAt i = t.point m := by
  obtain ⟨m, c', hm, hc', hplace⟩ := holds_placeAt h hc
  have hextent : t.source.placeAt i = extent (t.chars.take m) := Position.plus_inj.mp hplace
  have hread := getElem?_line h hc
  rw [getElem?_splitLines_dedent] at hread
  have htext := getElem?_line hm hc'
  rw [← hextent] at htext
  obtain rfl := Option.some.inj (htext.symm.trans (getElem?_cutMargin hread))
  exact ⟨m, hm, hplace⟩

lemma point_succ (h : t.chars[m]? = some c) (hc : c ≠ '\n') :
    t.point (m + 1) = t.start.plus ((extent (t.chars.take m)).plus ⟨0, 1⟩) := by
  rw [point, List.take_add_one, h, extent_append, Option.toList_some, extent_of_not_mem (s := [c]) (by simpa using hc.symm)]
  rfl

lemma point_inj {m n : Nat} (hm : m ≤ t.chars.length) (hn : n ≤ t.chars.length) : t.point m = t.point n ↔ m = n := by
  refine ⟨fun h => ?_, congrArg _⟩
  rw [← before_point hm, h, before_point hn]

lemma prefix_of_placeAt {u v : List Char} (h : t.source.chars.drop i = u ++ v) (hu : '\n' ∉ u)
    (hm : m ≤ t.chars.length) (hplace : t.placeAt i = t.point m) :
    u <+: t.chars.drop m ∧ t.placeAt (i + u.length) = t.point (m + u.length) := by
  induction u generalizing i m with
  | nil => exact ⟨by simp, hplace⟩
  | cons c u ih =>
    rw [List.mem_cons, not_or] at hu
    have hc : c ≠ '\n' := fun hc => hu.1 hc.symm
    have hread : t.source.chars[i]? = some c := by rw [← List.head?_drop, h, List.cons_append, List.head?_cons]
    obtain ⟨m', hm', hplace'⟩ := placeAt_eq_point hread hc
    have hlt : m' < t.chars.length := (List.getElem?_eq_some_iff.mp hm').1
    obtain rfl := (point_inj hm (Nat.le_of_lt hlt)).mp (hplace.symm.trans hplace')
    have hdrop : t.source.chars.drop (i + 1) = u ++ v := by
      rw [← List.drop_drop, h, List.cons_append, List.drop_succ_cons, List.drop_zero]
    have hnext : t.placeAt (i + 1) = t.point (m + 1) := by
      have hextent : t.source.placeAt i = extent (t.chars.take m) := Position.plus_inj.mp hplace
      rw [point_succ hm' hc, ← hextent, placeAt, Source.placeAt_succ h, if_neg hc]
      rfl
    obtain ⟨hfront, hend⟩ := ih hdrop hu.2 hlt hnext
    have hcons : t.chars.drop m = c :: t.chars.drop (m + 1) := by
      rw [List.drop_eq_getElem_cons hlt]
      congr 1
      exact (List.getElem?_eq_some_iff.mp hm').2
    refine ⟨?_, ?_⟩
    · rw [hcons, List.cons_prefix_cons]
      exact ⟨rfl, hfront⟩
    · rw [List.length_cons, Nat.add_comm u.length, ← Nat.add_assoc, ← Nat.add_assoc, hend]

lemma prefix_slice (hij : i < j) (hj : j ≤ t.source.chars.length) (h : '\n' ∉ t.source.between i j) :
    t.source.between i j <+: (t.slice (t.placeAt i) (min t.stop ⟨(t.placeAt i).row + 1, 0⟩)).chars := by
  have hlength : (t.source.between i j).length = j - i := by
    rw [Source.between, List.length_take, List.length_drop]
    omega
  have hdrop : t.source.chars.drop i = t.source.between i j ++ t.source.chars.drop j := by
    rw [Source.between, ← Nat.add_sub_cancel' (Nat.le_of_lt hij), Nat.add_sub_cancel_left, ← List.drop_drop,
      List.take_append_drop]
  obtain ⟨c, r, hcons⟩ := List.exists_cons_of_length_pos (show 0 < (t.source.between i j).length by omega)
  have hread : t.source.chars[i]? = some c := by rw [← List.head?_drop, hdrop, hcons, List.cons_append, List.head?_cons]
  obtain ⟨m, hm, hplace⟩ := placeAt_eq_point hread fun hc => h (hcons ▸ hc ▸ List.mem_cons_self)
  have hlt : m < t.chars.length := (List.getElem?_eq_some_iff.mp hm).1
  obtain ⟨hfront, hend⟩ := prefix_of_placeAt hdrop h (Nat.le_of_lt hlt) hplace
  rw [hlength, Nat.add_sub_cancel' (Nat.le_of_lt hij)] at hend
  have hle : t.placeAt j ≤ min t.stop ⟨(t.placeAt i).row + 1, 0⟩ := by
    refine Position.le_min (hend ▸ (t.hasPlace_point _).le_stop) (.inl ?_)
    have hrow := Source.row_placeAt_between (S := t.source) (Nat.le_of_lt hij)
    rw [extent_of_not_mem h, Nat.add_zero] at hrow
    simp only [placeAt, Position.row_plus]
    omega
  have hbefore := t.before_mono hle
  rw [hend, before_point (by have := hfront.length_le; rw [List.length_drop] at this; omega)] at hbefore
  rw [slice_chars _ (Position.le_trans (placeAt_le (Nat.le_of_lt hij) hj) hle), hplace, before_point (Nat.le_of_lt hlt),
    List.prefix_take_iff]
  exact ⟨hfront, by rw [hlength, ← hplace]; omega⟩

end Text

end SourceBlocks
