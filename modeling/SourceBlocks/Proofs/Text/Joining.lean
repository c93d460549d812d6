import SourceBlocks.Proofs.Split.Tiling
import SourceBlocks.Proofs.Text.Pieces

namespace SourceBlocks

namespace Position

lemma clamp_of_le_lo {lo hi p : Position} (h : lo ≤ hi) (hp : p ≤ lo) : clamp lo hi p = lo := by
  rcases lt_or_eq_of_le hp with hlt | rfl
  · exact if_pos hlt
  · exact clamp_of_mem (le_refl p) h

lemma clamp_of_hi_le {lo hi p : Position} (h : lo ≤ hi) (hp : hi ≤ p) : clamp lo hi p = hi := by
  rcases lt_or_eq_of_le hp with hlt | rfl
  · rw [clamp, if_neg (not_lt.mpr (le_trans h hp)), if_pos hlt]
  · exact clamp_of_mem h (le_refl hi)

end Position

namespace Text

section Cutting

variable (t : Text) {a b : Position} {ps : List Position}

def cuts (ps : List Position) : List Text := List.zipWith t.slice ps ps.tail

lemma cut_cuts (h : (a :: b :: ps).Pairwise (· ≤ ·)) :
    Cut t a ((a :: b :: ps).getLast (List.cons_ne_nil a _)) (t.cuts (a :: b :: ps)) := by
  induction ps generalizing a b with
  | nil => exact .one ((List.pairwise_cons.mp h).1 b List.mem_cons_self)
  | cons c ps ih =>
    obtain ⟨hab, hrest⟩ := List.pairwise_cons.mp h
    exact .cons (hab b List.mem_cons_self) (ih hrest)

lemma slice_of_covers (ha : a ≤ t.start) (hb : t.stop ≤ b) : t.slice a b = t := by
  have hle : a ≤ b := Position.le_trans ha (Position.le_trans t.start_le_stop hb)
  have hfirst : t.locate a = t.locate t.start := by
    simp only [locate, Position.clamp_of_le_lo t.start_le_stop ha,
      Position.clamp_of_le_lo t.start_le_stop (Position.le_refl _)]
  have hlast : t.locate b = t.locate t.stop := by
    simp only [locate, Position.clamp_of_hi_le t.start_le_stop hb,
      Position.clamp_of_hi_le t.start_le_stop (Position.le_refl _)]
  conv_rhs => rw [← t.slice_whole]
  simp only [slice, Position.max_eq_left hle, Position.max_eq_left t.start_le_stop, hfirst, hlast]

lemma concat?_cuts (hlen : 2 ≤ ps.length) (hps : ps.Pairwise (· ≤ ·)) (hfirst : ∀ p ∈ ps.head?, p ≤ t.start)
    (hlast : ∀ p ∈ ps.getLast?, t.stop ≤ p) :
    concat? (t.cuts ps) = some t ∧ (t.cuts ps).IsChain fun u v => u.stop = v.start := by
  obtain ⟨a, ps, rfl⟩ := List.exists_cons_of_length_pos (Nat.lt_of_succ_lt hlen)
  obtain ⟨b, ps, rfl⟩ := List.exists_cons_of_length_pos (Nat.lt_of_succ_lt_succ hlen)
  have hcut := t.cut_cuts hps
  refine ⟨?_, hcut.follow⟩
  rw [hcut.concat?_eq, t.slice_of_covers (hfirst a rfl) (hlast _ (List.getLast?_eq_some_getLast _))]

end Cutting

section Joining

variable {t u v : Text} {before after ts : List Text}

lemma start_of_chain (hchain : (before ++ v :: after).IsChain fun u v => u.stop = v.start)
    (hu : concat? (before ++ v :: after) = some u) : v.start = u.start.plus (extent (before.flatMap chars)) := by
  induction before generalizing u with
  | nil =>
    obtain rfl := Option.some.inj hu
    exact (Position.plus_start v.start).symm
  | cons t before ih =>
    obtain rfl := Option.some.inj hu
    obtain ⟨t', rest, hrest⟩ : ∃ t' rest, before ++ v :: after = t' :: rest := by
      cases before <;> simp
    obtain ⟨hfollow, hchain⟩ := List.isChain_cons.mp hchain
    have hstart : t.start.plus (extent t.chars) = t'.start := hfollow t' (by simp [hrest])
    have hjoin : concat? (before ++ v :: after) = some { t' with chars := t'.chars ++ rest.flatMap chars } := by
      rw [hrest]
      rfl
    rw [ih hchain hjoin, List.flatMap_cons, extent_append, ← Position.plus_assoc, hstart]

lemma chars_of_concat? (hu : concat? ts = some u) : u.chars = ts.flatMap chars := by
  cases ts with
  | nil => cases hu
  | cons t ts =>
    obtain rfl := Option.some.inj hu
    rfl

lemma stop_of_chain (hchain : (before ++ v :: after).IsChain fun u v => u.stop = v.start)
    (hu : concat? (before ++ v :: after) = some u) : v.stop = u.start.plus (extent (before.flatMap chars ++ v.chars)) := by
  rw [stop, start_of_chain hchain hu, extent_append, Position.plus_assoc]

lemma tiles_of_concat? (hchain : ts.IsChain fun u v => u.stop = v.start) (hu : concat? ts = some u) : u.Tiles ts where
  nonempty := by
    rintro rfl
    cases hu
  first v hv := by
    obtain ⟨after, rfl⟩ := List.head?_eq_some_iff.mp hv
    obtain rfl := Option.some.inj hu
    rfl
  follow := hchain
  last v hv := by
    obtain ⟨before, rfl⟩ := List.getLast?_eq_some_iff.mp hv
    rw [stop_of_chain hchain hu, stop, chars_of_concat? hu, List.flatMap_append, List.flatMap_singleton]
  chars := (chars_of_concat? hu).symm

lemma slice_of_concat? (hchain : ts.IsChain fun u v => u.stop = v.start) (hu : concat? ts = some u) (hv : v ∈ ts) :
    (u.slice v.start v.stop).chars = v.chars ∧ (u.slice v.start v.stop).start = v.start := by
  obtain ⟨before, after, rfl⟩ := List.append_of_mem hv
  have hchars : u.chars = before.flatMap chars ++ (v.chars ++ after.flatMap chars) := by
    rw [chars_of_concat? hu, List.flatMap_append, List.flatMap_cons]
  rw [start_of_chain hchain hu, stop_of_chain hchain hu]
  refine ⟨slice_of_append hchars, ?_⟩
  rw [slice_start]
  refine HasPlace.nearest_eq ⟨_, ?_, rfl⟩
  rw [hchars]
  exact (fits_extent _).append _

/-- The pieces between two or more places that do not go back, the first not behind the start of a
text and the last not before its end, are put together to the text, and each stops where the next
one starts. -/
theorem cuts_concat :
    (∀ (t : Text) (ps : List Position), 2 ≤ ps.length → ps.Pairwise (· ≤ ·) → (∀ p ∈ ps.head?, p ≤ t.start) →
      (∀ p ∈ ps.getLast?, t.stop ≤ p) →
        concat? (t.cuts ps) = some t ∧ (t.cuts ps).IsChain fun u v => u.stop = v.start) ∧
    ∀ ts : List Text, ts ≠ [] → (ts.IsChain fun u v => u.stop = v.start) → ∃ u, concat? ts = some u ∧ u.Tiles ts ∧
      ∀ v ∈ ts, (u.slice v.start v.stop).chars = v.chars ∧ (u.slice v.start v.stop).start = v.start := by
  refine ⟨fun t ps => t.concat?_cuts, fun ts hne hchain => ?_⟩
  obtain ⟨t, ts, rfl⟩ := List.exists_cons_of_ne_nil hne
  exact ⟨_, rfl, tiles_of_concat? hchain rfl, fun v => slice_of_concat? hchain rfl⟩

theorem cuts_concat_middle :
    concat? (((ofString "ab\ncd\n").anchored ⟨2, 4⟩).cuts [⟨0, 0⟩, ⟨2, 5⟩, ⟨2, 5⟩, ⟨3, 1⟩, ⟨9, 0⟩]) =
        some ((ofString "ab\ncd\n").anchored ⟨2, 4⟩) ∧
      ∃ u, concat? [⟨['a'], none, ⟨2, 4⟩⟩, ⟨['b', '\n', 'c'], none, ⟨2, 5⟩⟩, ⟨['d'], none, ⟨3, 1⟩⟩] = some u ∧
        (u.slice ⟨2, 5⟩ ⟨3, 1⟩).chars = ['b', '\n', 'c'] := by
  refine ⟨(cuts_concat.1 _ _ (by decide) (by decide) (by decide) (by decide)).1, ?_⟩
  obtain ⟨u, hu, -, hslice⟩ := cuts_concat.2
    [⟨['a'], none, ⟨2, 4⟩⟩, ⟨['b', '\n', 'c'], none, ⟨2, 5⟩⟩, ⟨['d'], none, ⟨3, 1⟩⟩] (by decide) (by decide)
  exact ⟨u, hu, (hslice ⟨['b', '\n', 'c'], none, ⟨2, 5⟩⟩ (by decide)).1⟩

theorem cuts_one_place :
    [Position.start].Pairwise (· ≤ ·) ∧ Position.start ≤ (ofString "").start ∧ (ofString "").stop ≤ Position.start ∧
      concat? ((ofString "").cuts [Position.start]) = none := by
  decide

end Joining

section Runs

variable {t : Text} {us : List Text} {runs : List (List Text)}

lemma Tiles.exists_first {u : Text} {run : List Text} (h : u.Tiles run) : ∃ v ∈ run.head?, v.start = u.start := by
  obtain ⟨v, rest, rfl⟩ := List.exists_cons_of_ne_nil h.nonempty
  exact ⟨v, rfl, h.first v rfl⟩

lemma Tiles.exists_last {u : Text} {run : List Text} (h : u.Tiles run) : ∃ v ∈ run.getLast?, v.stop = u.stop :=
  ⟨_, List.getLast?_eq_some_getLast h.nonempty, h.last _ (List.getLast?_eq_some_getLast h.nonempty)⟩

lemma follow_of_runs (h : List.Forall₂ Tiles us runs) (hchain : runs.flatten.IsChain fun u v => u.stop = v.start) :
    (us.IsChain fun u v => u.stop = v.start) ∧ us.flatMap chars = runs.flatten.flatMap chars ∧
      (∀ u ∈ us.head?, ∃ v ∈ runs.flatten.head?, v.start = u.start) ∧
      ∀ u ∈ us.getLast?, ∃ v ∈ runs.flatten.getLast?, v.stop = u.stop := by
  induction h with
  | nil => simp
  | @cons u run us runs hu hus ih =>
    rw [List.flatten_cons, List.isChain_append] at hchain
    obtain ⟨-, hrest, hborder⟩ := hchain
    obtain ⟨hfollow, hchars, hfirst, hlast⟩ := ih hrest
    obtain ⟨x, hx, hxu⟩ := hu.exists_first
    obtain ⟨y, hy, hyu⟩ := hu.exists_last
    refine ⟨List.isChain_cons.mpr ⟨fun u' hu' => ?_, hfollow⟩, ?_, ?_, ?_⟩
    · obtain ⟨v, hv, hvu⟩ := hfirst u' hu'
      rw [← hyu, ← hvu]
      exact hborder y hy v hv
    · rw [List.flatMap_cons, List.flatten_cons, List.flatMap_append, hchars, hu.chars]
    · rintro _ ⟨⟩
      exact ⟨x, by rw [List.flatten_cons, List.head?_append, hx]; rfl, hxu⟩
    · intro w hw
      rw [List.flatten_cons, List.getLast?_append]
      cases hus with
      | nil =>
        obtain rfl : u = w := by simpa using hw
        exact ⟨y, by simpa using hy, hyu⟩
      | cons hu' hus' =>
        rw [List.getLast?_cons_cons] at hw
        obtain ⟨v, hv, hvw⟩ := hlast w hw
        exact ⟨v, by rw [hv]; rfl, hvw⟩

lemma Tiles.of_runs (h : t.Tiles runs.flatten) (hus : List.Forall₂ Tiles us runs) : t.Tiles us := by
  obtain ⟨hfollow, hchars, hfirst, hlast⟩ := follow_of_runs hus h.follow
  refine ⟨?_, fun u hu => ?_, hfollow, fun u hu => ?_, hchars.trans h.chars⟩
  · rintro rfl
    cases hus
    exact h.nonempty rfl
  · obtain ⟨v, hv, hvu⟩ := hfirst u hu
    rw [← hvu, h.first v hv]
  · obtain ⟨v, hv, hvu⟩ := hlast u hu
    rw [← hvu, h.last v hv]

end Runs

end Text

end SourceBlocks
