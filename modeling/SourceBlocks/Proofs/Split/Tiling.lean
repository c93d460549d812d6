import Mathlib.Data.List.Chain
import SourceBlocks.Proofs.Outcome
import SourceBlocks.Proofs.Text.Slice
import SourceBlocks.Split.Chunk

/-! The chunks of a text cover it without gap or overlap, and each statement has one of them. -/

namespace SourceBlocks

namespace Text

structure Tiles (t : Text) (ts : List Text) : Prop where
  nonempty : ts ≠ []
  first : ∀ u ∈ ts.head?, u.start = t.start
  follow : ts.IsChain (fun u v => u.stop = v.start)
  last : ∀ u ∈ ts.getLast?, u.stop = t.stop
  chars : ts.flatMap chars = t.chars

lemma tiles_self (t : Text) : Tiles t [t] where
  nonempty := by simp
  first := by simp
  follow := by simp
  last := by simp
  chars := by simp

inductive Cut (t : Text) : Position → Position → List Text → Prop
  | one {a b} : a ≤ b → Cut t a b [t.slice a b]
  | cons {a b c ts} : a ≤ b → Cut t b c ts → Cut t a c (t.slice a b :: ts)

namespace Cut

variable {t : Text} {a b : Position} {ts : List Text}

lemma le (h : Cut t a b ts) : a ≤ b := by
  induction h with
  | one h => exact h
  | cons h _ ih => exact Position.le_trans h ih

lemma ne_nil (h : Cut t a b ts) : ts ≠ [] := by
  cases h <;> simp

lemma head (h : Cut t a b ts) : ∀ u ∈ ts.head?, u.start = t.nearest a := by
  cases h <;> simp [slice_start]

lemma last (h : Cut t a b ts) : ∀ u ∈ ts.getLast?, u.stop = t.nearest b := by
  induction h with
  | one h => simp [slice_stop t h]
  | cons _ hts ih =>
    intro u hu
    rw [List.getLast?_cons_of_ne_nil hts.ne_nil] at hu
    exact ih u hu

lemma follow (h : Cut t a b ts) : ts.IsChain (fun u v => u.stop = v.start) := by
  induction h with
  | one => simp
  | cons h hts ih =>
    rw [List.isChain_cons]
    refine ⟨?_, ih⟩
    intro u hu
    rw [slice_stop t h, hts.head u hu]

lemma chars (h : Cut t a b ts) : ts.flatMap chars = (t.slice a b).chars := by
  induction h with
  | one => simp
  | cons h hts ih => rw [List.flatMap_cons, ih, slice_append t h hts.le]

lemma concat?_eq (h : Cut t a b ts) : concat? ts = some (t.slice a b) := by
  cases h with
  | one hab => rw [concat?, List.flatMap_nil, List.append_nil]
  | cons hab hts =>
    rw [concat?, hts.chars, slice_append t hab hts.le]
    rfl

lemma tiles (h : Cut t t.start t.stop ts) : Tiles t ts where
  nonempty := h.ne_nil
  first u hu := by rw [h.head u hu, nearest_start]
  follow := h.follow
  last u hu := by rw [h.last u hu, nearest_stop]
  chars := by rw [h.chars, slice_whole]

end Cut

end Text

namespace Split

open Outcome

lemma check_eq_ok {ok : Prop} [Decidable ok] {cause : Cause} {a b : Position} {u : Unit} :
    check ok cause a b = .ok u ↔ ok := by
  simp only [check]
  split_ifs <;> simp_all

def nextStart (t : Text) : List Span → Position
  | [] => t.stop
  | n :: _ => n.start

def gap (t : Text) (a b : Position) : List Chunk := if a = b then [] else [⟨none, t.slice a b⟩]

lemma gap_cut {t : Text} {a b c : Position} {ts : List Text} (hab : a ≤ b) (h : Text.Cut t b c ts) :
    Text.Cut t a c ((gap t a b).map Chunk.text ++ ts) := by
  simp only [gap]
  split_ifs with heq
  · exact heq ▸ h
  · exact .cons hab h

lemma gap_nodes (t : Text) (a b : Position) : (gap t a b).filterMap Chunk.node = [] := by
  simp only [gap]
  split_ifs <;> rfl

lemma chunksFrom_cons {t : Text} {i : Nat} {s : Span} {rest : List Span} {cs : List Chunk} :
    chunksFrom t i (s :: rest) = .ok cs ↔ ∃ stop more,
      s.start < nextStart t rest ∧ statementStop t s (nextStart t rest) = .ok stop ∧
      s.start < stop ∧ stop ≤ nextStart t rest ∧ chunksFrom t (i + 1) rest = .ok more ∧
      cs = ⟨some i, t.slice s.start stop⟩ :: (gap t stop (nextStart t rest) ++ more) := by
  simp only [chunksFrom, bind_eq_ok, pure_eq_ok, check_eq_ok]
  constructor
  · rintro ⟨_, h, stop, hs, _, ⟨hlt, hle⟩, more, hm, rfl⟩
    exact ⟨stop, more, h, hs, hlt, hle, hm, rfl⟩
  · rintro ⟨stop, more, h, hs, hlt, hle, hm, rfl⟩
    exact ⟨(), h, stop, hs, (), ⟨hlt, hle⟩, more, hm, rfl⟩

lemma chunksFrom_cut {t : Text} {i : Nat} {s : Span} {rest : List Span} {cs : List Chunk}
    (h : chunksFrom t i (s :: rest) = .ok cs) : Text.Cut t s.start t.stop (cs.map Chunk.text) := by
  induction rest generalizing i s cs with
  | nil =>
    obtain ⟨stop, more, -, -, hlt, hle, hm, rfl⟩ := chunksFrom_cons.mp h
    obtain rfl : [] = more := by simpa [chunksFrom] using hm
    have hs := Position.le_of_lt hlt
    simp only [nextStart, List.append_nil, List.map_cons] at hle ⊢
    by_cases heq : stop = t.stop
    · simpa [gap, heq] using Text.Cut.one (heq ▸ hs)
    · simpa [gap, heq] using Text.Cut.cons hs (.one hle)
  | cons s' rest ih =>
    obtain ⟨stop, more, -, -, hlt, hle, hm, rfl⟩ := chunksFrom_cons.mp h
    rw [List.map_cons, List.map_append]
    exact .cons (Position.le_of_lt hlt) (gap_cut hle (ih hm))

lemma chunksFrom_nodes {t : Text} {i : Nat} {spans : List Span} {cs : List Chunk}
    (h : chunksFrom t i spans = .ok cs) :
    cs.filterMap Chunk.node = List.range' i spans.length := by
  induction spans generalizing i cs with
  | nil =>
    obtain rfl : [] = cs := by simpa [chunksFrom] using h
    rfl
  | cons s rest ih =>
    obtain ⟨stop, more, -, -, -, -, hm, rfl⟩ := chunksFrom_cons.mp h
    simp only [List.filterMap_cons, List.filterMap_append, gap_nodes, List.nil_append, ih hm,
      List.length_cons, List.range'_succ]

lemma chunks_cons {t : Text} {s : Span} {rest : List Span} {cs : List Chunk}
    (h : chunks t (s :: rest) = .ok cs) : ∃ more, t.start ≤ s.start ∧
      chunksFrom t 0 (s :: rest) = .ok more ∧ cs = gap t t.start s.start ++ more := by
  obtain ⟨last, hlast⟩ : ∃ last, (s :: rest).getLast? = some last :=
    ⟨_, List.getLast?_eq_some_getLast (by simp)⟩
  simp only [chunks, hlast, bind_eq_ok, pure_eq_ok, check_eq_ok] at h
  obtain ⟨_, hs, _, -, more, hm, rfl⟩ := h
  exact ⟨more, hs, hm, rfl⟩

lemma chunks_tile {t : Text} {spans : List Span} {cs : List Chunk} (h : chunks t spans = .ok cs) :
    Text.Tiles t (cs.map Chunk.text) ∧ cs.filterMap Chunk.node = List.range spans.length := by
  cases spans with
  | nil =>
    obtain rfl : [⟨none, t⟩] = cs := by simpa [chunks] using h
    exact ⟨Text.tiles_self t, rfl⟩
  | cons s rest =>
    obtain ⟨more, hs, hm, rfl⟩ := chunks_cons h
    rw [List.map_append, List.filterMap_append, gap_nodes, chunksFrom_nodes hm, List.range_eq_range']
    exact ⟨(gap_cut hs (chunksFrom_cut hm)).tiles, rfl⟩

end Split

end SourceBlocks
