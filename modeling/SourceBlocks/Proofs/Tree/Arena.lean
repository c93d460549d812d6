import Mathlib.Data.List.Nodup
import Mathlib.Data.List.Perm.Basic
import Mathlib.Data.List.Range
import SourceBlocks.Proofs.Tree.Stored

namespace SourceBlocks.Tree

variable {α β : Type}

namespace Shape

lemma children_map (f : α → β) (s : Shape α) : (s.map f).children = s.children.map f := by
  cases s <;>
    simp [map, children, fieldNodes, fields, Field.nodes, Option.toList_map, List.flatMap_map, List.map_flatMap]

lemma map_congr {f g : α → β} {s : Shape α} (h : ∀ c ∈ s.children, f c = g c) : s.map f = s.map g := by
  cases s <;> simp_all [map, children, fieldNodes, fields, Field.nodes] <;> grind [Option.map_congr]

end Shape

namespace Arena

def fieldNodes (a : Arena) (i : Nat) : List Nat := (a[i]?).elim [] fun e => e.construct.fieldNodes

def parts (a : Arena) : List Nat := a.flatMap fun e => e.construct.fieldNodes

def children (a : Arena) (i : Nat) : List Nat := (a[i]?).elim [] fun e => e.construct.children

/-- The nodes are one tree: parts stand before what they are part of, the root stands last, and taken together the
parts of all nodes are the nodes before the root, each once. -/
structure IsTree (a : Arena) (root : Nat) : Prop where
  below : ∀ i, ∀ c ∈ a.fieldNodes i, c < i
  last : a.length = root + 1
  once : a.parts.Perm (List.range root)
  aligned : ∀ e ∈ a, e.construct.Aligned

variable {a : Arena} {root : Nat}

section Below

variable (hbelow : ∀ i, ∀ c ∈ a.children i, c < i)

lemma children_tree (a : Arena) (depth i : Nat) :
    (a.tree (depth + 1) i).children = (a.children i).map (a.tree depth) := by
  rw [tree, children]
  cases a[i]? with
  | none => rfl
  | some e => exact (Shape.children_map _ _).trans (congrArg _ e.construct.children_shape)

include hbelow in
lemma tree_eq_tree {i k k' : Nat} (hk : i < k) (hk' : i < k') : a.tree k i = a.tree k' i := by
  induction i using Nat.strongRecOn generalizing k k' with
  | ind i ih =>
    obtain ⟨k, rfl⟩ := Nat.exists_eq_succ_of_ne_zero (Nat.ne_zero_of_lt hk)
    obtain ⟨k', rfl⟩ := Nat.exists_eq_succ_of_ne_zero (Nat.ne_zero_of_lt hk')
    rw [tree, tree]
    cases he : a[i]? with
    | none => rfl
    | some e =>
      have hparts : e.construct.shape.children = a.children i := by
        rw [Stored.children_shape, children, he]
        rfl
      refine congrArg (Node.mk e.mark) (Shape.map_congr fun c hc => ?_)
      have hlt := hbelow i c (hparts ▸ hc)
      exact ih c hlt (by omega) (by omega)

end Below

lemma exists_of_count_flatMap_eq_one {l : List α} {f : α → List Nat} {i : Nat} (h : (l.flatMap f).count i = 1) :
    ∃ p, ∀ k : Nat, ((l[k]?).elim [] f).count i = if k = p then 1 else 0 := by
  induction l with
  | nil => simp at h
  | cons x l ih =>
    rw [List.flatMap_cons, List.count_append] at h
    by_cases hx : (f x).count i = 0
    · obtain ⟨p, hp⟩ := ih (by omega)
      refine ⟨p + 1, fun k => ?_⟩
      cases k with
      | zero => simpa using hx
      | succ k => simpa using hp k
    · have hrest : (l.flatMap f).count i = 0 := by omega
      refine ⟨0, fun k => ?_⟩
      cases k with
      | zero =>
        simp only [List.getElem?_cons_zero, Option.elim_some, if_true]
        omega
      | succ k =>
        rw [List.count_eq_zero, List.mem_flatMap] at hrest
        simp only [List.getElem?_cons_succ, Nat.add_eq_zero_iff, Nat.one_ne_zero, and_false, if_false,
          List.count_eq_zero]
        cases hy : l[k]? with
        | none => simp
        | some y => exact fun hi => hrest ⟨y, List.mem_of_getElem? hy, hi⟩

lemma lt_length_of_mem_fieldNodes {i c : Nat} (h : c ∈ a.fieldNodes i) : i < a.length := by
  by_contra hi
  rw [fieldNodes, List.getElem?_eq_none (Nat.not_lt.mp hi)] at h
  cases h

lemma fieldNodes_append (a b : Arena) (i : Nat) : fieldNodes (a ++ b) i =
    if i < a.length then a.fieldNodes i else b.fieldNodes (i - a.length) := by
  rw [fieldNodes, List.getElem?_append]
  split_ifs <;> rfl

lemma parts_append (a b : Arena) : parts (a ++ b) = a.parts ++ b.parts := List.flatMap_append

lemma mem_parts_iff {c : Nat} : c ∈ a.parts ↔ ∃ i, c ∈ a.fieldNodes i := by
  rw [parts, List.mem_flatMap]
  constructor
  · rintro ⟨e, he, hc⟩
    obtain ⟨i, hi⟩ := List.mem_iff_getElem?.mp he
    exact ⟨i, by rwa [fieldNodes, hi]⟩
  · rintro ⟨i, hi⟩
    obtain ⟨e, he⟩ : ∃ e, a[i]? = some e := ⟨_, List.getElem?_eq_getElem (lt_length_of_mem_fieldNodes hi)⟩
    rw [fieldNodes, he] at hi
    exact ⟨e, List.mem_of_getElem? he, hi⟩

namespace IsTree

lemma children_perm (h : a.IsTree root) (i : Nat) : (a.children i).Perm (a.fieldNodes i) := by
  rw [children, fieldNodes]
  cases he : a[i]? with
  | none => exact .nil
  | some e => exact Stored.children_perm (h.aligned e (List.mem_of_getElem? he))

lemma children_below (h : a.IsTree root) (i : Nat) : ∀ c ∈ a.children i, c < i :=
  fun c hc => h.below i c ((h.children_perm i).mem_iff.mp hc)

lemma root_not_mem (h : a.IsTree root) (i : Nat) : root ∉ a.children i := by
  intro hroot
  have hlt := h.children_below i root hroot
  have hlen := lt_length_of_mem_fieldNodes ((h.children_perm i).mem_iff.mp hroot)
  have hlast := h.last
  omega

lemma exists_parent (h : a.IsTree root) {i : Nat} (hi : i < root) :
    ∃ p ≤ root, i < p ∧ ∀ k, (a.children k).count i = if k = p then 1 else 0 := by
  have hcount : a.parts.count i = 1 := by
    rw [h.once.count_eq]
    exact List.count_eq_one_of_mem List.nodup_range (List.mem_range.mpr hi)
  obtain ⟨p, hp⟩ := exists_of_count_flatMap_eq_one hcount
  have hmem : i ∈ a.fieldNodes p := by
    rw [← List.count_pos_iff, fieldNodes, hp p, if_pos rfl]
    exact Nat.one_pos
  have hlen := lt_length_of_mem_fieldNodes hmem
  have hlast := h.last
  refine ⟨p, by omega, h.below p i hmem, fun k => ?_⟩
  rw [(h.children_perm k).count_eq]
  exact hp k

end IsTree

end Arena

end SourceBlocks.Tree
