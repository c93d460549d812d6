import SourceBlocks.Proofs.Tree.Arena

/-! Walks with a stack. An iterator takes the last number from a stack, gives it, and puts the parts
of that node on the stack, the first of them last. -/

namespace SourceBlocks.Tree

structure Iterator (σ ε : Type) where
  next? : σ → Option (ε × σ)
  weight : σ → Nat
  lighter : ∀ {s : σ} {x : ε} {s' : σ}, next? s = some (x, s') → weight s' < weight s

namespace Iterator

variable {σ ε : Type}

def toList (it : Iterator σ ε) (s : σ) : List ε :=
  match _h : it.next? s with
  | none => []
  | some (x, s') => x :: it.toList s'
termination_by it.weight s
decreasing_by exact it.lighter _h

lemma toList_eq {it : Iterator σ ε} {rest : σ → List ε} (hnone : ∀ s, it.next? s = none → rest s = [])
    (hsome : ∀ s x s', it.next? s = some (x, s') → rest s = x :: rest s') (s : σ) : it.toList s = rest s := by
  fun_induction toList it s with
  | case1 s h => exact (hnone s h).symm
  | case2 s x s' h ih => rw [ih, hsome s x s' h]

end Iterator

structure Ranked where
  row : Arena
  below : ∀ i, ∀ c ∈ row.children i, c < i

namespace Ranked

variable (t : Ranked)

def preorder (i : Nat) : List Nat := i :: (t.row.children i).attach.flatMap fun c => preorder c.1
termination_by i
decreasing_by exact t.below i c.1 c.2

lemma preorder_eq (i : Nat) : t.preorder i = i :: (t.row.children i).flatMap t.preorder := by
  rw [preorder]
  simp [List.flatMap_subtype]

lemma le_of_mem_preorder {i j : Nat} (h : j ∈ t.preorder i) : j ≤ i := by
  induction i using Nat.strongRecOn with
  | ind i ih =>
    rw [preorder_eq, List.mem_cons, List.mem_flatMap] at h
    rcases h with rfl | ⟨c, hc, h⟩
    · exact Nat.le_refl j
    · have hlt := t.below i c hc
      exact Nat.le_of_lt (Nat.lt_of_le_of_lt (ih c hlt h) hlt)

def node (i : Nat) : Node := t.row.tree (i + 1) i

lemma children_node (i : Nat) : (t.node i).children = (t.row.children i).map t.node := by
  rw [node, Arena.children_tree]
  apply List.map_congr_left
  intro c hc
  exact Arena.tree_eq_tree t.below (t.below i c hc) (Nat.lt_succ_self c)

lemma map_node_preorder (i : Nat) : (t.preorder i).map t.node = (t.node i).walk := by
  induction i using Nat.strongRecOn with
  | ind i ih =>
    rw [preorder_eq, Node.walk_eq, children_node, List.map_cons, List.map_flatMap, List.flatMap_map]
    congr 1
    apply List.flatMap_congr
    intro c hc
    exact ih c (t.below i c hc)

def step? (stack : List Nat) : Option (Nat × List Nat) :=
  stack.getLast?.map fun i => (i, stack.dropLast ++ (t.row.children i).reverse)

def ahead (stack : List Nat) : List Nat := stack.reverse.flatMap t.preorder

lemma eq_nil_of_step? {stack : List Nat} (h : t.step? stack = none) : stack = [] := by
  rwa [step?, Option.map_eq_none_iff, List.getLast?_eq_none_iff] at h

lemma ahead_of_step? {stack stack' : List Nat} {i : Nat} (h : t.step? stack = some (i, stack')) :
    t.ahead stack = i :: t.ahead stack' := by
  obtain ⟨j, hj, heq⟩ := Option.map_eq_some_iff.mp h
  obtain ⟨rfl, rfl⟩ := Prod.mk.inj heq
  obtain ⟨stack, rfl⟩ := List.getLast?_eq_some_iff.mp hj
  rw [ahead, ahead, List.dropLast_concat, List.reverse_append, List.reverse_append, List.reverse_reverse,
    List.reverse_singleton, List.singleton_append, List.flatMap_cons, preorder_eq, List.flatMap_append,
    List.cons_append]

def walk : Iterator (List Nat) Nat where
  next? := t.step?
  weight stack := (t.ahead stack).length
  lighter h := by
    rw [t.ahead_of_step? h, List.length_cons]
    exact Nat.lt_succ_self _

lemma toList_walk (stack : List Nat) : t.walk.toList stack = t.ahead stack := by
  apply Iterator.toList_eq
  · intro s hs
    rw [t.eq_nil_of_step? hs]
    rfl
  · exact fun s i s' h => t.ahead_of_step? h

lemma toList_walk_singleton (i : Nat) : t.walk.toList [i] = t.preorder i := by
  rw [toList_walk, ahead, List.reverse_singleton, List.flatMap_singleton]

lemma preorder_perm (i : Nat) : (t.preorder i).Perm (i :: (t.preorder i).flatMap t.row.children) := by
  induction i using Nat.strongRecOn with
  | ind i ih =>
    have hall : ∀ cs : List Nat, (∀ c ∈ cs, c < i) →
        (cs.flatMap t.preorder).Perm (cs ++ (cs.flatMap t.preorder).flatMap t.row.children) := by
      intro cs hcs
      induction cs with
      | nil => exact .nil
      | cons c cs ihcs =>
        obtain ⟨hc, hcs⟩ := List.forall_mem_cons.mp hcs
        rw [List.flatMap_cons, List.flatMap_append]
        exact ((ih c hc).append (ihcs hcs)).trans (.cons c (List.perm_append_comm_assoc _ _ _))
    rw [preorder_eq, List.flatMap_cons]
    exact .cons i (hall _ (t.below i))

end Ranked

namespace Arena.IsTree

variable {a : Arena} {root : Nat}

lemma count_flatMap_eq_count {w : List Nat} {f : Nat → List Nat} {i p : Nat}
    (h : ∀ k, (f k).count i = if k = p then 1 else 0) : (w.flatMap f).count i = w.count p := by
  induction w with
  | nil => rfl
  | cons k w ih =>
    rw [List.flatMap_cons, List.count_append, ih, h, List.count_cons, Nat.add_comm]
    simp

def ranked (h : a.IsTree root) : Ranked := ⟨a, h.children_below⟩

lemma count_preorder (h : a.IsTree root) {i : Nat} (hi : i ≤ root) : (h.ranked.preorder root).count i = 1 := by
  induction hd : root - i using Nat.strongRecOn generalizing i with
  | ind d ih =>
    have hperm : (h.ranked.preorder root).Perm (root :: (h.ranked.preorder root).flatMap a.children) :=
      h.ranked.preorder_perm root
    rw [hperm.count_eq, List.count_cons]
    rcases Nat.lt_or_eq_of_le hi with hlt | rfl
    · obtain ⟨p, hp, hip, hcount⟩ := h.exists_parent hlt
      rw [count_flatMap_eq_count hcount, ih (root - p) (by omega) hp rfl]
      simp [Nat.ne_of_gt hlt]
    · have hnone : i ∉ (h.ranked.preorder i).flatMap a.children := by
        rw [List.mem_flatMap]
        rintro ⟨k, -, hk⟩
        exact h.root_not_mem k hk
      rw [List.count_eq_zero.mpr hnone]
      simp

lemma walk_perm (h : a.IsTree root) : (h.ranked.walk.toList [root]).Perm (List.range a.length) := by
  rw [Ranked.toList_walk_singleton]
  have hle : ∀ j ∈ h.ranked.preorder root, j ≤ root := fun j => h.ranked.le_of_mem_preorder
  have hnodup : (h.ranked.preorder root).Nodup := List.nodup_iff_count_le_one.mpr fun i => by
    by_cases hi : i ∈ h.ranked.preorder root
    · exact Nat.le_of_eq (h.count_preorder (hle i hi))
    · simp [List.count_eq_zero.mpr hi]
  rw [List.perm_ext_iff_of_nodup hnodup List.nodup_range, h.last]
  intro i
  rw [List.mem_range, Nat.lt_succ_iff]
  refine ⟨hle i, fun hi => ?_⟩
  rw [← List.count_pos_iff, h.count_preorder hi]
  exact Nat.one_pos

lemma map_tree_walk (h : a.IsTree root) :
    (h.ranked.walk.toList [root]).map (a.tree a.length) = (a.tree a.length root).walk := by
  have hnode : ∀ i < a.length, a.tree a.length i = h.ranked.node i := fun i hi =>
    tree_eq_tree h.children_below hi (Nat.lt_succ_self i)
  have hroot : root < a.length := by rw [h.last]; exact Nat.lt_succ_self root
  rw [hnode root hroot, ← Ranked.map_node_preorder, ← Ranked.toList_walk_singleton]
  refine List.map_congr_left fun i hi => hnode i ?_
  rw [← List.mem_range, ← h.walk_perm.mem_iff]
  exact hi

end Arena.IsTree

lemma Shape.stringValue?_map {α β : Type} (f : α → β) (s : Shape α) : (s.map f).stringValue? = s.stringValue? := by
  cases s <;> rfl

structure Ref where
  tree : Ranked
  id : Nat

namespace Ref

def node (r : Ref) : Node := r.tree.node r.id

def stringValue? (r : Ref) : Option String := r.tree.row[r.id]?.bind fun e => e.construct.shape.stringValue?

lemma stringValue?_eq (r : Ref) : r.stringValue? = r.node.shape.stringValue? := by
  rw [stringValue?, node, Ranked.node, Arena.tree]
  cases r.tree.row[r.id]? with
  | none => rfl
  | some e => exact (Shape.stringValue?_map _ _).symm

def strings (r : Ref) : List Ref :=
  ((r.tree.walk.toList [r.id]).map (Ref.mk r.tree)).filter fun m => m.stringValue?.isSome

lemma strings_eq (r : Ref) :
    r.strings = ((r.tree.preorder r.id).map (Ref.mk r.tree)).filter fun m => m.stringValue?.isSome := by
  rw [strings, Ranked.toList_walk_singleton]

lemma map_node_strings (r : Ref) :
    r.strings.map node = r.node.walk.filter fun n => n.shape.stringValue?.isSome := by
  have hnodes : (r.tree.preorder r.id).map (node ∘ Ref.mk r.tree) = r.node.walk := r.tree.map_node_preorder r.id
  have hstring : (fun m : Ref => m.stringValue?.isSome) = (fun n => n.shape.stringValue?.isSome) ∘ node := by
    funext m
    rw [stringValue?_eq, Function.comp_apply]
  rw [strings_eq, hstring, ← List.filter_map, List.map_map, hnodes]

end Ref

structure Pending where
  statements : List Ref
  strings : List Ref

namespace Pending

def next? : List Ref → List Ref → Option (Ref × Pending)
  | statements, s :: strings => some (s, ⟨statements, strings⟩)
  | [], [] => none
  | r :: statements, [] => next? statements r.strings

def ahead (p : Pending) : List Ref := p.strings ++ p.statements.flatMap Ref.strings

lemma ahead_eq_nil {statements strings : List Ref} (h : next? statements strings = none) :
    ahead ⟨statements, strings⟩ = [] := by
  fun_induction next? statements strings with
  | case1 => cases h
  | case2 => rfl
  | case3 r statements ih => exact ih h

lemma ahead_eq_cons {statements strings : List Ref} {s : Ref} {p : Pending}
    (h : next? statements strings = some (s, p)) : ahead ⟨statements, strings⟩ = s :: p.ahead := by
  fun_induction next? statements strings with
  | case1 statements s strings =>
    obtain ⟨rfl, rfl⟩ := Prod.mk.inj (Option.some.inj h)
    rfl
  | case2 => cases h
  | case3 r statements ih => exact ih h

def literals : Iterator Pending Ref where
  next? p := next? p.statements p.strings
  weight p := p.ahead.length
  lighter h := by
    rw [ahead_eq_cons h, List.length_cons]
    exact Nat.lt_succ_self _

lemma toList_literals (p : Pending) : literals.toList p = p.ahead :=
  Iterator.toList_eq (fun _ => ahead_eq_nil) (fun _ _ _ => ahead_eq_cons) p

lemma toList_literals_start (statements : List Ref) :
    literals.toList ⟨statements, []⟩ = statements.flatMap Ref.strings := toList_literals _

end Pending

end SourceBlocks.Tree
