import SourceBlocks.Proofs.Tree.Layout

/-! A tree laid out in a row is one tree. What is laid out and not yet part of something is handed
up, so that in the end nothing is left over but the root. -/

namespace SourceBlocks.Tree

structure Laid (a : Arena) (new : List Entry) (ids : List Nat) : Prop where
  once : (ids ++ Arena.parts new).Perm (List.range' a.length new.length)
  below : ∀ j, ∀ c ∈ Arena.fieldNodes new j, c < a.length + j
  aligned : ∀ e ∈ new, e.construct.Aligned

namespace Laid

variable {a : Arena} {new new₁ new₂ es : List Entry} {ids ids₁ ids₂ : List Nat}

lemma nil : Laid a [] [] := ⟨.nil, by simp [Arena.fieldNodes], by simp⟩

lemma lt_of_mem (h : Laid a new ids) {c : Nat} (hc : c ∈ ids) : c < a.length + new.length := by
  have hmem := h.once.mem_iff.mp (List.mem_append_left _ hc)
  rw [List.mem_range'_1] at hmem
  exact hmem.2

lemma perm (h : Laid a new ids) (hids : ids₁.Perm ids) : Laid a new ids₁ :=
  ⟨(hids.append_right _).trans h.once, h.below, h.aligned⟩

lemma append (h₁ : Laid a new₁ ids₁) (h₂ : Laid (a ++ new₁) new₂ ids₂) : Laid a (new₁ ++ new₂) (ids₁ ++ ids₂) where
  once := by
    rw [List.length_append, ← List.range'_append_1, Arena.parts_append]
    refine .trans ?_ (h₁.once.append (List.length_append ▸ h₂.once))
    rw [List.append_assoc, List.append_assoc]
    exact .append_left _ (List.perm_append_comm_assoc _ _ _)
  below j c hc := by
    rw [Arena.fieldNodes_append] at hc
    split_ifs at hc with hj
    · exact h₁.below j c hc
    · have hlt := h₂.below _ c hc
      rw [List.length_append] at hlt
      omega
  aligned := List.forall_mem_append.mpr ⟨h₁.aligned, h₂.aligned⟩

lemma pushAll (h : Laid a new (Arena.parts es)) (hes : ∀ e ∈ es, e.construct.Aligned) :
    Laid a (new ++ es) (List.range' (a ++ new).length es.length) where
  once := by
    rw [List.length_append, List.length_append, ← List.range'_append_1, Arena.parts_append]
    refine List.perm_append_comm.trans (.append_right _ ?_)
    exact List.perm_append_comm.trans h.once
  below j c hc := by
    rw [Arena.fieldNodes_append] at hc
    split_ifs at hc with hj
    · exact h.below j c hc
    · have hlt := h.lt_of_mem (Arena.mem_parts_iff.mpr ⟨_, hc⟩)
      omega
  aligned := List.forall_mem_append.mpr ⟨h.aligned, hes⟩

end Laid

structure View (ρ : Type) where
  parts : ρ → List Nat
  node : Arena → Nat → ρ → Node
  Sound : ρ → Prop

def View.placed : View Nat := ⟨fun i => [i], Arena.tree, fun _ => True⟩

def View.pending : View Entry where
  parts e := e.construct.fieldNodes
  node a depth e := .mk e.mark (e.construct.shape.map (a.tree depth))
  Sound e := e.construct.Aligned

def Lays {ρ : Type} (v : View ρ) (x : StateM Arena (List ρ)) (ns : List Node) : Prop :=
  ∀ a : Arena, ∃ new, (a.after x).2 = a ++ new ∧ Laid a new ((a.after x).1.flatMap v.parts) ∧
    (∀ r ∈ (a.after x).1, v.Sound r) ∧
    ∀ b depth, (a ++ new).length ≤ depth → (a.after x).1.map (v.node (a ++ new ++ b) depth) = ns

namespace Lays

variable {ρ : Type} {v : View ρ} {ms ns : List Node}

lemma nil : Lays v (pure []) [] := fun a =>
  ⟨[], (List.append_nil a).symm, .nil, fun _ h => absurd h List.not_mem_nil, fun _ _ _ => rfl⟩

lemma append {x y : StateM Arena (List ρ)} (hx : Lays v x ms) (hy : Lays v y ns) :
    Lays v (do return (← x) ++ (← y)) (ms ++ ns) := by
  intro a
  obtain ⟨new₁, hrun₁, hlaid₁, hsound₁, hnode₁⟩ := hx a
  obtain ⟨new₂, hrun₂, hlaid₂, hsound₂, hnode₂⟩ := hy (a ++ new₁)
  have hafter : a.after (do return (← x) ++ (← y)) =
      ((a.after x).1 ++ ((a.after x).2.after y).1, ((a.after x).2.after y).2) := rfl
  simp only [hafter, hrun₁, hrun₂, List.flatMap_append]
  refine ⟨new₁ ++ new₂, List.append_assoc _ _ _, hlaid₁.append hlaid₂, List.forall_mem_append.mpr ⟨hsound₁, hsound₂⟩,
    fun b depth hdepth => ?_⟩
  rw [← List.append_assoc] at hdepth ⊢
  have hle : (a ++ new₁).length ≤ depth := by
    rw [List.length_append] at hdepth
    omega
  rw [List.map_append, hnode₂ b depth hdepth, List.append_assoc (a ++ new₁), hnode₁ (new₂ ++ b) depth hle]

end Lays

lemma after_pushAll (es : List Entry) (a : Arena) :
    a.after (pushAll es) = (List.range' a.length es.length, a ++ es) := by
  induction es generalizing a with
  | nil => rw [List.append_nil]; rfl
  | cons e es ih =>
    have hcons : pushAll (e :: es) = do return (← Arena.push e) :: (← pushAll es) := List.mapM_cons
    have hafter : a.after (do return (← Arena.push e) :: (← pushAll es)) =
        (a.length :: (Arena.after (a ++ [e]) (pushAll es)).1, (Arena.after (a ++ [e]) (pushAll es)).2) := rfl
    rw [hcons, hafter, ih]
    simp only [List.length_append, List.length_cons, List.length_nil, List.append_assoc, List.singleton_append,
      List.range'_succ, Nat.zero_add]

lemma map_tree_range' {pre es b a : Arena} (h : a = pre ++ es ++ b) (depth : Nat) :
    (List.range' pre.length es.length).map (a.tree (depth + 1)) = es.map (View.pending.node a depth) := by
  induction es generalizing pre with
  | nil => rfl
  | cons e es ih =>
    have hget : a[pre.length]? = some e := by simp [h]
    have hrest := @ih (pre ++ [e]) (by simp [h])
    rw [List.length_append, List.length_singleton] at hrest
    rw [List.length_cons, List.range'_succ, List.map_cons, List.map_cons, hrest, Arena.tree, hget]
    rfl

lemma Lays.pushAll {x : StateM Arena (List Entry)} {ns : List Node} (hx : Lays .pending x ns) :
    Lays .placed (x >>= pushAll) ns := by
  intro a
  obtain ⟨new, hrun, hlaid, hsound, hnode⟩ := hx a
  have hids : ∀ ids : List Nat, ids.flatMap View.placed.parts = ids := List.flatMap_singleton'
  have hafter : a.after (x >>= Tree.pushAll) = (a.after x).2.after (Tree.pushAll (a.after x).1) := rfl
  simp only [hafter, hrun, after_pushAll, hids]
  refine ⟨new ++ (a.after x).1, List.append_assoc _ _ _, hlaid.pushAll hsound, fun _ _ => trivial, fun b depth hdepth => ?_⟩
  rw [← List.append_assoc] at hdepth ⊢
  -- a node that is put behind its parts takes one of the depth, and only if there is one is the depth not zero
  cases hes : (a.after x).1 with
  | nil => simpa [hes] using hnode b (a ++ new).length (Nat.le_refl _)
  | cons e es =>
    have hlt : (a ++ new).length < depth := by
      rw [List.length_append, hes, List.length_cons] at hdepth
      omega
    obtain ⟨depth, rfl⟩ := Nat.exists_eq_succ_of_ne_zero (Nat.ne_zero_of_lt hlt)
    rw [← hes, ← hnode ((a.after x).1 ++ b) depth (Nat.lt_succ_iff.mp hlt), ← List.append_assoc]
    exact map_tree_range' rfl depth

lemma lowerPending_cons (n : Node) (ns : List Node) :
    lowerPending (n :: ns) = do return (← lowerPending [n]) ++ (← lowerPending ns) := by
  cases n
  simp [lowerPending]

lemma lowerAll_singleton (n : Node) : lowerAll [n] = lowerPending [n] >>= pushAll := by
  cases n
  simp [lowerAll, lowerPending, pushAll, Node.lower]

lemma lays_lowerPending {ns : List Node} (h : ∀ n ∈ ns, Lays .pending (lowerPending [n]) [n]) :
    Lays .pending (lowerPending ns) ns := by
  induction ns with
  | nil => exact .nil
  | cons n ns ih =>
    obtain ⟨hn, hns⟩ := List.forall_mem_cons.mp h
    rw [lowerPending_cons]
    exact hn.append (ih hns)

lemma lays_lowerAll {ns : List Node} (h : ∀ n ∈ ns, Lays .pending (lowerPending [n]) [n]) :
    Lays .placed (lowerAll ns) ns := by
  induction ns with
  | nil => exact .nil
  | cons n ns ih =>
    obtain ⟨hn, hns⟩ := List.forall_mem_cons.mp h
    rw [← List.singleton_append, lowerAll_append, lowerAll_singleton]
    exact hn.pushAll.append (ih hns)

lemma Shape.defaultsLast_map {α β : Type} (f : α → β) (s : Shape α) : (s.map f).DefaultsLast ↔ s.DefaultsLast := by
  cases s with
  | arguments ps vararg ks kwarg => simp [Shape.map, Shape.DefaultsLast, Tree.DefaultsLast, List.pairwise_map]
  | _ => exact .rfl

lemma lays_node {n : Node} (hlast : n.shape.DefaultsLast)
    (h : ∀ c ∈ n.children, Lays .pending (lowerPending [c]) [c]) : Lays .pending (lowerPending [n]) [n] := by
  obtain ⟨mark, s⟩ := n
  change s.DefaultsLast at hlast
  change ∀ c ∈ s.children, _ at h
  rw [← s.front_append_clauses, List.forall_mem_append] at h
  have hparts : Lays .placed (Shape.children <$> s.lower) s.children := by
    rw [s.children_lower, ← s.front_append_clauses]
    exact (lays_lowerAll h.1).append (lays_lowerPending h.2).pushAll
  intro a
  obtain ⟨new, hrun, hlaid, -, hnode⟩ := hparts a
  have hmap : ∀ b depth, (a ++ new).length ≤ depth → (a.after s.lower).1.map (Arena.tree (a ++ new ++ b) depth) = s :=
    fun b depth hdepth => Shape.map_lower (hnode b depth hdepth)
  -- the record gives the construct back, as a parameter has a default in the row exactly if it has one in the tree
  have hshape : (Stored.ofShape (a.after s.lower).1).shape = (a.after s.lower).1 := by
    rw [← hmap [] _ (Nat.le_refl _), Shape.defaultsLast_map] at hlast
    exact Stored.shape_ofShape hlast
  have hchildren : a.after (Shape.children <$> s.lower) = ((a.after s.lower).1.children, (a.after s.lower).2) := rfl
  have hpending : a.after (lowerPending [.mk mark s]) = ([⟨mark, .ofShape (a.after s.lower).1⟩], (a.after s.lower).2) := rfl
  simp only [hchildren, View.placed, List.flatMap_singleton'] at hrun hlaid
  simp only [hpending, List.flatMap_singleton, List.map_singleton, View.pending, hshape, Stored.fieldNodes_ofShape]
  refine ⟨new, hrun, hlaid.perm (Shape.children_perm _).symm, ?_, fun b depth hdepth => ?_⟩
  · simpa using Stored.aligned_ofShape _
  · rw [hmap b depth hdepth]

lemma lays_of_defaultsLast {n : Node} (h : ∀ m ∈ n.walk, m.shape.DefaultsLast) :
    Lays .pending (lowerPending [n]) [n] := by
  induction n using Node.ind with
  | h n ih =>
    rw [Node.walk_eq, List.forall_mem_cons] at h
    refine lays_node h.1 fun c hc => ih c hc fun m hm => h.2 m ?_
    exact List.mem_flatMap.mpr ⟨c, hc, hm⟩

lemma Laid.isTree {new : Arena} {root : Nat} (h : Laid [] new [root]) : new.IsTree root := by
  have hbelow : ∀ j, ∀ c ∈ new.fieldNodes j, c < j := fun j c hc => by simpa using h.below j c hc
  have honce := h.once
  have hlast : new.length = root + 1 := by
    have hpos : root < new.length := by simpa using h.lt_of_mem List.mem_cons_self
    have hmem : new.length - 1 ∈ [root] ++ new.parts := by
      rw [honce.mem_iff, List.mem_range'_1, List.length_nil]
      omega
    -- the last node is not part of anything, as no node stands behind it
    rcases List.mem_append.mp hmem with hroot | hpart
    · rw [List.mem_singleton] at hroot
      omega
    · obtain ⟨j, hj⟩ := Arena.mem_parts_iff.mp hpart
      have hlt := hbelow j _ hj
      have hlen := Arena.lt_length_of_mem_fieldNodes hj
      omega
  refine ⟨hbelow, hlast, ?_, h.aligned⟩
  rw [hlast, List.length_nil, ← List.range_eq_range', List.range_succ] at honce
  exact (honce.trans List.perm_append_comm).cons_inv

lemma Node.exists_lower {n : Node} (h : ∀ m ∈ n.walk, m.shape.DefaultsLast) :
    ∃ root a, Arena.after [] n.lower = (root, a) ∧ a.IsTree root ∧ a.tree a.length root = n := by
  have hlays : Lays .placed (lowerAll [n]) [n] := by
    rw [lowerAll_singleton]
    exact (lays_of_defaultsLast h).pushAll
  obtain ⟨a, hrun, hlaid, -, hnode⟩ := hlays []
  have hone : Arena.after [] (lowerAll [n]) = ([(Arena.after [] n.lower).1], (Arena.after [] n.lower).2) := rfl
  rw [hone, List.nil_append] at hrun
  rw [hone] at hlaid
  refine ⟨(Arena.after [] n.lower).1, a, Prod.ext rfl hrun, hlaid.isTree, ?_⟩
  simpa [hone, View.placed] using hnode [] a.length (Nat.le_refl _)

lemma Node.size_eq_length_walk (n : Node) : n.size = n.walk.length := by
  induction n using Node.ind with
  | h n ih =>
    have hsum : ∀ ns : List Node, (∀ c ∈ ns, c.size = c.walk.length) →
        ns.foldr (fun c k => c.size + k) 1 = (ns.flatMap walk).length + 1 := by
      intro ns hns
      induction ns with
      | nil => rfl
      | cons c ns ihns =>
        obtain ⟨hc, hrest⟩ := List.forall_mem_cons.mp hns
        rw [List.foldr_cons, ihns hrest, hc, List.flatMap_cons, List.length_append, Nat.add_assoc]
    have hcomm : LeftCommutative fun (c : Node) k => c.size + k := ⟨fun _ _ _ => Nat.add_left_comm _ _ _⟩
    have hperm : n.children.Perm n.fieldNodes := n.shape.children_perm
    rw [size_eq, ← hperm.foldr_eq, hsum _ ih, walk_eq, List.length_cons]

end SourceBlocks.Tree
