import Mathlib.Data.List.Perm.Basic
import SourceBlocks.Tree.Arena

/-! Constructs in lists. Where a construct keeps pairs, its record keeps two lists: keys and values,
parameters and defaults. -/

namespace SourceBlocks.Tree

variable {α β : Type}

namespace Stored

/-- Lists that belong together are as long as each other, and no default is left over. -/
def Aligned : Stored α → Prop
  | dict keys values => keys.length = values.length
  | arguments args _ keywordOnly keywordDefaults _ defaults =>
    defaults.length ≤ args.length ∧ keywordDefaults.length = keywordOnly.length
  | plain _ => True

instance (t : Stored α) : Decidable t.Aligned := match t with
  | dict keys values => inferInstanceAs (Decidable (keys.length = values.length))
  | arguments args _ keywordOnly keywordDefaults _ defaults =>
    inferInstanceAs (Decidable (defaults.length ≤ args.length ∧ keywordDefaults.length = keywordOnly.length))
  | plain _ => inferInstanceAs (Decidable True)

def fieldNodes : Stored α → List α
  | dict keys values => keys.flatMap Option.toList ++ values
  | arguments args _ keywordOnly keywordDefaults _ defaults =>
    args ++ keywordOnly ++ keywordDefaults.flatMap Option.toList ++ defaults
  | plain s => s.fieldNodes

def children : Stored α → List α
  | dict keys values => (keys.zip values).flatMap fun e => e.1.toList ++ [e.2]
  | arguments args _ keywordOnly keywordDefaults _ defaults =>
    let without := args.length - defaults.length
    args.take without ++ ((args.drop without).zip defaults).flatMap (fun p => [p.1, p.2]) ++
      (keywordOnly.zip keywordDefaults).flatMap fun p => p.1 :: p.2.toList
  | plain s => s.children

def ofShape : Shape α → Stored α
  | .dict entries => .dict (entries.map Prod.fst) (entries.map Prod.snd)
  | .arguments ps vararg keywordOnly kwarg =>
    .arguments (ps.map Prod.fst) vararg (keywordOnly.map Prod.fst) (keywordOnly.map Prod.snd) kwarg
      (ps.filterMap Prod.snd)
  | s => .plain s

end Stored

section Pairs

variable {args defaults : List α} {ps : List (α × Option α)}

lemma flatMap_pair_perm (ps : List (α × Option α)) :
    (ps.flatMap fun p => p.1 :: p.2.toList).Perm (ps.map Prod.fst ++ (ps.map Prod.snd).flatMap Option.toList) := by
  induction ps with
  | nil => exact .nil
  | cons p ps ih =>
    simp only [List.flatMap_cons, List.map_cons, List.cons_append]
    refine .cons _ ((ih.append_left _).trans ?_)
    rw [← List.append_assoc, ← List.append_assoc]
    exact List.perm_append_comm.append_right _

lemma flatMap_entry_perm (es : List (Option α × α)) :
    (es.flatMap fun e => e.1.toList ++ [e.2]).Perm ((es.map Prod.fst).flatMap Option.toList ++ es.map Prod.snd) := by
  induction es with
  | nil => exact .nil
  | cons e es ih =>
    simp only [List.flatMap_cons, List.map_cons, List.append_assoc]
    refine .append_left _ ((ih.cons e.2).trans ?_)
    exact List.perm_middle.symm

lemma map_fst_pairLast (h : defaults.length ≤ args.length) : (pairLast args defaults).map Prod.fst = args := by
  have hlen : (args.drop (args.length - defaults.length)).length ≤ (defaults.map some).length := by
    rw [List.length_drop, List.length_map]
    omega
  have hfst : (Prod.fst ∘ fun a : α => (a, (none : Option α))) = id := rfl
  rw [pairLast, List.map_append, List.map_map, List.map_fst_zip hlen, hfst, List.map_id, List.take_append_drop]

lemma flatMap_snd_pairLast (h : defaults.length ≤ args.length) :
    ((pairLast args defaults).map Prod.snd).flatMap Option.toList = defaults := by
  have hlen : (defaults.map some).length ≤ (args.drop (args.length - defaults.length)).length := by
    rw [List.length_drop, List.length_map]
    omega
  rw [pairLast, List.map_append, List.map_map, List.map_snd_zip hlen, List.flatMap_append, List.flatMap_map,
    List.flatMap_map]
  simp

lemma flatMap_pairLast (args defaults : List α) : (pairLast args defaults).flatMap (fun p => p.1 :: p.2.toList) =
    args.take (args.length - defaults.length) ++
      ((args.drop (args.length - defaults.length)).zip defaults).flatMap fun p => [p.1, p.2] := by
  rw [pairLast, List.flatMap_append, List.flatMap_map, List.zip_map_right, List.flatMap_map]
  exact congrArg (· ++ _) (List.flatMap_singleton' _)

end Pairs

lemma Shape.children_perm (s : Shape α) : s.children.Perm s.fieldNodes := by
  cases s with
  | functionDef name decorators args returns body isAsync =>
    have hfields : (functionDef name decorators args returns body isAsync).fieldNodes =
        args :: (body ++ (decorators ++ returns.toList)) := by
      simp [fieldNodes, fields, Field.nodes]
    rw [hfields, children, List.append_assoc, List.cons_append]
    refine List.perm_middle.trans (.cons _ ?_)
    rw [← List.append_assoc]
    exact List.perm_append_comm
  | classDef name decorators bases body =>
    have hfields : (classDef name decorators bases body).fieldNodes = (bases ++ body) ++ decorators := by
      simp [fieldNodes, fields, Field.nodes]
    rw [hfields, children, List.append_assoc]
    exact List.perm_append_comm
  | ifExp test body orelse => exact .swap _ _ _
  | dict entries => simpa [children, fieldNodes, fields, Field.nodes] using flatMap_entry_perm entries
  | arguments ps vararg ks kwarg =>
    have hfields : (arguments ps vararg ks kwarg).fieldNodes = ps.map Prod.fst ++
        ((ks.map Prod.fst ++ (ks.map Prod.snd).flatMap Option.toList) ++ (ps.map Prod.snd).flatMap Option.toList) := by
      simp [fieldNodes, fields, Field.nodes]
    rw [hfields, children, List.flatMap_append]
    refine ((flatMap_pair_perm ps).append (flatMap_pair_perm ks)).trans ?_
    rw [List.append_assoc]
    exact .append_left _ List.perm_append_comm
  | _ => exact .refl _

namespace Stored

lemma children_shape (t : Stored α) : t.shape.children = t.children := by
  cases t with
  | dict keys values => rfl
  | arguments args vararg keywordOnly keywordDefaults kwarg defaults =>
    rw [shape, Shape.children, List.flatMap_append, flatMap_pairLast, children]
  | plain s => rfl

lemma fieldNodes_shape {t : Stored α} (h : t.Aligned) : t.shape.fieldNodes = t.fieldNodes := by
  cases t with
  | dict keys values =>
    have hlen : keys.length = values.length := h
    simp [shape, fieldNodes, Shape.fieldNodes, Shape.fields, Field.nodes, List.map_fst_zip (Nat.le_of_eq hlen),
      List.map_snd_zip (Nat.le_of_eq hlen.symm)]
  | arguments args vararg keywordOnly keywordDefaults kwarg defaults =>
    obtain ⟨hargs, hkeyword⟩ := h
    simp [shape, fieldNodes, Shape.fieldNodes, Shape.fields, Field.nodes, map_fst_pairLast hargs,
      flatMap_snd_pairLast hargs, List.map_fst_zip (Nat.le_of_eq hkeyword.symm),
      List.map_snd_zip (Nat.le_of_eq hkeyword)]
  | plain s => rfl

lemma children_perm {t : Stored α} (h : t.Aligned) : t.children.Perm t.fieldNodes := by
  rw [← children_shape, ← fieldNodes_shape h]
  exact t.shape.children_perm

/-- Where the lists of a record are aligned, its parts in the order of the source are those of its fields, each as
often as there, and both are the parts of the construct that is recorded. -/
theorem children_perm_fieldNodes (t : Stored α) (h : t.Aligned) :
    t.shape.children = t.children ∧ t.shape.fieldNodes = t.fieldNodes ∧ t.children.Perm t.fieldNodes :=
  ⟨t.children_shape, fieldNodes_shape h, children_perm h⟩

theorem children_perm_fieldNodes_parameters :
    (arguments [1, 2] none [4, 5] [none, some 6] none [3]).Aligned ∧
      (arguments [1, 2] none [4, 5] [none, some 6] none [3]).children = [1, 2, 3, 4, 5, 6] ∧
      [1, 2, 3, 4, 5, 6].Perm (arguments [1, 2] none [4, 5] [none, some 6] none [3]).fieldNodes :=
  ⟨by decide, by decide,
    (children_perm_fieldNodes (arguments [1, 2] none [4, 5] [none, some 6] none [3]) (by decide)).2.2⟩

end Stored

/-! Only where defaults stand last are they found again by counting from the back. -/

def DefaultsLast (ps : List (α × Option α)) : Prop := ps.Pairwise fun p q => p.2.isSome → q.2.isSome

lemma filterMap_snd_of_isSome {ps : List (α × Option α)} (h : ∀ p ∈ ps, p.2.isSome) :
    (ps.filterMap Prod.snd).map some = ps.map Prod.snd := by
  induction ps with
  | nil => rfl
  | cons p ps ih =>
    obtain ⟨hp, hps⟩ := List.forall_mem_cons.mp h
    obtain ⟨d, hd⟩ := Option.isSome_iff_exists.mp hp
    rw [List.filterMap_cons_some hd, List.map_cons, List.map_cons, ih hps, hd]

lemma pairLast_of_defaultsLast {ps : List (α × Option α)} (h : DefaultsLast ps) :
    pairLast (ps.map Prod.fst) (ps.filterMap Prod.snd) = ps := by
  induction ps with
  | nil => rfl
  | cons p ps ih =>
    obtain ⟨hp, hps⟩ := List.pairwise_cons.mp h
    obtain ⟨a, d⟩ := p
    cases d with
    | none =>
      have hle := List.length_filterMap_le Prod.snd ps
      have hlen : (ps.map Prod.fst).length + 1 - (ps.filterMap Prod.snd).length =
          (ps.map Prod.fst).length - (ps.filterMap Prod.snd).length + 1 := by
        rw [List.length_map]
        omega
      rw [List.filterMap_cons_none rfl, List.map_cons, pairLast, List.length_cons, hlen, List.take_succ_cons,
        List.drop_succ_cons, List.map_cons, List.cons_append]
      exact congrArg _ (ih hps)
    | some d =>
      -- all that follow have a default, so that none is left without one
      have hall := filterMap_snd_of_isSome fun q hq => hp q hq rfl
      have hlen : (ps.filterMap Prod.snd).length = ps.length := by
        simpa using congrArg List.length hall
      have hzero : ((a, some d) :: ps).length - (d :: ps.filterMap Prod.snd).length = 0 := by
        simp only [List.length_cons]
        omega
      rw [List.filterMap_cons_some (f := Prod.snd) rfl, pairLast, List.length_map, hzero, List.take_zero,
        List.drop_zero, List.map_nil, List.nil_append, List.map_cons, List.map_cons, hall,
        List.zip_cons_cons]
      exact congrArg _ (List.zip_of_prod rfl rfl).symm

def Shape.DefaultsLast : Shape α → Prop
  | arguments ps _ _ _ => Tree.DefaultsLast ps
  | _ => True

namespace Stored

lemma aligned_ofShape (s : Shape α) : (ofShape s).Aligned := by
  cases s with
  | dict entries => simp [ofShape, Aligned]
  | arguments ps vararg ks kwarg => simpa [ofShape, Aligned] using List.length_filterMap_le Prod.snd ps
  | _ => exact trivial

lemma fieldNodes_ofShape (s : Shape α) : (ofShape s).fieldNodes = s.fieldNodes := by
  cases s with
  | dict entries => simp [ofShape, fieldNodes, Shape.fieldNodes, Shape.fields, Field.nodes]
  | arguments ps vararg ks kwarg =>
    simp [ofShape, fieldNodes, Shape.fieldNodes, Shape.fields, Field.nodes, List.flatMap_map,
      List.filterMap_eq_flatMap_toList]
  | _ => rfl

lemma shape_ofShape {s : Shape α} (h : s.DefaultsLast) : (ofShape s).shape = s := by
  cases s with
  | dict entries => exact congrArg Shape.dict (List.zip_of_prod rfl rfl).symm
  | arguments ps vararg ks kwarg =>
    have hkeyword : ks = (ks.map Prod.fst).zip (ks.map Prod.snd) := List.zip_of_prod rfl rfl
    rw [ofShape, shape, pairLast_of_defaultsLast h, ← hkeyword]
  | _ => rfl

lemma children_ofShape {s : Shape α} (h : s.DefaultsLast) : (ofShape s).children = s.children := by
  rw [← children_shape, shape_ofShape h]

end Stored

end SourceBlocks.Tree
