import SourceBlocks.Dialect
import SourceBlocks.Proofs.Agreement
import SourceBlocks.Proofs.Tree.Inset

namespace SourceBlocks.Dialect

open Outcome
open SourceBlocks.Tree (Mark Node Shape)

variable {w : Nat}

def Demand.unplaced : Demand → Demand
  | printStatement _ => printStatement .start
  | feature name _ => feature name .start
  | default _ => default .start
  | token text => token text

lemma meet_agree {d d' : Demand} (f : Features) (h : d.unplaced = d'.unplaced) :
    Agree (fun _ _ => True) Eq (meet f d) (meet f d') := by
  cases d <;> cases d' <;> simp only [Demand.unplaced, reduceCtorEq, Demand.feature.injEq, Demand.token.injEq] at h
  case printStatement.printStatement =>
    simp only [meet]
    split_ifs
    · exact .error trivial
    · exact .ok rfl
  case feature.feature name _ _ _ =>
    obtain ⟨rfl, -⟩ := h
    simp only [meet]
    cases Feature.ofName? name with
    | some => exact .ok rfl
    | none =>
      dsimp only
      split_ifs
      · exact .ok rfl
      · exact .error trivial
  case default.default => exact .error trivial
  case token.token text _ =>
    subst h
    simp only [meet]
    cases Literal.decode text.toList with
    | error => exact .error trivial
    | ok => exact .ok rfl

lemma meetAll_agree {ds ds' : List Demand} (f : Features) (h : ds.map Demand.unplaced = ds'.map Demand.unplaced) :
    Agree (fun _ _ => True) Eq (meetAll f ds) (meetAll f ds') := by
  induction ds generalizing f ds' with
  | nil =>
    obtain rfl := List.map_eq_nil_iff.mp h.symm
    exact .ok rfl
  | cons d ds ih =>
    cases ds' with
    | nil => cases h
    | cons d' ds' =>
      obtain ⟨hd, hds⟩ := List.cons.inj h
      refine (meet_agree f hd).bind ?_
      rintro f _ rfl
      exact ih f hds

namespace Step

def inset (w : Nat) : Step Node → Step Node
  | visit a => visit (a.inset w)
  | lacksDefault a => lacksDefault (a.inset w)

lemma positional_inset (seen : Bool) (ps : List (Node × Option Node)) :
    positional seen (ps.map (Prod.map (Node.inset w) (Option.map (Node.inset w)))) =
      (positional seen ps).map (inset w) := by
  induction ps generalizing seen with
  | nil => rfl
  | cons p ps ih =>
    obtain ⟨a, d⟩ := p
    cases d with
    | none => cases seen <;> simp [positional, inset, ih]
    | some d => simp [positional, inset, ih]

lemma ofShape_inset (s : Shape Node) : ofShape (s.inset w) = (ofShape s).map (inset w) := by
  have hvisits : ((s.inset w).children.map visit) = (s.children.map visit).map (inset w) := by
    rw [Shape.children_inset, List.map_map, List.map_map]
    rfl
  cases s with
  | arguments ps vararg ks kwarg =>
    have hkeyword : ∀ p : Node × Option Node,
        visit (p.map (Node.inset w) (Option.map (Node.inset w))).1 ::
            (p.map (Node.inset w) (Option.map (Node.inset w))).2.toList.map visit =
          (visit p.1 :: p.2.toList.map visit).map (inset w) := by
      rintro ⟨a, d⟩
      cases d <;> rfl
    simp only [Shape.inset, ofShape, Tree.insetParameters_eq, positional_inset, List.map_append, List.flatMap_map,
      List.map_flatMap, hkeyword]
  | _ => exact hvisits

end Step

lemma featureDemand_inset (n : Node) :
    (featureDemand (n.inset w)).map Demand.unplaced = (featureDemand n).map Demand.unplaced := by
  obtain ⟨mark, shape⟩ := n
  cases shape <;> rfl

lemma own_inset (n : Node) : (own (n.inset w)).map Demand.unplaced = (own n).map Demand.unplaced := by
  obtain ⟨mark, shape⟩ := n
  cases shape with
  | importFrom source names level =>
    match source, level with
    | none, _ => rfl
    | some _, _ + 1 => rfl
    | some source, 0 =>
      simp only [own, Node.inset, Node.shape, Shape.inset, Tree.insetAll_eq]
      split_ifs
      · simp only [List.flatMap_map, List.map_flatMap, featureDemand_inset]
      · rfl
  | _ => rfl

lemma demands_inset (n : Node) : (demands (n.inset w)).map Demand.unplaced = (demands n).map Demand.unplaced := by
  induction n using Node.ind with
  | h n ih =>
    have hstep : ∀ s ∈ Step.ofShape n.shape,
        (Step.demands (s.inset w)).map Demand.unplaced = (Step.demands s).map Demand.unplaced := by
      intro s hs
      cases s with
      | visit a => exact ih a (Step.mem_children_of_visit_mem hs)
      | lacksDefault a => rfl
    rw [demands_eq, demands_eq, List.map_append, List.map_append, own_inset, Node.shape_inset, Step.ofShape_inset,
      List.flatMap_map, List.map_flatMap, List.map_flatMap, List.flatMap_congr hstep]

lemma check_inset (f : Features) (n : Node) :
    Agree (fun _ _ => True) Eq (check f n) (check f (n.inset w)) := meetAll_agree f (demands_inset n).symm

end SourceBlocks.Dialect
