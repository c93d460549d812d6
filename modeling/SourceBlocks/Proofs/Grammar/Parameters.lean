import Mathlib.Data.List.Induction
import SourceBlocks.Proofs.Dialect
import SourceBlocks.Proofs.Grammar.Expressions
import SourceBlocks.Proofs.Tree.Stored

/-! Parameters and their defaults. A parameter without a default is refused where one with a default
stands before it and no star does. -/

namespace SourceBlocks

open Lexis.Source (parameterNodes children_parameters)
open SourceBlocks.Tree (DefaultsLast Node Shape Stored)

lemma exists_first_of_not_pairwise {α : Type} {R : α → α → Prop} {xs : List α} (h : ¬ xs.Pairwise R) :
    ∃ l x r, xs = l ++ x :: r ∧ l.Pairwise R ∧ ∃ y ∈ l, ¬ R y x := by
  induction xs using List.reverseRecOn with
  | nil => exact absurd .nil h
  | append_singleton xs x ih =>
    by_cases hxs : xs.Pairwise R
    · refine ⟨xs, x, [], rfl, hxs, ?_⟩
      by_contra hall
      push Not at hall
      exact h (List.pairwise_append.mpr ⟨hxs, List.pairwise_singleton _ _, by simpa using hall⟩)
    · obtain ⟨l, y, r, rfl, hl, hy⟩ := ih hxs
      exact ⟨l, y, r ++ [x], by simp, hl, hy⟩

namespace Dialect

namespace Step

variable {α : Type} {ps qs : List (α × Option α)}

lemma positional_append (seen : Bool) : positional seen (ps ++ qs) =
    positional seen ps ++ positional (seen || ps.any fun p => p.2.isSome) qs := by
  induction ps generalizing seen with
  | nil => simp [positional]
  | cons p ps ih =>
    obtain ⟨a, d⟩ := p
    cases d <;> simp [positional, ih]

lemma positional_of_defaultsLast {seen : Bool} (h : DefaultsLast ps) (hseen : seen = true → ∀ p ∈ ps, p.2.isSome) :
    positional seen ps = (ps.flatMap fun p => p.1 :: p.2.toList).map visit := by
  induction ps generalizing seen with
  | nil => rfl
  | cons p ps ih =>
    obtain ⟨hp, hps⟩ := List.pairwise_cons.mp h
    obtain ⟨a, d⟩ := p
    cases d with
    | none =>
      obtain rfl : seen = false := by
        by_contra hs
        simpa using hseen (Bool.not_eq_false _ ▸ hs) (a, none) List.mem_cons_self
      simp [positional, ih hps]
    | some d => simp [positional, ih hps fun _ q hq => hp q hq rfl]

lemma exists_lacksDefault (h : ¬ DefaultsLast ps) : ∃ l a r rest, ps = l ++ (a, none) :: r ∧ DefaultsLast l ∧
    (∃ b d, (b, some d) ∈ l) ∧
    positional false ps = (l.flatMap fun p => p.1 :: p.2.toList).map visit ++ lacksDefault a :: rest := by
  obtain ⟨l, ⟨a, d⟩, r, rfl, hl, ⟨b, e⟩, hb, hlate⟩ := exists_first_of_not_pairwise h
  simp only [Classical.not_imp, Bool.not_eq_true, Option.isSome_eq_false_iff, Option.isNone_iff_eq_none] at hlate
  obtain ⟨he, rfl⟩ := hlate
  obtain ⟨e, rfl⟩ := Option.isSome_iff_exists.mp he
  have hany : (l.any fun p => p.2.isSome) = true := List.any_eq_true.mpr ⟨_, hb, rfl⟩
  refine ⟨l, a, r, visit a :: positional true r, rfl, hl, ⟨b, e, hb⟩, ?_⟩
  rw [positional_append, positional_of_defaultsLast hl (by simp), hany]
  rfl

lemma ofShape_of_defaultsLast {s : Shape α} (h : s.DefaultsLast) : ofShape s = s.children.map visit := by
  cases s with
  | arguments ps vararg ks kwarg =>
    rw [ofShape, positional_of_defaultsLast h (by simp), Shape.children, List.flatMap_append, List.map_append,
      List.map_flatMap, List.map_flatMap]
    rfl
  | _ => rfl

end Step

lemma meetAll_append (f : Features) (ds es : List Demand) :
    meetAll f (ds ++ es) = meetAll f ds >>= fun g => meetAll g es := by
  induction ds generalizing f with
  | nil => rfl
  | cons d ds ih =>
    rw [List.cons_append, meetAll, meetAll, bind_assoc]
    exact bind_congr fun g => ih g

end Dialect

namespace Grammar.Parameter

open Dialect

variable {ps : List (Parameter Node)}

def isStar : Parameter Node → Bool
  | rest _ _ => true
  | keywordMark => true
  | _ => false

def NeedsDefault (before : List (Parameter Node)) : Prop :=
  (∃ b d, named b (some d) ∈ before) ∧ ∀ p ∈ before, p.isStar = false

/-- A parameter without a default comes after one with a default and before any star. -/
def LacksDefault (ps : List (Parameter Node)) : Prop :=
  ∃ before a after, ps = before ++ named a none :: after ∧ NeedsDefault before

lemma positional_append {before : List (Parameter Node)} (h : ∀ p ∈ before, p.isStar = false) (after : List (Parameter Node)) :
    positional (before ++ after) = positional before ++ positional after := by
  induction before with
  | nil => rfl
  | cons p before ih =>
    obtain ⟨hp, hrest⟩ := List.forall_mem_cons.mp h
    cases p <;> simp_all [positional, isStar]

lemma mem_positional {a : Node} {d : Option Node} (h : ∀ p ∈ ps, p.isStar = false) :
    (a, d) ∈ positional ps ↔ named a d ∈ ps := by
  induction ps with
  | nil => simp [positional]
  | cons p ps ih =>
    obtain ⟨hp, hrest⟩ := List.forall_mem_cons.mp h
    cases p <;> simp_all [positional, isStar]

lemma exists_of_positional_eq {l r : List (Node × Option Node)} {a : Node} {d : Option Node}
    (h : positional ps = l ++ (a, d) :: r) :
    ∃ before after, ps = before ++ named a d :: after ∧ (∀ p ∈ before, p.isStar = false) ∧ positional before = l := by
  induction ps generalizing l with
  | nil => simp [positional] at h
  | cons p ps ih =>
    cases p with
    | named b e =>
      cases l with
      | nil =>
        obtain ⟨⟨rfl, rfl⟩, rfl⟩ : (b = a ∧ e = d) ∧ positional ps = r := by simpa [positional] using h
        exact ⟨[], ps, rfl, by simp, rfl⟩
      | cons q l =>
        obtain ⟨rfl, hps⟩ : (b, e) = q ∧ positional ps = l ++ (a, d) :: r := by simpa [positional] using h
        obtain ⟨before, after, rfl, hstar, rfl⟩ := ih hps
        exact ⟨named b e :: before, after, rfl, by simpa [isStar] using hstar, rfl⟩
    | rest => simp [positional] at h
    | keywordMark => simp [positional] at h
    | options written hint =>
      obtain ⟨before, after, rfl, hstar, rfl⟩ := ih h
      exact ⟨options written hint :: before, after, rfl, by simpa [isStar] using hstar, rfl⟩
    | positionalMark =>
      obtain ⟨before, after, rfl, hstar, rfl⟩ := ih h
      exact ⟨positionalMark :: before, after, rfl, by simpa [isStar] using hstar, rfl⟩

lemma lacksDefault_iff : LacksDefault ps ↔ ¬ DefaultsLast (positional ps) := by
  constructor
  · rintro ⟨before, a, after, rfl, ⟨b, d, hb⟩, hstar⟩ hlast
    rw [positional_append hstar] at hlast
    have hlate := (List.pairwise_append.mp hlast).2.2 (b, some d) ((mem_positional hstar).mpr hb) (a, none)
      List.mem_cons_self
    simpa using hlate rfl
  · intro hlast
    obtain ⟨l, a, r, -, hl, -, ⟨b, d, hb⟩, -⟩ := Step.exists_lacksDefault hlast
    obtain ⟨before, after, rfl, hstar, rfl⟩ := exists_of_positional_eq hl
    exact ⟨before, a, after, rfl, ⟨b, d, (mem_positional hstar).mp hb⟩, hstar⟩

lemma defaultsLast_shape (h : ¬ LacksDefault ps) : (shape ps).DefaultsLast :=
  by_contra fun hlast => h (lacksDefault_iff.mpr hlast)

lemma flatMap_positional {before : List (Parameter Node)} (h : ∀ p ∈ before, p.isStar = false) :
    ((positional before).flatMap fun p => p.1 :: p.2.toList) = before.flatMap parameterNodes := by
  induction before with
  | nil => rfl
  | cons p before ih =>
    obtain ⟨hp, hrest⟩ := List.forall_mem_cons.mp h
    cases p <;> simp_all [positional, parameterNodes, isStar]

def partDemands (ps : List (Parameter Node)) : List Demand := (ps.flatMap parameterNodes).flatMap demands

lemma demands_shape (h : ¬ LacksDefault ps) : demands (unmarked (shape ps)) = partDemands ps := by
  rw [demands_eq, unmarked, Abstract.node_eq, Node.shape, Step.ofShape_of_defaultsLast (defaultsLast_shape h),
    children_parameters, List.flatMap_map]
  rfl

lemma exists_demands_shape (h : LacksDefault ps) : ∃ before a after, ps = before ++ named a none :: after ∧
    NeedsDefault before ∧ ¬ LacksDefault before ∧
    ∃ rest, demands (unmarked (shape ps)) = partDemands before ++ .default (placeOf a) :: rest := by
  obtain ⟨l, a, r, rest, hl, hlast, ⟨b, d, hb⟩, hsteps⟩ := Step.exists_lacksDefault (lacksDefault_iff.mp h)
  obtain ⟨before, after, rfl, hstar, rfl⟩ := exists_of_positional_eq hl
  refine ⟨before, a, after, rfl, ⟨⟨b, d, (mem_positional hstar).mp hb⟩, hstar⟩,
    fun hbefore => lacksDefault_iff.mp hbefore hlast, ?_⟩
  rw [demands_eq, unmarked, Abstract.node_eq, Node.shape, shape, Step.ofShape, hsteps, flatMap_positional hstar,
    List.append_assoc, List.flatMap_append, List.flatMap_map, List.cons_append, List.flatMap_cons]
  exact ⟨_, rfl⟩

lemma check_shape (h : ¬ LacksDefault ps) (f : Features) :
    check f (unmarked (shape ps)) = meetAll f (partDemands ps) := by rw [check, demands_shape h]

lemma exists_check_shape (h : LacksDefault ps) (f : Features) :
    ∃ before a after, ps = before ++ named a none :: after ∧ NeedsDefault before ∧ ¬ LacksDefault before ∧
      check f (unmarked (shape ps)) =
        meetAll f (partDemands before) >>= fun _ => .error (.missingDefault (placeOf a)) := by
  obtain ⟨before, a, after, hps, hneeds, hfirst, rest, hdemands⟩ := exists_demands_shape h
  refine ⟨before, a, after, hps, hneeds, hfirst, ?_⟩
  rw [check, hdemands, meetAll_append]
  rfl

lemma exists_meetAll_of_append {before after : List (Parameter Node)} {f g : Features}
    (h : meetAll f (partDemands (before ++ after)) = .ok g) : ∃ g', meetAll f (partDemands before) = .ok g' := by
  rw [partDemands, List.flatMap_append, List.flatMap_append, meetAll_append, Outcome.bind_eq_ok] at h
  obtain ⟨g', hg', -⟩ := h
  exact ⟨g', hg'⟩

/-- Parameters are refused for a missing default exactly if one without a default comes after one
with a default and before any star; the first such parameter is named, once the parts before it have
been met. -/
theorem parameters_keep_defaults (ps : List (Parameter Node)) (f : Features) (start : Position) :
    (LacksDefault ps → ∃ before a after, ps = before ++ named a none :: after ∧ NeedsDefault before ∧
      ¬ LacksDefault before ∧ check f (unmarked (shape ps)) =
        meetAll f (partDemands before) >>= fun _ => .error (.missingDefault (placeOf a))) ∧
    (¬ LacksDefault ps → check f (unmarked (shape ps)) = meetAll f (partDemands ps) ∧
      (shape ps).children = ps.flatMap parameterNodes ∧
      (Stored.ofShape (shape ps)).children = ps.flatMap parameterNodes) ∧
    ((∃ g, meetAll f (partDemands ps) = .ok g) →
      ((∃ p, (check f (unmarked (shape ps))).mapError (Refusal.toError start) =
        .error (.rejectedAt "non-default argument follows default argument" p)) ↔ LacksDefault ps)) := by
  refine ⟨fun h => exists_check_shape h f, fun h => ⟨check_shape h f, children_parameters ps, ?_⟩, ?_⟩
  · rw [Stored.children_ofShape (defaultsLast_shape h), children_parameters]
  · rintro ⟨g, hg⟩
    constructor
    · rintro ⟨p, hp⟩
      by_contra h
      rw [check_shape h, hg] at hp
      cases hp
    · intro h
      obtain ⟨before, a, after, rfl, -, -, hcheck⟩ := exists_check_shape h f
      obtain ⟨g', hg'⟩ := exists_meetAll_of_append hg
      rw [hcheck, hg']
      exact ⟨start.plus (placeOf a), rfl⟩

example (a b c d x y : Node) : (Stored.ofShape (shape [named a none, named b (some x), keywordMark, named c none,
    named d (some y)])).children = [a, b, x, c, d, y] := rfl

end Grammar.Parameter

end SourceBlocks
