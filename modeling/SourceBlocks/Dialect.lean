import SourceBlocks.Error
import SourceBlocks.Features
import SourceBlocks.Literal.Token
import SourceBlocks.Tree.Node

/-!
What a tree asks of the dialect it is read in. The features that are on decide whether `print` can
be a statement, and a tree can itself switch features on.
-/

namespace SourceBlocks.Dialect

open SourceBlocks.Tree (Mark Node Shape)

inductive Demand where
  | printStatement (place : Position)
  | feature (name : String) (place : Position)
  | default (place : Position)
  | token (text : String)
deriving DecidableEq, Repr

/-- A step through the parts of a construct. A parameter without a default behind one with a default
is remarked on before it is visited. -/
inductive Step (α : Type) where
  | visit (a : α)
  | lacksDefault (a : α)
deriving DecidableEq, Repr

namespace Step

variable {α : Type}

def positional : Bool → List (α × Option α) → List (Step α)
  | _, [] => []
  | seen, (a, none) :: r =>
    (if seen then [lacksDefault a] else []) ++ visit a :: positional seen r
  | _, (a, some d) :: r => visit a :: visit d :: positional true r

def ofShape : Shape α → List (Step α)
  | .arguments ps _ keywordOnly _ =>
    positional false ps ++ keywordOnly.flatMap (fun p => visit p.1 :: p.2.toList.map visit)
  | s => s.children.map visit

theorem mem_of_visit_mem_positional {seen : Bool} {ps : List (α × Option α)} {a : α}
    (h : visit a ∈ positional seen ps) : ∃ p ∈ ps, a = p.1 ∨ p.2 = some a := by
  induction ps generalizing seen with
  | nil => simp [positional] at h
  | cons p r ih =>
    obtain ⟨b, d⟩ := p
    simp only [List.mem_cons, exists_eq_or_imp]
    cases d <;> simp only [positional] at h <;> grind

theorem mem_children_of_visit_mem {s : Shape α} {a : α} (h : visit a ∈ ofShape s) :
    a ∈ s.children := by
  cases s
  case arguments ps vararg keywordOnly kwarg =>
    simp only [ofShape, List.mem_append, List.mem_flatMap] at h
    simp only [Shape.children, List.mem_flatMap, List.mem_append]
    rcases h with h | ⟨p, hp, h⟩
    · obtain ⟨p, hp, h⟩ := mem_of_visit_mem_positional h
      exact ⟨p, .inl hp, by grind⟩
    · exact ⟨p, .inr hp, by grind⟩
  all_goals simpa [ofShape] using h

end Step

/-- The place of a mark. Only strings over several rows hide their place, and nothing that makes
demands begins with one. -/
def placeOf (n : Node) : Position := match n.mark with
  | some (.known p) => p
  | _ => .start

def featureModule : String := "__future__"

def featureDemand (n : Node) : List Demand := match n.shape with
  | .importAlias id _ written => [.feature id written]
  | _ => []

def own (n : Node) : List Demand := match n.shape with
  | .print _ _ _ => [.printStatement (placeOf n)]
  | .importFrom (some source) names 0 =>
    if source = featureModule then names.flatMap featureDemand else []
  | .unreadableStr token => [.token token]
  | _ => []

def demands (n : Node) : List Demand :=
  own n ++ (Step.ofShape n.shape).attach.flatMap (fun s => match s with
    | ⟨.visit a, _⟩ => demands a
    | ⟨.lacksDefault a, _⟩ => [.default (placeOf a)])
termination_by sizeOf n
decreasing_by
  rename_i h
  exact Node.sizeOf_lt_of_mem_children (Step.mem_children_of_visit_mem h)

def Step.demands : Step Node → List Demand
  | visit a => Dialect.demands a
  | lacksDefault a => [.default (placeOf a)]

theorem demands_eq (n : Node) :
    demands n = own n ++ (Step.ofShape n.shape).flatMap Step.demands := by
  rw [demands, List.flatMap_subtype (g := Step.demands)]
  · simp
  · intro s hs
    cases s <;> rfl

inductive Refusal where
  | printStatement (place : Position)
  | unknownFeature (name : String) (place : Position)
  | missingDefault (place : Position)
  | token (fault : Literal.TokenFault)
deriving DecidableEq, Repr

namespace Refusal

def toError (start : Position) : Refusal → Error
  | printStatement p => .rejectedAt "invalid syntax" (start.plus p)
  | unknownFeature name p =>
    .rejectedAt s!"future feature {name} is not defined" (start.plus p)
  | missingDefault p =>
    .rejectedAt "non-default argument follows default argument" (start.plus p)
  | token fault => .internal fault.message

end Refusal

def settledFeatures : List String := ["barry_as_FLUFL", "generator_stop", "annotations"]

def meet (features : Features) : Demand → Except Refusal Features
  | .printStatement p =>
    if features.has .printFunction then .error (.printStatement p) else .ok features
  | .feature name p => match Feature.ofName? name with
    | some f => .ok (features ||| .only f)
    | none =>
      if name ∈ settledFeatures then .ok features else .error (.unknownFeature name p)
  | .default p => .error (.missingDefault p)
  | .token text => match Literal.decode text.toList with
    | .error fault => .error (.token fault)
    | .ok _ => .ok features

def meetAll (features : Features) : List Demand → Except Refusal Features
  | [] => .ok features
  | d :: ds => do
    let features ← meet features d
    meetAll features ds

def check (features : Features) (n : Node) : Except Refusal Features :=
  meetAll features (demands n)

end SourceBlocks.Dialect
