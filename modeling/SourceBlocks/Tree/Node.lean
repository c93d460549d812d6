import SourceBlocks.Tree.Shape

/-!
Trees of constructs. A node carries a mark of where it is written, if it has one.
-/

namespace SourceBlocks.Tree

inductive Mark where
  | known (p : Position)
  | endsOn (row : Nat)
deriving DecidableEq, Repr

inductive Node where
  | mk (mark : Option Mark) (shape : Shape Node)
deriving Repr

namespace Shape

variable {α : Type} [SizeOf α]

theorem sizeOf_lt_of_mem_fieldNodes {s : Shape α} {a : α} (h : a ∈ s.fieldNodes) :
    sizeOf a < sizeOf s := by
  cases s <;> simp [fieldNodes, fields, Field.nodes] at h ⊢ <;>
    grind [→ List.sizeOf_lt_of_mem]

theorem sizeOf_lt_of_mem_children {s : Shape α} {a : α} (h : a ∈ s.children) :
    sizeOf a < sizeOf s := by
  unfold children at h
  split at h
  case h_6 => exact sizeOf_lt_of_mem_fieldNodes h
  all_goals
    simp at h ⊢
    grind [→ List.sizeOf_lt_of_mem]

end Shape

namespace Node

def mark : Node → Option Mark
  | mk mark _ => mark

def shape : Node → Shape Node
  | mk _ shape => shape

def children (n : Node) : List Node := n.shape.children

def fieldNodes (n : Node) : List Node := n.shape.fieldNodes

theorem sizeOf_lt_of_mem_children {n a : Node} (h : a ∈ n.children) : sizeOf a < sizeOf n := by
  cases n
  have := Shape.sizeOf_lt_of_mem_children h
  simp only [shape, mk.sizeOf_spec] at *
  omega

theorem sizeOf_lt_of_mem_fieldNodes {n a : Node} (h : a ∈ n.fieldNodes) :
    sizeOf a < sizeOf n := by
  cases n
  have := Shape.sizeOf_lt_of_mem_fieldNodes h
  simp only [shape, mk.sizeOf_spec] at *
  omega

theorem ind {motive : Node → Prop} (h : ∀ n, (∀ c ∈ n.children, motive c) → motive n) (n : Node) :
    motive n :=
  h n (fun c hc =>
    have := sizeOf_lt_of_mem_children hc
    ind h c)
termination_by sizeOf n

/-- A node and all below it: each node before its children, the children in the order of the
source. -/
def walk (n : Node) : List Node :=
  n :: n.children.attach.flatMap (fun c => walk c.1)
termination_by sizeOf n
decreasing_by exact sizeOf_lt_of_mem_children c.2

theorem walk_eq (n : Node) : n.walk = n :: n.children.flatMap walk := by
  rw [walk]
  simp [List.flatMap_subtype]

def size (n : Node) : Nat :=
  n.fieldNodes.attach.foldr (fun c k => size c.1 + k) 1
termination_by sizeOf n
decreasing_by exact sizeOf_lt_of_mem_fieldNodes c.2

theorem size_eq (n : Node) : n.size = n.fieldNodes.foldr (fun c k => size c + k) 1 := by
  rw [size]
  simp

def isAsync (n : Node) : Bool := n.shape.isAsync

def kindName (n : Node) : String := n.shape.kindName

end Node

end SourceBlocks.Tree
