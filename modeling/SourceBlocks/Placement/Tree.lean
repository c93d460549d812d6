import SourceBlocks.Error
import SourceBlocks.Placement.Search

/-!
Trees with places. Nodes that follow one another never go back in the text.
-/

namespace SourceBlocks.Placement

open SourceBlocks.Tree (Mark Node Shape)

inductive Placed where
  | mk (node : Node) (start stop : Option Position) (children : List Placed)
deriving Repr

namespace Placed

def node : Placed → Node
  | mk n _ _ _ => n

def start : Placed → Option Position
  | mk _ start _ _ => start

def stop : Placed → Option Position
  | mk _ _ stop _ => stop

def children : Placed → List Placed
  | mk _ _ _ cs => cs

mutual

def walk : Placed → List Placed
  | mk n start stop cs => mk n start stop cs :: walkAll cs

def walkAll : List Placed → List Placed
  | [] => []
  | c :: cs => walk c ++ walkAll cs

end

def stringValue? (p : Placed) : Option String := p.node.shape.stringValue?

def describe (p : Placed) : String := match p.start with
  | some q => s!"{p.node.dump} at {q.render}"
  | none => p.node.dump

end Placed

inductive Fault where
  /-- A part stands before an earlier one; `found` holds the places of the parts up to it. -/
  | outOfOrder (parent : Node) (floor : Position) (found : List (Option Position))
  | notAString (node : Node)
  | endsBeforeFloor (node : Node) (row : Nat) (floor : Position)
  | noQuote
  | notFound (node : Node)
deriving Repr

namespace Fault

def padLeft (width : Nat) (s : String) : String :=
  String.ofList (List.replicate (width - s.length) ' ') ++ s

def partLines (found : List (Option Position)) : List Node → String
  | [] => ""
  | n :: ns =>
    let marker := if found.length = 1 then "==>" else "   "
    let place := ((found.head?.getD none).map Position.render).getD ""
    s!"        {marker} {padLeft 9 place}: {n.dump}\n" ++ partLines (found.drop 1) ns

def message : Fault → String
  | outOfOrder parent floor found =>
    "Got out-of-order AST node(s):\n" ++
    s!"  parent minpos={floor.render}\n" ++
    s!"    node: {parent.dump}\n" ++
    "      fields: " ++ " ".intercalate parent.shape.fieldNames ++ "\n" ++
    "      children:\n" ++
    partLines found parent.children ++
    s!"\nA child ordering rule is missing or wrong for {parent.kindName} nodes."
  | notAString node => s!"got a non-string col_offset=-1: {node.dump}"
  | endsBeforeFloor node row floor =>
    s!"string ending on line {row + 1} starts after its lower bound {floor.render}: {node.dump}"
  | noQuote => "No quote char found on line with supposed string"
  | notFound node => s!"Couldn't find exact position of {node.dump}"

def toError (f : Fault) : Error := .internal f.message

end Fault

def inOrder {α : Type} (step : Position → α → Except Fault Placed)
    (complain : List (Option Position) → Fault) (floor : Position)
    (found : List (Option Position)) : List α → Except Fault (List Placed)
  | [] => .ok []
  | a :: as => do
    let p ← step floor a
    let found := found ++ [p.start]
    match p.start with
    | some q =>
      if q < floor then .error (complain found)
      else do
        let ps ← inOrder step complain q found as
        pure (p :: ps)
    | none => do
      let ps ← inOrder step complain floor found as
      pure (p :: ps)

theorem inOrder_map {α β : Type} (f : α → β) (step : Position → β → Except Fault Placed)
    (complain : List (Option Position) → Fault) (floor : Position)
    (found : List (Option Position)) (as : List α) :
    inOrder step complain floor found (as.map f) =
      inOrder (fun floor a => step floor (f a)) complain floor found as := by
  induction as generalizing floor found with
  | nil => rfl
  | cons a as ih => simp only [List.map_cons, inOrder, ih]

theorem inOrder_attach {α : Type} (step : Position → α → Except Fault Placed)
    (complain : List (Option Position) → Fault) (floor : Position)
    (found : List (Option Position)) (as : List α) :
    inOrder (fun floor a => step floor a.1) complain floor found as.attach =
      inOrder step complain floor found as := by
  rw [← inOrder_map Subtype.val step, List.attach_map_subtype_val]

def isStringLed (n : Node) : Bool := match n.mark with
  | some (.endsOn _) => true
  | _ => false

def leadingPart? (ps : List Placed) : Option Placed := ps.head?.filter (fun p => isStringLed p.node)

def placeString (s : Setting) (floor : Position) (n : Node) (value : String) (last : Nat)
    (ps : List Placed) : Except Fault Placed :=
  let last := s.text.start.row + last
  if last < floor.row then .error (.endsBeforeFloor n last floor)
  else match locate s value.toList floor last with
    | .ok e => .ok (.mk n (some e.start) (some e.stop) ps)
    | .error .noQuote => .error .noQuote
    | .error .notFound => .error (.notFound n)

def placeAbove (s : Setting) (floor : Position) (n : Node) (ps : List Placed) :
    Except Fault Placed :=
  match n.mark with
  | none => .ok (.mk n none none ps)
  | some (.known p) => .ok (.mk n (some (s.text.start.plus p)) none ps)
  | some (.endsOn last) => match leadingPart? ps with
    | some first =>
      let stop := match n.shape with
        | .expr _ => first.stop
        | _ => none
      .ok (.mk n first.start stop ps)
    | none => match n.shape with
      | .str value _ _ => placeString s floor n value last ps
      | _ => .error (.notAString n)

def place (s : Setting) (floor : Position) (n : Node) : Except Fault Placed := do
  let ps ← inOrder (fun floor c => place s floor c.1) (.outOfOrder n floor) floor []
    n.children.attach
  placeAbove s floor n ps
termination_by sizeOf n
decreasing_by exact Node.sizeOf_lt_of_mem_children c.2

theorem place_eq (s : Setting) (floor : Position) (n : Node) :
    place s floor n =
      (inOrder (place s) (.outOfOrder n floor) floor [] n.children) >>= placeAbove s floor n := by
  rw [place, inOrder_attach (place s)]

def placeTree (s : Setting) (n : Node) : Except Fault Placed := place s s.text.start n

end SourceBlocks.Placement
