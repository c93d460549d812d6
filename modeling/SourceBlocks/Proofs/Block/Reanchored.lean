import SourceBlocks.Proofs.Block.Tiling
import SourceBlocks.Proofs.Lowering.Module
import SourceBlocks.Proofs.Placement.Shift
import SourceBlocks.Proofs.Split.Moved

/-! The same source at another place. -/

namespace SourceBlocks

open Outcome

open SourceBlocks.Placement

section Search

variable {p : Position} {t : Text}

lemma placed_moved {row : Nat} (h : t.start.row ≤ row) (qs : List (Char × Nat)) :
    placed (t.moved p) (p.row + row) qs = (placed t row qs).map (QuotePlace.move p.plus) := by
  simp only [placed, List.map_map]
  apply List.map_congr_left
  intro q _
  simp only [Function.comp, QuotePlace.move, Text.place_moved p t h]

lemma placed_rowChars_moved (find : List Char → List (Char × Nat)) (hnil : find [] = []) (row : Nat) :
    placed (t.moved p) (p.row + row) (find ((t.moved p).rowChars (p.row + row))) =
      (placed t row (find (t.rowChars row))).map (QuotePlace.move p.plus) := by
  rw [Text.rowChars_moved]
  by_cases h : t.start.row ≤ row
  · exact placed_moved h _
  · rw [Text.rowChars_before (Nat.not_le.mp h), hnil]
    rfl

lemma shift_moved (margin : List Char) (reader : List Char → Option (List Char)) :
    Shift ⟨t, margin, reader⟩ ⟨t.moved p, margin, reader⟩ p.plus p.row where
  reader := rfl
  lt_iff := Position.plus_lt_plus_iff p
  row := Position.row_plus p
  start_row := Position.row_plus p t.start
  stop_row := by rw [Text.stop_moved, Position.row_plus]
  start_le q hq := (Position.plus_le_plus_iff p t.start q).mpr hq
  opens := placed_rowChars_moved openings rfl
  closes := placed_rowChars_moved closings rfl
  fragment e _ _ _ := by
    simp only [fragment, Tree.Extent.move, Text.slice_moved, Text.lines_moved]

lemma remarks_id : Remarks id id where
  children _ := (List.map_id _).symm
  known _ _ h := h
  endsOn _ _ h := h
  bare _ h := h
  stringValue _ := rfl
  isExpr _ := rfl

end Search

/-- An error, and the one that stands for it when all is seen from `p`. The text of an internal error can
show places, and is left open. -/
inductive Error.Moves (p : Position) : Error → Error → Prop
  | rejected (message : String) (q : Position) : Moves p (.rejectedAt message q) (.rejectedAt message (p.plus q))
  | internal (message message' : String) : Moves p (.internal message) (.internal message')
  | inFile (file : String) {e e' : Error} : Moves p e e' → Moves p (.inFile file e) (.inFile file e')

namespace Reading

variable {p : Position} {t : Text} {f : Features}

lemma refusal_moves (r : Dialect.Refusal) : Error.Moves p (r.toError t.start) (r.toError (t.moved p).start) := by
  cases r with
  | printStatement q | unknownFeature _ q | missingDefault q =>
    simp only [Dialect.Refusal.toError, Text.moved, Position.plus_assoc]
    exact .rejected _ _
  | token fault => exact .internal _ _

lemma ofText_moves : Agree (Error.Moves p) Eq (ofText t f) (ofText (t.moved p) f) := by
  rw [ofText_eq, ofText_eq, Text.lines_moved]
  cases (Grammar.read _ _ : Except Position Tree.Node) with
  | error q =>
    refine .error ?_
    simp only [Text.moved, Position.plus_assoc]
    exact .rejected _ _
  | ok tree =>
    change Agree _ _ ((Dialect.check f tree).mapError _ >>= _) ((Dialect.check f tree).mapError _ >>= _)
    cases Dialect.check f tree with
    | error r => exact .error (refusal_moves r)
    | ok f' => exact .ok rfl

lemma placeIn_moves (r : Reading) :
    Agree (Error.Moves p) (fun q q' => q' = q.move p.plus id) (r.placeIn t) (r.placeIn (t.moved p)) := by
  have h := shift_moved (p := p) (t := t) r.margin Grammar.stringValue?
  have hplace := h.place_agree remarks_id (fun q => Position.plus_assoc p t.start q) h.floor_start r.tree
  refine (hplace.mono fun _ _ hq => hq.1).mapError fun _ _ _ => ?_
  exact .internal _ _

end Reading

def Root.moved (p : Position) (r : Root) : Root := { r with placed := r.placed.move p.plus id }

lemma Root.node_moved (p : Position) (r : Root) : (r.moved p).node = r.node := Placed.node_move r.placed

structure Statement.Moves (p : Position) (s s' : Statement) : Prop where
  joined : s'.text.joined = s.text.joined
  start : s'.text.start = p.plus s.text.start
  stop : s'.text.stop = p.plus s.text.stop
  root : ∃ root, s.root? = .ok root ∧ s'.root? = .ok (root.map (Root.moved p))

namespace Block

variable {p : Position} {t : Text} {f : Features}

lemma inFileOf_moves {e e' : Error} (h : Error.Moves p e e') : Error.Moves p (inFileOf t e) (inFileOf (t.moved p) e') := by
  simp only [inFileOf, Text.moved]
  cases t.file with
  | none => exact h
  | some file => exact .inFile _ h

lemma readRoots_moves (i : Nat) :
    Agree (Error.Moves p) (fun rs rs' => rs' = rs.map (Root.moved p)) (readRoots t f i) (readRoots (t.moved p) f i) := by
  rw [readRoots, readRoots]
  refine (Reading.ofText_moves.mapError fun _ _ => inFileOf_moves).bind ?_
  rintro r _ rfl
  refine ((Reading.placeIn_moves r).mapError fun _ _ => inFileOf_moves).bind ?_
  rintro q _ rfl
  refine .ok ?_
  cases q with
  | mk n start stop cs =>
    simp only [Placed.move, Placed.moveAll_eq, Placed.children, List.zipIdx_map, List.map_map]
    rfl

lemma features_moves : Agree (Error.Moves p) Eq (ofText t f).features (ofText (t.moved p) f).features := by
  have hsource : Agree (Error.Moves p) Eq (ofText t f).sourceFeatures (ofText (t.moved p) f).sourceFeatures := by
    rw [sourceFeatures, sourceFeatures]
    refine (readRoots_moves 0).bind ?_
    rintro roots _ rfl
    refine .ok ?_
    rw [List.foldl_map]
    simp only [Root.node_moved]
  refine hsource.bind ?_
  rintro source _ rfl
  exact .ok rfl

lemma spanOf_moves (r : Root) :
    Agree (Error.Moves p) (fun s s' => s' = s.moved p) (spanOf r) (spanOf (r.moved p)) := by
  rw [spanOf, spanOf, Root.moved, Placed.start_move, Placed.stop_move]
  cases r.placed.start with
  | none => exact .error (.internal _ _)
  | some start => exact .ok rfl

lemma spans_moves (roots : List Root) :
    Agree (Error.Moves p) (fun ss ss' => ss' = ss.map (Split.Span.moved p)) (roots.mapM spanOf)
      ((roots.map (Root.moved p)).mapM spanOf) :=
  Agree.mapM_map fun r _ => spanOf_moves r

lemma moves_ofChunk (roots : List Root) (f : Features) (c : Split.Chunk) :
    Statement.Moves p (ofChunk roots f c) (ofChunk (roots.map (Root.moved p)) f (c.moved p)) where
  joined := rfl
  start := rfl
  stop := Text.stop_moved p c.text
  root := by
    have hroot : (c.node.bind fun i => (roots.map (Root.moved p))[i]?) =
        (c.node.bind fun i => roots[i]?).map (Root.moved p) := by
      simp only [List.getElem?_map, Option.map_bind, Function.comp_def]
    refine ⟨_, root?_of_body rfl, root?_of_body ?_⟩
    rw [← hroot]
    rfl

lemma statements_moves : Agree (Error.Moves p) (List.Forall₂ (Statement.Moves p)) (ofText t f).statements
    (ofText (t.moved p) f).statements := by
  rw [statements, statements]
  refine (readRoots_moves 0).bind_of_ok ?_
  rintro roots _ hroots hroots' rfl
  refine (spans_moves roots).bind_of_ok ?_
  rintro spans _ hspans - rfl
  refine ((Split.chunks_moves spans).mapError fun _ _ _ => .internal _ _).bind_of_ok ?_
  rintro chunks _ hchunks - rfl
  rw [mapError_eq_ok] at hchunks
  by_cases hone : chunks.length = 1
  · -- the block is its own statement, and has at most one node
    obtain ⟨c, rfl⟩ := List.length_eq_one_iff.mp hone
    obtain ⟨root, rfl⟩ := exists_option_of_length_le_one
      (length_roots_le_one (b := ofText t f) hspans hchunks)
    refine .ok (.cons ⟨rfl, rfl, Text.stop_moved p t, root, root?_of_body hroots, root?_of_body ?_⟩ .nil)
    rw [Option.toList_map]
    exact hroots'
  · have hcarved : Agree (Error.Moves p) (List.Forall₂ (Statement.Moves p))
        ((ofText t f).features >>= fun g => pure (chunks.map (ofChunk roots g)))
        ((ofText (t.moved p) f).features >>= fun g =>
          pure ((chunks.map (Split.Chunk.moved p)).map (ofChunk (roots.map (Root.moved p)) g))) := by
      refine features_moves.bind ?_
      rintro g _ rfl
      refine .ok ?_
      rw [List.forall₂_map_left_iff, List.map_map, List.forall₂_map_right_iff, List.forall₂_same]
      exact fun c _ => moves_ofChunk roots g c
    rcases chunks with _ | ⟨c, _ | ⟨c', cs⟩⟩
    · exact hcarved
    · exact absurd rfl hone
    · exact hcarved

/-- Where a text is anchored does not matter: what is read of it is the same, and its nodes and
statements are the same ones, standing where they do when seen from the anchor. -/
theorem body_statements_anchored (t : Text) (f : Features) (p : Position) :
    Agree (Error.Moves p) Eq (Reading.ofText (t.anchored .start) f) (Reading.ofText (t.anchored p) f) ∧
    Agree (Error.Moves p) (fun roots roots' => roots' = roots.map (Root.moved p))
      (ofText (t.anchored .start) f).body (ofText (t.anchored p) f).body ∧
    Agree (Error.Moves p) (List.Forall₂ (Statement.Moves p)) (ofText (t.anchored .start) f).statements
      (ofText (t.anchored p) f).statements := by
  have hmoved : t.anchored p = (t.anchored .start).moved p := (Text.moved_start p t.chars t.file).symm
  rw [hmoved]
  exact ⟨Reading.ofText_moves, readRoots_moves 0, statements_moves⟩

end Block

end SourceBlocks
