import SourceBlocks.Error
import SourceBlocks.Split.Comment
import SourceBlocks.Text.Basic

/-!
Splitting a text at the statements that stand in it. Each statement gets a chunk, and so do the
comments and blank lines between them.
-/

namespace SourceBlocks.Split

structure Span where
  start : Position
  stop : Option Position
deriving DecidableEq, Repr

structure Chunk where
  node : Option Nat
  text : Text
deriving DecidableEq, Repr

inductive Cause where
  | firstBeforeText
  | lastAfterText
  | outOfOrder
  | stringOutsideStatement
  | stringEndsRow
  | commentOnOwnLine
  | endOutsideRange
deriving DecidableEq, Repr

structure Fault where
  cause : Cause
  start : Position
  stop : Position
deriving DecidableEq, Repr

def Cause.message : Cause → String
  | .firstBeforeText => "first statement starts before the text"
  | .lastAfterText => "last statement starts at or after the end of the text"
  | .outOfOrder => "statements out of order"
  | .stringOutsideStatement => "string end outside its statement"
  | .stringEndsRow => "string end at column 1"
  | .commentOnOwnLine => "trailing comment on the statement's own line"
  | .endOutsideRange => "statement end outside its range"

def Fault.message (f : Fault) : String :=
  s!"split_code_lines: {f.cause.message} (start={f.start.render}, end={f.stop.render})"

def check (ok : Prop) [Decidable ok] (cause : Cause) (start stop : Position) : Except Fault Unit :=
  if ok then .ok () else .error ⟨cause, start, stop⟩

def isContinued (line : List Char) : Bool := line.getLast? = some '\\'

def isLoose (t : Text) (row : Nat) : Bool :=
  isCommentOrBlank (t.rowChars row) && !isContinued (t.rowChars (row - 1))

def looseStart (t : Text) (top : Nat) : Nat → Nat
  | 0 => 0
  | row + 1 => if top < row ∧ isLoose t row then looseStart t top row else row + 1

def stopAfterString? (t : Text) (start next stop : Position) : Except Fault (Option Position) := do
  check (start < stop ∧ stop ≤ next) .stringOutsideStatement start stop
  check (stop.offset ≠ 0) .stringEndsRow start stop
  let lineEnd := min t.stop ⟨stop.row + 1, 0⟩
  pure (if isCommentOrBlank (t.slice stop lineEnd).chars then some lineEnd else none)

def beforeLastComment (t : Text) (start next : Position) : Except Fault Position :=
  if next.offset ≠ 0 ∧ next = t.stop ∧ isCommentOrBlank (t.rowChars next.row) then do
    check (start.row < next.row) .commentOnOwnLine start next
    pure (if isContinued (t.rowChars (next.row - 1)) then next else ⟨next.row, 0⟩)
  else .ok next

def stopBeforeLoose (t : Text) (start next : Position) : Except Fault Position := do
  let stop ← beforeLastComment t start next
  pure (if stop.offset = 0 then ⟨looseStart t start.row stop.row, 0⟩ else stop)

def statementStop (t : Text) (s : Span) (next : Position) : Except Fault Position := do
  let known ← match s.stop with
    | some stop => stopAfterString? t s.start next stop
    | none => pure none
  match known with
  | some stop => pure stop
  | none => stopBeforeLoose t s.start next

def chunksFrom (t : Text) (index : Nat) : List Span → Except Fault (List Chunk)
  | [] => .ok []
  | s :: rest => do
    let next := match rest with
      | [] => t.stop
      | n :: _ => n.start
    check (s.start < next) .outOfOrder s.start next
    let stop ← statementStop t s next
    check (s.start < stop ∧ stop ≤ next) .endOutsideRange s.start stop
    let more ← chunksFrom t (index + 1) rest
    let loose := if stop = next then [] else [⟨none, t.slice stop next⟩]
    pure (⟨some index, t.slice s.start stop⟩ :: loose ++ more)

def chunks (t : Text) (spans : List Span) : Except Fault (List Chunk) :=
  match spans, spans.getLast? with
  | first :: _, some last => do
    check (t.start ≤ first.start) .firstBeforeText t.start first.start
    check (last.start < t.stop) .lastAfterText last.start t.stop
    let lead := if t.start = first.start then [] else [⟨none, t.slice t.start first.start⟩]
    let more ← chunksFrom t 0 spans
    pure (lead ++ more)
  | _, _ => .ok [⟨none, t⟩]

end SourceBlocks.Split
