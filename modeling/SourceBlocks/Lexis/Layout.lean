import SourceBlocks.Lexis.Cursor
import SourceBlocks.Lexis.Quote

/-!
Layout: what lies between two tokens, and what line breaks and indentation mean there.
-/

namespace SourceBlocks.Lexis

structure Expectation where
  lineEnd : Bool
  deeper : Bool
  shallower : Bool
  handler : Bool
  closing : Bool
  string : Bool
deriving DecidableEq, Repr

namespace Expectation

def nothing : Expectation := ⟨false, false, false, false, false, false⟩

def readsComments (e : Expectation) : Bool := e.deeper || e.shallower || e.lineEnd || e.handler

end Expectation

/-- What was seen of the layout: whether a row ended, the column reached, the column of the first
comment, and how many characters it took. -/
structure Margin where
  rowEnded : Bool
  column : Nat
  comment : Option Nat
  length : Nat
  rest : List Char
deriving Repr

namespace Margin

def start : Margin := ⟨false, 0, none, 0, []⟩

/-- Goes over blanks, line breaks, continued lines and, if they count as layout, comments on rows of
their own. There is no answer before a comment behind code and before a stray backslash. -/
def read? (comments inComment : Bool) (m : Margin) : List Char → Option Margin
  | [] => some { m with rowEnded := true, column := 0, rest := [] }
  | '\n' :: r =>
    read? comments false { m with rowEnded := true, column := 0, length := m.length + 1 } r
  | '\\' :: '\n' :: r =>
    if inComment then
      read? comments false { m with column := 0, length := m.length + 2 } r
    else read? comments false { m with length := m.length + 2 } r
  | '\\' :: '\r' :: '\n' :: r =>
    if inComment then
      read? comments false { m with column := 0, length := m.length + 3 } r
    else read? comments false { m with length := m.length + 3 } r
  | c :: r =>
    if inComment then
      if c.toNat = 0 then read? comments false { m with column := 0, length := m.length + 1 } r
      else read? comments true { m with length := m.length + 1 } r
    else if c = ' ' then
      read? comments false { m with column := m.column + 1, length := m.length + 1 } r
    else if c = '\t' then
      read? comments false { m with column := m.column + 8, length := m.length + 1 } r
    else if c = '\r' ∨ c.toNat = 12 then
      read? comments false { m with column := 0, length := m.length + 1 } r
    else if c = '#' ∧ comments then
      if m.rowEnded then
        read? comments true
          { m with comment := some (m.comment.getD m.column), length := m.length + 1 } r
      else none
    else if c = '\\' then
      if r = [] ∨ r = ['\r'] then
        some { m with rowEnded := true, column := 0, length := m.length + 1 + r.length, rest := [] }
      else none
    else some { m with rest := c :: r }

end Margin

inductive Ahead where
  | lineEnd
  | deeper (column : Nat)
  | shallower
  | token (c : Cursor)
deriving Repr

def isGap (c : Char) : Bool :=
  (9 ≤ c.toNat && c.toNat ≤ 13) || c = ' ' || c.toNat = 0xfeff || c.toNat = 0x2060 ||
    c.toNat = 0x200b

def beginsWithQuote : List Char → Bool
  | c :: _ => Quote.isMark c
  | [] => false

def filler? : List Char → Option Nat
  | '#' :: r => some ((r.takeWhile (· ≠ '\n')).length + 1)
  | '\\' :: '\n' :: _ => some 2
  | '\\' :: '\r' :: '\n' :: _ => some 3
  | '\\' :: c :: _ => if c.toNat = 0 then some 2 else none
  | _ => none

def rowEvent? (e : Expectation) (c : Cursor) (m : Margin) : Option Ahead :=
  if !m.rowEnded then none
  else if e.deeper && decide (c.indent < m.column) then some (.deeper m.column)
  else if (e.shallower ||
      (!e.lineEnd && !(e.string && beginsWithQuote m.rest) && !e.closing)) &&
      decide (m.column < c.indent) && !c.inFields &&
      (m.comment.map (fun n => decide (n < c.indent))).getD true then some .shallower
  else if e.lineEnd then some .lineEnd
  else none

def ahead (e : Expectation) : Nat → Cursor → Ahead
  | 0, c => .token c
  | fuel + 1, c =>
    let m := Margin.read? e.readsComments false Margin.start c.rest
    match m.bind (rowEvent? e c) with
    | some a => a
    | none =>
      let blanks := match m with
        | some m =>
          if m.comment.isNone && e.string && (Quote.atStart? m.rest).isSome then some m.length
          else none
        | none => none
      match blanks with
      | some n => .token (c.skip n)
      | none =>
        let c := c.skip (c.rest.takeWhile isGap).length
        match filler? c.rest with
        | some n => ahead e fuel (c.skip n)
        | none => .token c

end SourceBlocks.Lexis
