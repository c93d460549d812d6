import SourceBlocks.Lexis.Quote
import SourceBlocks.Number.Digits

namespace SourceBlocks.Lexis

inductive Run where
  | content (length : Nat)
  | closed (length : Nat)
  | stuck
deriving DecidableEq, Repr

namespace Run

def orStuck (some : Bool) (n : Nat) : Run := if some then content n else stuck

end Run

def startsWithChar (c : Char) : List Char → Bool
  | d :: _ => d = c
  | [] => false

def lineBreakLength : List Char → Nat
  | '\r' :: '\n' :: _ => 2
  | '\r' :: _ => 1
  | '\n' :: _ => 1
  | _ => 0

def rawEscapeLength (mark : Char) (r : List Char) : Nat :=
  let n := match r with
    | c :: _ => if c = mark ∨ c = '\\' then 1 else 0
    | [] => 0
  n + lineBreakLength (r.drop n)

def byteEscapeLength : List Char → Nat
  | c :: _ => if c = 'N' ∨ c = 'u' ∨ c = 'U' then 2 else 0
  | [] => 0

def quotesHere (q : Quote) (some : Bool) (n : Nat) (r : List Char) : Run :=
  if q.triple then
    if [q.mark, q.mark].isPrefixOf r then if some then .content n else .closed (n + 3)
    else if startsWithChar q.mark r then .content (n + 2)
    else .content (n + 1)
  else if some then .content n
  else .closed (n + 1)

/-- What a body goes on with, when `n` characters of a run have been seen; `some` tells whether they
count as its content. A line break can only be the first character of a run, unless the literal has
three quotes. -/
def run (q : Quote) (some : Bool) (n : Nat) (s : List Char) : Run :=
  match s with
  | [] => .stuck
  | c :: r =>
    if c.toNat = 0 then .stuck
    else if q.fields ∧ (c = '\x7b' ∨ c = '\x7d') then Run.orStuck some n
    else if c = '\\' then
      if q.raw then run q some (n + 1 + rawEscapeLength q.mark r) (r.drop (rawEscapeLength q.mark r))
      else if q.bytes ∧ byteEscapeLength r ≠ 0 then
        run q true (n + 1 + byteEscapeLength r) (r.drop (byteEscapeLength r))
      else Run.orStuck some n
    else if c = q.mark then quotesHere q some n r
    else if c = '\n' ∧ some ∧ ¬ q.triple then .stuck
    else run q true (n + 1) r
termination_by s.length

def isHexRun (width : Nat) (s : List Char) : Bool :=
  decide (width ≤ s.length) && (s.take width).all Number.isHexDigit

def namedLength : List Char → Nat
  | '\x7b' :: r =>
    let n := (r.takeWhile (· ≠ '\x7d')).length
    if n = 0 ∨ r.length ≤ n then 0 else n + 2
  | _ => 0

def escapeLength : List Char → Nat
  | [] => 0
  | c :: r =>
    if c = 'u' then if isHexRun 4 r then 5 else 0
    else if c = 'U' then if isHexRun 8 r then 9 else 0
    else if c = 'x' then if isHexRun 2 r then 3 else 0
    else if Number.isDigit c then 1 + ((r.take 2).takeWhile Number.isDigit).length
    else if c = '\n' then 1
    else if c = '\r' then if startsWithChar '\n' r then 2 else 0
    else if c ∈ ['\'', '"', 'a', 'b', 'f', 'r', 'n', 't', 'v', '\\'] then 1
    else if c = 'N' then if namedLength r = 0 then 0 else 1 + namedLength r
    else 0

end SourceBlocks.Lexis
