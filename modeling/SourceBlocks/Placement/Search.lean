import SourceBlocks.Placement.Quotes
import SourceBlocks.Tree.Dump

/-!
The search for a string literal over several rows.
-/

namespace SourceBlocks.Placement

open SourceBlocks.Tree (Extent Node)

/-- What a search takes place in: a text, the margin that was cut off before it was read, and a way to
read a fragment as a string literal. -/
structure Setting where
  text : Text
  margin : List Char
  reader : List Char → Option (List Char)

def withoutMargin (margin row : List Char) : List Char :=
  if margin.isPrefixOf row then row.drop margin.length else row

def fragment (s : Setting) (e : Extent) : List Char :=
  match (s.text.slice e.start e.stop).lines with
  | [] => []
  | first :: rest => Text.joinLines (first :: rest.map (withoutMargin s.margin))

def pairsWith (opens : List QuotePlace) (close : QuotePlace) : List (Bool × Extent) :=
  (opens.filter (fun o => o.place < close.place)).map
    (fun o => (decide (o.quote = close.quote), ⟨o.place, close.place⟩))

/-- All pairs, later ends first. Pairs of unlike quotes can only be literals in several pieces and come
behind the others. -/
def pairs (opens closes : List QuotePlace) : List Extent :=
  let all := closes.reverse.flatMap (pairsWith opens)
  (all.filter (·.1)).map Prod.snd ++ (all.filter (fun p => !p.1)).map Prod.snd

def isMatch (s : Setting) (value : List Char) (e : Extent) : Bool :=
  s.reader (fragment s e) = some value

def isPartial (s : Setting) (value : List Char) (e : Extent) : Bool :=
  (s.reader (fragment s e)).any (fun v => v.isPrefixOf value)

inductive Miss where
  | noQuote
  | notFound
deriving DecidableEq, Repr

/-- Looks for the end row by row; `isFirst` says whether the row is the one on which the first piece
ends. Only beginnings from which some beginning of the value can be read are kept for later rows. -/
def search (s : Setting) (value : List Char) (isFirst : Bool) (opens : List QuotePlace) :
    List Nat → Except Miss Extent
  | [] => .error .notFound
  | row :: rows =>
    let closes := closePlaces s.text row
    if closes.isEmpty then
      if isFirst then .error .noQuote else search s value false opens rows
    else
      let candidates := pairs opens closes
      match candidates.find? (isMatch s value) with
      | some e => .ok e
      | none =>
        let starts := (candidates.filter (isPartial s value)).map Extent.start
        if starts.isEmpty then .error .notFound
        else search s value false (opens.filter (fun o => o.place ∈ starts)) rows

def locate (s : Setting) (value : List Char) (floor : Position) (last : Nat) :
    Except Miss Extent :=
  search s value true (openPlaces s.text floor last) (rowsFrom last s.text.stop.row)

end SourceBlocks.Placement
