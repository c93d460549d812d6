import SourceBlocks.Number.Digits

namespace SourceBlocks.Report

inductive Json where
  | null
  | number (n : Nat)
  | string (s : String)
  | array (items : List Json)
  | object (fields : List (String × Json))
deriving Repr

namespace Json

def writeChar (c : Char) : List Char :=
  if c = '"' then ['\\', '"']
  else if c = '\\' then ['\\', '\\']
  else if c = '\n' then ['\\', 'n']
  else if c = '\r' then ['\\', 'r']
  else if c = '\t' then ['\\', 't']
  else if c.toNat = 8 then ['\\', 'b']
  else if c.toNat = 12 then ['\\', 'f']
  else if c.toNat < 0x20 then '\\' :: 'u' :: Number.writePadded 16 4 c.toNat
  else [c]

def writeString (s : String) : List Char := '"' :: s.toList.flatMap writeChar ++ ['"']

def separate (sep : List Char) : List (List Char) → List Char
  | [] => []
  | [s] => s
  | s :: t :: r => s ++ sep ++ separate sep (t :: r)

mutual

def compact : Json → List Char
  | null => ['n', 'u', 'l', 'l']
  | number n => Number.write 10 n
  | string s => writeString s
  | array items => '[' :: separate [','] (compactItems items) ++ [']']
  | object fields => '\x7b' :: separate [','] (compactFields fields) ++ ['\x7d']

def compactItems : List Json → List (List Char)
  | [] => []
  | v :: r => compact v :: compactItems r

def compactFields : List (String × Json) → List (List Char)
  | [] => []
  | (k, v) :: r => (writeString k ++ ':' :: compact v) :: compactFields r

end

def lineBreak (depth : Nat) : List Char := '\n' :: List.replicate (2 * depth) ' '

def bracketed (opening closing : Char) (depth : Nat) (items : List (List Char)) : List Char :=
  if items.isEmpty then [opening, closing]
  else
    opening :: lineBreak (depth + 1) ++ separate (',' :: lineBreak (depth + 1)) items ++
      lineBreak depth ++ [closing]

mutual

def pretty (depth : Nat) : Json → List Char
  | null => ['n', 'u', 'l', 'l']
  | number n => Number.write 10 n
  | string s => writeString s
  | array items => bracketed '[' ']' depth (prettyItems (depth + 1) items)
  | object fields => bracketed '\x7b' '\x7d' depth (prettyFields (depth + 1) fields)

def prettyItems (depth : Nat) : List Json → List (List Char)
  | [] => []
  | v :: r => pretty depth v :: prettyItems depth r

def prettyFields (depth : Nat) : List (String × Json) → List (List Char)
  | [] => []
  | (k, v) :: r => (writeString k ++ ':' :: ' ' :: pretty depth v) :: prettyFields depth r

end

def render (isCompact : Bool) (v : Json) : String :=
  String.ofList ((if isCompact then v.compact else v.pretty 0) ++ ['\n'])

end Json

end SourceBlocks.Report
