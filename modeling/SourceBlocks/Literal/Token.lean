import SourceBlocks.Literal.Escape

namespace SourceBlocks.Literal

inductive TokenFault where
  | malformed (token : String)
  | unterminated (token : String)
deriving DecidableEq, Repr

def TokenFault.message : TokenFault → String
  | .malformed token => s!"malformed string token: {token}"
  | .unterminated token => s!"unterminated string token: {token}"

structure Decoded where
  value : List Char
  bytes : Bool
  formatted : Bool
deriving DecidableEq, Repr

def isMarkLetter (c : Char) : Bool := c ∈ ['r', 'R', 'b', 'B', 'u', 'U', 'f', 'F']

def marks (letters : List Char) (lower upper : Char) : Bool :=
  letters.contains lower || letters.contains upper

def openingQuotes : List Char → List Char
  | '"' :: '"' :: '"' :: _ => ['"', '"', '"']
  | '\'' :: '\'' :: '\'' :: _ => ['\'', '\'', '\'']
  | '"' :: _ => ['"']
  | '\'' :: _ => ['\'']
  | _ => []

def decode (token : List Char) : Except TokenFault Decoded :=
  let letters := token.takeWhile isMarkLetter
  let rest := token.dropWhile isMarkLetter
  let quotes := openingQuotes rest
  if quotes = [] then .error (.malformed (String.ofList token))
  else if rest.length < 2 * quotes.length ∨ ¬ quotes.isSuffixOf rest then
    .error (.unterminated (String.ofList token))
  else
    let body := (rest.drop quotes.length).take (rest.length - 2 * quotes.length)
    let bytes := marks letters 'b' 'B'
    .ok {
      value := if marks letters 'r' 'R' then body else unescape bytes body
      bytes := bytes
      formatted := marks letters 'f' 'F' }

end SourceBlocks.Literal
