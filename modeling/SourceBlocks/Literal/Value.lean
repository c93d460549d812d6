import SourceBlocks.Literal.Quoted
import SourceBlocks.Number.FloatText

namespace SourceBlocks.Literal

open Number (Double FloatFormat)

inductive Value where
  | nothing
  | bool (b : Bool)
  | int (n : Int)
  | float (x : Double)
  | complex (re im : Double)
  | str (s : String)
  | bytes (bs : List UInt8)
  | tuple (items : List Value)
  | list (items : List Value)
  | set (items : List Value)
  | dict (entries : List (Value × Value))
deriving Repr

namespace Value

def writeInt (n : Int) : List Char :=
  if n < 0 then '-' :: Number.write 10 n.natAbs else Number.write 10 n.natAbs

def writeFloat (x : Double) : List Char := x.write FloatFormat.standard

def writePart (x : Double) : List Char :=
  let s := writeFloat x
  if ['.', '0'].isSuffixOf s then s.take (s.length - 2) else s

def isNegative (x : Double) : Bool := x.negative && !x.isNaN

def writeComplex (re im : Double) : List Char :=
  if re.isZero && !re.negative then writePart im ++ ['j']
  else '(' :: writePart re ++ (if isNegative im then '-' else '+') :: writePart im.abs ++ ['j', ')']

def commas : List (List Char) → List Char
  | [] => []
  | [s] => s
  | s :: t :: r => s ++ ',' :: ' ' :: commas (t :: r)

mutual

def write : Value → List Char
  | nothing => ['N', 'o', 'n', 'e']
  | bool true => ['T', 'r', 'u', 'e']
  | bool false => ['F', 'a', 'l', 's', 'e']
  | int n => writeInt n
  | float x => writeFloat x
  | complex re im => writeComplex re im
  | str s => quote s.toList
  | bytes bs => quoteBytes bs
  | tuple [v] => '(' :: write v ++ [',', ')']
  | tuple vs => '(' :: commas (writeAll vs) ++ [')']
  | list vs => '[' :: commas (writeAll vs) ++ [']']
  | set [] => ['s', 'e', 't', '(', ')']
  | set vs => '\x7b' :: commas (writeAll vs) ++ ['\x7d']
  | dict es => '\x7b' :: commas (writeEntries es) ++ ['\x7d']

def writeAll : List Value → List (List Char)
  | [] => []
  | v :: vs => write v :: writeAll vs

def writeEntries : List (Value × Value) → List (List Char)
  | [] => []
  | (k, v) :: es => (write k ++ ':' :: ' ' :: write v) :: writeEntries es

end

def render (v : Value) : String := String.ofList v.write

end Value

end SourceBlocks.Literal
