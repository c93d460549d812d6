import SourceBlocks.Position

/-!
The constructs of the language: a shape is one construct with its parts, whatever stands for the
parts.
-/

namespace SourceBlocks.Tree

structure Extent where
  start : Position
  stop : Position
deriving DecidableEq, Repr

inductive Shape (α : Type) where
  | module (body : List α)
  | functionDef (name : String) (decorators : List α) (args : α) (returns : Option α)
      (body : List α) (isAsync : Bool)
  | classDef (name : String) (decorators bases body : List α)
  | returnValue (value : Option α)
  | delete (targets : List α)
  | assign (targets : List α) (value : α)
  | augAssign (target : α) (op : String) (value : α)
  | annAssign (target hint : α) (value : Option α)
  | forLoop (target iter : α) (body orelse : List α) (isAsync : Bool)
  | whileLoop (test : α) (body orelse : List α)
  | branch (test : α) (body orelse : List α)
  | withBlock (items body : List α) (isAsync : Bool)
  | withItem (context : α) (target : Option α)
  | raise (exc cause : Option α)
  | tryBlock (body handlers orelse final : List α)
  | exceptHandler (type : Option α) (name : Option String) (body : List α)
  | assertion (test : α) (message : Option α)
  | importNames (names : List α)
  | importFrom (module : Option String) (names : List α) (level : Nat)
  | importAlias (name : String) (asname : Option String) (written : Position)
  | globalNames (names : List String)
  | nonlocalNames (names : List String)
  | expr (value : α)
  | pass
  | breakLoop
  | continueLoop
  | print (dest : Option α) (values : List α) (newline : Bool)
  | exec (body : α) (globals locals : Option α)
  | boolOp (op : String) (values : List α)
  | namedExpr (target value : α)
  | binOp (left : α) (op : String) (right : α)
  | unaryOp (op : String) (operand : α)
  | lambda (args body : α)
  | ifExp (test body orelse : α)
  | dict (entries : List (Option α × α))
  | set (elts : List α)
  | listComp (elt : α) (generators : List α)
  | setComp (elt : α) (generators : List α)
  | dictComp (key value : α) (generators : List α)
  | generatorExp (elt : α) (generators : List α)
  | comprehension (target iter : α) (ifs : List α) (isAsync : Bool)
  | await (value : α)
  | yieldValue (value : Option α)
  | yieldFrom (value : α)
  | compare (left : α) (ops : List String) (comparators : List α)
  | call (func : α) (args : List α)
  | keyword (name : Option String) (value : α)
  | num (text : String)
  | str (value : String) (bytes : Bool) (written : Extent)
  | unreadableStr (token : String)
  | joinedStr (text : String)
  | nameConstant (value : String)
  | ellipsis
  | attr (value : α) (name : String)
  | subscript (value index : α)
  | slice (lower upper step : Option α)
  | starred (value : α)
  | name (id : String)
  | list (elts : List α)
  | tuple (elts : List α)
  | arguments (positional : List (α × Option α)) (vararg : Option String)
      (keywordOnly : List (α × Option α)) (kwarg : Option String)
  | arg (name : String) (hint : Option α)
  | other (kind : String) (parts : List α)
deriving Repr

inductive Field (α : Type) where
  | leaf
  | one (a : α)
  | maybe (a : Option α)
  | many (as : List α)
  | sparse (as : List (Option α))

namespace Field

variable {α : Type}

def nodes : Field α → List α
  | leaf => []
  | one a => [a]
  | maybe a => a.toList
  | many as => as
  | sparse as => as.flatMap Option.toList

end Field

namespace Shape

variable {α : Type}

def kindName : Shape α → String
  | module _ => "Module"
  | functionDef .. => "FunctionDef"
  | classDef .. => "ClassDef"
  | returnValue _ => "Return"
  | delete _ => "Delete"
  | assign .. => "Assign"
  | augAssign .. => "AugAssign"
  | annAssign .. => "AnnAssign"
  | forLoop .. => "For"
  | whileLoop .. => "While"
  | branch .. => "If"
  | withBlock .. => "With"
  | withItem .. => "withitem"
  | raise .. => "Raise"
  | tryBlock .. => "Try"
  | exceptHandler .. => "ExceptHandler"
  | assertion .. => "Assert"
  | importNames _ => "Import"
  | importFrom .. => "ImportFrom"
  | importAlias .. => "alias"
  | globalNames _ => "Global"
  | nonlocalNames _ => "Nonlocal"
  | expr _ => "Expr"
  | pass => "Pass"
  | breakLoop => "Break"
  | continueLoop => "Continue"
  | print .. => "Print"
  | exec .. => "Exec"
  | boolOp .. => "BoolOp"
  | namedExpr .. => "NamedExpr"
  | binOp .. => "BinOp"
  | unaryOp .. => "UnaryOp"
  | lambda .. => "Lambda"
  | ifExp .. => "IfExp"
  | dict _ => "Dict"
  | set _ => "Set"
  | listComp .. => "ListComp"
  | setComp .. => "SetComp"
  | dictComp .. => "DictComp"
  | generatorExp .. => "GeneratorExp"
  | comprehension .. => "comprehension"
  | await _ => "Await"
  | yieldValue _ => "Yield"
  | yieldFrom _ => "YieldFrom"
  | compare .. => "Compare"
  | call .. => "Call"
  | keyword .. => "keyword"
  | num _ => "Num"
  | str .. => "Str"
  | unreadableStr _ => "Str"
  | joinedStr _ => "JoinedStr"
  | nameConstant _ => "NameConstant"
  | ellipsis => "Ellipsis"
  | attr .. => "Attribute"
  | subscript .. => "Subscript"
  | slice .. => "Slice"
  | starred _ => "Starred"
  | name _ => "Name"
  | list _ => "List"
  | tuple _ => "Tuple"
  | arguments .. => "arguments"
  | arg .. => "arg"
  | other kind _ => kind

def fields : Shape α → List (String × Field α)
  | module body => [("body", .many body)]
  | functionDef _ decorators args returns body _ =>
    [("name", .leaf), ("args", .one args), ("body", .many body),
      ("decorator_list", .many decorators), ("returns", .maybe returns)]
  | classDef _ decorators bases body =>
    [("name", .leaf), ("bases", .many bases), ("body", .many body),
      ("decorator_list", .many decorators)]
  | returnValue value => [("value", .maybe value)]
  | delete targets => [("targets", .many targets)]
  | assign targets value => [("targets", .many targets), ("value", .one value)]
  | augAssign target _ value => [("target", .one target), ("op", .leaf), ("value", .one value)]
  | annAssign target hint value =>
    [("target", .one target), ("annotation", .one hint), ("value", .maybe value)]
  | forLoop target iter body orelse _ =>
    [("target", .one target), ("iter", .one iter), ("body", .many body), ("orelse", .many orelse)]
  | whileLoop test body orelse =>
    [("test", .one test), ("body", .many body), ("orelse", .many orelse)]
  | branch test body orelse =>
    [("test", .one test), ("body", .many body), ("orelse", .many orelse)]
  | withBlock items body _ => [("items", .many items), ("body", .many body)]
  | withItem context target => [("context_expr", .one context), ("optional_vars", .maybe target)]
  | raise exc cause => [("exc", .maybe exc), ("cause", .maybe cause)]
  | tryBlock body handlers orelse final =>
    [("body", .many body), ("handlers", .many handlers), ("orelse", .many orelse),
      ("finalbody", .many final)]
  | exceptHandler type _ body => [("type", .maybe type), ("name", .leaf), ("body", .many body)]
  | assertion test message => [("test", .one test), ("msg", .maybe message)]
  | importNames names => [("names", .many names)]
  | importFrom _ names _ => [("module", .leaf), ("names", .many names), ("level", .leaf)]
  | importAlias .. => [("name", .leaf), ("asname", .leaf)]
  | globalNames _ => [("names", .leaf)]
  | nonlocalNames _ => [("names", .leaf)]
  | expr value => [("value", .one value)]
  | pass => []
  | breakLoop => []
  | continueLoop => []
  | print dest values _ => [("dest", .maybe dest), ("values", .many values), ("nl", .leaf)]
  | exec body globals locals =>
    [("body", .one body), ("globals", .maybe globals), ("locals", .maybe locals)]
  | boolOp _ values => [("op", .leaf), ("values", .many values)]
  | namedExpr target value => [("target", .one target), ("value", .one value)]
  | binOp left _ right => [("left", .one left), ("op", .leaf), ("right", .one right)]
  | unaryOp _ operand => [("op", .leaf), ("operand", .one operand)]
  | lambda args body => [("args", .one args), ("body", .one body)]
  | ifExp test body orelse => [("test", .one test), ("body", .one body), ("orelse", .one orelse)]
  | dict entries =>
    [("keys", .sparse (entries.map Prod.fst)), ("values", .many (entries.map Prod.snd))]
  | set elts => [("elts", .many elts)]
  | listComp elt generators => [("elt", .one elt), ("generators", .many generators)]
  | setComp elt generators => [("elt", .one elt), ("generators", .many generators)]
  | dictComp key value generators =>
    [("key", .one key), ("value", .one value), ("generators", .many generators)]
  | generatorExp elt generators => [("elt", .one elt), ("generators", .many generators)]
  | comprehension target iter ifs _ =>
    [("target", .one target), ("iter", .one iter), ("ifs", .many ifs)]
  | await value => [("value", .one value)]
  | yieldValue value => [("value", .maybe value)]
  | yieldFrom value => [("value", .one value)]
  | compare left _ comparators =>
    [("left", .one left), ("ops", .leaf), ("comparators", .many comparators)]
  | call func args => [("func", .one func), ("args", .many args)]
  | keyword _ value => [("arg", .leaf), ("value", .one value)]
  | num _ => [("n", .leaf)]
  | str .. => [("s", .leaf)]
  | unreadableStr _ => [("s", .leaf)]
  | joinedStr _ => [("values", .leaf)]
  | nameConstant _ => [("value", .leaf)]
  | ellipsis => []
  | attr value _ => [("value", .one value), ("attr", .leaf)]
  | subscript value index => [("value", .one value), ("slice", .one index)]
  | slice lower upper step =>
    [("lower", .maybe lower), ("upper", .maybe upper), ("step", .maybe step)]
  | starred value => [("value", .one value)]
  | name _ => [("id", .leaf)]
  | list elts => [("elts", .many elts)]
  | tuple elts => [("elts", .many elts)]
  | arguments positional _ keywordOnly _ =>
    [("args", .many (positional.map Prod.fst)), ("vararg", .leaf),
      ("kwonlyargs", .many (keywordOnly.map Prod.fst)),
      ("kw_defaults", .sparse (keywordOnly.map Prod.snd)), ("kwarg", .leaf),
      ("defaults", .sparse (positional.map Prod.snd))]
  | arg _ hint => [("arg", .leaf), ("annotation", .maybe hint)]
  | other _ parts => [("children", .many parts)]

def fieldNames (s : Shape α) : List String := s.fields.map Prod.fst

def fieldNodes (s : Shape α) : List α := s.fields.flatMap (fun f => f.2.nodes)

def children : Shape α → List α
  | functionDef _ decorators args returns body _ => decorators ++ args :: returns.toList ++ body
  | classDef _ decorators bases body => decorators ++ bases ++ body
  | ifExp test body orelse => [body, test, orelse]
  | dict entries => entries.flatMap (fun e => e.1.toList ++ [e.2])
  | arguments positional _ keywordOnly _ =>
    (positional ++ keywordOnly).flatMap (fun p => p.1 :: p.2.toList)
  | s => s.fieldNodes

def isAsync : Shape α → Bool
  | functionDef _ _ _ _ _ isAsync => isAsync
  | forLoop _ _ _ _ isAsync => isAsync
  | withBlock _ _ isAsync => isAsync
  | comprehension _ _ _ isAsync => isAsync
  | _ => false

def stringValue? : Shape α → Option String
  | .str value _ _ => some value
  | _ => none

end Shape

end SourceBlocks.Tree
