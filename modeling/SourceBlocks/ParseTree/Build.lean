import SourceBlocks.Grammar.Abstract
import SourceBlocks.ParseTree.Basic

namespace SourceBlocks.ParseTree

open SourceBlocks.Grammar (Builder Onset Parameter Phrase Piece Role)
open SourceBlocks.Tree (Shape)

def suite (role : Role) (body : List ParseTree) : ParseTree := (inner .block body).fill role

def async (isAsync : Bool) : List ParseTree := if isAsync then [token "async"] else []

def hint (role : Role) (t : ParseTree) : ParseTree := (inner .type [t]).fill role

def definition (onset : Onset) (decorators : List ParseTree) (kind : Kind) (parts : List ParseTree) :
    ParseTree :=
  if decorators.isEmpty then node onset kind parts
  else
    node onset .decoratedDefinition (decorators.map (fun d => inner .decorator [token "@", d]) ++
      [(inner kind parts).fill .definition])

def assignments : List ParseTree → ParseTree → ParseTree
  | [], value => value
  | t :: ts, value =>
    inner .assignment [t.fill .left, token "=", (assignments ts value).fill .right]

def entry : Option ParseTree × ParseTree → ParseTree
  | (some key, value) => inner .pair [key.fill .key, token ":", value.fill .value]
  | (none, value) => inner .dictionarySplat [token "**", value]

def comprehension (onset : Onset) (kind : Kind) (opening closing : String) (body : ParseTree)
    (clauses : List ParseTree) : ParseTree :=
  node onset kind (token opening :: body.fill .body :: clauses.flatMap exposed ++ [token closing])

def clause (target iter : ParseTree) (ifs : List ParseTree) (isAsync : Bool) : ParseTree :=
  let values := inner .forInClause
    (async isAsync ++ [token "for", target.fill .left, token "in"] ++ iter.exposed)
  inner .hidden (values :: ifs.map (fun t => inner .ifClause [token "if", t]))

def importedModule (source : Option String) (level : Nat) : List ParseTree :=
  let name := source.toList.map (fun s => leaf .dottedName s.toList)
  if level = 0 then name.map (fill .moduleName)
  else [mk .relativeImport (some .moduleName) .unknown (List.replicate level '.') name]

def importFrom (onset : Onset) (source : Option String) (names : List ParseTree) (level : Nat) :
    ParseTree :=
  if source = some "__future__" ∧ level = 0 then
    node onset .futureImportStatement
      ([token "from", token "__future__", token "import"] ++ separated names)
  else
    node onset .importFromStatement
      (token "from" :: importedModule source level ++ token "import" :: separated names)

def arguments (role : Role) (args : List ParseTree) : ParseTree :=
  match args with
  | [a] => if a.role = some role then a else list
  | _ => list
where
  list := (inner .argumentList (token "(" :: separated args ++ [token ")"])).fill role

def ofShape (onset : Onset) : Shape ParseTree → ParseTree
  | .module body => node onset .module body
  | .functionDef id decorators args returns body isAsync =>
    definition onset decorators .functionDefinition (async isAsync ++
      [token "def", (leaf .identifier id.toList).fill .name, args.fill .parameters] ++
      returns.toList.map (hint .returnType) ++ [token ":", suite .body body])
  | .classDef id decorators bases body =>
    definition onset decorators .classDefinition
      ([token "class", (leaf .identifier id.toList).fill .name] ++
      (if bases.isEmpty then [] else [arguments .superclasses bases]) ++
        [token ":", suite .body body])
  | .returnValue value => node onset .returnStatement (token "return" :: value.toList)
  | .delete targets => node onset .deleteStatement (match targets with
    | [t] => [token "del", t]
    | ts => [token "del", inner .expressionList (separated ts)])
  | .assign targets value => node onset .expressionStatement [assignments targets value]
  | .augAssign target op value => node onset .expressionStatement
    [inner .augmentedAssignment [target.fill .left, (token op).fill .operator, value.fill .right]]
  | .annAssign target type value => node onset .expressionStatement
    [inner .assignment ([target.fill .left, token ":", hint .type type] ++
      value.toList.flatMap (fun v => [token "=", v.fill .right]))]
  | .forLoop target iter body orelse isAsync => node onset .forStatement (async isAsync ++
    [token "for", target.fill .left, token "in", iter.fill .right, token ":", suite .body body] ++
      orelse)
  | .whileLoop test body orelse => node onset .whileStatement
    ([token "while", test.fill .condition, token ":", suite .body body] ++ orelse)
  | .branch test body orelse => node onset .ifStatement
    ([token "if", test.fill .condition, token ":", suite .consequence body] ++ orelse)
  | .withBlock items body isAsync => node onset .withStatement (async isAsync ++
    [token "with", inner .withClause (separated items), token ":", suite .body body])
  | .withItem context target => node onset .withItem (context.fill .value :: target.toList)
  | .raise exc cause => node onset .raiseStatement (token "raise" :: exc.toList ++
    cause.toList.flatMap (fun c => [token "from", c.fill .cause]))
  | .tryBlock body handlers orelse final => node onset .tryStatement
    ([token "try", token ":", suite .body body] ++ handlers ++ orelse ++ final)
  | .exceptHandler type name body => node onset .exceptClause (token "except" :: type.toList ++
    name.toList.flatMap (fun id => [token "as", leaf .identifier id.toList]) ++
      [token ":", inner .block body])
  | .assertion test message => node onset .assertStatement
    (token "assert" :: separated (test :: message.toList))
  | .importNames names => node onset .importStatement (token "import" :: separated names)
  | .importFrom source names level => importFrom onset source names level
  | .globalNames names => node onset .globalStatement
    (token "global" :: separated (names.map (fun id => leaf .identifier id.toList)))
  | .nonlocalNames names => node onset .nonlocalStatement
    (token "nonlocal" :: separated (names.map (fun id => leaf .identifier id.toList)))
  | .expr value => node onset .expressionStatement value.exposed
  | .pass => node onset .passStatement [token "pass"]
  | .breakLoop => node onset .breakStatement [token "break"]
  | .continueLoop => node onset .continueStatement [token "continue"]
  | .print dest values newline => node onset .printStatement (token "print" ::
    separated (dest.toList.map (fun d => inner .chevron [token ">>", d]) ++ values) ++
      (if newline then [] else [token ","]))
  | .exec body globals locals => node onset .execStatement (token "exec" :: body ::
    globals.toList.flatMap (fun t => [token "in", t]) ++
      locals.toList.flatMap (fun t => [token ",", t]))
  | .boolOp op [left, right] => node onset .booleanOperator
    [left.fill .left, (token op).fill .operator, right.fill .right]
  | .namedExpr target value => node onset .namedExpression
    [target.fill .name, token ":=", value.fill .value]
  | .binOp left op right => node onset .binaryOperator
    [left.fill .left, (token op).fill .operator, right.fill .right]
  | .unaryOp op operand =>
    if op = "not" then node onset .notOperator [token op, operand.fill .argument]
    else node onset .unaryOperator [(token op).fill .operator, operand.fill .argument]
  | .lambda args body => node onset .lambda
    [token "lambda", args.fill .parameters, token ":", body.fill .body]
  | .ifExp test body orelse => node onset .conditionalExpression
    [body, token "if", test, token "else", orelse]
  | .dict entries => node onset .dictionary
    (token "\x7b" :: separated (entries.map entry) ++ [token "\x7d"])
  | .set elts => node onset .set (token "\x7b" :: separated elts ++ [token "\x7d"])
  | .listComp elt clauses => comprehension onset .listComprehension "[" "]" elt clauses
  | .setComp elt clauses => comprehension onset .setComprehension "\x7b" "\x7d" elt clauses
  | .dictComp key value clauses =>
    comprehension onset .dictionaryComprehension "\x7b" "\x7d" (entry (some key, value)) clauses
  | .generatorExp elt clauses => comprehension onset .generatorExpression "(" ")" elt clauses
  | .comprehension target iter ifs isAsync => clause target iter ifs isAsync
  | .await value => node onset .await [token "await", value]
  | .yieldValue value => node onset .yield (token "yield" :: value.toList)
  | .yieldFrom value => node onset .yield [token "yield", token "from", value]
  | .compare left ops comparators => node onset .comparisonOperator
    (left :: (ops.zip comparators).flatMap (fun c => [token c.1, c.2]))
  | .call func args => node onset .call [func.fill .function, arguments .arguments args]
  | .keyword (some id) value => node onset .keywordArgument
    [(leaf .identifier id.toList).fill .name, token "=", value.fill .value]
  | .keyword none value => node onset .dictionarySplat [token "**", value]
  | .num text => mk .number none (.ofOnset onset) text.toList []
  | .nameConstant value => mk .constant none (.ofOnset onset) value.toList []
  | .ellipsis => node onset .ellipsis []
  | .attr value id => node onset .member
    [value.fill .object, token ".", (leaf .identifier id.toList).fill .attribute]
  | .subscript value index => node onset .subscript
    (value.fill .value :: token "[" :: index.exposed ++ [token "]"])
  | .slice lower upper step => node onset .slice (lower.toList ++ token ":" :: upper.toList ++
    step.toList.flatMap (fun t => [token ":", t]))
  | .starred value => node onset .listSplat [token "*", value]
  | .name id => mk .identifier none (.ofOnset onset) id.toList []
  | .list elts => node onset .list (token "[" :: separated elts ++ [token "]"])
  | .tuple elts => match onset with
    | .token _ => node onset .tuple (token "(" :: separated elts ++ [token ")"])
    | _ => node onset .expressionList (separated elts)
  | .arg id none => mk .identifier none (.ofOnset onset) id.toList []
  | .arg id (some type) => node onset .typedParameter
    [leaf .identifier id.toList, token ":", hint .type type]
  | .other kind parts => node onset (.ofName kind) parts
  -- rules build the rest in other ways
  | s => node onset (.other s.kindName) s.children

def splat (kind : Kind) (written : List Char) : Option ParseTree → ParseTree
  | none => leaf kind written
  | some type => inner .typedParameter [leaf kind written, token ":", hint .type type]

def withDefault (value : ParseTree) : ParseTree → ParseTree
  | mk .typedParameter role span text (name :: more) =>
    mk .typedDefaultParameter role span text
      (name.fill .name :: more ++ [token "=", value.fill .value])
  | arg => mk .defaultParameter none arg.span [] [arg.fill .name, token "=", value.fill .value]

def ofParameter : Parameter ParseTree → ParseTree
  | .named arg none => arg
  | .named arg (some value) => withDefault value arg
  | .rest written type => splat .listSplat written type
  | .options written type => splat .dictionarySplat written type
  | .keywordMark => leaf .keywordSeparator ['*']
  | .positionalMark => leaf .positionalSeparator ['/']

def ofPiece (p : Piece) : ParseTree :=
  mk .string none ⟨some p.start, some p.stop, Grammar.leadOf? [p]⟩ p.text []

def ofPieces (start : Position) (text : List Char) : List Piece → ParseTree
  | [p] => ofPiece p
  | ps => mk .concatenatedString none
    ⟨some start, (ps.getLast?).map Piece.stop, Grammar.leadOf? ps⟩ text (ps.map ofPiece)

def imported (start : Position) (written : List Char) : Option String → ParseTree
  | some asname => node (.token start) .aliasedImport
    [(leaf .dottedName written).fill .name, token "as", (leaf .identifier asname.toList).fill .alias]
  | none =>
    if written = ['*'] then node (.token start) .wildcardImport [token "*"]
    else mk .dottedName none (.ofOnset (.token start)) written []

def continued (word : String) (body : List ParseTree) : ParseTree :=
  if word = "finally" then inner .finallyClause [token word, token ":", inner .block body]
  else (inner .elseClause [token word, token ":", suite .body body]).fill .alternative

def append (ts : List ParseTree) : ParseTree → ParseTree
  | mk kind role span text children =>
    mk kind role span text (children ++ ts.flatMap (fun t => [token ",", t]))

instance : Builder ParseTree where
  node := ofShape
  string := ofPieces
  group start t := node (.token start) .parenthesizedExpression [token "(", t, token ")"]
  head := head
  fill := fill
  loose onset ts := node onset .hidden (separated ts)
  subscripts t ts := inner .hidden (separated (t :: ts) ++ (if ts.isEmpty then [token ","] else []))
  operands _ p := [p.node]
  unalias p := (p.node, none)
  aliasTarget text t := mk .asPatternTarget (some .alias) .unknown text [t]
  soleArgument t := [t.fill .arguments]
  parameters ps := inner .parameters (separated (ps.map ofParameter))
  imported := imported
  block body := [inner .block body]
  clause word body := [continued word body]
  furtherBranch start test body orelse :=
    (node (.token start) .elifClause
      [token "elif", test.fill .condition, token ":",
        suite .consequence body]).fill .alternative :: orelse
  dropping t ts := t.append ts

end SourceBlocks.ParseTree
