import SourceBlocks.Grammar.Definitions
import SourceBlocks.Grammar.Expressions
import SourceBlocks.Grammar.Handlers
import SourceBlocks.Proofs.Grammar.Linked.Basic

/-! What one builder builds, against trees of nodes. Links say when the two belong together, for
each part that something can have in what is built of it. -/

namespace SourceBlocks.Grammar

open Grammar.Parser
open SourceBlocks.Tree (Node Shape)

structure Links (τ : Type) where
  shift : Nat
  value : τ → Node → Prop
  operand : Phrase τ → Phrase Node → Prop
  statement : τ → Node → Prop
  clause : τ → Node → Prop
  item : τ → Node → Prop
  handler : τ → Node → Prop
  imported : τ → Node → Prop
  arg : τ → Node → Prop

def Onset.inset (w : Nat) : Onset → Onset
  | token start => token (start.inset w)
  | part start lead => part (start.inset w) lead
  | hidden => hidden

def Piece.inset (w : Nat) (p : Piece) : Piece := { p with start := p.start.inset w, stop := p.stop.inset w }

def knownNames : List String :=
  ["assignment", "augmented_assignment", "as_pattern", "dotted_name", "if_clause", "match_statement", "type_alias_statement"]

def knownValueNames : List String := ["as_pattern", "dotted_name"]

namespace Links

variable {τ : Type} (L : Links τ)

structure Phrases (p : Phrase τ) (p' : Phrase Node) : Prop where
  value : L.value p.node p'.node
  start : p'.start = p.start.inset L.shift
  stop : p'.stop = p.stop
  lead : p'.lead = p.lead

abbrev values : List τ → List Node → Prop := List.Forall₂ L.value

abbrev body : List τ → List Node → Prop := List.Forall₂ L.statement

inductive Parameters : Parameter τ → Parameter Node → Prop
  | named {a : τ} {n : Node} {d : Option τ} {d' : Option Node} : L.arg a n → Option.Rel L.value d d' →
      Parameters (.named a d) (.named n d')
  | rest {s : List Char} {t : Option τ} {n : Option Node} : Option.Rel L.value t n → Parameters (.rest s t) (.rest s n)
  | options {s : List Char} {t : Option τ} {n : Option Node} : Option.Rel L.value t n →
      Parameters (.options s t) (.options s n)
  | keywordMark : Parameters .keywordMark .keywordMark
  | positionalMark : Parameters .positionalMark .positionalMark

variable [Builder τ]

inductive Index : τ → Node → Prop
  | one {t : τ} {n : Node} : L.value t n → Index t n
  | several {t : τ} {n : Node} {ts : List τ} {ns : List Node} : L.value t n → L.values ts ns →
      Index (Builder.subscripts t ts) (Builder.subscripts n ns)

inductive Args : List τ → List Node → Prop
  | list {ts : List τ} {ns : List Node} : L.values ts ns → Args ts ns
  | generator {t : τ} {n : Node} {ts : List τ} {ns : List Node} (start : Position) : L.value t n →
      List.Forall₂ L.clause ts ns → Args (Builder.soleArgument (marked start (.generatorExp t ts)))
        (Builder.soleArgument (marked (start.inset L.shift) (.generatorExp n ns)))

inductive Trailers : Trailer τ → Trailer Node → Prop
  | attr (id : String) (stop : Nat) : Trailers (.attr id stop) (.attr id stop)
  | subscript {t : τ} {n : Node} (stop : Nat) : L.Index t n → Trailers (.subscript t stop) (.subscript n stop)
  | call {ts : List τ} {ns : List Node} (stop : Nat) : L.Args ts ns → Trailers (.call ts stop) (.call ns stop)

inductive Source : τ → Node → Prop
  | one {p : Phrase τ} {p' : Phrase Node} : L.operand p p' → Source p.node p'.node
  | several {p q : Phrase τ} {p' q' : Phrase Node} {ps : List (Phrase τ)} {ps' : List (Phrase Node)} : L.operand p p' →
      L.operand q q' → List.Forall₂ L.operand ps ps' →
      Source (Builder.loose (.part p.start p.lead) (p.node :: (q :: ps).map Phrase.node))
        (Builder.loose (.part p'.start p'.lead) (p'.node :: (q' :: ps').map Phrase.node))

inductive ValueForm : Shape τ → Shape Node → Prop
  | num (text : String) : ValueForm (.num text) (.num text)
  | nameConstant (id : String) : ValueForm (.nameConstant id) (.nameConstant id)
  | name (id : String) : ValueForm (.name id) (.name id)
  | ellipsis : ValueForm .ellipsis .ellipsis
  | yieldValue {t : Option τ} {n : Option Node} : Option.Rel L.value t n → ValueForm (.yieldValue t) (.yieldValue n)
  | yieldFrom {t : τ} {n : Node} : L.value t n → ValueForm (.yieldFrom t) (.yieldFrom n)
  | await {t : τ} {n : Node} : L.value t n → ValueForm (.await t) (.await n)
  | starred {t : τ} {n : Node} : L.value t n → ValueForm (.starred t) (.starred n)
  | unaryOp {t : τ} {n : Node} (op : String) : L.value t n → ValueForm (.unaryOp op t) (.unaryOp op n)
  | binOp {t u : τ} {n m : Node} (op : String) : L.value t n → L.value u m → ValueForm (.binOp t op u) (.binOp n op m)
  | compare {t : τ} {n : Node} {ts : List τ} {ns : List Node} {ops : List String} : L.value t n → L.values ts ns →
      ops.length = ts.length → ValueForm (.compare t ops ts) (.compare n ops ns)
  | ifExp {t u v : τ} {n m k : Node} : L.value t n → L.value u m → L.value v k → ValueForm (.ifExp t u v) (.ifExp n m k)
  | namedExpr {t u : τ} {n m : Node} : L.value t n → L.value u m → ValueForm (.namedExpr t u) (.namedExpr n m)
  | lambda {ps : List (Parameter τ)} {ps' : List (Parameter Node)} {t : τ} {n : Node} : List.Forall₂ L.Parameters ps ps' →
      L.value t n → ValueForm (.lambda (Builder.parameters ps) t) (.lambda (Builder.parameters ps') n)
  | list {ts : List τ} {ns : List Node} : L.values ts ns → ValueForm (.list ts) (.list ns)
  | set {ts : List τ} {ns : List Node} : L.values ts ns → ValueForm (.set ts) (.set ns)
  | dict {es : List (Option τ × τ)} {es' : List (Option Node × Node)} :
      List.Forall₂ (fun e e' => Option.Rel L.value e.1 e'.1 ∧ L.value e.2 e'.2) es es' → ValueForm (.dict es) (.dict es')
  | listComp {t : τ} {n : Node} {ts : List τ} {ns : List Node} : L.value t n → List.Forall₂ L.clause ts ns →
      ValueForm (.listComp t ts) (.listComp n ns)
  | setComp {t : τ} {n : Node} {ts : List τ} {ns : List Node} : L.value t n → List.Forall₂ L.clause ts ns →
      ValueForm (.setComp t ts) (.setComp n ns)
  | dictComp {t u : τ} {n m : Node} {ts : List τ} {ns : List Node} : L.value t n → L.value u m →
      List.Forall₂ L.clause ts ns → ValueForm (.dictComp t u ts) (.dictComp n m ns)
  | generatorExp {t : τ} {n : Node} {ts : List τ} {ns : List Node} : L.value t n → List.Forall₂ L.clause ts ns →
      ValueForm (.generatorExp t ts) (.generatorExp n ns)
  | attr {t : τ} {n : Node} (id : String) : L.value t n → ValueForm (.attr t id) (.attr n id)
  | subscript {t i : τ} {n j : Node} : L.value t n → L.Index i j → ValueForm (.subscript t i) (.subscript n j)
  | call {t : τ} {n : Node} {ts : List τ} {ns : List Node} : L.value t n → L.Args ts ns →
      ValueForm (.call t ts) (.call n ns)
  | other {k : String} {ts : List τ} {ns : List Node} : k ∉ knownNames → L.values ts ns →
      ValueForm (.other k ts) (.other k ns)

inductive Assignments : Assigned τ → Assigned Node → Prop
  | value {p : Phrase τ} {p' : Phrase Node} : L.Phrases p p' → Assignments (.value p) (.value p')
  | plain {p : Phrase τ} {p' : Phrase Node} {a : Assigned τ} {a' : Assigned Node} : L.Phrases p p' → Assignments a a' →
      Assignments (.plain p a) (.plain p' a')
  | hinted {p q : Phrase τ} {p' q' : Phrase Node} : L.Phrases p p' → L.Phrases q q' →
      Assignments (.typed p q none) (.typed p' q' none)
  | typed {p q : Phrase τ} {p' q' : Phrase Node} {a : Assigned τ} {a' : Assigned Node} : L.Phrases p p' → L.Phrases q q' →
      Assignments a a' → Assignments (.typed p q (some a)) (.typed p' q' (some a'))
  | augmented {p : Phrase τ} {p' : Phrase Node} {a : Assigned τ} {a' : Assigned Node} (op : String) : L.Phrases p p' →
      Assignments a a' → Assignments (.augmented p op a) (.augmented p' op a')

inductive Otherwise : List τ → List Node → Prop
  | nothing : Otherwise [] []
  | clause {ts : List τ} {ns : List Node} : L.body ts ns → Otherwise (Builder.clause "else" ts) (Builder.clause "else" ns)

inductive Orelse : List τ → List Node → Prop
  | last {ts : List τ} {ns : List Node} : L.Otherwise ts ns → Orelse ts ns
  | further {t : τ} {n : Node} {ts us : List τ} {ns ms : List Node} (start : Position) : L.value t n → L.body ts ns →
      Orelse us ms → Orelse (Builder.furtherBranch start t ts us) (Builder.furtherBranch (start.inset L.shift) n ns ms)

inductive Final : List τ → List Node → Prop
  | nothing : Final [] []
  | clause {ts : List τ} {ns : List Node} : L.body ts ns →
      Final (Builder.clause "finally" ts) (Builder.clause "finally" ns)

inductive Catches : Caught τ → Caught Node → Prop
  | all : Catches ⟨none, none⟩ ⟨none, none⟩
  | pair {p : Phrase τ} {p' : Phrase Node} (id : String) : L.operand p p' →
      Catches ⟨some p.node, some id⟩ ⟨some p'.node, some id⟩
  | phrase {p : Phrase τ} {p' : Phrase Node} : L.operand p p' → Catches (.ofPhrase p) (.ofPhrase p')

inductive Guard : List τ → List Node → Prop
  | nothing : Guard [] []
  | test {t : τ} {n : Node} (start : Position) : L.value t n →
      Guard [marked start (.other "if_clause" [t])] [marked (start.inset L.shift) (.other "if_clause" [n])]

inductive StatementForm : Shape τ → Shape Node → Prop
  | pass : StatementForm .pass .pass
  | breakLoop : StatementForm .breakLoop .breakLoop
  | continueLoop : StatementForm .continueLoop .continueLoop
  | returnValue {t : Option τ} {n : Option Node} : Option.Rel L.value t n →
      StatementForm (.returnValue t) (.returnValue n)
  | delete {ps : List (Phrase τ)} {ps' : List (Phrase Node)} : List.Forall₂ L.operand ps ps' →
      StatementForm (.delete (ps.map Phrase.node)) (.delete (ps'.map Phrase.node))
  | raise {t u : Option τ} {n m : Option Node} : Option.Rel L.value t n → Option.Rel L.value u m →
      StatementForm (.raise t u) (.raise n m)
  | globalNames (ids : List String) : StatementForm (.globalNames ids) (.globalNames ids)
  | nonlocalNames (ids : List String) : StatementForm (.nonlocalNames ids) (.nonlocalNames ids)
  | importNames {ts : List τ} {ns : List Node} : List.Forall₂ L.imported ts ns →
      StatementForm (.importNames ts) (.importNames ns)
  | importFrom {ts : List τ} {ns : List Node} (source : Option String) (level : Nat) : List.Forall₂ L.imported ts ns →
      StatementForm (.importFrom source ts level) (.importFrom source ns level)
  | print {t : Option τ} {n : Option Node} {ts : List τ} {ns : List Node} (newline : Bool) : Option.Rel L.value t n →
      L.values ts ns → StatementForm (.print t ts newline) (.print n ns newline)
  | typeAlias {t u : τ} {n m : Node} : L.value t n → L.value u m →
      StatementForm (.other "type_alias_statement" [t, u]) (.other "type_alias_statement" [n, m])
  | branch {t : τ} {n : Node} {ts us : List τ} {ns ms : List Node} : L.value t n → L.body ts ns → L.Orelse us ms →
      StatementForm (.branch t ts us) (.branch n ns ms)
  | whileLoop {t : τ} {n : Node} {ts us : List τ} {ns ms : List Node} : L.value t n → L.body ts ns → L.Otherwise us ms →
      StatementForm (.whileLoop t ts us) (.whileLoop n ns ms)
  | forLoop {t u : τ} {n m : Node} {ts us : List τ} {ns ms : List Node} (isAsync : Bool) : L.value t n → L.value u m →
      L.body ts ns → L.Otherwise us ms → StatementForm (.forLoop t u ts us isAsync) (.forLoop n m ns ms isAsync)
  | withBlock {ts us : List τ} {ns ms : List Node} (isAsync : Bool) : List.Forall₂ L.item ts ns → L.body us ms →
      StatementForm (.withBlock ts us isAsync) (.withBlock ns ms isAsync)
  | tryBlock {ts hs us vs : List τ} {ns gs ms ks : List Node} : L.body ts ns → List.Forall₂ L.handler hs gs →
      L.Otherwise us ms → L.Final vs ks → StatementForm (.tryBlock ts hs us vs) (.tryBlock ns gs ms ks)
  | functionDef {ts us : List τ} {ns ms : List Node} {ps : List (Parameter τ)} {ps' : List (Parameter Node)} {t : Option τ}
      {n : Option Node} (id : String) (isAsync : Bool) : L.values ts ns → List.Forall₂ L.Parameters ps ps' →
      Option.Rel L.value t n → L.body us ms → StatementForm (.functionDef id ts (Builder.parameters ps) t us isAsync)
        (.functionDef id ns (Builder.parameters ps') n ms isAsync)
  | classDef {ts us vs : List τ} {ns ms ks : List Node} (id : String) : L.values ts ns → L.values us ms → L.body vs ks →
      StatementForm (.classDef id ts us vs) (.classDef id ns ms ks)
  | choice {ts us : List τ} {ns ms : List Node} : L.values ts ns → L.body us ms →
      StatementForm (.other "match_statement" (ts ++ Builder.block us)) (.other "match_statement" (ns ++ Builder.block ms))
  | case {ts us vs : List τ} {ns ms ks : List Node} : L.values ts ns → L.Guard us ms → L.body vs ks →
      StatementForm (.other "case_clause" (ts ++ us ++ Builder.block vs))
        (.other "case_clause" (ns ++ ms ++ Builder.block ks))

structure Lawful : Prop where
  phrases {p : Phrase τ} {p' : Phrase Node} : L.operand p p' → L.Phrases p p'
  head {t : τ} {n : Node} : L.value t n → Builder.head t = Builder.head n
  leaf {s : Shape τ} {s' : Shape Node} (start : Position) (stop : Nat) : L.ValueForm s s' →
    L.operand (.leaf start stop s) (.leaf (start.inset L.shift) stop s')
  extend {p : Phrase τ} {p' : Phrase Node} {s : Shape τ} {s' : Shape Node} (stop : Nat) : L.Phrases p p' →
    L.ValueForm s s' → L.operand (p.extend stop s) (p'.extend stop s')
  string (start : Position) (stop : Nat) (text : List Char) (ps : List Piece) :
    (∀ p, ps = [p] → p.start = start ∧ p.text = text) →
    L.operand ⟨Builder.string start text ps, start, stop, leadOf? ps, false, none⟩
      ⟨Builder.string (start.inset L.shift) text (ps.map (Piece.inset L.shift)), start.inset L.shift, stop, leadOf? ps,
        false, none⟩
  group {p : Phrase τ} {p' : Phrase Node} (start : Position) (stop : Nat) : L.Phrases p p' →
    L.operand (p.group start stop) (p'.group (start.inset L.shift) stop)
  joined {p q : Phrase τ} {p' q' : Phrase Node} (op : String) : L.operand p p' → L.Phrases q q' →
    L.operand (joined op p q) (joined op p' q')
  aliased {p q : Phrase τ} {p' q' : Phrase Node} (text : List Char) : L.Phrases p p' → L.Phrases q q' →
    L.operand { p.extend q.stop (.other "as_pattern" [p.node, Builder.aliasTarget text q.node]) with aliased := some text }
      { p'.extend q'.stop (.other "as_pattern" [p'.node, Builder.aliasTarget text q'.node]) with aliased := some text }
  tuple {ts : List τ} {ns : List Node} (start : Position) (stop : Nat) : L.values ts ns →
    L.operand (.leaf start stop (.tuple ts)) (.leaf (start.inset L.shift) stop (.tuple ns))
  openTuple {p : Phrase τ} {p' : Phrase Node} {ts : List τ} {ns : List Node} : L.Phrases p p' → L.values ts ns →
    L.value (p.opening (.tuple ts)) (p'.opening (.tuple ns))
  other {k : String} {ts : List τ} {ns : List Node} (onset : Onset) : k ∉ knownNames ∨ k ∈ knownValueNames →
    L.values ts ns → L.value (Builder.node onset (.other k ts)) (Builder.node (onset.inset L.shift) (.other k ns))
  keyword {t : τ} {n : Node} (id : Option String) : L.value t n →
    L.value (unmarked (.keyword id t)) (unmarked (.keyword id n))
  slice {t u v : Option τ} {n m k : Option Node} : Option.Rel L.value t n → Option.Rel L.value u m →
    Option.Rel L.value v k → L.value (unmarked (.slice t u v)) (unmarked (.slice n m k))
  clause {t u : τ} {n m : Node} {ts : List τ} {ns : List Node} (isAsync : Bool) : L.value t n → L.Source u m →
    L.values ts ns → L.clause (unmarked (.comprehension t u ts isAsync)) (unmarked (.comprehension n m ns isAsync))
  arg {t : Option τ} {n : Option Node} (start : Position) (id : String) : Option.Rel L.value t n →
    L.arg (marked start (.arg id t)) (marked (start.inset L.shift) (.arg id n))
  item {p : Phrase τ} {p' : Phrase Node} : L.operand p p' → L.item (withItem p) (withItem p')
  handler {c : Caught τ} {c' : Caught Node} {ts : List τ} {ns : List Node} (start : Position) : L.Catches c c' →
    L.body ts ns → L.handler (marked start (.exceptHandler c.type c.name ts))
      (marked (start.inset L.shift) (.exceptHandler c'.type c'.name ns))
  imported (start : Position) (written : List Char) (asname : Option String) :
    L.imported (Builder.imported start written asname) (Builder.imported (start.inset L.shift) written asname)
  statement {s : Shape τ} {s' : Shape Node} (start : Position) : L.StatementForm s s' →
    L.statement (marked start s) (marked (start.inset L.shift) s')
  assertion {p : Phrase τ} {p' : Phrase Node} {ps : List (Phrase τ)} {ps' : List (Phrase Node)} (start : Position) :
    L.operand p p' → List.Forall₂ L.operand ps ps' →
    L.statement (Builder.dropping (marked start (.assertion p.node (ps.head?.map Phrase.node)))
        ((ps.drop 1).map Phrase.node))
      (Builder.dropping (marked (start.inset L.shift) (.assertion p'.node (ps'.head?.map Phrase.node)))
        ((ps'.drop 1).map Phrase.node))
  exec {t : τ} {n : Node} {ts : List τ} {ns : List Node} (start : Position) : L.value t n → L.values ts ns →
    L.statement (Builder.dropping (marked start (.exec t ts[0]? ts[1]?)) (ts.drop 2))
      (Builder.dropping (marked (start.inset L.shift) (.exec n ns[0]? ns[1]?)) (ns.drop 2))
  expr {p : Phrase τ} {p' : Phrase Node} : L.operand p p' →
    L.statement (p.opening (.expr p.node)) (p'.opening (.expr p'.node))
  exprs {p q : Phrase τ} {p' q' : Phrase Node} {ps : List (Phrase τ)} {ps' : List (Phrase Node)} : L.operand p p' →
    L.operand q q' → List.Forall₂ L.operand ps ps' →
    L.statement (p.opening (.expr (Builder.loose (.part p.start p.lead) ((p :: q :: ps).map Phrase.node))))
      (p'.opening (.expr (Builder.loose (.part p'.start p'.lead) ((p' :: q' :: ps').map Phrase.node))))
  assignment {a : Assigned τ} {a' : Assigned Node} : L.Assignments a a' → (∀ p, a ≠ .value p) →
    L.statement a.statement a'.statement

end Links

structure Rules.Linked {τ : Type} (L : Links τ) (g : Rules τ) (g' : Rules Node) : Prop where
  bound : g'.bound = g.bound
  expr : ∀ site level, Parser.Linked L.shift L.operand (g.expr site level) (g'.expr site level)
  target : ∀ follow, Parser.Linked L.shift L.operand (g.target follow) (g'.target follow)
  hint : ∀ site colon, Parser.Linked L.shift L.operand (g.hint site colon) (g'.hint site colon)
  casePattern : ∀ follow, Parser.Linked L.shift L.Phrases (g.casePattern follow) (g'.casePattern follow)
  block : Parser.Linked L.shift L.body g.block g'.block

end SourceBlocks.Grammar
