import SourceBlocks.Proofs.Grammar.Linked.Links
import SourceBlocks.Proofs.Lowering.Basic

namespace SourceBlocks

open Grammar (Links Onset Piece Role headOf)
open Lower Lowering
open SourceBlocks.Dialect (demands)
open SourceBlocks.Tree (Node Shape Stored)

namespace Lowering

variable (g : Lowering) (r : Role)

lemma leftOperands_congr {t t' : ParseTree} (op : List Char) (h : t.kind = t'.kind) (cs : List ParseTree) :
    leftOperands op t cs = leftOperands op t' cs := by
  induction cs with
  | nil => rw [leftOperands, leftOperands, h]
  | cons c cs ih => rw [leftOperands, leftOperands, ih]

lemma boolean_role (role role' : Option Role) (span : Span) (text : List Char) (children : List ParseTree) :
    boolean g (.mk .booleanOperator role span text children) =
      boolean g (.mk .booleanOperator role' span text children) := by
  simp only [boolean, operands, required, ParseTree.part?, ParseTree.children, ParseTree.kind, ParseTree.mark,
    ParseTree.span]
  cases children.find? (ParseTree.hasRole .operator) with
  | none => rfl
  | some o =>
    have hleft := @leftOperands_congr (.mk .booleanOperator role span text children)
      (.mk .booleanOperator role' span text children) o.text rfl children
    simp [hleft]

lemma expression_fill (t : ParseTree) : expression g (t.fill r) = expression g t := by
  obtain ⟨kind, role, span, text, children⟩ := t
  cases kind
  case booleanOperator => exact boolean_role g (some r) role span text children
  all_goals rfl

end Lowering

namespace ParseTree

lemma Stands.fill {t : ParseTree} {n : Node} (h : Stands t n) (r : Role) : Stands (t.fill r) n := by
  intro d hd
  rw [depth_fill] at hd
  obtain ⟨e, rfl, -⟩ := exists_depth hd
  rw [expr_upTo_succ, expression_fill]
  exact h (e + 1) hd

inductive Literal : ParseTree → Node → Prop
  | pieces (start : Position) (text : List Char) (ps : List Piece) : (∀ p, ps = [p] → p.start = start ∧ p.text = text) →
      Literal (ofPieces start text ps) (Grammar.Builder.string start text ps)
  | grouped {t : ParseTree} {n : Node} : t.kind = .parenthesizedExpression → Literal t n
  | other {t : ParseTree} {n : Node} : t.kind ≠ .string → t.kind ≠ .concatenatedString →
      (∀ v b w, n.shape ≠ .str v b w) → Literal t n

structure Value (t : ParseTree) (n : Node) : Prop where
  kind : t.kind.isValue
  role : t.role = none
  head : t.head = headOf n
  literal : Literal t n
  expr : Stands t n
  argument : ∀ d, t.depth ≤ d → Meets (demands n) (argument (upTo d) t) n.lower

namespace Value

variable {t u v : ParseTree} {n m k : Node} {ts : List ParseTree} {ns : List Node} {d : Nat}

lemma isNamed (h : Value t n) : t.isNamed := isNamed_of_isValue h.kind

lemma hasRole (h : Value t n) (r : Role) : t.hasRole r = false := hasRole_of_role h.role r

lemma isToken (h : Value t n) (s : String) : t.isToken s = false := isToken_of_isNamed h.isNamed s

lemma fill (h : Value t n) (r : Role) (hd : (t.fill r).depth ≤ d) :
    Meets (demands n) ((upTo d).expr (t.fill r)) n.lower := h.expr.fill r d hd

lemma forall_isNamed (h : List.Forall₂ Value ts ns) : ∀ t ∈ ts, t.isNamed := by
  induction h with
  | nil => simp
  | cons h _ ih => exact List.forall_mem_cons.mpr ⟨h.isNamed, ih⟩

lemma forall_role (h : List.Forall₂ Value ts ns) : ∀ t ∈ ts, t.role = none := by
  induction h with
  | nil => simp
  | cons h _ ih => exact List.forall_mem_cons.mpr ⟨h.role, ih⟩

lemma all (h : List.Forall₂ Value ts ns) (hd : ∀ t ∈ ts, t.depth ≤ d) :
    Meets (ns.flatMap demands) ((upTo d).all ts) (Tree.lowerAll ns) :=
  Stands.all (h.imp fun _ _ => Value.expr) hd

lemma optional {t : Option ParseTree} {n : Option Node} (h : Option.Rel Value t n) (hd : ∀ c ∈ t, c.depth ≤ d) :
    Meets (n.toList.flatMap demands) ((upTo d).optional t) (Tree.lowerMaybe n) := by
  refine Stands.optional ?_ hd
  cases h with
  | none => exact .none
  | some h => exact .some h.expr

lemma optional_fill {t : Option ParseTree} {n : Option Node} (h : Option.Rel Value t n) (r : Role)
    (hd : ∀ c ∈ t, (c.fill r).depth ≤ d) :
    Meets (n.toList.flatMap demands) ((upTo d).optional (t.map (ParseTree.fill r))) (Tree.lowerMaybe n) := by
  refine Stands.optional ?_ (by simpa using hd)
  cases h with
  | none => exact .none
  | some h => exact .some (h.expr.fill r)

lemma isNamed_of_mem {t : Option ParseTree} {n : Option Node} (h : Option.Rel Value t n) : ∀ c ∈ t, c.isNamed := by
  cases h with
  | none => simp
  | some h => simpa using h.isNamed

lemma ofCommon (hk : t.kind.isCommon) (hr : t.role = none) (hh : t.head = headOf n)
    (hs : ∀ v b w, n.shape ≠ .str v b w)
    (h : ∀ d, (∀ c ∈ t.children, c.depth ≤ d) → Meets (demands n) (expression (upTo d) t) n.lower) : Value t n := by
  rw [Kind.isCommon, Bool.and_eq_true, decide_eq_true_eq] at hk
  obtain ⟨hk, hnot⟩ := hk
  simp only [List.mem_cons, List.not_mem_nil, or_false, not_or] at hnot
  have hexpr : Stands t n := by
    intro d hd
    obtain ⟨e, rfl, he⟩ := exists_depth hd
    exact h e he
  refine ⟨hk, hr, hh, .other hnot.1 hnot.2.1 hs, hexpr, fun d hd => ?_⟩
  rw [Lowering.argument]
  split
  · exact absurd ‹_› hnot.2.2.1
  · exact absurd ‹_› hnot.2.2.2
  · exact hexpr d hd

section Forms

variable {o : Onset}

attribute [local simp] ofShape expression required part? named Shape.lower Shape.children Shape.fieldNodes Shape.fields
  Tree.Field.nodes Stored.ofShape

lemma ofForm {s : Shape Node} {m : Option Tree.Mark} (hk : t.kind.isCommon) (hr : t.role = none)
    (hh : t.head = headOf (.mk m s)) (hs : ∀ v b w, s ≠ .str v b w) (hown : Dialect.own (.mk m s) = [])
    (hsteps : Dialect.Step.ofShape s = s.children.map .visit)
    (h : ∀ d, (∀ c ∈ t.children, c.depth ≤ d) → Meets (s.children.flatMap demands) (expression (upTo d) t)
      (s.lower >>= fun c => Tree.Arena.push ⟨m, .ofShape c⟩)) : Value t (.mk m s) :=
  .ofCommon hk hr hh hs fun d hd => (h d hd).congr (demands_mk hown hsteps) (by rw [Node.lower])

lemma num (text : String) : Value (ofShape o (.num text)) (.mk o.mark (.num text)) := by
  refine .ofForm rfl rfl rfl (by simp) rfl rfl fun d _ => ?_
  simpa [-Onset.mark, ParseTree.kind, string, ParseTree.text] using Meets.push o.mark (.num text)

lemma nameConstant (id : String) : Value (ofShape o (.nameConstant id)) (.mk o.mark (.nameConstant id)) := by
  refine .ofForm rfl rfl rfl (by simp) rfl rfl fun d _ => ?_
  simpa [-Onset.mark, ParseTree.kind, string, ParseTree.text] using Meets.push o.mark (.nameConstant id)

lemma name (id : String) : Value (ofShape o (.name id)) (.mk o.mark (.name id)) := by
  refine .ofForm rfl rfl rfl (by simp) rfl rfl fun d _ => ?_
  simpa [-Onset.mark, ParseTree.kind, string, ParseTree.text] using Meets.push o.mark (.name id)

lemma ellipsis : Value (ofShape o .ellipsis) (.mk o.mark .ellipsis) := by
  refine .ofForm rfl rfl rfl (by simp) rfl rfl fun d _ => ?_
  simpa [-Onset.mark] using Meets.push o.mark .ellipsis

lemma yieldValue {t : Option ParseTree} {n : Option Node} (ht : Option.Rel Value t n) :
    Value (ofShape o (.yieldValue t)) (.mk o.mark (.yieldValue n)) := by
  refine .ofForm rfl rfl rfl (by simp) rfl rfl fun d hd => ?_
  have h := (optional ht fun c hc => hd c (by simp_all)).last fun i => .push o.mark (.yieldValue i)
  cases ht with
  | none => simpa [-Onset.mark, yielded] using h
  | some ht => simpa [-Onset.mark, yielded, ht.isNamed, ht.isToken] using h

lemma yieldFrom (ht : Value t n) : Value (ofShape o (.yieldFrom t)) (.mk o.mark (.yieldFrom n)) := by
  refine .ofForm rfl rfl rfl (by simp) rfl rfl fun d hd => ?_
  have h := (ht.expr d (hd t (by simp))).last fun i => .push o.mark (.yieldFrom i)
  simpa [-Onset.mark, yielded, ht.isNamed] using h

lemma await (ht : Value t n) : Value (ofShape o (.await t)) (.mk o.mark (.await n)) := by
  refine .ofForm rfl rfl rfl (by simp) rfl rfl fun d hd => ?_
  have h := (ht.expr d (hd t (by simp))).last fun i => .push o.mark (.await i)
  simpa [-Onset.mark, firstNamed, ht.isNamed] using h

lemma starred (ht : Value t n) : Value (ofShape o (.starred t)) (.mk o.mark (.starred n)) := by
  refine .ofForm rfl rfl rfl (by simp) rfl rfl fun d hd => ?_
  have h := (ht.expr d (hd t (by simp))).last fun i => .push o.mark (.starred i)
  simpa [-Onset.mark, firstNamed, ht.isNamed] using h

lemma unaryOp (op : String) (ht : Value t n) : Value (ofShape o (.unaryOp op t)) (.mk o.mark (.unaryOp op n)) := by
  by_cases hop : op = "not"
  · subst hop
    refine .ofForm rfl rfl rfl (by simp) rfl rfl fun d hd => ?_
    have h := (ht.fill .argument (hd _ (by simp))).last fun i => .push o.mark (.unaryOp "not" i)
    simpa [-Onset.mark] using h
  · rw [ofShape, if_neg hop]
    refine .ofForm rfl rfl rfl (by simp) rfl rfl fun d hd => ?_
    have h := (ht.fill .argument (hd _ (by simp))).last fun i => .push o.mark (.unaryOp op i)
    simpa [-Onset.mark] using h

lemma binOp (op : String) (ht : Value t n) (hu : Value u m) :
    Value (ofShape o (.binOp t op u)) (.mk o.mark (.binOp n op m)) := by
  refine .ofForm rfl rfl rfl (by simp) rfl rfl fun d hd => ?_
  have h := (ht.fill .left (hd _ (by simp))).bind fun i =>
    (hu.fill .right (hd _ (by simp))).last fun j => .push o.mark (.binOp i op j)
  simpa [-Onset.mark] using h

lemma ifExp (ht : Value t n) (hu : Value u m) (hv : Value v k) :
    Value (ofShape o (.ifExp t u v)) (.mk o.mark (.ifExp n m k)) := by
  refine .ofForm rfl rfl rfl (by simp) rfl rfl fun d hd => ?_
  have h := (hu.expr d (hd _ (by simp))).bind fun j => (ht.expr d (hd _ (by simp))).bind fun i =>
    (hv.expr d (hd _ (by simp))).last fun l => .push o.mark (.ifExp i j l)
  simpa [-Onset.mark, ht.isNamed, hu.isNamed, hv.isNamed] using h

lemma namedExpr (ht : Value t n) (hu : Value u m) :
    Value (ofShape o (.namedExpr t u)) (.mk o.mark (.namedExpr n m)) := by
  refine .ofForm rfl rfl rfl (by simp) rfl rfl fun d hd => ?_
  have h := (ht.fill .name (hd _ (by simp))).bind fun i =>
    (hu.fill .value (hd _ (by simp))).last fun j => .push o.mark (.namedExpr i j)
  simpa [-Onset.mark] using h

lemma attr (id : String) (ht : Value t n) : Value (ofShape o (.attr t id)) (.mk o.mark (.attr n id)) := by
  refine .ofForm rfl rfl rfl (by simp) rfl rfl fun d hd => ?_
  have h := (ht.fill .object (hd _ (by simp))).last fun i => .push o.mark (.attr i id)
  simpa [-Onset.mark] using h

lemma list (hs : List.Forall₂ Value ts ns) : Value (ofShape o (.list ts)) (.mk o.mark (.list ns)) := by
  refine .ofForm rfl rfl rfl (by simp) rfl rfl fun d hd => ?_
  have h := (all hs fun t ht => hd t (by simp [mem_separated ht])).last fun is => .push o.mark (.list is)
  simpa [-Onset.mark, filter_separated (forall_isNamed hs)] using h

lemma set (hs : List.Forall₂ Value ts ns) : Value (ofShape o (.set ts)) (.mk o.mark (.set ns)) := by
  refine .ofForm rfl rfl rfl (by simp) rfl rfl fun d hd => ?_
  have h := (all hs fun t ht => hd t (by simp [mem_separated ht])).last fun is => .push o.mark (.set is)
  simpa [-Onset.mark, filter_separated (forall_isNamed hs)] using h

lemma tuple (hs : List.Forall₂ Value ts ns) : Value (ofShape o (.tuple ts)) (.mk o.mark (.tuple ns)) := by
  have hbare : ∀ o : Onset, Value (node o .expressionList (separated ts)) (.mk o.mark (.tuple ns)) := fun o => by
    refine .ofForm rfl rfl rfl (by simp) rfl rfl fun d hd => ?_
    have h := (all hs fun t ht => hd t (by simp [mem_separated ht])).last fun is => .push o.mark (.tuple is)
    simpa [-Onset.mark, filter_separated (forall_isNamed hs)] using h
  cases o with
  | token start =>
    refine .ofForm rfl rfl rfl (by simp) rfl rfl fun d hd => ?_
    have h := (all hs fun t ht => hd t (by simp [mem_separated ht])).last fun is =>
      .push (Onset.token start).mark (.tuple is)
    simpa [-Onset.mark, filter_separated (forall_isNamed hs)] using h
  | part start lead => exact hbare _
  | hidden => exact hbare _

end Forms

end Value

end ParseTree

end SourceBlocks
