import Mathlib.Tactic.Common
import SourceBlocks.Lowering.Statements
import SourceBlocks.ParseTree.Build

namespace SourceBlocks

open SourceBlocks.Grammar (Onset Role)

def Kind.isValue : Kind → Bool
  | dottedName | keywordArgument | dictionarySplat | listSplat | identifier | number | constant | ellipsis | string
  | concatenatedString | parenthesizedExpression | asPattern | tuple | expressionList | list | set | dictionary
  | listComprehension | setComprehension | generatorExpression | dictionaryComprehension | binaryOperator | unaryOperator
  | notOperator | booleanOperator | comparisonOperator | conditionalExpression | namedExpression | lambda | await | yield
  | member | subscript | slice | call | other _ => true
  | _ => false

def Kind.isCommon (k : Kind) : Bool :=
  k.isValue && k ∉ [string, concatenatedString, keywordArgument, dictionarySplat]

lemma Kind.ne_of_isValue {k m : Kind} (h : k.isValue) (h' : m.isValue = false) : k ≠ m := by
  rintro rfl
  rw [h] at h'
  cases h'

lemma Kind.not_mem_of_isValue {k : Kind} (h : k.isValue) : k ∉ token :: block :: statements := by
  have hall : ∀ k' ∈ token :: block :: statements, k'.isValue = false := by decide
  exact fun hk => ne_of_isValue h (hall k hk) rfl

namespace ParseTree

variable {t c : ParseTree} {ts us : List ParseTree} {r r' : Role} {k : Kind}

@[simp] lemma kind_fill (r : Role) (t : ParseTree) : (t.fill r).kind = t.kind := by cases t; rfl

@[simp] lemma role_fill (r : Role) (t : ParseTree) : (t.fill r).role = some r := by cases t; rfl

@[simp] lemma span_fill (r : Role) (t : ParseTree) : (t.fill r).span = t.span := by cases t; rfl

@[simp] lemma text_fill (r : Role) (t : ParseTree) : (t.fill r).text = t.text := by cases t; rfl

@[simp] lemma children_fill (r : Role) (t : ParseTree) : (t.fill r).children = t.children := by cases t; rfl

@[simp] lemma mark_fill (r : Role) (t : ParseTree) : (t.fill r).mark = t.mark := by cases t; rfl

@[simp] lemma named_fill (r : Role) (t : ParseTree) : (t.fill r).named = t.named := by cases t; rfl

@[simp] lemma isNamed_fill (r : Role) (t : ParseTree) : (t.fill r).isNamed = t.isNamed := by cases t; rfl

@[simp] lemma string_fill (r : Role) (t : ParseTree) : (t.fill r).string = t.string := by cases t; rfl

@[simp] lemma depth_fill (r : Role) (t : ParseTree) : (t.fill r).depth = t.depth := by cases t; rfl

@[simp] lemma head_fill (r : Role) (t : ParseTree) : (t.fill r).head = t.head := by cases t; rfl

@[simp] lemma hasRole_fill (r r' : Role) (t : ParseTree) : (t.fill r).hasRole r' = decide (r = r') := by
  rw [hasRole, role_fill]
  simp

@[simp] lemma isToken_fill (s : String) (r : Role) (t : ParseTree) : (t.fill r).isToken s = t.isToken s := by cases t; rfl

@[simp] lemma hasRole_token (s : String) (r : Role) : (token s).hasRole r = false := rfl

@[simp] lemma isNamed_token (s : String) : (token s).isNamed = false := rfl

@[simp] lemma string_token (s : String) : (token s).string = s := String.ofList_toList

@[simp] lemma text_token (s : String) : (token s).text = s.toList := rfl

@[simp] lemma isToken_token (s s' : String) : (token s).isToken s' = decide (s = s') := by
  simp [isToken, token, kind, text, String.toList_inj]

@[simp] lemma string_leaf (k : Kind) (s : String) : (leaf k s.toList).string = s := String.ofList_toList

@[simp] lemma kind_leaf (k : Kind) (s : List Char) : (leaf k s).kind = k := rfl

@[simp] lemma text_leaf (k : Kind) (s : List Char) : (leaf k s).text = s := rfl

@[simp] lemma hasRole_leaf (k : Kind) (s : List Char) (r : Role) : (leaf k s).hasRole r = false := rfl

@[simp] lemma kind_node (o : Onset) (k : Kind) (ts : List ParseTree) : (node o k ts).kind = k := rfl

@[simp] lemma children_node (o : Onset) (k : Kind) (ts : List ParseTree) : (node o k ts).children = ts := rfl

@[simp] lemma hasRole_node (o : Onset) (k : Kind) (ts : List ParseTree) (r : Role) : (node o k ts).hasRole r = false := rfl

@[simp] lemma mark_node (o : Onset) (k : Kind) (ts : List ParseTree) : (node o k ts).mark = o.mark := by
  cases o <;> rfl

@[simp] lemma kind_inner (k : Kind) (ts : List ParseTree) : (inner k ts).kind = k := rfl

@[simp] lemma children_inner (k : Kind) (ts : List ParseTree) : (inner k ts).children = ts := rfl

@[simp] lemma hasRole_inner (k : Kind) (ts : List ParseTree) (r : Role) : (inner k ts).hasRole r = false := rfl

@[simp] lemma kind_mk (k : Kind) (r : Option Role) (w : Span) (s : List Char) (ts : List ParseTree) :
    (mk k r w s ts).kind = k := rfl

@[simp] lemma children_mk (k : Kind) (r : Option Role) (w : Span) (s : List Char) (ts : List ParseTree) :
    (mk k r w s ts).children = ts := rfl

@[simp] lemma mark_mk (k : Kind) (r : Option Role) (o : Onset) (s : List Char) (ts : List ParseTree) :
    (mk k r (.ofOnset o) s ts).mark = o.mark := by cases o <;> rfl

@[simp] lemma hasRole_mk (k : Kind) (r : Option Role) (w : Span) (s : List Char) (ts : List ParseTree) (r' : Role) :
    (mk k r w s ts).hasRole r' = decide (r = some r') := rfl

lemma isNamed_iff : t.isNamed ↔ t.kind ≠ .token := by rw [isNamed, decide_eq_true_eq]

@[simp] lemma isNamed_leaf (h : k ≠ .token) (s : List Char) : (leaf k s).isNamed := isNamed_iff.mpr h

@[simp] lemma isNamed_node (o : Onset) (h : k ≠ .token) (ts : List ParseTree) : (node o k ts).isNamed := isNamed_iff.mpr h

@[simp] lemma isNamed_inner (h : k ≠ .token) (ts : List ParseTree) : (inner k ts).isNamed := isNamed_iff.mpr h

@[simp] lemma isNamed_suite (r : Role) (ts : List ParseTree) : (suite r ts).isNamed := rfl

@[simp] lemma kind_suite (r : Role) (ts : List ParseTree) : (suite r ts).kind = .block := rfl

@[simp] lemma hasRole_suite (r r' : Role) (ts : List ParseTree) : (suite r ts).hasRole r' = decide (r = r') :=
  hasRole_fill r r' _

lemma isToken_of_isNamed (h : t.isNamed) (s : String) : t.isToken s = false := by simp [isToken, isNamed_iff.mp h]

lemma hasRole_of_role (h : t.role = none) (r : Role) : t.hasRole r = false := by simp [hasRole, h]

section Named

lemma mem_separated (h : t ∈ ts) : t ∈ separated ts := by
  rw [separated]
  induction ts with
  | nil => cases h
  | cons u us ih =>
    cases us with
    | nil => simpa using h
    | cons v vs =>
      rw [List.intersperse_cons_cons]
      rcases List.mem_cons.mp h with rfl | h
      · exact List.mem_cons_self
      · exact List.mem_cons_of_mem _ (List.mem_cons_of_mem _ (ih h))

lemma mem_of_mem_separated (h : t ∈ separated ts) : t = token "," ∨ t ∈ ts := by
  rw [separated] at h
  induction ts with
  | nil => cases h
  | cons u us ih =>
    cases us with
    | nil => exact .inr h
    | cons v vs =>
      rw [List.intersperse_cons_cons, List.mem_cons, List.mem_cons] at h
      rcases h with rfl | rfl | h
      · exact .inr List.mem_cons_self
      · exact .inl rfl
      · exact (ih h).imp_right (List.mem_cons_of_mem u)

lemma filter_separated (h : ∀ t ∈ ts, t.isNamed) : (separated ts).filter isNamed = ts := by
  rw [separated]
  induction ts with
  | nil => rfl
  | cons u us ih =>
    obtain ⟨hu, hus⟩ := List.forall_mem_cons.mp h
    cases us with
    | nil => simp [hu]
    | cons v vs =>
      rw [List.intersperse_cons_cons, List.filter_cons_of_pos hu, List.filter_cons_of_neg (by simp), ih hus]

lemma getLast?_separated (ts : List ParseTree) : (separated ts).getLast? = ts.getLast? := by
  rw [separated]
  induction ts with
  | nil => rfl
  | cons t ts ih =>
    cases ts with
    | nil => rfl
    | cons u us =>
      rw [List.intersperse_cons_cons, List.getLast?_cons, List.getLast?_cons, ih]
      simp [List.getLast?_cons]

end Named

section Depth

lemma depth_eq (t : ParseTree) : t.depth = depths t.children + 1 := by cases t; rfl

lemma depths_le_iff {d : Nat} : depths ts ≤ d ↔ ∀ t ∈ ts, t.depth ≤ d := by
  induction ts with
  | nil => simp [depths]
  | cons t ts ih => rw [depths, Nat.max_le, ih, List.forall_mem_cons]

lemma depth_le_succ_iff {d : Nat} : t.depth ≤ d + 1 ↔ ∀ c ∈ t.children, c.depth ≤ d := by
  rw [depth_eq, Nat.add_le_add_iff_right, depths_le_iff]

lemma depth_pos (t : ParseTree) : 0 < t.depth := by
  rw [depth_eq]
  exact Nat.succ_pos _

lemma exists_depth {d : Nat} (h : t.depth ≤ d) : ∃ e, d = e + 1 ∧ ∀ c ∈ t.children, c.depth ≤ e := by
  obtain ⟨e, rfl⟩ := Nat.exists_eq_add_one_of_ne_zero (Nat.ne_of_gt (Nat.lt_of_lt_of_le t.depth_pos h))
  exact ⟨e, rfl, depth_le_succ_iff.mp h⟩

lemma depth_le_of_mem {d : Nat} (hc : c ∈ t.children) (h : t.depth ≤ d) : c.depth ≤ d := by
  obtain ⟨e, rfl, he⟩ := exists_depth h
  exact Nat.le_succ_of_le (he c hc)

end Depth

lemma exposed_of_isValue (h : t.kind.isValue) : t.exposed = [t] := if_neg (Kind.ne_of_isValue h rfl)

lemma isNamed_of_isValue (h : t.kind.isValue) : t.isNamed := isNamed_iff.mpr (Kind.ne_of_isValue h rfl)

end ParseTree

end SourceBlocks
