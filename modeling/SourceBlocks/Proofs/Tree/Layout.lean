import SourceBlocks.Proofs.Tree.Arena

/-! Laying a tree out in a row. A node is put behind its parts, and the clauses of a comprehension
behind the parts of all of them. -/

namespace SourceBlocks.Tree

open Arena (push)

def pushAll (es : List Entry) : StateM Arena (List Nat) := es.mapM push

mutual

def Node.lower : Node → StateM Arena Nat
  | .mk mark shape => do push ⟨mark, .ofShape (← Shape.lower shape)⟩

def Shape.lower : Shape Node → StateM Arena (Shape Nat)
  | .module body => return .module (← lowerAll body)
  | .functionDef id decorators args returns body isAsync => do
    return .functionDef id (← lowerAll decorators) (← Node.lower args) (← lowerMaybe returns) (← lowerAll body) isAsync
  | .classDef id decorators bases body => do
    return .classDef id (← lowerAll decorators) (← lowerAll bases) (← lowerAll body)
  | .returnValue value => return .returnValue (← lowerMaybe value)
  | .delete targets => return .delete (← lowerAll targets)
  | .assign targets value => return .assign (← lowerAll targets) (← Node.lower value)
  | .augAssign target op value => return .augAssign (← Node.lower target) op (← Node.lower value)
  | .annAssign target hint value => return .annAssign (← Node.lower target) (← Node.lower hint) (← lowerMaybe value)
  | .forLoop target iter body orelse isAsync => do
    return .forLoop (← Node.lower target) (← Node.lower iter) (← lowerAll body) (← lowerAll orelse) isAsync
  | .whileLoop test body orelse => return .whileLoop (← Node.lower test) (← lowerAll body) (← lowerAll orelse)
  | .branch test body orelse => return .branch (← Node.lower test) (← lowerAll body) (← lowerAll orelse)
  | .withBlock items body isAsync => return .withBlock (← lowerAll items) (← lowerAll body) isAsync
  | .withItem context target => return .withItem (← Node.lower context) (← lowerMaybe target)
  | .raise exc cause => return .raise (← lowerMaybe exc) (← lowerMaybe cause)
  | .tryBlock body handlers orelse final => do
    return .tryBlock (← lowerAll body) (← lowerAll handlers) (← lowerAll orelse) (← lowerAll final)
  | .exceptHandler type id body => return .exceptHandler (← lowerMaybe type) id (← lowerAll body)
  | .assertion test message => return .assertion (← Node.lower test) (← lowerMaybe message)
  | .importNames names => return .importNames (← lowerAll names)
  | .importFrom source names level => return .importFrom source (← lowerAll names) level
  | .importAlias id asname written => return .importAlias id asname written
  | .globalNames names => return .globalNames names
  | .nonlocalNames names => return .nonlocalNames names
  | .expr value => return .expr (← Node.lower value)
  | .pass => return .pass
  | .breakLoop => return .breakLoop
  | .continueLoop => return .continueLoop
  | .print dest values newline => return .print (← lowerMaybe dest) (← lowerAll values) newline
  | .exec body globals locals => return .exec (← Node.lower body) (← lowerMaybe globals) (← lowerMaybe locals)
  | .boolOp op values => return .boolOp op (← lowerAll values)
  | .namedExpr target value => return .namedExpr (← Node.lower target) (← Node.lower value)
  | .binOp left op right => return .binOp (← Node.lower left) op (← Node.lower right)
  | .unaryOp op operand => return .unaryOp op (← Node.lower operand)
  | .lambda args body => return .lambda (← Node.lower args) (← Node.lower body)
  | .ifExp test body orelse => do
    let body ← Node.lower body
    return .ifExp (← Node.lower test) body (← Node.lower orelse)
  | .dict entries => return .dict (← lowerEntries entries)
  | .set elts => return .set (← lowerAll elts)
  | .listComp elt generators => return .listComp (← Node.lower elt) (← pushAll (← lowerPending generators))
  | .setComp elt generators => return .setComp (← Node.lower elt) (← pushAll (← lowerPending generators))
  | .dictComp key value generators => do
    return .dictComp (← Node.lower key) (← Node.lower value) (← pushAll (← lowerPending generators))
  | .generatorExp elt generators => return .generatorExp (← Node.lower elt) (← pushAll (← lowerPending generators))
  | .comprehension target iter ifs isAsync => do
    return .comprehension (← Node.lower target) (← Node.lower iter) (← lowerAll ifs) isAsync
  | .await value => return .await (← Node.lower value)
  | .yieldValue value => return .yieldValue (← lowerMaybe value)
  | .yieldFrom value => return .yieldFrom (← Node.lower value)
  | .compare left ops comparators => return .compare (← Node.lower left) ops (← lowerAll comparators)
  | .call func args => return .call (← Node.lower func) (← lowerAll args)
  | .keyword id value => return .keyword id (← Node.lower value)
  | .num text => return .num text
  | .str value bytes written => return .str value bytes written
  | .unreadableStr token => return .unreadableStr token
  | .joinedStr text => return .joinedStr text
  | .nameConstant value => return .nameConstant value
  | .ellipsis => return .ellipsis
  | .attr value id => return .attr (← Node.lower value) id
  | .subscript value index => return .subscript (← Node.lower value) (← Node.lower index)
  | .slice lower upper step => return .slice (← lowerMaybe lower) (← lowerMaybe upper) (← lowerMaybe step)
  | .starred value => return .starred (← Node.lower value)
  | .name id => return .name id
  | .list elts => return .list (← lowerAll elts)
  | .tuple elts => return .tuple (← lowerAll elts)
  | .arguments positional vararg keywordOnly kwarg => do
    return .arguments (← lowerParameters positional) vararg (← lowerParameters keywordOnly) kwarg
  | .arg id hint => return .arg id (← lowerMaybe hint)
  | .other kind parts => return .other kind (← lowerAll parts)

def lowerAll : List Node → StateM Arena (List Nat)
  | [] => return []
  | n :: ns => return (← Node.lower n) :: (← lowerAll ns)

def lowerMaybe : Option Node → StateM Arena (Option Nat)
  | none => return none
  | some n => return some (← Node.lower n)

def lowerPending : List Node → StateM Arena (List Entry)
  | [] => return []
  | .mk mark shape :: ns => return ⟨mark, .ofShape (← Shape.lower shape)⟩ :: (← lowerPending ns)

def lowerEntries : List (Option Node × Node) → StateM Arena (List (Option Nat × Nat))
  | [] => return []
  | e :: es => return (← lowerEntry e) :: (← lowerEntries es)

def lowerEntry : Option Node × Node → StateM Arena (Option Nat × Nat)
  | (key, value) => return (← lowerMaybe key, ← Node.lower value)

def lowerParameters : List (Node × Option Node) → StateM Arena (List (Nat × Option Nat))
  | [] => return []
  | p :: ps => return (← lowerParameter p) :: (← lowerParameters ps)

def lowerParameter : Node × Option Node → StateM Arena (Nat × Option Nat)
  | (arg, default) => return (← Node.lower arg, ← lowerMaybe default)

end

section Parts

variable {ns : List Node} {n : Option Node} {es : List (Option Node × Node)} {ps : List (Node × Option Node)} {a : Arena}
  {g : Nat → Node} {xs ys : List Node}

abbrev Arena.after {α : Type} (a : Arena) (x : StateM Arena α) : α × Arena := (x.run a).run

attribute [local simp] Arena.after

lemma length_lowerAll (ns : List Node) (a : Arena) : (a.after (lowerAll ns)).1.length = ns.length := by
  induction ns generalizing a with
  | nil => rfl
  | cons n ns ih => simp_all [lowerAll]

lemma map_lowerAll_append_iff :
    (a.after (lowerAll ns)).1.map g ++ xs = ns ++ ys ↔ (a.after (lowerAll ns)).1.map g = ns ∧ xs = ys :=
  List.append_eq_append_iff_of_size_eq_left (by rw [List.length_map, length_lowerAll])

lemma map_lowerMaybe_append_iff :
    (a.after (lowerMaybe n)).1.toList.map g ++ xs = n.toList ++ ys ↔ (a.after (lowerMaybe n)).1.map g = n ∧ xs = ys := by
  cases n <;> simp [lowerMaybe]

lemma map_lowerMaybe_iff : (a.after (lowerMaybe n)).1.toList.map g = n.toList ↔ (a.after (lowerMaybe n)).1.map g = n := by
  simpa using @map_lowerMaybe_append_iff n a g [] []

lemma map_lowerEntries_iff : ((a.after (lowerEntries es)).1.flatMap fun e => e.1.toList ++ [e.2]).map g =
      (es.flatMap fun e => e.1.toList ++ [e.2]) ↔
    (a.after (lowerEntries es)).1.map (Prod.map (Option.map g) g) = es := by
  induction es generalizing a with
  | nil => simp [lowerEntries]
  | cons e es ih =>
    obtain ⟨key, value⟩ := e
    simp_all [lowerEntries, lowerEntry, map_lowerMaybe_append_iff, and_assoc]

lemma map_lowerParameters_append_iff : ((a.after (lowerParameters ps)).1.flatMap fun p => p.1 :: p.2.toList).map g ++ xs =
      (ps.flatMap fun p => p.1 :: p.2.toList) ++ ys ↔
    (a.after (lowerParameters ps)).1.map (Prod.map g (Option.map g)) = ps ∧ xs = ys := by
  induction ps generalizing a with
  | nil => simp [lowerParameters]
  | cons p ps ih =>
    obtain ⟨arg, default⟩ := p
    simp_all [lowerParameters, lowerParameter, map_lowerMaybe_append_iff, and_assoc]

lemma map_lowerParameters_iff : ((a.after (lowerParameters ps)).1.flatMap fun p => p.1 :: p.2.toList).map g =
      (ps.flatMap fun p => p.1 :: p.2.toList) ↔
    (a.after (lowerParameters ps)).1.map (Prod.map g (Option.map g)) = ps := by
  simpa using @map_lowerParameters_append_iff ps a g [] []

lemma Shape.map_lower {s : Shape Node} (h : (a.after s.lower).1.children.map g = s.children) :
    (a.after s.lower).1.map g = s := by
  cases s <;>
    simp [Shape.lower, children, fieldNodes, fields, Field.nodes, map,
      map_lowerAll_append_iff, map_lowerMaybe_append_iff, map_lowerMaybe_iff, map_lowerEntries_iff,
      map_lowerParameters_append_iff, map_lowerParameters_iff] at h ⊢ <;>
    tauto

end Parts

section Order

lemma lowerAll_append (ms ns : List Node) : lowerAll (ms ++ ns) = do return (← lowerAll ms) ++ (← lowerAll ns) := by
  induction ms with
  | nil => simp [lowerAll]
  | cons m ms ih => simp [lowerAll, ih]

lemma lowerAll_toList (n : Option Node) : lowerAll n.toList = Option.toList <$> lowerMaybe n := by
  cases n <;> simp [lowerAll, lowerMaybe]

lemma lowerAll_entries (es : List (Option Node × Node)) :
    lowerAll (es.flatMap fun e => e.1.toList ++ [e.2]) =
      (fun es => es.flatMap fun e => e.1.toList ++ [e.2]) <$> lowerEntries es := by
  induction es with
  | nil => simp [lowerAll, lowerEntries]
  | cons e es ih =>
    obtain ⟨key, value⟩ := e
    simp [lowerAll, lowerEntries, lowerEntry, lowerAll_append, lowerAll_toList, ih]

lemma lowerAll_parameters (ps : List (Node × Option Node)) :
    lowerAll (ps.flatMap fun p => p.1 :: p.2.toList) =
      (fun ps => ps.flatMap fun p => p.1 :: p.2.toList) <$> lowerParameters ps := by
  induction ps with
  | nil => simp [lowerAll, lowerParameters]
  | cons p ps ih =>
    obtain ⟨arg, default⟩ := p
    simp [lowerAll, lowerParameters, lowerParameter, lowerAll_append, lowerAll_toList, ih]

def Shape.clauses : Shape Node → List Node
  | .listComp _ generators | .setComp _ generators | .dictComp _ _ generators | .generatorExp _ generators => generators
  | _ => []

def Shape.front : Shape Node → List Node
  | .listComp elt _ | .setComp elt _ | .generatorExp elt _ => [elt]
  | .dictComp key value _ => [key, value]
  | s => s.children

lemma Shape.front_append_clauses (s : Shape Node) : s.front ++ s.clauses = s.children := by
  cases s <;> simp [front, clauses, children, fieldNodes, fields, Field.nodes]

lemma Shape.children_lower (s : Shape Node) :
    children <$> s.lower = do return (← lowerAll s.front) ++ (← pushAll (← lowerPending s.clauses)) := by
  cases s <;>
    simp [Shape.lower, front, clauses, children, fieldNodes, fields, Field.nodes, lowerAll, lowerPending, pushAll,
      lowerAll_append, lowerAll_toList, lowerAll_entries, lowerAll_parameters]

end Order

section Extends

variable {α β : Type} {a : Arena}

def Extends (x : StateM Arena α) : Prop := ∀ a : Arena, ∃ b, (a.after x).2 = a ++ b

lemma Extends.pure (r : α) : Extends (Pure.pure r) := fun a => ⟨[], (List.append_nil a).symm⟩

lemma Extends.bind {x : StateM Arena α} {k : α → StateM Arena β} (hx : Extends x) (hk : ∀ r, Extends (k r)) :
    Extends (x >>= k) := by
  intro a
  obtain ⟨b, hb⟩ := hx a
  obtain ⟨c, hc⟩ := hk (a.after x).1 (a ++ b)
  refine ⟨b ++ c, ?_⟩
  rw [← List.append_assoc, ← hc, ← hb]
  rfl

lemma extends_push (e : Entry) : Extends (push e) := fun _ => ⟨[e], rfl⟩

lemma extends_pushAll (es : List Entry) : Extends (pushAll es) := by
  rw [pushAll]
  induction es with
  | nil => exact .pure []
  | cons e es ih =>
    rw [List.mapM_cons]
    exact (extends_push e).bind fun i => ih.bind fun is => .pure (i :: is)

lemma extends_lowerAll_of {ns : List Node} (h : ∀ n ∈ ns, Extends n.shape.lower) : Extends (lowerAll ns) := by
  induction ns with
  | nil => exact .pure []
  | cons n ns ih =>
    obtain ⟨hn, hns⟩ := List.forall_mem_cons.mp h
    cases n
    exact (hn.bind fun c => extends_push _).bind fun i => (ih hns).bind fun is => .pure (i :: is)

lemma extends_lowerPending {ns : List Node} (h : ∀ n ∈ ns, Extends n.shape.lower) : Extends (lowerPending ns) := by
  induction ns with
  | nil => exact .pure []
  | cons n ns ih =>
    obtain ⟨hn, hns⟩ := List.forall_mem_cons.mp h
    cases n
    exact hn.bind fun c => (ih hns).bind fun es => .pure _

lemma Shape.extends_lower {s : Shape Node} (h : ∀ c ∈ s.children, Extends c.shape.lower) : Extends s.lower := by
  rw [← s.front_append_clauses, List.forall_mem_append] at h
  have hchildren : Extends (children <$> s.lower) := by
    rw [s.children_lower]
    exact (extends_lowerAll_of h.1).bind fun is => (extends_lowerPending h.2).bind fun es =>
      (extends_pushAll es).bind fun js => .pure _
  intro a
  obtain ⟨b, hb⟩ := hchildren a
  exact ⟨b, by simpa [Arena.after] using hb⟩

lemma Node.extends_lower (n : Node) : Extends n.shape.lower := by
  induction n using Node.ind with
  | h n ih => exact Shape.extends_lower ih

lemma extends_lowerAll (ns : List Node) : Extends (lowerAll ns) := extends_lowerAll_of fun n _ => n.extends_lower

lemma Node.exists_after_lower (n : Node) (a : Arena) :
    ∃ b c, a.after n.lower = ((a ++ b).length, a ++ b ++ [⟨n.mark, c⟩]) := by
  obtain ⟨b, hb⟩ := n.extends_lower a
  obtain ⟨mark, shape⟩ := n
  refine ⟨b, .ofShape (a.after shape.lower).1, ?_⟩
  rw [← hb]
  rfl

lemma exists_first (n : Node) (ns : List Node) (a : Arena) : ∃ i is c,
    (a.after (lowerAll (n :: ns))).1 = i :: is ∧ (a.after (lowerAll (n :: ns))).2[i]? = some ⟨n.mark, c⟩ := by
  obtain ⟨b, c, hn⟩ := n.exists_after_lower a
  obtain ⟨b', hns⟩ := extends_lowerAll ns (a ++ b ++ [⟨n.mark, c⟩])
  have hafter : a.after (lowerAll (n :: ns)) = ((a.after n.lower).1 :: ((a.after n.lower).2.after (lowerAll ns)).1,
      ((a.after n.lower).2.after (lowerAll ns)).2) := rfl
  refine ⟨(a ++ b).length, ((a.after n.lower).2.after (lowerAll ns)).1, c, ?_, ?_⟩
  · rw [hafter, hn]
  · rw [hafter, hn, hns]
    simp

end Extends

end SourceBlocks.Tree
