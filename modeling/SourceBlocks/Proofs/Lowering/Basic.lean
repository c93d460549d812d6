import SourceBlocks.Proofs.Grammar.Parameters
import SourceBlocks.Proofs.Lowering.Parts
import SourceBlocks.Proofs.Tree.Layout

/-! Lowering against the tree that is meant. -/

namespace SourceBlocks

open SourceBlocks.Dialect (Demand Refusal demands meetAll)
open SourceBlocks.Tree (Arena Mark Node Shape Stored)

namespace Lower

variable {α β : Type} {ds es : List Demand} {x : Lower α} {y : StateM Arena α}

def Meets (ds : List Demand) (x : Lower α) (y : StateM Arena α) : Prop :=
  ∀ s : Store, x.run s = match meetAll s.features ds with
    | .ok f => .ok ((s.arena.after y).1, ⟨(s.arena.after y).2, f⟩)
    | .error r => .error (.refused r)

namespace Meets

lemma congr {ds' : List Demand} {y' : StateM Arena α} (h : Meets ds x y) (hds : ds' = ds) (hy : y' = y) :
    Meets ds' x y' := by rwa [hds, hy]

lemma pure (a : α) : Meets [] (Pure.pure a) (Pure.pure a) := fun _ => rfl

lemma bind_of {P : α → Prop} {k : α → Lower β} {l : α → StateM Arena β} (hx : Meets ds x y)
    (hy : ∀ a : Arena, P (a.after y).1) (hk : ∀ a, P a → Meets es (k a) (l a)) : Meets (ds ++ es) (x >>= k) (y >>= l) := by
  intro s
  rw [StateT.run_bind, hx s, Dialect.meetAll_append]
  cases meetAll s.features ds with
  | error r => rfl
  | ok f => exact hk (s.arena.after y).1 (hy s.arena) ⟨(s.arena.after y).2, f⟩

lemma bind {k : α → Lower β} {l : α → StateM Arena β} (hx : Meets ds x y) (hk : ∀ a, Meets es (k a) (l a)) :
    Meets (ds ++ es) (x >>= k) (y >>= l) := hx.bind_of (P := fun _ => True) (fun _ => trivial) fun a _ => hk a

lemma step {k : α → Lower β} {l : α → StateM Arena β} (hx : Meets [] x y) (hk : ∀ a, Meets es (k a) (l a)) :
    Meets es (x >>= k) (y >>= l) := hx.bind hk

lemma last {k : α → Lower β} {l : α → StateM Arena β} (hx : Meets ds x y) (hk : ∀ a, Meets [] (k a) (l a)) :
    Meets ds (x >>= k) (y >>= l) := (hx.bind hk).congr (List.append_nil ds).symm rfl

lemma map (f : α → β) (hx : Meets ds x y) : Meets ds (f <$> x) (f <$> y) := by
  rw [map_eq_pure_bind, map_eq_pure_bind]
  exact hx.last fun a => .pure (f a)

lemma record (mark : Option Mark) (c : Stored Nat) : Meets [] (Lower.record mark c) (Arena.push ⟨mark, c⟩) := fun _ => rfl

lemma push (mark : Option Mark) (s : Shape Nat) : Meets [] (Lower.push mark s) (Arena.push ⟨mark, .plain s⟩) := fun _ => rfl

lemma meet (d : Demand) : Meets [d] (Lower.meet d) (Pure.pure ()) := by
  intro s
  have hmeet : (Lower.meet d).run s = match Dialect.meet s.features d with
    | .ok features => .ok ((), { s with features })
    | .error r => .error (.refused r) := rfl
  rw [hmeet, meetAll]
  cases Dialect.meet s.features d <;> rfl

lemma mapM {γ : Type} {f : β → Lower α} {g : γ → StateM Arena α} {needs : γ → List Demand} {bs : List β} {cs : List γ}
    (h : List.Forall₂ (fun b c => Meets (needs c) (f b) (g c)) bs cs) :
    Meets (cs.flatMap needs) (bs.mapM f) (cs.mapM g) := by
  induction h with
  | nil => exact .pure []
  | cons hb _ ih =>
    rw [List.mapM_cons, List.mapM_cons, List.flatMap_cons]
    exact hb.bind fun a => ih.last fun as => .pure (a :: as)

lemma each {f : β → Lower α} {g : β → StateM Arena α} (h : ∀ b, Meets [] (f b) (g b)) (bs : List β) :
    Meets [] (bs.mapM f) (bs.mapM g) := by
  induction bs with
  | nil => exact .pure []
  | cons b bs ih =>
    rw [List.mapM_cons, List.mapM_cons]
    exact (h b).step fun a => ih.step fun as => .pure (a :: as)

lemma firstMark {n : Node} {ns : List Node} {x : Lower (List Nat)} {k : List Nat → Option Mark → Lower β}
    {l : List Nat → StateM Arena β} (hx : Meets ds x (Tree.lowerAll (n :: ns))) (hk : ∀ is, Meets es (k is n.mark) (l is)) :
    Meets (ds ++ es) (x >>= fun is => Lower.firstMark is >>= k is) (Tree.lowerAll (n :: ns) >>= l) := by
  intro s
  obtain ⟨i, is, c, hfirst, hget⟩ := Tree.exists_first n ns s.arena
  rw [StateT.run_bind, hx s, Dialect.meetAll_append]
  cases meetAll s.features ds with
  | error r => rfl
  | ok f =>
    have hafter : s.arena.after (Tree.lowerAll (n :: ns) >>= l) = (s.arena.after (Tree.lowerAll (n :: ns))).2.after
      (l (s.arena.after (Tree.lowerAll (n :: ns))).1) := rfl
    rw [hafter, hfirst]
    have hmark : (Lower.markOf i).run ⟨(s.arena.after (Tree.lowerAll (n :: ns))).2, f⟩ =
        .ok (n.mark, ⟨(s.arena.after (Tree.lowerAll (n :: ns))).2, f⟩) :=
      congrArg (fun e : Option Tree.Entry => Except.ok (e.bind Tree.Entry.mark, _)) hget
    have hrun : (Lower.firstMark (i :: is) >>= k (i :: is)).run ⟨(s.arena.after (Tree.lowerAll (n :: ns))).2, f⟩ =
        (k (i :: is) n.mark).run ⟨(s.arena.after (Tree.lowerAll (n :: ns))).2, f⟩ := by
      rw [StateT.run_bind, Lower.firstMark, hmark]
      rfl
    exact hrun.trans (hk (i :: is) _)

end Meets

end Lower

open Lower Lowering

namespace Lowering

variable (d : Nat)

@[simp] lemma expr_upTo_succ : (upTo (d + 1)).expr = expression (upTo d) := rfl

@[simp] lemma stmt_upTo_succ : (upTo (d + 1)).stmt = statement (upTo d) := rfl

@[simp] lemma body_upTo_succ : (upTo (d + 1)).body = statements (upTo d) := rfl

end Lowering

lemma demands_mk {m : Option Mark} {s : Shape Node} (hown : Dialect.own (.mk m s) = [])
    (hsteps : Dialect.Step.ofShape s = s.children.map .visit) : demands (.mk m s) = s.children.flatMap demands := by
  rw [Dialect.demands_eq, hown, List.nil_append, Node.shape, hsteps, List.flatMap_map]
  rfl

lemma lowerAll_eq_mapM (ns : List Node) : Tree.lowerAll ns = ns.mapM Node.lower := by
  induction ns with
  | nil => rfl
  | cons n ns ih => rw [Tree.lowerAll, ih, List.mapM_cons]

lemma Lower.Meets.flatten {β : Type} {f : β → Lower (List Nat)} {bs : List β} {nss : List (List Node)}
    (h : List.Forall₂ (fun b ns => Meets (ns.flatMap demands) (f b) (Tree.lowerAll ns)) bs nss) :
    Meets (nss.flatten.flatMap demands) (List.flatten <$> bs.mapM f) (Tree.lowerAll nss.flatten) := by
  induction h with
  | nil => exact .pure []
  | cons hb _ ih =>
    rw [List.flatten_cons, List.flatMap_append, Tree.lowerAll_append, List.mapM_cons]
    have hbind := hb.bind fun is => ih.last fun js => .pure (is ++ js)
    simpa using hbind

namespace ParseTree

def Stands (t : ParseTree) (n : Node) : Prop := ∀ d, t.depth ≤ d → Meets (demands n) ((upTo d).expr t) n.lower

lemma Stands.all {ts : List ParseTree} {ns : List Node} {d : Nat} (h : List.Forall₂ Stands ts ns)
    (hd : ∀ t ∈ ts, t.depth ≤ d) : Meets (ns.flatMap demands) ((upTo d).all ts) (Tree.lowerAll ns) := by
  rw [Lowering.all, lowerAll_eq_mapM]
  exact .mapM (((List.forall₂_and_left _ _).mpr ⟨hd, h⟩).imp fun t n h => h.2 d h.1)

lemma Stands.optional {t : Option ParseTree} {n : Option Node} {d : Nat} (h : Option.Rel Stands t n)
    (hd : ∀ c ∈ t, c.depth ≤ d) : Meets (n.toList.flatMap demands) ((upTo d).optional t) (Tree.lowerMaybe n) := by
  cases h with
  | none => exact .pure none
  | @some t n h =>
    rw [Option.toList_some, List.flatMap_singleton]
    exact (h d (hd t rfl)).map some

end ParseTree

end SourceBlocks
