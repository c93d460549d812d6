import SourceBlocks.Proofs.Dialect
import SourceBlocks.Proofs.Grammar.Linked.Module
import SourceBlocks.Proofs.Lowering.Compound
import SourceBlocks.Proofs.Tree.OneTree
import SourceBlocks.Proofs.Tree.PreOrder
import SourceBlocks.Reading

/-! Lowering a whole source. What is put into the row is one tree, for every source that is read. -/

namespace SourceBlocks

open Grammar (Builder Links Onset Phrase Piece Role marked unmarked)
open Lower Lowering Outcome
open SourceBlocks.Dialect (demands)
open SourceBlocks.Tree (Arena Node Shape)

namespace ParseTree

lemma Statement.ofStatementForm {s : Shape ParseTree} {s' : Shape Node} (h : links.StatementForm s s') (start : Position) :
    Statement (ofShape (.token start) s) (.mk (some (.known start)) s') := by
  cases h with
  | pass => exact .pass
  | breakLoop => exact .breakLoop
  | continueLoop => exact .continueLoop
  | returnValue h => exact .returnValue h
  | delete hs => exact .delete hs
  | raise h h' => exact .raise h h'
  | globalNames ids => exact .globalNames ids
  | nonlocalNames ids => exact .nonlocalNames ids
  | importNames hs => exact .importNames hs
  | importFrom source level hs => exact .importFrom source level hs
  | print newline h hs => exact .print newline h hs
  | typeAlias h h' => exact .typeAlias h h'
  | branch h hs hu => exact .branch h hs hu
  | whileLoop h hs hu => exact .whileLoop h hs hu
  | forLoop isAsync h h' hs hu => exact .forLoop isAsync h h' hs hu
  | withBlock isAsync hs hu => exact .withBlock isAsync hs hu
  | tryBlock ht hh hu hv => exact .tryBlock ht hh hu hv
  | functionDef id isAsync hs hp ht hu => exact .functionDef id isAsync hs hp ht hu
  | classDef id hs hu hv => exact .classDef id hs hu hv
  | choice hs hu => exact .choice hs hu
  | case hs hg hv => exact .case hs hg hv

lemma lawful : links.Lawful where
  phrases h := h.phrases
  head h := h.head
  leaf start stop h := .leaf start stop h
  extend stop hp h := .extend stop hp h
  string start stop text ps hps := by
    have hmap : ps.map (Piece.inset links.shift) = ps := List.map_id'' (fun _ => rfl) ps
    rw [hmap]
    exact .string start stop text ps hps
  group start stop h := .group start stop h
  joined op hp hq := .chain op hp hq
  aliased text hp hq := .withName text hp hq
  tuple start stop hs := .tuple start stop hs
  openTuple hp hs := .openTuple hp hs
  other onset hk hs := by
    have honset : onset.inset links.shift = onset := by cases onset <;> rfl
    rw [honset]
    exact .other hk hs
  keyword id h := .keyword id h
  slice ht hu hv := .slice ht hu hv
  clause isAsync ht hu hs := .mk isAsync ht (.ofSource hu) hs
  arg start id h := .mk start id h
  item h := Statement.item h
  handler start hc hs := Statement.handler hc hs
  imported start written asname := .ofWritten start written asname
  statement start h := .ofStatementForm h start
  assertion start hp hs := by
    cases hs with
    | nil => exact .assertion hp.value .none fun _ => rfl
    | cons hq _ => exact .assertion hp.value (.some hq.value) nofun
  exec start ht hs := .exec ht hs
  expr h := .expr h
  exprs hp hq hs := .exprs hp hq hs
  assignment h ha := .assignment h ha

lemma meets_module {ts : List ParseTree} {ns : List Node} (h : List.Forall₂ Statement ts ns) :
    Meets (demands (unmarked (.module ns))) (Lowering.module (unmarked (.module ts)))
      (Node.lower (unmarked (.module ns))) := by
  have hbody := (meets_body (t := unmarked (.module ts)) rfl h le_rfl).last fun is => .push none (.module is)
  rw [unmarked, Grammar.Abstract.node_eq, demands_mk rfl rfl]
  simpa [Lowering.module, Node.lower, Shape.lower, Shape.children, Shape.fieldNodes, Shape.fields, Tree.Field.nodes,
    Tree.Stored.ofShape] using hbody

end ParseTree

namespace Dialect

variable {f f' : Features} {n : Node}

lemma meetable_of_meetAll {ds : List Demand} (h : meetAll f ds = .ok f') : ∀ d ∈ ds, d.Meetable := by
  induction ds generalizing f with
  | nil => simp
  | cons d ds ih =>
    obtain ⟨g, hd, hds⟩ := meetAll_cons_eq_ok.mp h
    exact List.forall_mem_cons.mpr ⟨(meet_eq_ok.mp hd).1, ih hds⟩

lemma Step.exists_lacksDefault_mem {α : Type} {s : Shape α} (h : ¬ s.DefaultsLast) : ∃ a, lacksDefault a ∈ ofShape s := by
  cases s with
  | arguments ps vararg ks kwarg =>
    obtain ⟨l, a, r, rest, -, -, -, hsteps⟩ := exists_lacksDefault h
    exact ⟨a, by simp [ofShape, hsteps]⟩
  | _ => exact absurd trivial h

lemma defaultsLast_of_meetable (h : ∀ d ∈ demands n, d.Meetable) : n.shape.DefaultsLast := by
  by_contra hlast
  obtain ⟨a, ha⟩ := Step.exists_lacksDefault_mem hlast
  refine h (.default (placeOf a)) ?_
  rw [demands_eq]
  exact List.mem_append_right _ (List.mem_flatMap.mpr ⟨_, ha, List.mem_singleton_self _⟩)

lemma defaultsLast_of_mem_walk (h : ∀ d ∈ demands n, d.Meetable) : ∀ m ∈ n.walk, m.shape.DefaultsLast := by
  induction n using Node.ind with
  | h n ih =>
    have hlast := defaultsLast_of_meetable h
    rw [demands_eq, Step.ofShape_of_defaultsLast hlast, List.flatMap_map, List.forall_mem_append] at h
    rw [Node.walk_eq, List.forall_mem_cons]
    refine ⟨hlast, fun m hm => ?_⟩
    obtain ⟨c, hc, hm⟩ := List.mem_flatMap.mp hm
    exact ih c hc (fun d hd => h.2 d (List.mem_flatMap.mpr ⟨c, hc, hd⟩)) m hm

end Dialect

namespace Lowered

lemma ofText_agree (t : Text) (f : Features) : Agree Eq (fun l r => r = l.reading ∧ l.arena.IsTree l.root) (ofText t f)
    ((Grammar.read (Text.dedent t.lines).margin.length (Text.dedent t.lines).chars).mapError
      (fun p => Error.rejectedAt "invalid syntax" (t.start.plus p)) >>= fun tree =>
    (Dialect.check f tree).mapError (fun r => r.toError t.start) >>= fun f' =>
    pure ⟨tree, (Text.dedent t.lines).margin, f'⟩) := by
  rw [ofText]
  have hread := Grammar.read_linked ParseTree.lawful (Text.dedent t.lines).margin.length (Text.dedent t.lines).chars
  rw [Nat.add_zero] at hread
  generalize (Grammar.read _ _ : Except Position ParseTree) = x, (Grammar.read _ _ : Except Position Node) = y at hread
  cases hread with
  | error h => exact .error (by rw [h]; rfl)
  | ok h =>
    obtain ⟨ts, ns, rfl, rfl, hbody⟩ := h
    have hmeets : Lowering.module (unmarked (.module ts)) ⟨[], f⟩ = _ := ParseTree.meets_module hbody ⟨[], f⟩
    dsimp only
    rw [hmeets]
    change Agree Eq _ _ ((Dialect.check f (unmarked (.module ns))).mapError (fun r => r.toError t.start) >>= fun f' =>
      pure (Reading.mk (unmarked (.module ns)) (Text.dedent t.lines).margin f'))
    cases hcheck : Dialect.check f (unmarked (.module ns)) with
    | error r =>
      have hall : Dialect.meetAll f (demands (unmarked (.module ns))) = .error r := hcheck
      simp only [hall]
      exact .error rfl
    | ok f' =>
      have hall : Dialect.meetAll f (demands (unmarked (.module ns))) = .ok f' := hcheck
      obtain ⟨root, a, hlower, htree, hroot⟩ :=
        Node.exists_lower (Dialect.defaultsLast_of_mem_walk (Dialect.meetable_of_meetAll hall))
      simp only [hall, hlower]
      refine .ok ⟨?_, htree⟩
      rw [reading, hroot]

end Lowered

namespace Reading

lemma ofText_eq (t : Text) (f : Features) : ofText t f =
    (Grammar.read (Text.dedent t.lines).margin.length (Text.dedent t.lines).chars).mapError
      (fun p => Error.rejectedAt "invalid syntax" (t.start.plus p)) >>= fun tree =>
    (Dialect.check f tree).mapError (fun r => r.toError t.start) >>= fun f' =>
    pure ⟨tree, (Text.dedent t.lines).margin, f'⟩ := by
  exact ((Lowered.ofText_agree t f).mono fun _ _ h => h.1).map_eq

lemma ofText_iff {t : Text} {f : Features} {r : Reading} : ofText t f = .ok r ↔
    Grammar.read (Text.dedent t.lines).margin.length (Text.dedent t.lines).chars = .ok r.tree ∧
      Dialect.check f r.tree = .ok r.features ∧ r.margin = (Text.dedent t.lines).margin := by
  simp only [ofText_eq, bind_eq_ok, mapError_eq_ok, pure_eq_ok]
  constructor
  · rintro ⟨tree, htree, e, hcheck, rfl⟩
    exact ⟨htree, hcheck, rfl⟩
  · rintro ⟨htree, hcheck, hmargin⟩
    refine ⟨_, htree, _, hcheck, ?_⟩
    rw [← hmargin]

end Reading

namespace Lowered

/-- The row that a text is lowered to is one tree, and a walk from the root comes by each node once. -/
theorem arena_isTree {t : Text} {f : Features} {l : Lowered} (h : ofText t f = .ok l) : ∃ htree : l.arena.IsTree l.root,
    (∀ i < l.root, ∃ p ≤ l.root, ∀ k, (l.arena.children k).count i = if k = p then 1 else 0) ∧
      (htree.ranked.walk.toList [l.root]).Perm (List.range l.arena.length) ∧
      (htree.ranked.walk.toList [l.root]).length = l.arena.length ∧
      (htree.ranked.walk.toList [l.root]).map (l.arena.tree l.arena.length) = l.reading.tree.walk ∧
      l.arena.length = l.reading.tree.size ∧
      Grammar.read l.margin.length (Text.dedent t.lines).chars = .ok l.reading.tree := by
  obtain ⟨-, -, -, htree⟩ := (ofText_agree t f).exists_of_ok h
  have hread : Reading.ofText t f = .ok l.reading := by rw [Reading.ofText, h]; rfl
  obtain ⟨hread, -, hmargin⟩ := Reading.ofText_iff.mp hread
  have hlength : (htree.ranked.walk.toList [l.root]).length = l.arena.length := by
    rw [htree.walk_perm.length_eq, List.length_range]
  refine ⟨htree, fun i hi => ?_, htree.walk_perm, hlength, htree.map_tree_walk, ?_, ?_⟩
  · obtain ⟨p, hp, -, hcount⟩ := htree.exists_parent hi
    exact ⟨p, hp, hcount⟩
  · rw [Node.size_eq_length_walk, reading, ← htree.map_tree_walk, List.length_map, hlength]
  · rw [← hmargin] at hread
    exact hread

theorem arena_isTree_clauses : ∃ l, ∃ htree : l.arena.IsTree l.root,
    ofText (.ofString "def f(a=1): return \x7ba: [b for b in c for d in b]\x7d") .none = .ok l ∧
      (List.range 16).map l.arena.children = [[], [], [0, 1], [], [], [], [], [], [], [5, 6], [7, 8], [4, 9, 10], [3, 11],
        [12], [2, 13], [14]] ∧ (htree.ranked.walk.toList [l.root]).length = 16 := by
  have hread : (ofText (.ofString "def f(a=1): return \x7ba: [b for b in c for d in b]\x7d") .none).map (fun l =>
      (l.arena.length, (List.range 16).map l.arena.children)) = .ok (16, [[], [], [0, 1], [], [], [], [], [], [], [5, 6],
        [7, 8], [4, 9, 10], [3, 11], [12], [2, 13], [14]]) := by decide +kernel
  obtain ⟨l, hl, hparts⟩ := map_eq_ok.mp hread
  obtain ⟨htree, -, -, hlength, -⟩ := arena_isTree hl
  obtain ⟨h, hchildren⟩ := Prod.mk.inj hparts
  exact ⟨l, htree, hl, hchildren, hlength.trans h⟩

-- no source has two bounds of a slice without a colon between them: the first, node 0, would be part of nothing
example : ((Lowering.module (.inner .module [.inner .expressionStatement [.inner .slice [.leaf .identifier ['a'],
    .leaf .identifier ['b']]]]) ⟨[], .none⟩).toOption.map fun r => (r.1, r.2.arena.parts)) = some (4, [1, 2, 3]) := by
  decide +kernel

end Lowered

end SourceBlocks
