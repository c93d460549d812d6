import SourceBlocks.Proofs.Block.Containment
import SourceBlocks.Proofs.Block.Features
import SourceBlocks.Proofs.Grammar.Kept.Module
import SourceBlocks.Proofs.Placement.Exact

namespace SourceBlocks

open Outcome Lexis Lexis.Source Grammar
open SourceBlocks.Placement
open SourceBlocks.Tree (Node Shape Written)

def Grammar.isPlainRun (ps : List Piece) : Bool := ps.all fun p => !p.isFormatted && !p.isRepr

namespace Lexis.Source

variable {S : Source} {i j : Nat} {rs : List (List Piece)} {ps : List Piece} {l : List Written}

lemma IsRun.isPlainRun_iff (h : S.IsRun i ps j) : isPlainRun ps = true ↔ ∀ p ∈ ps, IsPlain p := by
  simp only [isPlainRun, List.all_eq_true, Bool.and_eq_true, Bool.not_eq_true']
  refine forall₂_congr fun p hp => ?_
  obtain ⟨a, b, ht⟩ := h.exists_token hp
  exact ht.isPlain_iff.symm

lemma Scans.isRun (h : S.Scans i rs j) (hps : ps ∈ rs) : ∃ a b, S.IsRun a ps b := by
  induction h with
  | nil => cases hps
  | char _ _ _ ih => exact ih hps
  | comment _ _ _ _ _ ih => exact ih hps
  | run hrun _ ih =>
    rcases List.mem_cons.mp hps with rfl | hps
    · exact ⟨_, _, hrun⟩
    · exact ih hps

lemma Sifts.eq_map (h : S.Sifts i rs l) (hruns : ∀ ps ∈ rs, ∃ a b, S.IsRun a ps b)
    (hkept : ∀ ps ∈ rs, isPlainRun ps = true → ¬ S.Dropped i (literalOf ps)) :
    l = (rs.filter isPlainRun).map literalOf := by
  induction h with
  | nil => rfl
  | @keep ps rs l hplain _ ih =>
    obtain ⟨a, b, hrun⟩ := hruns ps (by simp)
    have hps := hrun.isPlainRun_iff.mpr hplain
    rw [List.filter_cons_of_pos hps, List.map_cons, ← ih (fun qs hqs => hruns qs (by simp [hqs]))
      fun qs hqs => hkept qs (by simp [hqs])]
  | @special ps rs l hspecial _ ih =>
    have hps : ¬ isPlainRun ps = true := by
      obtain ⟨p, hp, hor⟩ := hspecial
      intro hall
      have := List.all_eq_true.mp hall p hp
      rcases hor with h | h <;> simp [h] at this
    rw [List.filter_cons_of_neg hps]
    exact ih (fun qs hqs => hruns qs (by simp [hqs])) fun qs hqs => hkept qs (by simp [hqs])
  | @drop ps rs l hplain hdrop _ _ =>
    obtain ⟨a, b, hrun⟩ := hruns ps (by simp)
    exact absurd hdrop (hkept ps (by simp) (hrun.isPlainRun_iff.mpr hplain))

end Lexis.Source

namespace Block

variable {t : Text} {f : Features} {roots : List Root}

lemma map_literal?_strings (ps : List Placed) :
    (ps.filter fun p => p.stringValue?.isSome).map (fun p => p.node.shape.literal?) =
      ((ps.map Placed.node).filterMap fun n => n.shape.literal?).map some := by
  induction ps with
  | nil => rfl
  | cons p ps ih =>
    have hiff : p.stringValue?.isSome = p.node.shape.literal?.isSome := by
      rw [Placed.stringValue?]
      cases p.node.shape <;> rfl
    cases hlit : p.node.shape.literal? with
    | none =>
      rw [List.filter_cons_of_neg (by simp [hiff, hlit])]
      simp [hlit, ih]
    | some x =>
      rw [List.filter_cons_of_pos (by simp [hiff, hlit])]
      simp [hlit, ih]

lemma strings_eq_ok (h : (ofText t f).body = .ok roots) : ∃ ps, ∃ n : Tree.Node, (ofText t f).strings = .ok ps ∧
    read t.source.margin t.source.chars = .ok n ∧ ps.map (fun p => p.node.shape.literal?) = n.literals.map some := by
  obtain ⟨r, p, hr, hp, rfl⟩ := body_eq_ok.mp h
  obtain ⟨-, ns, htree, -⟩ := Reading.ofText_eq_ok hr
  obtain ⟨cs, hcs, rfl⟩ := (Reading.placeIn_eq_ok htree).mp hp
  refine ⟨(cs.flatMap Placed.walk).filter fun p => p.stringValue?.isSome, r.tree, ?_, (Reading.ofText_iff.mp hr).1, ?_⟩
  · rw [strings, h, List.filter_flatMap]
    conv_rhs => rw [← placed_zipIdx cs, List.flatMap_map]
    rfl
  · rw [map_literal?_strings, hcs.map_node_walk, htree, Node.literals, Node.walk_eq, Reading.children_module]
    rfl

/-- A block that can be read has one string for each run of plain string tokens, in the order of the source, with what
the tokens stand for, unless the run is dropped. -/
theorem strings_of_runs (h : (ofText t f).body = .ok roots) : ∃ ps runs kept,
    (ofText t f).strings = .ok ps ∧ ps.map (fun p => p.node.shape.literal?) = kept.map some ∧
      t.source.Scans 0 runs t.source.chars.length ∧ t.source.Sifts 0 runs kept ∧
      ((∀ run ∈ runs, isPlainRun run = true → ¬ t.source.Dropped 0 (literalOf run)) →
        kept = (runs.filter isPlainRun).map literalOf) := by
  obtain ⟨ps, n, hps, hread, hmap⟩ := strings_eq_ok h
  obtain ⟨runs, hscan, hsift⟩ := read_literals hread
  exact ⟨ps, runs, n.literals, hps, hmap, hscan, hsift, hsift.eq_map fun run hrun => hscan.isRun hrun⟩

theorem strings_of_runs_call : ∃ roots ps runs,
    (ofText (.ofString "f('a' \"b\",  # it's\n  f'\x7b\"c\"\x7d')\n'''d\n'''\n") .none).body = .ok roots ∧
      (ofText (.ofString "f('a' \"b\",  # it's\n  f'\x7b\"c\"\x7d')\n'''d\n'''\n") .none).strings = .ok ps ∧
      ps.map (fun p => p.node.shape.literal?) = [some ("ab", ⟨⟨0, 2⟩, ⟨0, 9⟩⟩), some ("d\n", ⟨⟨2, 0⟩, ⟨3, 3⟩⟩)] ∧
      (Text.ofString "f('a' \"b\",  # it's\n  f'\x7b\"c\"\x7d')\n'''d\n'''\n").source.Scans 0 runs 40 ∧
      (Text.ofString "f('a' \"b\",  # it's\n  f'\x7b\"c\"\x7d')\n'''d\n'''\n").source.Sifts 0 runs
        [("ab", ⟨⟨0, 2⟩, ⟨0, 9⟩⟩), ("d\n", ⟨⟨2, 0⟩, ⟨3, 3⟩⟩)] := by
  have hliterals : (ofText (.ofString "f('a' \"b\",  # it's\n  f'\x7b\"c\"\x7d')\n'''d\n'''\n") .none).strings.map
      (fun ps => ps.map fun p => p.node.shape.literal?) =
      .ok [some ("ab", ⟨⟨0, 2⟩, ⟨0, 9⟩⟩), some ("d\n", ⟨⟨2, 0⟩, ⟨3, 3⟩⟩)] := by decide +kernel
  obtain ⟨ps, hps, hmap⟩ := map_eq_ok.mp hliterals
  obtain ⟨roots, hroots, -⟩ := bind_eq_ok.mp hps
  obtain ⟨ps', runs, kept, hps', hkept, hscan, hsift, -⟩ := strings_of_runs hroots
  obtain rfl := Except.ok.inj (hps.symm.trans hps')
  rw [hmap] at hkept
  have hsome : [("ab", ⟨⟨0, 2⟩, ⟨0, 9⟩⟩), ("d\n", ⟨⟨2, 0⟩, ⟨3, 3⟩⟩)].map some = kept.map some := hkept
  obtain rfl := (List.map_inj_right fun _ _ => Option.some.inj).mp hsome
  have hlength : (Text.ofString "f('a' \"b\",  # it's\n  f'\x7b\"c\"\x7d')\n'''d\n'''\n").source.chars.length = 40 := by
    decide +kernel
  exact ⟨roots, ps, runs, hroots, hps, hmap, hlength ▸ hscan, hsift⟩

theorem strings_star_annotation : ∃ run,
    (ofText (.ofString "def f(*a: 'x'): pass\n") .none).strings.map List.length = .ok 0 ∧
      (Text.ofString "def f(*a: 'x'): pass\n").source.Scans 0 [run] 21 ∧ isPlainRun run = true ∧
      literalOf run = ("x", ⟨⟨0, 10⟩, ⟨0, 13⟩⟩) := by
  let S := (Text.ofString "def f(*a: 'x'): pass\n").source
  let c := Cursor.ofSource S.margin S.chars
  have hc : S.Has c := S.has_ofSource
  have htoken : S.Token 10 ⟨⟨0, 10⟩, ⟨0, 13⟩, ['\'', 'x', '\'']⟩ 13 := by
    have hread : (stringPiece (rules 8 1 : Rules Node) (c.skip 10)).map
        (fun r => (r.1.start, r.1.stop, r.1.text, r.2.index)) =
        .ok (⟨0, 10⟩, ⟨0, 13⟩, ['\'', 'x', '\''], 13) := by decide +kernel
    obtain ⟨⟨⟨start, stop, text⟩, d⟩, hd, heq⟩ := map_eq_ok.mp hread
    obtain ⟨rfl, rfl, rfl, hindex⟩ : start = _ ∧ stop = _ ∧ text = _ ∧ d.index = 13 := by simpa using heq
    exact ⟨8, 1, c.skip 10, d, hc.skip 10, by decide +kernel, hd, hindex⟩
  have hends : S.Ends 13 := by
    have hlook : (look .bracket true (c.skip 13)).map (fun r => (r.1, r.2.index)) = .ok (true, 13) := by decide +kernel
    obtain ⟨⟨found, d⟩, hd, heq⟩ := map_eq_ok.mp hlook
    obtain ⟨rfl, hindex⟩ : found = true ∧ d.index = 13 := by simpa using heq
    exact .inr ⟨13, ⟨.bracket, true, c.skip 13, d, hc.skip 13, by decide +kernel, hd, hindex⟩, by decide +kernel⟩
  have hbefore : S.Passes 0 10 := hc.passes_skip (n := 10) (by decide +kernel)
  have hbehind : S.Passes 13 21 := (hc.skip 13).passes_skip (n := 8) (by decide +kernel)
  refine ⟨[⟨⟨0, 10⟩, ⟨0, 13⟩, ['\'', 'x', '\'']⟩], by decide +kernel, ?_, by decide +kernel, by decide +kernel⟩
  exact hbefore.append (.run (.last htoken hends) hbehind)

end Block

end SourceBlocks
