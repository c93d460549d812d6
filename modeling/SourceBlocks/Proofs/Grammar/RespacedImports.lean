import SourceBlocks.Grammar.Module
import SourceBlocks.Proofs.Outcome
import SourceBlocks.Proofs.Grammar.Imports

/-! Import statements with wider gaps between their tokens. They are read wherever they were read
before. -/

namespace SourceBlocks.Grammar

open Lexis Grammar.Parser
open SourceBlocks.Tree (Node)

variable {g g' : Rules Node} {c c' d d' e e' : Cursor} {n : Node} {w : String} {s : List Char}

lemma Poised.abreast (h : Poised e e' d d') (he : Abreast e e') : Abreast d d' := by
  rcases h with ⟨rfl, rfl⟩ | ⟨u, u', hgap⟩
  · exact he
  · exact hgap.abreast he

lemma replays_advance (hc : Abreast c c') (ha : Aligned c.rest c'.rest) (hw : w ≠ "") (h : word c.rest = w.toList) :
    Replays c c' (advance w.length) (advance w.length) fun _ d _ d' => Taken c c' d d' w.toList := by
  have htaken := taken_word hc ha (by simpa [h] using hw)
  rw [h, String.length_toList] at htaken
  intro a d hd
  obtain ⟨rfl, rfl⟩ := Prod.mk.inj (Except.ok.inj hd)
  exact ⟨(), _, rfl, htaken⟩

lemma replays_behind {p p' : Parser Node} {Q : Node → Cursor → Node → Cursor → Prop} (hc : Abreast c c')
    (ha : Aligned c.rest c'.rest) (h : word c.rest = w.toList) (hw : w ≠ "")
    (hquote : ∀ r, Quote.atStart? (w.toList ++ r) = none)
    (hp : ∀ d d', Taken c c' d d' w.toList → Replays d d' p p' Q) (q q' : Parser Node) (k k' : String → Parser Node)
    (hk : k w = advance w.length >>= fun _ => p) (hk' : k' w = advance w.length >>= fun _ => p') :
    Replays c c' (if (Quote.atStart? c.rest).isSome then q else wordHere >>= k)
      (if (Quote.atStart? c'.rest).isSome then q' else wordHere >>= k') Q := by
  have hnone : ∀ {x : Cursor}, word x.rest = w.toList → ¬ (Quote.atStart? x.rest).isSome = true := by
    intro x hx
    obtain ⟨r, hr⟩ := word_prefix x.rest
    rw [← hr, hx, hquote]
    simp
  have hhere : ∀ {x : Cursor}, word x.rest = w.toList → wordHere x = .ok (w, x) := by
    intro x hx
    rw [wordHere, hx, String.ofList_toList]
  have h' : word c'.rest = w.toList := by rw [ha.word, h]
  rw [if_neg (hnone h), if_neg (hnone h')]
  refine .known (hhere h) (hhere h') ?_
  rw [hk, hk']
  exact (replays_advance hc ha hw h).bind fun _ d _ d' => hp d d'

lemma replays_importStatement (hg : g.bound ≤ g'.bound) (hc : Abreast c c') (ha : Aligned c.rest c'.rest)
    (hw : word c.rest = "import".toList ∨ word c.rest = "from".toList) :
    Replays c c' (simpleStatement g) (simpleStatement g') fun n d n' d' => ∃ a : ImportForm Widening,
      importsOf n = some (a.reading Widening.narrow) ∧ importsOf n' = some (a.reading Widening.wide) ∧
        Passed c c' d d' (a.chars Widening.narrow) (a.chars Widening.wide) := by
  refine .known rfl rfl ?_
  rcases hw with hw | hw
  · refine replays_behind hc ha hw (by decide) (fun _ => rfl) ?_ _ _ _ _ rfl rfl
    intro d d' hword
    refine (replays_plainImport hg hword.abreast _ _).mono ?_
    rintro n e n' e' ⟨u, a, hn, hn', hnames⟩
    exact ⟨.names u a, hn, hn', .prepend hword.past hword.past_wide hnames⟩
  · refine replays_behind hc ha hw (by decide) (fun _ => rfl) ?_ _ _ _ _ rfl rfl
    intro d d' hword
    refine (replays_fromImport hg hword.abreast _ _).mono ?_
    rintro n e n' e' ⟨u, o, before, behind, a, hn, hn', hnames⟩
    exact ⟨.origin u o before behind a, hn, hn', .prepend hword.past hword.past_wide hnames⟩

/-- An import statement is still read when blanks and continued lines are put between its tokens,
and both texts have one form. -/
theorem import_respaced_iff (hg : g.bound ≤ g'.bound) (hc : Abreast c c') (ha : Aligned c.rest c'.rest)
    (hw : word c.rest = "import".toList ∨ word c.rest = "from".toList) (hn : simpleStatement g c = .ok (n, d)) :
    ∃ (a : ImportForm Widening) (n' : Node) (d' : Cursor) (r r' : List Char),
      simpleStatement g' c' = .ok (n', d') ∧ Abreast d d' ∧
      c.rest = a.chars Widening.narrow ++ r ∧ c'.rest = a.chars Widening.wide ++ r' ∧ Respaced r r' ∧
      importsOf n = some (a.reading Widening.narrow) ∧ importsOf n' = some (a.reading Widening.wide) ∧
      (importsOf n' = importsOf n ↔ a.Keeps) := by
  obtain ⟨n', d', hn', a, hold, hnew, e, e', hpast, hpast', he, hd⟩ := replays_importStatement hg hc ha hw n d hn
  refine ⟨a, n', d', e.rest, e'.rest, hn', hd.abreast he, hpast.rest, hpast'.rest, he.respaced, hold, hnew, ?_⟩
  rw [hold, hnew, Option.some_inj]
  exact a.reading_wide_iff

section Sources

variable {s s' : List Char}

lemma abreast_ofSource (h : Aligned s s') : Abreast (.ofSource 0 s) (.ofSource 0 s') :=
  ⟨⟨rfl, rfl⟩, Nat.le_refl _, Nat.le_refl _, h.respaced⟩

lemma aligned_from (hs : Closed s) (h : Respaced s s') : Aligned ("from".toList ++ s) ("from".toList ++ s') :=
  .token (.word (by decide) (by decide) hs) h

lemma respaced_apart {u t : List Char} (hu : u = [' '] ∨ Continues u) (ht : IsToken t s) (h : Respaced s s') :
    Respaced (t ++ s) (u ++ (t ++ s')) := by
  refine @Respaced.token [] u t s s' ?_ ht h
  rcases hu with rfl | hu
  · exact .blank (.inl rfl) .nil
  · rw [← List.append_nil u]
    exact .continued hu (by simp) .nil

lemma respaced_behind_blank {t : List Char} (ht : IsToken t s) (h : Respaced s s') :
    Respaced (' ' :: (t ++ s)) (' ' :: (t ++ s')) :=
  @Respaced.token [' '] [' '] t s s' (.kept (.inl rfl) .nil) ht h

lemma aligned_dots : Aligned "from .. import x".toList "from . . import x".toList := by
  refine @aligned_from " .. import x".toList " . . import x".toList (by decide) ?_
  refine @respaced_behind_blank ". import x".toList " . import x".toList ['.'] (.symbol (by decide)) ?_
  exact @respaced_apart " import x".toList " import x".toList [' '] ['.'] (.inl rfl) (.symbol (by decide)) .same

end Sources

theorem import_respaced_iff_dots : ∃ (n : Node) (d : Cursor),
    simpleStatement (.none 8) (.ofSource 0 "from .. import x".toList) = .ok (n, d) ∧
      ∃ (a : ImportForm Widening) (n' : Node) (d' : Cursor) (r r' : List Char),
        simpleStatement (.none 8) (.ofSource 0 "from . . import x".toList) = .ok (n', d') ∧ Abreast d d' ∧
        "from .. import x".toList = a.chars Widening.narrow ++ r ∧
        "from . . import x".toList = a.chars Widening.wide ++ r' ∧ Respaced r r' ∧
        importsOf n = some (a.reading Widening.narrow) ∧ importsOf n' = some (a.reading Widening.wide) ∧
        (importsOf n' = importsOf n ↔ a.Keeps) := by
  obtain ⟨⟨n, d⟩, hn⟩ : ∃ r : Node × Cursor, simpleStatement (.none 8) (.ofSource 0 "from .. import x".toList) = .ok r :=
    Outcome.isOk_iff.mp (by decide +kernel)
  refine ⟨n, d, hn, ?_⟩
  exact import_respaced_iff (Nat.le_refl _) (abreast_ofSource aligned_dots) aligned_dots (.inr (by decide)) hn

def importsIn (source : String) : Except Position (List (Option Imports)) :=
  (read 0 source.toList).map fun n : Node => match n.shape with
    | .module ns => ns.map importsOf
    | _ => []

theorem imports_change_with_gaps :
    (Aligned "from .. import x".toList "from . . import x".toList ∧
      importsIn "from .. import x" = .ok [some ⟨some (none, 2), [("x", none)]⟩] ∧
      importsIn "from . . import x" = .ok [some ⟨some (none, 1), [("x", none)]⟩]) ∧
    (Aligned "from a.b import c".toList "from a . b import c".toList ∧
      importsIn "from a.b import c" = .ok [some ⟨some (some "a.b", 0), [("c", none)]⟩] ∧
      importsIn "from a . b import c" = .ok [some ⟨some (some "a . b", 0), [("c", none)]⟩]) ∧
    Aligned "import a.b as c".toList "import a\\\n.b as c".toList ∧
      importsIn "import a.b as c" = .ok [some ⟨none, [("a.b", some "c")]⟩] ∧
      importsIn "import a\\\n.b as c" = .ok [some ⟨none, [("a\\.b", some "c")]⟩] := by
  refine ⟨⟨aligned_dots, by decide +kernel, by decide +kernel⟩, ⟨?_, by decide +kernel, by decide +kernel⟩, ?_,
    by decide +kernel, by decide +kernel⟩
  · refine @aligned_from " a.b import c".toList " a . b import c".toList (by decide) ?_
    refine @respaced_behind_blank ".b import c".toList " . b import c".toList ['a']
      (.word (by decide) (by decide) (by decide)) ?_
    refine @respaced_apart "b import c".toList " b import c".toList [' '] ['.'] (.inl rfl) (.symbol (by decide)) ?_
    exact @respaced_apart " import c".toList " import c".toList [' '] ['b'] (.inl rfl)
      (.word (by decide) (by decide) (by decide)) .same
  · refine @Aligned.token "import".toList " a.b as c".toList " a\\\n.b as c".toList
      (.word (by decide) (by decide) (by decide)) ?_
    refine @respaced_behind_blank ".b as c".toList "\\\n.b as c".toList ['a']
      (.word (by decide) (by decide) (by decide)) ?_
    exact @respaced_apart "b as c".toList "b as c".toList ['\\', '\n'] ['.'] (.inr (.inl rfl)) (.symbol (by decide)) .same

end SourceBlocks.Grammar
