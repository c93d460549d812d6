import SourceBlocks.Grammar.SimpleStatements
import SourceBlocks.Proofs.Grammar.ImportForms
import SourceBlocks.Proofs.Grammar.Replays

namespace SourceBlocks.Grammar

open Lexis Grammar.Parser
open SourceBlocks.Tree (Node Shape)

variable {g g' : Rules Node} {f : Follow} {c c' d d' e e' : Cursor} {s s' : List Char}

def Facing.widening {u u' : List Char} (h : Facing e e' c c' u u') : Widening := ⟨u, u', h.spread⟩

def Passed (c c' d d' : Cursor) (s s' : List Char) : Prop :=
  ∃ e e', c.Past e s ∧ c'.Past e' s' ∧ Abreast e e' ∧ Poised e e' d d'

lemma Poised.refl (c c' : Cursor) : Poised c c' c c' := .inl ⟨rfl, rfl⟩

lemma Passed.prepend {t t' : List Char} (h : c.Past e s) (h' : c'.Past e' s') (hd : Passed e e' d d' t t') :
    Passed c c' d d' (s ++ t) (s' ++ t') := by
  obtain ⟨x, x', hx, hx', habreast, hpoised⟩ := hd
  exact ⟨x, x', h.trans hx, h'.trans hx', habreast, hpoised⟩

lemma passed_nil (h : Abreast c c') (hd : Poised c c' d d') : Passed c c' d d' [] [] :=
  ⟨c, c', .refl c, .refl c', h, hd⟩

/-! Names. -/

def AddsPart (e e' : Cursor) (r : Option Nat) (d : Cursor) (r' : Option Nat) (d' : Cursor) : Prop :=
  r = none ∧ r' = none ∧ Poised e e' d d' ∨
    ∃ a : Link Widening, r = some d.index ∧ r' = some d'.index ∧ e.Past d (a.chars Widening.narrow ['.']) ∧
      e'.Past d' (a.chars Widening.wide ['.']) ∧ Abreast d d'

lemma replays_parts {p p' : Parser (Option Nat)} {n n' : Nat} (hn : n ≤ n')
    (hp : ∀ e e' c c', Abreast e e' → Poised e e' c c' → Replays c c' p p' (AddsPart e e'))
    (he : Abreast e e') (hc : Poised e e' c c') :
    Replays c c' (collect p n) (collect p' n') fun stops d stops' d' => ∃ (more : List (Link Widening)) (x x' : Cursor),
      e.Past x (more.flatMap (Link.chars Widening.narrow ['.'])) ∧
      e'.Past x' (more.flatMap (Link.chars Widening.wide ['.'])) ∧ Abreast x x' ∧ Poised x x' d d' ∧
      stops.getLast?.getD e.index = x.index ∧ stops'.getLast?.getD e'.index = x'.index := by
  induction n generalizing n' e e' c c' with
  | zero => exact .fail
  | succ n ih =>
    obtain ⟨k, rfl⟩ : ∃ k, n' = k + 1 := ⟨n' - 1, by omega⟩
    refine (hp e e' c c' he hc).bind ?_
    rintro r d r' d' (⟨rfl, rfl, hd⟩ | ⟨a, rfl, rfl, ha, ha', hd⟩)
    · exact .pure ⟨[], e, e', .refl e, .refl e', he, hd, rfl, rfl⟩
    · refine (ih (by omega) hd (.refl d d')).bind ?_
      rintro stops x stops' x' ⟨more, y, y', hy, hy', habreast, hpoised, hstop, hstop'⟩
      refine .pure ⟨a :: more, y, y', ?_, ?_, habreast, hpoised, ?_, ?_⟩
      · rw [List.flatMap_cons]
        exact ha.trans hy
      · rw [List.flatMap_cons]
        exact ha'.trans hy'
      · rw [List.getLast?_cons, Option.getD_some, hstop]
      · rw [List.getLast?_cons, Option.getD_some, hstop']

lemma replays_dottedName (hg : g.bound ≤ g'.bound) (hc : Abreast c c') (ha : Aligned c.rest c'.rest) (f : Follow) :
    Replays c c' (dottedName g f) (dottedName g' f) fun w d w' d' => ∃ a : Dotted Widening,
      w = a.chars Widening.narrow ∧ w' = a.chars Widening.wide ∧ Passed c c' d d' w w' := by
  refine .known rfl rfl ((replays_name hc ha).bind ?_)
  rintro _ e w e' ⟨rfl, hword⟩
  refine .known rfl rfl ((replays_parts hg ?_ hword.abreast (.refl e e')).bind ?_)
  · intro e e' c c' he hc
    refine (replays_look he hc f).bind ?_
    rintro _ d b d' ⟨rfl, hd, hfacing⟩
    refine .ite Iff.rfl (fun _ => .pure (.inl ⟨rfl, rfl, hd⟩)) fun hb => ?_
    obtain ⟨u, u', hbefore⟩ := hfacing (by simpa using hb)
    refine (replays_symbol? (hbefore.abreast he) hbefore.aligned "." '.' rfl (by decide)).bind ?_
    rintro _ d₁ b d₁' ⟨rfl, htaken, hstay⟩
    refine .ite Iff.rfl (fun hb => ?_) fun hb => .pure ?_
    · have hdot := htaken hb
      refine (replays_toToken hdot.abreast (.refl d₁ d₁') .inner).bind ?_
      rintro _ d₂ _ d₂' ⟨t, t', hbehind⟩
      refine (replays_name (hbehind.abreast hdot.abreast) hbehind.aligned).bind ?_
      rintro _ d₃ v d₃' ⟨rfl, hname⟩
      refine .known rfl rfl (.pure (.inr ⟨⟨hbefore.widening, hbehind.widening, v.toList⟩, rfl, rfl, ?_, ?_, hname.abreast⟩))
      · exact hbefore.past.trans (hdot.past.trans (hbehind.past.trans hname.past))
      · exact hbefore.past_wide.trans (hdot.past_wide.trans (hbehind.past_wide.trans hname.past_wide))
    · obtain ⟨rfl, rfl⟩ := hstay (by simpa using hb)
      exact .inl ⟨rfl, rfl, hd⟩
  · rintro stops d stops' d' ⟨more, x, x', hx, hx', habreast, hpoised, hstop, hstop'⟩
    have hpast := hword.past.trans hx
    have hpast' := hword.past_wide.trans hx'
    rw [hstop, hstop', hpast.textTo, hpast'.textTo]
    exact .pure ⟨⟨w.toList, more⟩, rfl, rfl, x, x', hpast, hpast', habreast, hpoised⟩

lemma replays_both_keyword? (he : Abreast e e') (hc : Poised e e' c c') (f : Follow) (w : String) (hw : w ≠ "") :
    Replays c c' (both (look f false) (keyword? w)) (both (look f false) (keyword? w)) fun b d b' d' =>
      b' = b ∧ (b = true → ∃ u : Widening, e.Past d (u.narrow ++ w.toList) ∧ e'.Past d' (u.wide ++ w.toList) ∧
        Abreast d d') ∧ (b = false → Poised e e' d d') := by
  refine (replays_look he hc f).bind ?_
  rintro _ x b x' ⟨rfl, hx, hfacing⟩
  refine .ite Iff.rfl (fun hb => ?_) fun _ => .pure ⟨rfl, by simp, fun _ => hx⟩
  obtain ⟨u, u', hgap⟩ := hfacing hb
  refine (replays_keyword? (hgap.abreast he) hgap.aligned w hw).mono ?_
  rintro _ d b d' ⟨rfl, htaken, hstay⟩
  refine ⟨rfl, fun hb => ?_, fun hb => ?_⟩
  · have hword := htaken hb
    exact ⟨hgap.widening, hgap.past.trans hword.past, hgap.past_wide.trans hword.past_wide, hword.abreast⟩
  · obtain ⟨rfl, rfl⟩ := hstay hb
    exact hx

lemma replays_importedName (hg : g.bound ≤ g'.bound) (hc : Abreast c c') (ha : Aligned c.rest c'.rest) (f : Follow) :
    Replays c c' (importedName g f) (importedName g' f) fun n d n' d' => ∃ a : Named Widening,
      importedAs n = some (a.reading Widening.narrow) ∧ importedAs n' = some (a.reading Widening.wide) ∧
        Passed c c' d d' (a.chars Widening.narrow) (a.chars Widening.wide) := by
  refine .known rfl rfl ((replays_dottedName hg hc ha f).bind ?_)
  rintro _ d _ d' ⟨a, rfl, rfl, e, e', hpast, hpast', he, hd⟩
  refine (replays_both_keyword? he hd f "as" (by decide)).bind ?_
  rintro _ d₁ b d₁' ⟨rfl, hfound, hstay⟩
  refine .ite Iff.rfl (fun hb => ?_) fun hb => .pure ⟨⟨a, none⟩, rfl, rfl, ?_⟩
  · obtain ⟨before, hword, hword', h₁⟩ := hfound hb
    refine (replays_toToken h₁ (.refl d₁ d₁') .inner).bind ?_
    rintro _ d₂ _ d₂' ⟨u, u', hgap⟩
    refine (replays_name (hgap.abreast h₁) hgap.aligned).bind ?_
    rintro _ d₃ w d₃' ⟨rfl, hname⟩
    refine .pure ⟨⟨a, some ⟨before, hgap.widening, w.toList⟩⟩, ?_, ?_, .prepend hpast hpast' ?_⟩
    · rw [Abstract.imported_eq, importedAs_unmarked, Named.reading, Option.map_some, String.ofList_toList]
    · rw [Abstract.imported_eq, importedAs_unmarked, Named.reading, Option.map_some, String.ofList_toList]
    · have hlast := hword.trans (hgap.past.trans hname.past)
      have hlast' := hword'.trans (hgap.past_wide.trans hname.past_wide)
      rw [List.append_assoc] at hlast hlast'
      exact ⟨d₃, d₃', hlast, hlast', hname.abreast, .refl d₃ d₃'⟩
  · exact .prepend hpast hpast' (passed_nil he (hstay (by simpa using hb)))

def AddsName (e e' : Cursor) (r : Option (Option Node)) (d : Cursor) (r' : Option (Option Node)) (d' : Cursor) : Prop :=
  r = none ∧ r' = none ∧ Poised e e' d d' ∨
  (∃ u : Widening, r = some none ∧ r' = some none ∧ Passed e e' d d' (u.narrow ++ [',']) (u.wide ++ [','])) ∨
  ∃ (n n' : Node) (a : Widening × Widening × Named Widening), r = some (some n) ∧ r' = some (some n') ∧
    importedAs n = some (a.2.2.reading Widening.narrow) ∧ importedAs n' = some (a.2.2.reading Widening.wide) ∧
    Passed e e' d d' (nextChars Widening.narrow a) (nextChars Widening.wide a)

def moreChars (p : Widening → List Char) (more : List (Widening × Widening × Named Widening)) (comma : Option Widening) :
    List Char :=
  more.flatMap (nextChars p) ++ comma.elim [] fun u => p u ++ [',']

lemma replays_moreNames {p p' : Parser (Option (Option Node))} {n n' : Nat} (hn : n ≤ n')
    (hp : ∀ e e' c c', Abreast e e' → Poised e e' c c' → Replays c c' p p' (AddsName e e'))
    (he : Abreast e e') (hc : Poised e e' c c') :
    Replays c c' (series p n) (series p' n') fun r d r' d' =>
      ∃ (more : List (Widening × Widening × Named Widening)) (comma : Option Widening),
        r.1.filterMap importedAs = more.map (fun a => a.2.2.reading Widening.narrow) ∧
        r'.1.filterMap importedAs = more.map (fun a => a.2.2.reading Widening.wide) ∧
        Passed e e' d d' (moreChars Widening.narrow more comma) (moreChars Widening.wide more comma) := by
  induction n generalizing n' e e' c c' with
  | zero => exact .fail
  | succ n ih =>
    obtain ⟨k, rfl⟩ : ∃ k, n' = k + 1 := ⟨n' - 1, by omega⟩
    refine (hp e e' c c' he hc).bind ?_
    rintro r d r' d' (⟨rfl, rfl, hd⟩ | ⟨u, rfl, rfl, hd⟩ | ⟨m, m', a, rfl, rfl, hm, hm', x, x', hx, hx', habreast, hd⟩)
    · exact .pure ⟨[], none, rfl, rfl, passed_nil he hd⟩
    · exact .pure ⟨[], some u, rfl, rfl, hd⟩
    · refine (ih (by omega) habreast hd).bind ?_
      rintro ⟨ns, b⟩ y ⟨ns', b'⟩ y' ⟨more, comma, hns, hns', hy⟩
      refine .pure ⟨a :: more, comma, ?_, ?_, ?_⟩
      · rw [List.filterMap_cons_some hm, hns, List.map_cons]
      · rw [List.filterMap_cons_some hm', hns', List.map_cons]
      · rw [moreChars, moreChars, List.flatMap_cons, List.flatMap_cons, List.append_assoc, List.append_assoc]
        exact .prepend hx hx' hy

lemma replays_importedNames (hg : g.bound ≤ g'.bound) (hc : Abreast c c') (ha : Aligned c.rest c'.rest) (f : Follow) :
    Replays c c' (importedNames g f) (importedNames g' f) fun ns d ns' d' => ∃ a : Names Widening,
      ns.filterMap importedAs = a.reading Widening.narrow ∧ ns'.filterMap importedAs = a.reading Widening.wide ∧
        Passed c c' d d' (a.chars Widening.narrow) (a.chars Widening.wide) := by
  refine (replays_importedName hg hc ha f).bind ?_
  rintro n d n' d' ⟨a, hn, hn', e, e', hpast, hpast', he, hd⟩
  refine (replays_moreNames hg ?_ he hd).bind ?_
  · intro e e' c c' he hc
    refine (replays_look he hc f).bind ?_
    rintro _ d b d' ⟨rfl, hd, hfacing⟩
    refine .ite Iff.rfl (fun _ => .pure (.inl ⟨rfl, rfl, hd⟩)) fun hb => ?_
    obtain ⟨u, u', hbefore⟩ := hfacing (by simpa using hb)
    refine (replays_symbol? (hbefore.abreast he) hbefore.aligned "," ',' rfl (by decide)).bind ?_
    rintro _ d₁ b d₁' ⟨rfl, htaken, hstay⟩
    refine .ite Iff.rfl (fun hb => .pure ?_) fun hb => ?_
    · obtain ⟨rfl, rfl⟩ := hstay (by simpa using hb)
      exact .inl ⟨rfl, rfl, hd⟩
    · have hcomma := htaken (by simpa using hb)
      have hpast := hbefore.past.trans hcomma.past
      have hpast' := hbefore.past_wide.trans hcomma.past_wide
      refine (replays_look hcomma.abreast (.refl d₁ d₁') f).bind ?_
      rintro _ d₂ b d₂' ⟨rfl, h₂, hfacing⟩
      have hlast : AddsName e e' (some none) d₂ (some none) d₂' :=
        .inr (.inl ⟨hbefore.widening, rfl, rfl, d₁, d₁', hpast, hpast', hcomma.abreast, h₂⟩)
      refine .ite Iff.rfl (fun _ => .pure hlast) fun hb => ?_
      obtain ⟨v, v', hbehind⟩ := hfacing (by simpa using hb)
      refine .known rfl rfl (.ite (by rw [hbehind.aligned.word]) (fun _ => .pure hlast) fun _ => ?_)
      refine (replays_importedName hg (hbehind.abreast hcomma.abreast) hbehind.aligned f).bind ?_
      rintro n d₃ n' d₃' ⟨a, hn, hn', hname⟩
      refine .pure (.inr (.inr ⟨n, n', ⟨hbefore.widening, hbehind.widening, a⟩, rfl, rfl, hn, hn', ?_⟩))
      have hnext := hname.prepend (hpast.trans hbehind.past) (hpast'.trans hbehind.past_wide)
      simpa [nextChars, Facing.widening] using hnext
  · rintro ⟨ns, b⟩ x ⟨ns', b'⟩ x' ⟨more, comma, hns, hns', hmore⟩
    refine .pure ⟨⟨a, more, comma⟩, ?_, ?_, .prepend hpast hpast' hmore⟩
    · rw [List.filterMap_cons_some hn, hns, Names.reading]
    · rw [List.filterMap_cons_some hn', hns', Names.reading]

lemma replays_importList (hg : g.bound ≤ g'.bound) (hc : Abreast c c') (ha : Aligned c.rest c'.rest) :
    Replays c c' (importList g) (importList g') fun ns d ns' d' => ∃ a : Clause Widening,
      ns.filterMap importedAs = a.reading Widening.narrow ∧ ns'.filterMap importedAs = a.reading Widening.wide ∧
        Passed c c' d d' (a.chars Widening.narrow) (a.chars Widening.wide) := by
  refine (replays_symbol? hc ha "(" '(' rfl (by decide)).bind ?_
  rintro _ d b d' ⟨rfl, htaken, hstay⟩
  refine .ite Iff.rfl (fun hb => ?_) fun hb => ?_
  · have hopen := htaken hb
    refine (replays_toToken hopen.abreast (.refl d d') .inner).bind ?_
    rintro _ d₁ _ d₁' ⟨u, u', hbefore⟩
    refine (replays_importedNames hg (hbefore.abreast hopen.abreast) hbefore.aligned .bracket).bind ?_
    rintro ns d₂ ns' d₂' ⟨a, hns, hns', e, e', hpast, hpast', he, h₂⟩
    refine (replays_toToken he h₂ .bracket).bind ?_
    rintro _ d₃ _ d₃' ⟨v, v', hbehind⟩
    refine (replays_symbol (hbehind.abreast he) hbehind.aligned ")" ')' rfl (by decide)).bind ?_
    intro _ d₄ _ d₄' hclose
    refine .pure ⟨.bracketed hbefore.widening a hbehind.widening, hns, hns', d₄, d₄', ?_, ?_, hclose.abreast, .refl d₄ d₄'⟩
    · exact hopen.past.trans (hbefore.past.trans (hpast.trans (hbehind.past.trans hclose.past)))
    · exact hopen.past_wide.trans (hbefore.past_wide.trans (hpast'.trans (hbehind.past_wide.trans hclose.past_wide)))
  · obtain ⟨rfl, rfl⟩ := hstay (by simpa using hb)
    refine (replays_importedNames hg hc ha .line).mono ?_
    rintro ns d ns' d' ⟨a, hns, hns', hd⟩
    exact ⟨.listed a, hns, hns', hd⟩

/-! The module to import from. -/

lemma dotChars_cons (p : Widening → List Char) (u : Widening) (dots : List Widening) :
    dotChars p (u :: dots) = ['.'] ++ (p u ++ dotChars p dots) := by
  simp [dotChars]

lemma replays_leadingDots {n n' : Nat} (hn : n ≤ n') (hc : Abreast c c') (ha : Aligned c.rest c'.rest) :
    Replays c c' (leadingDots n) (leadingDots n') fun stop d stop' d' => ∃ (dots : List Widening) (x x' : Cursor),
      stop = x.index ∧ stop' = x'.index ∧ c.Past x (dotChars Widening.narrow dots) ∧
        c'.Past x' (dotChars Widening.wide dots) ∧ Abreast x x' ∧ ∃ u u', Facing x x' d d' u u' := by
  induction n generalizing n' c c' with
  | zero => exact .fail
  | succ n ih =>
    obtain ⟨k, rfl⟩ : ∃ k, n' = k + 1 := ⟨n' - 1, by omega⟩
    refine (replays_symbol hc ha "." '.' rfl (by decide)).bind ?_
    intro _ d _ d' hdot
    refine .known rfl rfl ((replays_toToken hdot.abreast (.refl d d') .inner).bind ?_)
    rintro _ d₁ _ d₁' ⟨u, u', hgap⟩
    refine .known rfl rfl (.ite (by rw [hgap.aligned.isPrefixOf "." '.' rfl]) (fun _ => ?_) fun _ => .pure ?_)
    · refine (ih (by omega) (hgap.abreast hdot.abreast) hgap.aligned).mono ?_
      rintro stop d₂ stop' d₂' ⟨dots, x, x', hstop, hstop', hx, hx', hfacing⟩
      refine ⟨hgap.widening :: dots, x, x', hstop, hstop', ?_, ?_, hfacing⟩
      · rw [dotChars_cons]
        exact hdot.past.trans (hgap.past.trans hx)
      · rw [dotChars_cons]
        exact hdot.past_wide.trans (hgap.past_wide.trans hx')
    · exact ⟨[], d, d', rfl, rfl, hdot.past, hdot.past_wide, hdot.abreast, u, u', hgap⟩

lemma length_takeWhile_dotChars {p : Widening → List Char} (hp : ∀ u, ∀ x ∈ (p u).head?, BeginsGap x) (dots : List Widening) :
    ((dotChars p dots).takeWhile (· = '.')).length = 1 + (dots.takeWhile fun u => (p u).isEmpty).length := by
  induction dots with
  | nil => rfl
  | cons u dots ih =>
    rw [dotChars_cons, List.singleton_append, List.takeWhile_cons_of_pos (by simp), List.length_cons]
    cases hu : p u with
    | nil =>
      rw [List.nil_append, ih, List.takeWhile_cons_of_pos (by simp [hu]), List.length_cons]
      omega
    | cons x r =>
      have hx := (hp u x (by rw [hu]; rfl)).ne_dot
      rw [List.cons_append, List.takeWhile_cons_of_neg (by simpa using hx), List.takeWhile_cons_of_neg (by simp [hu])]
      rfl

def ReadsOrigin (c c' : Cursor) (r : Option String × Nat) (d : Cursor) (r' : Option String × Nat) (d' : Cursor) : Prop :=
  ∃ a : Origin Widening, r = a.reading Widening.narrow ∧ r' = a.reading Widening.wide ∧
    Passed c c' d d' (a.chars Widening.narrow) (a.chars Widening.wide)

lemma replays_importedModule (hg : g.bound ≤ g'.bound) (hc : Abreast c c') (ha : Aligned c.rest c'.rest) :
    Replays c c' (importedModule g) (importedModule g') (ReadsOrigin c c') := by
  refine .known rfl rfl (.ite (by rw [ha.isPrefixOf "." '.' rfl]) (fun _ => ?_) fun _ => ?_)
  · refine .known rfl rfl ((replays_leadingDots hg hc ha).bind ?_)
    rintro _ d _ d' ⟨dots, x, x', rfl, rfl, hx, hx', hdots, u, u', hgap⟩
    rw [hx.textTo, hx'.textTo, length_takeWhile_dotChars fun u => u.spread.begins,
      length_takeWhile_dotChars fun u => u.spread.begins_wide]
    refine .known rfl rfl (.ite (by rw [hgap.aligned.word]) (fun _ => .pure ?_) fun _ => ?_)
    · exact ⟨.relative dots none, rfl, rfl, .prepend hx hx' (passed_nil hdots (.inr ⟨u, u', hgap⟩))⟩
    · refine (replays_dottedName hg (hgap.abreast hdots) hgap.aligned .inner).bind ?_
      rintro _ e _ e' ⟨a, rfl, rfl, hname⟩
      refine .pure ⟨.relative dots (some (hgap.widening, a)), rfl, rfl, .prepend hx hx' ?_⟩
      exact .prepend hgap.past hgap.past_wide hname
  · refine (replays_dottedName hg hc ha .inner).bind ?_
    rintro _ d _ d' ⟨a, rfl, rfl, hname⟩
    exact .pure ⟨.absolute a, rfl, rfl, hname⟩

/-! The statements. -/

lemma replays_plainImport (hg : g.bound ≤ g'.bound) (hc : Abreast c c') (start start' : Position) :
    Replays c c' (plainImport g start) (plainImport g' start') fun n d n' d' => ∃ (u : Widening) (a : Names Widening),
      importsOf n = some ⟨none, a.reading Widening.narrow⟩ ∧ importsOf n' = some ⟨none, a.reading Widening.wide⟩ ∧
        Passed c c' d d' (u.narrow ++ a.chars Widening.narrow) (u.wide ++ a.chars Widening.wide) := by
  refine (replays_toToken hc (.refl c c') .inner).bind ?_
  rintro _ d _ d' ⟨u, u', hgap⟩
  refine (replays_importedNames hg (hgap.abreast hc) hgap.aligned .line).bind ?_
  rintro ns e ns' e' ⟨a, hns, hns', hnames⟩
  refine .pure ⟨hgap.widening, a, ?_, ?_, .prepend hgap.past hgap.past_wide hnames⟩
  · rw [← hns]
    rfl
  · rw [← hns']
    rfl

lemma replays_fromImport (hg : g.bound ≤ g'.bound) (hc : Abreast c c') (start start' : Position) :
    Replays c c' (fromImport g start) (fromImport g' start') fun n d n' d' =>
      ∃ (u : Widening) (o : Origin Widening) (before behind : Widening) (a : Clause Widening),
        importsOf n = some ⟨some (o.reading Widening.narrow), a.reading Widening.narrow⟩ ∧
        importsOf n' = some ⟨some (o.reading Widening.wide), a.reading Widening.wide⟩ ∧
        Passed c c' d d'
          (u.narrow ++ (o.chars Widening.narrow ++ (before.narrow ++ ("import".toList ++
            (behind.narrow ++ a.chars Widening.narrow)))))
          (u.wide ++ (o.chars Widening.wide ++ (before.wide ++ ("import".toList ++
            (behind.wide ++ a.chars Widening.wide))))) := by
  refine (replays_toToken hc (.refl c c') .inner).bind ?_
  rintro _ d _ d' ⟨u, u', hgap⟩
  have hd := hgap.abreast hc
  have hsame : String.ofList (word d'.rest) = String.ofList (word d.rest) := by rw [hgap.aligned.word]
  refine .known rfl rfl ?_
  rw [hsame]
  refine .ite_bind Iff.rfl (fun _ hnames => ?_) (fun _ => replays_importedModule hg hd hgap.aligned) ?_
  · refine (replays_keyword hd hgap.aligned futureModule (by decide)).bind ?_
    intro _ e _ e' hword
    have hnil := passed_nil hword.abreast (.refl e e')
    refine .bind (.pure ?_) hnames
    exact ⟨.absolute ⟨futureModule.toList, []⟩, rfl, rfl, .prepend hword.past hword.past_wide hnil⟩
  · rintro ⟨source, level⟩ d₁ ⟨source', level'⟩ d₁' ⟨o, ho, ho', e, e', hpast, hpast', he, h₁⟩
    refine (replays_toToken he h₁ .inner).bind ?_
    rintro _ d₂ _ d₂' ⟨v, v', hbefore⟩
    refine (replays_keyword (hbefore.abreast he) hbefore.aligned "import" (by decide)).bind ?_
    intro _ d₃ _ d₃' hword
    refine (replays_toToken hword.abreast (.refl d₃ d₃') .inner).bind ?_
    rintro _ d₄ _ d₄' ⟨t, t', hbehind⟩
    have h₄ := hbehind.abreast hword.abreast
    have hlead := hgap.past.trans (hpast.trans (hbefore.past.trans (hword.past.trans hbehind.past)))
    have hlead' := hgap.past_wide.trans (hpast'.trans (hbefore.past_wide.trans (hword.past_wide.trans hbehind.past_wide)))
    have hall : ∀ {a : Clause Widening} {x x' : Cursor},
        Passed d₄ d₄' x x' (a.chars Widening.narrow) (a.chars Widening.wide) → Passed c c' x x'
          (u ++ (o.chars Widening.narrow ++ (v ++ ("import".toList ++ (t ++ a.chars Widening.narrow)))))
          (u' ++ (o.chars Widening.wide ++ (v' ++ ("import".toList ++ (t' ++ a.chars Widening.wide))))) := by
      intro a x x' h
      simpa only [List.append_assoc] using h.prepend hlead hlead'
    refine .known rfl rfl (.ite (by rw [hbehind.aligned.isPrefixOf "*" '*' rfl]) (fun _ => ?_) fun _ => ?_)
    · refine .require rfl fun _ => .known rfl rfl ?_
      refine (replays_symbol h₄ hbehind.aligned "*" '*' rfl (by decide)).bind ?_
      intro _ x _ x' hstar
      refine .pure ⟨hgap.widening, o, hbefore.widening, hbehind.widening, .star, ?_, ?_, hall ?_⟩
      · rw [← ho]
        rfl
      · rw [← ho']
        rfl
      · exact ⟨x, x', hstar.past, hstar.past_wide, hstar.abreast, .refl x x'⟩
    · refine (replays_importList hg h₄ hbehind.aligned).bind ?_
      rintro ns x ns' x' ⟨a, hns, hns', hnames⟩
      refine .pure ⟨hgap.widening, o, hbefore.widening, hbehind.widening, a, ?_, ?_, hall hnames⟩
      · rw [← ho, ← hns]
        rfl
      · rw [← ho', ← hns']
        rfl

end SourceBlocks.Grammar
