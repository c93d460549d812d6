import SourceBlocks.Grammar.Fragment
import SourceBlocks.Proofs.Block.Features
import SourceBlocks.Proofs.Grammar.Bracketed
import SourceBlocks.Proofs.Grammar.Literals

/-! Fragments that are string literals, against the modules that whole texts are read as. -/

namespace SourceBlocks

open Grammar Grammar.Parser
open SourceBlocks.Lexis (Cursor Quote Source word)
open SourceBlocks.Lexis.Source (IsPlain pieceValue)
open SourceBlocks.Tree (Node Extent)

namespace ParseTree

section Quoted

variable {c : Cursor} {g : Rules ParseTree} {p : Phrase ParseTree} {site : Site} {level : Int} {follow : Follow}

def standsAlone (t : ParseTree) : Bool := match t.kind with
  | .token => false
  | .hidden => false
  | .parenthesizedExpression => false
  | _ => true

def Bare (p : Phrase ParseTree) (_ : Cursor) : Prop := p.node.standsAlone = true

lemma bare_apply (ts : List (Trailer ParseTree)) (h : Bare p c) : Bare (ts.foldl Trailer.apply p) c := by
  induction ts generalizing p with
  | nil => exact h
  | cons t ts ih => cases t <;> exact ih rfl

lemma bare_operators (n : Nat) (h : Bare p c) : Gives c (operators g site level n p) Bare := by
  induction n generalizing p c with
  | zero => exact .fail
  | succ n ih =>
    have haliased : ∀ {c}, Gives c (aliased g site p) Bare := .skip <| .skip <| .skip <| .pure rfl
    have hconditional : ∀ {c}, Gives c (conditional g site p) Bare :=
      .skip <| .skip <| .skip <| .skip <| .pure rfl
    dsimp only [operators]
    refine .skip <| .fork (.pure h) <| .after fun o _ => ?_
    split
    · exact .fork (.pure h) <| .skip <| .skip <| ih rfl
    refine .ite_after fun cs _ => ?_
    split
    · exact ih rfl
    refine .skip <| .fork ?_ <| .fork ?_ <| .fork ?_ ?_
    · exact .skip <| .skip <| ih rfl
    · exact .skip <| .skip <| ih rfl
    · exact .skip <| haliased.bind fun _ _ => ih
    · exact .fork (.skip <| hconditional.bind fun _ _ => ih) <| .pure h

variable (hq : (Quote.atStart? c.rest).isSome = true)

include hq

lemma bare_primary : Gives c (primary g follow) Bare := by
  have hatom : Gives c (atom g follow) Bare := by
    refine .get (.ite (fun _ => ?_) fun h => absurd hq h)
    refine .get (.after fun first _ => .skip <| .after fun more _ => .pure ?_)
    cases more <;> rfl
  exact hatom.bind fun p _ hp => .after fun ts _ => .pure (bare_apply ts hp)

lemma bare_expression (bound n : Nat) : Gives c ((rules bound n).expr site level) Bare := by
  cases n with
  | zero => exact .fail
  | succ n =>
    have hoperand : Gives c (operand (rules bound n) site level) Bare :=
      .get (.ite (fun _ => bare_primary hq) fun h => absurd hq h)
    exact hoperand.bind fun p _ => bare_operators _

lemma word_ne_yield : String.ofList (word c.rest) ≠ "yield" := by
  intro h
  have hletters : "yield".toList = ['y', 'i', 'e', 'l', 'd'] := rfl
  have hword : word c.rest = "yield".toList := by rw [← h, String.toList_ofList]
  rw [hletters] at hword
  cases hr : c.rest with
  | nil => simp [hr, Quote.atStart?, Quote.opening?] at hq
  | cons x r =>
    rw [hr, word] at hword
    split_ifs at hword
    obtain rfl := (List.cons.inj hword).1
    simp [hr, Quote.atStart?, Quote.opening?] at hq

omit hq

def Ungrouped (t : ParseTree) : Prop := ∀ u, t.named = [u] → u.kind ≠ .parenthesizedExpression

lemma ungrouped_cons {t : ParseTree} {ts : List ParseTree} (o : Onset) (h : t.standsAlone) :
    Ungrouped (node o .expressionStatement (t :: ts)) := by
  intro u hu hk
  have hnamed : t.isNamed := isNamed_iff.mpr fun hkind => by simp [standsAlone, hkind] at h
  rw [named, children_node, List.filter_cons_of_pos hnamed] at hu
  obtain rfl := (List.cons.inj hu).1
  simp [standsAlone, hk] at h

include hq

lemma ungrouped_valueStatement (hg : Gives c (g.expr .line Level.lowest) Bare) :
    Gives c (valueStatement g) fun t _ => Ungrouped t := by
  rw [valueStatement]
  refine .here (.keyword? (fun h => absurd h (word_ne_yield hq)) (hg.bind fun first _ hf => ?_))
  have hlist : ∀ {d}, Gives d (commaList g .line first) fun r _ => ∃ more, r.1 = first :: more :=
    .after fun r _ => .pure ⟨r.1, rfl⟩
  have hexposed : first.node.exposed = [first.node] := if_neg fun hkind => by simp [Bare, standsAlone, hkind] at hf
  refine hlist.bind fun r _ hr => ?_
  obtain ⟨ps, _⟩ := r
  obtain ⟨more, rfl⟩ := hr
  cases more with
  | nil =>
    refine .pure ?_
    change Ungrouped (node _ _ first.node.exposed)
    rw [hexposed]
    exact ungrouped_cons _ hf
  | cons q qs => exact .pure (ungrouped_cons _ hf)

lemma ungrouped_simpleStatement (hg : Gives c (g.expr .line Level.lowest) Bare) :
    Gives c (simpleStatement g) fun t _ => Ungrouped t := by
  have hassigned : Gives c (assignment g false g.bound >>= fun a => pure a.statement) fun t _ => Ungrouped t := by
    refine (assignment_ne_value false _).bind fun a _ ha => .pure ?_
    cases a with
    | value p => exact absurd rfl (ha p)
    | _ => exact ungrouped_cons _ rfl
  refine .get (.ite (fun _ => ?_) fun h => absurd hq h)
  exact .or (gives_whole hassigned) (gives_whole (ungrouped_valueStatement hq hg))

lemma ungrouped_statement (hg : Gives c (g.expr .line Level.lowest) Bare) :
    Gives c (statement g) fun ts _ => ∃ t us, ts = t :: us ∧ Ungrouped t :=
  .get (.ite (fun _ => Source.gives_statementLine (ungrouped_simpleStatement hq hg)) fun h => absurd hq h)

end Quoted

section Pieces

variable {ps : List Piece} {v : List Char} {ts : List ParseTree} {ns : List Node}

lemma plainValue?_eq_some {p : Piece} : plainValue? (ofPiece p) = some v ↔ IsPlain p ∧ v = pieceValue p := by
  rw [plainValue?, ofPiece, text, IsPlain, pieceValue]
  cases Literal.decode p.text with
  | error => simp
  | ok d =>
    cases hd : d.formatted with
    | true => simp [hd]
    | false => simpa [hd, Except.toOption] using eq_comm

lemma mapM_plainValue? {vs : List (List Char)} : (ps.map ofPiece).mapM plainValue? = some vs ↔
    (∀ p ∈ ps, IsPlain p) ∧ vs = ps.map pieceValue := by
  induction ps generalizing vs with
  | nil => simp [eq_comm]
  | cons p ps ih =>
    rw [List.map_cons, List.mapM_cons]
    simp only [Option.bind_eq_bind, Option.bind_eq_some_iff, plainValue?_eq_some, ih, List.forall_mem_cons]
    constructor
    · rintro ⟨_, ⟨hp, rfl⟩, _, ⟨hps, rfl⟩, h⟩
      exact ⟨⟨hp, hps⟩, (Option.some.inj h).symm⟩
    · rintro ⟨⟨hp, hps⟩, rfl⟩
      exact ⟨_, ⟨hp, rfl⟩, _, ⟨hps, rfl⟩, rfl⟩

lemma literals?_ofPieces (start : Position) (text : List Char) (ps : List Piece) :
    (ofPieces start text ps).literals? = some (ps.map ofPiece) := by
  have hnamed : (ps.map ofPiece).filter isNamed = ps.map ofPiece := by
    rw [List.filter_eq_self]
    intro t ht
    obtain ⟨p, -, rfl⟩ := List.mem_map.mp ht
    rfl
  rcases ps with _ | ⟨p, _ | ⟨q, ps⟩⟩
  · rfl
  · rfl
  · exact congrArg some hnamed

lemma fragmentValue?_eq_some (h : List.Forall₂ Statement ts ns) : fragmentValue? (unmarked (.module ts)) = some v ↔
    ∃ o start text ps, ts = [node o .expressionStatement [ofPieces start text ps]] ∧
      ns = [.mk (some (markOf start (leadOf? ps))) (.expr (Builder.string start text ps))] ∧
      (∀ p ∈ ps, IsPlain p) ∧ v = ps.flatMap pieceValue := by
  have hmodule : (unmarked (.module ts) : ParseTree).named = ts := List.filter_eq_self.mpr (Statement.forall_isNamed h)
  have hsole : ∀ o start text ps, (node o .expressionStatement [ofPieces start text ps]).named =
      [ofPieces start text ps] := by
    intro o start text ps
    rcases ps with _ | ⟨p, _ | ⟨q, ps⟩⟩ <;> rfl
  rw [fragmentValue?, hmodule]
  constructor
  · intro hv
    split at hv
    · next t =>
      split_ifs at hv with hkind
      split at hv
      · next u hu =>
        obtain ⟨pieces, hpieces, hv⟩ := Option.bind_eq_some_iff.mp hv
        obtain ⟨vs, hvs, hv⟩ := Option.bind_eq_some_iff.mp hv
        obtain ⟨n, ms, hn, hnil, rfl⟩ := List.forall₂_cons_left_iff.mp h
        obtain rfl := List.forall₂_nil_left_iff.mp hnil
        cases hn.literal with
        | pieces o start text ps =>
          obtain rfl := (List.cons.inj ((hsole o start text ps).symm.trans hu)).1
          obtain rfl := Option.some.inj ((literals?_ofPieces start text ps).symm.trans hpieces)
          obtain ⟨hplain, rfl⟩ := mapM_plainValue?.mp hvs
          exact ⟨o, start, text, ps, rfl, rfl, hplain, (Option.some.inj hv).symm⟩
        | grouped _ hnamed hgroup =>
          obtain rfl := (List.cons.inj (hnamed.symm.trans hu)).1
          simp [literals?, hgroup] at hpieces
        | other hnone _ =>
          rw [hnone hkind u hu] at hpieces
          cases hpieces
      · cases hv
    · cases hv
  · rintro ⟨o, start, text, ps, rfl, -, hplain, rfl⟩
    simp only [kind_node, if_true, hsole, literals?_ofPieces]
    exact Option.bind_eq_some_iff.mpr ⟨_, rfl, Option.bind_eq_some_iff.mpr ⟨_, mapM_plainValue?.mpr ⟨hplain, rfl⟩, rfl⟩⟩

end Pieces

end ParseTree

namespace Grammar

variable {f v : List Char} {n s e : Node} {value : String} {bytes : Bool} {written : Extent}

def firstToken? (f : List Char) : Option Cursor :=
  match Lexis.ahead betweenStatements (f.length + 1) (.ofSource 0 f) with
  | .token c => some c
  | _ => none

def OpensBracket (f : List Char) : Prop := ((firstToken? f).bind fun c => c.rest.head?) = some '('

instance (f : List Char) : Decidable (OpensBracket f) :=
  inferInstanceAs (Decidable (((firstToken? f).bind fun c => c.rest.head?) = some '('))

structure IsLiteral (n s e : Node) (value : String) (bytes : Bool) (written : Extent) : Prop where
  module : n.shape = .module [s]
  statement : s.shape = .expr e
  literal : e.shape = .str value bytes written

namespace IsLiteral

lemma check (h : IsLiteral n s e value bytes written) (features : Features) :
    Dialect.check features n = .ok features := by
  have hstatement : Dialect.demands s = [] := by
    apply demands_eq_nil
    · rw [Dialect.own, h.statement]
    · rw [h.statement]
      exact List.forall_mem_singleton.mpr (demands_str h.literal)
  have hmodule : Dialect.demands n = [] := by
    apply demands_eq_nil
    · rw [Dialect.own, h.module]
    · rw [h.module]
      exact List.forall_mem_singleton.mpr hstatement
  rw [Dialect.check, hmodule]
  rfl

lemma mark_eq_or (h : IsLiteral n s e value bytes written) (hread : read 0 f = .ok n) :
    (s.mark = e.mark ∧ ¬ OpensBracket f ∧ ∃ c, firstToken? f = some c ∧ (Quote.atStart? c.rest).isSome = true ∧
      (⟨0, f⟩ : Source).RunsFrom c.index e) ∨ (s.mark ≠ e.mark ∧ OpensBracket f) := by
  obtain ⟨ns, rfl, -⟩ := @read_laid ⟨0, f⟩ n hread
  cases h.module
  obtain ⟨c, hahead, htells⟩ := @read_tells ⟨0, f⟩ s [] hread
  have hfirst : firstToken? f = some c := by rw [firstToken?, hahead]
  have hopens : OpensBracket f ↔ c.rest.head? = some '(' := by rw [OpensBracket, hfirst, Option.bind_some]
  obtain ⟨mark, hs, hmark⟩ := htells e h.statement
  have hliteral : e.shape.literal? ≠ none := by
    rw [h.literal]
    exact Option.some_ne_none _
  rw [hopens, hs]
  rcases hmark hliteral with ⟨he, hquote, hruns⟩ | ⟨he, hhead⟩
  · exact .inl ⟨he.symm, Source.head_ne_bracket hquote, c, hfirst, hquote, hruns⟩
  · exact .inr ⟨he.symm, hhead⟩

end IsLiteral

lemma ungrouped_of_quote {c : Cursor} {t : ParseTree} {ts : List ParseTree} (hfirst : firstToken? f = some c)
    (hq : (Quote.atStart? c.rest).isSome = true) (h : read 0 f = .ok (unmarked (.module (t :: ts)) : ParseTree)) :
    t.Ungrouped := by
  obtain ⟨_, heq, hungrouped⟩ := @read_firstStatement _ _ ⟨0, f⟩ (fun _ => ParseTree.Ungrouped) _ (fun bound n d hd => by
    rw [firstToken?, hd] at hfirst
    obtain rfl := Option.some.inj hfirst
    exact ParseTree.ungrouped_statement hq (ParseTree.bare_expression hq bound n)) h
  cases heq
  obtain ⟨_, -, ht⟩ := hungrouped t ts rfl
  exact ht

lemma stringValue?_eq_some : stringValue? f = some v ↔ ∃ n s e bytes written, read 0 f = .ok n ∧
    IsLiteral n s e (String.ofList v) bytes written ∧ ¬ OpensBracket f := by
  have hlink := read_linked ParseTree.lawful 0 f
  rw [stringValue?]
  generalize htree : (read 0 f : Except Position ParseTree) = x, hnode : (read 0 f : Except Position Node) = y at hlink
  cases hlink with
  | error => simp
  | ok h =>
    obtain ⟨ts, ns, rfl, rfl, hbody⟩ := h
    rw [ParseTree.fragmentValue?_eq_some hbody]
    constructor
    · rintro ⟨o, start, text, ps, rfl, rfl, hplain, rfl⟩
      obtain ⟨bytes, hshape⟩ := Source.stringShape_plain hplain text ⟨start, (ps.getLast?.map Piece.stop).getD start⟩
      have hliteral : IsLiteral (unmarked (.module [.mk (some (markOf start (leadOf? ps)))
        (.expr (Builder.string start text ps))])) _ _ _ bytes _ := ⟨rfl, rfl, hshape⟩
      refine ⟨_, _, _, bytes, _, rfl, hliteral, ?_⟩
      rcases hliteral.mark_eq_or hnode with ⟨-, hopens, -⟩ | ⟨hne, -⟩
      · exact hopens
      · exact absurd rfl hne
    · rintro ⟨n, s, e, bytes, written, hn, hliteral, hopens⟩
      obtain rfl := Except.ok.inj hn
      obtain rfl := (Tree.Shape.module.inj hliteral.module)
      obtain ⟨t, us, ht, hnil, rfl⟩ := List.forall₂_cons_right_iff.mp hbody
      obtain rfl := List.forall₂_nil_right_iff.mp hnil
      obtain ⟨-, -, c, hfirst, hq, -⟩ := (hliteral.mark_eq_or hnode).resolve_right fun h => hopens h.2
      cases ht.literal with
      | pieces o start text ps =>
        obtain rfl := Tree.Shape.expr.inj hliteral.statement
        have hshape : stringShape ps text ⟨start, (ps.getLast?.map Piece.stop).getD start⟩ =
          .str (String.ofList v) bytes written := hliteral.literal
        have hplain : ∀ p ∈ ps, IsPlain p := by
          by_contra hnot
          have hnone := Source.literal?_stringShape hnot text ⟨start, (ps.getLast?.map Piece.stop).getD start⟩
          rw [hshape] at hnone
          cases hnone
        obtain ⟨bytes', hplainShape⟩ :=
          Source.stringShape_plain hplain text ⟨start, (ps.getLast?.map Piece.stop).getD start⟩
        have hvalue := (Tree.Shape.str.inj (hshape.symm.trans hplainShape)).1
        exact ⟨o, start, text, ps, rfl, rfl, hplain, String.ofList_injective hvalue⟩
      | grouped _ hnamed hgroup => exact absurd hgroup (ungrouped_of_quote hfirst hq htree _ hnamed)
      | other _ hnone =>
        obtain ⟨mark, shape⟩ := e
        obtain rfl : shape = _ := hliteral.literal
        exact absurd hliteral.statement (hnone _ _ _ _)

/-- A fragment that begins with no white space has a value exactly if, with any features, the text
is read as a module of one literal that has this value, and its first token is no bracket. -/
theorem fragment_agrees_with_module (t : Text) (ht : ∀ c ∈ t.chars.head?, Text.isBlank c = false) (features : Features)
    (v : List Char) :
    (stringValue? t.chars = some v ↔ ∃ r s e bytes written, Reading.ofText t features = .ok r ∧
      IsLiteral r.tree s e (String.ofList v) bytes written ∧ ¬ OpensBracket t.chars) ∧
    (stringValue? t.chars = some v → ∃ c ps j, firstToken? t.chars = some c ∧
      (⟨0, t.chars⟩ : Source).IsRun c.index ps j ∧ (∀ p ∈ ps, IsPlain p) ∧ v = ps.flatMap pieceValue) := by
  have hdedent : Text.dedent t.lines = ⟨t.chars, []⟩ := Text.dedent_of_head ht
  rw [stringValue?_eq_some]
  refine ⟨⟨?_, ?_⟩, ?_⟩
  · rintro ⟨n, s, e, bytes, written, hread, hliteral, hopens⟩
    refine ⟨⟨n, [], features⟩, s, e, bytes, written, ?_, hliteral, hopens⟩
    rw [Reading.ofText_iff, hdedent]
    exact ⟨hread, hliteral.check features, rfl⟩
  · rintro ⟨r, s, e, bytes, written, hr, hliteral, hopens⟩
    rw [Reading.ofText_iff, hdedent] at hr
    exact ⟨r.tree, s, e, bytes, written, hr.1, hliteral, hopens⟩
  · rintro ⟨n, s, e, bytes, written, hread, hliteral, hopens⟩
    obtain ⟨-, -, c, hfirst, -, ps, j, hrun, hplain, hvalue⟩ :=
      (hliteral.mark_eq_or hread).resolve_right fun h => hopens h.2
    refine ⟨c, ps, j, hfirst, hrun, hplain, ?_⟩
    rw [hliteral.literal] at hvalue
    exact String.ofList_injective (congrArg Prod.fst (Option.some.inj hvalue))

theorem fragment_agrees_with_module_joined :
    (∀ c ∈ (Text.ofString "# a\n'b' \"c\"").chars.head?, Text.isBlank c = false) ∧
    (∃ r s e bytes written, Reading.ofText (.ofString "# a\n'b' \"c\"") .none = .ok r ∧
      IsLiteral r.tree s e (String.ofList "bc".toList) bytes written ∧ ¬ OpensBracket "# a\n'b' \"c\"".toList) ∧
    OpensBracket "('b' \"c\")".toList ∧ stringValue? "('b' \"c\")".toList ≠ some "bc".toList := by
  have hbare : ∀ c ∈ (Text.ofString "# a\n'b' \"c\"").chars.head?, Text.isBlank c = false := by
    intro c hc
    obtain rfl := Option.some.inj hc
    rfl
  have hbracket : ∀ c ∈ (Text.ofString "('b' \"c\")").chars.head?, Text.isBlank c = false := by
    intro c hc
    obtain rfl := Option.some.inj hc
    rfl
  have hvalue : stringValue? (Text.ofString "# a\n'b' \"c\"").chars = some "bc".toList := by decide +kernel
  have hopens : OpensBracket "('b' \"c\")".toList := by decide +kernel
  refine ⟨hbare, (fragment_agrees_with_module _ hbare .none _).1.mp hvalue, hopens, ?_⟩
  intro h
  obtain ⟨_, _, _, _, _, _, _, hnot⟩ := (fragment_agrees_with_module _ hbracket .none _).1.mp h
  exact hnot hopens

end Grammar

end SourceBlocks
