import SourceBlocks.Proofs.Grammar.Pieces

/-! The string literals that a tree keeps: all that are read, in their order, but for a few
parts that are dropped. -/

namespace SourceBlocks

namespace Tree

abbrev Written := String × Extent

def Shape.literal? {α : Type} : Shape α → Option Written
  | .str value _ written => some (value, written)
  | _ => none

def Node.literals (n : Node) : List Written := n.walk.filterMap fun m => m.shape.literal?

@[simp] lemma Node.literals_mk (mark : Option Mark) (shape : Shape Node) :
    (Node.mk mark shape).literals = shape.literal?.toList ++ shape.children.flatMap Node.literals := by
  have hchildren : (shape.children.flatMap walk).filterMap (fun m => m.shape.literal?) =
      shape.children.flatMap Node.literals := by
    induction shape.children with
    | nil => rfl
    | cons n ns ih => simp only [List.flatMap_cons, List.filterMap_append, ih, literals]
  rw [literals, walk_eq, List.filterMap_cons, show (mk mark shape).children = shape.children from rfl, hchildren,
    show (mk mark shape).shape = shape from rfl]
  cases shape.literal? <;> rfl

end Tree

open Lexis Lexis.Source Grammar Grammar.Parser
open SourceBlocks.Tree (Extent Field Mark Node Shape Written)

namespace Grammar

section Literals

variable (start : Position) (stop : Nat) (p : Phrase Node) (shape : Shape Node)

@[simp] lemma literals_leaf : (Phrase.leaf start stop shape).node.literals =
    shape.literal?.toList ++ shape.children.flatMap Node.literals := Node.literals_mk _ _

@[simp] lemma literals_extend : (p.extend stop shape).node.literals =
    shape.literal?.toList ++ shape.children.flatMap Node.literals := Node.literals_mk _ _

@[simp] lemma literals_group : (p.group start stop).node.literals = p.node.literals := rfl

@[simp] lemma literals_marked : (marked start shape).literals =
    shape.literal?.toList ++ shape.children.flatMap Node.literals := Node.literals_mk _ _

@[simp] lemma literals_unmarked : (unmarked shape).literals =
    shape.literal?.toList ++ shape.children.flatMap Node.literals := Node.literals_mk _ _

end Literals

def literalOf (ps : List Piece) : Written :=
  (String.ofList (ps.flatMap pieceValue),
    ⟨(ps.head?.map Piece.start).getD .start, (ps.getLast?.map Piece.stop).getD .start⟩)

def Rules.IsTied (g : Rules Node) : Prop := ∃ bound n, g = rules bound n

end Grammar

namespace Lexis.Source

/-- A cursor outside the comments and the string tokens that stand behind a place. -/
def Reaches (S : Source) (i : Nat) (c : Cursor) : Prop := S.Has c ∧ ∃ rs, S.Scans i rs c.index

def Behind (S : Source) (i : Nat) (w : String) (c : Cursor) : Prop :=
  ∃ e, S.Reaches i e ∧ String.ofList (word e.rest) = w ∧ c = e.skip w.length

def BehindHandler (S : Source) (i : Nat) (c : Cursor) : Prop :=
  ∃ e ofGroup, S.Reaches i e ∧ handlerHere e = some ofGroup ∧ c = e.skip (handlerWord ofGroup).length

inductive AtParameter (S : Source) (i : Nat) (g : Rules Node) : Site → Bool → Cursor → Prop
  | function {c d : Cursor} : S.Behind i "def" c →
      (do toToken .inner false
          let _ ← name
          optionalTypeParameters g
          symbol "("
          toToken .bracket false : Parser Unit) c = .ok ((), d) → AtParameter S i g .bracket true d
  | lambda {c d : Cursor} : S.Behind i "lambda" c → toToken .inner false c = .ok ((), d) → AtParameter S i g .inner false d
  | next {site : Site} {typed : Bool} {c d e : Cursor} {q : Parameter Node} : AtParameter S i g site typed c →
      parameter g site typed c = .ok (q, d) →
      (do toToken site.follow false
          symbol ","
          toToken site.follow false : Parser Unit) d = .ok ((), e) → AtParameter S i g site typed e

inductive Drops (S : Source) (i : Nat) : Node → Prop
  /-- More than a condition and a message behind `assert`. -/
  | operand {g : Rules Node} {c d : Cursor} {ps : List (Phrase Node)} {p : Phrase Node} : g.IsTied → S.Behind i "assert" c →
      strictList g c = .ok (ps, d) → p ∈ ps.drop 2 → Drops S i p.node
  /-- More than two scopes behind `exec`. -/
  | scope {g : Rules Node} {c d e : Cursor} {n : Node} {ps : List (Phrase Node)} {p : Phrase Node} : g.IsTied →
      S.Reaches i c → executing g c = .ok (n, d) → S.Behind c.index "in" e → strictList g e = .ok (ps, d) →
      p ∈ ps.drop 2 → Drops S i p.node
  /-- The parameters of types of a function or a class. -/
  | typeParameters {g : Rules Node} {w : String} {c d : Cursor} {p : Phrase Node} : g.IsTied → w = "def" ∨ w = "class" →
      S.Behind i w c →
      (do toToken .inner false
          let _ ← name
          toToken .inner false
          Grammar.typeParameters g : Parser (Phrase Node)) c = .ok (p, d) → Drops S i p.node
  /-- What stands behind a star in place of a name. -/
  | starName {g : Rules Node} {site : Site} {typed : Bool} {stars : String} {c d : Cursor} {p : Phrase Node} : g.IsTied →
      S.AtParameter i g site typed c → stars = "*" ∨ stars = "**" →
      (do symbol stars
          toToken .inner false
          let p ← nameAtom
          let ts ← trailers g site.follow
          pure (ts.foldl Trailer.apply p) : Parser (Phrase Node)) c = .ok (p, d) → Drops S i p.node
  /-- The annotation of a parameter with a star. -/
  | starType {g : Rules Node} {site : Site} {typed : Bool} {stars : String} {c d : Cursor} {n : Node} : g.IsTied →
      S.AtParameter i g site typed c → stars = "*" ∨ stars = "**" →
      (do let _ ← Grammar.starName g site.follow stars
          parameterType g site typed : Parser (Option Node)) c = .ok (some n, d) → Drops S i n
  /-- The parts of a parameter in brackets. -/
  | parts {g : Rules Node} {site : Site} {typed : Bool} {c d : Cursor} {p : Phrase Node} : g.IsTied →
      S.AtParameter i g site typed c → tupleTarget g c = .ok (p, d) → Drops S i p.node
  /-- What stands behind a comma in place of the name of a handler. -/
  | secondName {g : Rules Node} {c d : Cursor} {p : Phrase Node} : g.IsTied → S.BehindHandler i c →
      (do toToken .inner true
          let _ ← g.expr .inner Level.lowest
          toToken .inner false
          symbol ","
          toOperand
          g.expr .inner Level.lowest : Parser (Phrase Node)) c = .ok (p, d) → Drops S i p.node
  /-- What stands behind `as` in place of the name of a handler. -/
  | boundName {g : Rules Node} {c d : Cursor} {p : Phrase Node} {n : Node} : g.IsTied → S.BehindHandler i c →
      (do toToken .inner true
          g.expr .inner Level.lowest : Parser (Phrase Node)) c = .ok (p, d) → (splitName p).2 = some n → Drops S i n

def Dropped (S : Source) (i : Nat) (x : Written) : Prop := ∃ n, S.Drops i n ∧ x ∈ n.literals

inductive Sifts (S : Source) (i : Nat) : List (List Piece) → List Written → Prop
  | nil : Sifts S i [] []
  | keep {ps : List Piece} {rs : List (List Piece)} {l : List Written} : (∀ p ∈ ps, IsPlain p) → Sifts S i rs l →
      Sifts S i (ps :: rs) (literalOf ps :: l)
  | special {ps : List Piece} {rs : List (List Piece)} {l : List Written} :
      (∃ p ∈ ps, p.isFormatted = true ∨ p.isRepr = true) → Sifts S i rs l → Sifts S i (ps :: rs) l
  | drop {ps : List Piece} {rs : List (List Piece)} {l : List Written} : (∀ p ∈ ps, IsPlain p) →
      S.Dropped i (literalOf ps) → Sifts S i rs l → Sifts S i (ps :: rs) l

variable {S : Source} {i j k : Nat}

lemma Reaches.refl {c : Cursor} (hc : S.Has c) : S.Reaches c.index c := ⟨hc, [], .nil⟩

lemma Drops.dropped {n : Node} (h : S.Drops i n) : ∀ x ∈ n.literals, S.Dropped i x := fun _ hx => ⟨n, h, hx⟩

namespace Sifts

variable {rs rs' : List (List Piece)} {l l' : List Written}

lemma append (h : S.Sifts i rs l) (h' : S.Sifts i rs' l') : S.Sifts i (rs ++ rs') (l ++ l') := by
  induction h with
  | nil => exact h'
  | keep hplain _ ih => exact .keep hplain ih
  | special hspecial _ ih => exact .special hspecial ih
  | drop hplain hdrop _ ih => exact .drop hplain hdrop ih

lemma dropped (h : S.Sifts i rs l) (hl : ∀ x ∈ l, S.Dropped i x) : S.Sifts i rs [] := by
  induction h with
  | nil => exact .nil
  | keep hplain _ ih => exact .drop hplain (hl _ (by simp)) (ih fun x hx => hl x (by simp [hx]))
  | special hspecial _ ih => exact .special hspecial (ih hl)
  | drop hplain hdrop _ ih => exact .drop hplain hdrop (ih hl)

lemma dropped_right (h : S.Sifts i rs (l ++ l')) (hl : ∀ x ∈ l', S.Dropped i x) : S.Sifts i rs l := by
  generalize hm : l ++ l' = m at h
  induction h generalizing l with
  | nil => simp_all [Sifts.nil]
  | keep hplain h ih =>
    cases l with
    | nil =>
      obtain rfl : l' = _ := by simpa using hm
      exact .drop hplain (hl _ (by simp)) (h.dropped fun x hx => hl x (by simp [hx]))
    | cons x l =>
      obtain ⟨rfl, rfl⟩ := List.cons.inj hm
      exact .keep hplain (ih rfl)
  | special hspecial _ ih => exact .special hspecial (ih hm)
  | drop hplain hdrop _ ih => exact .drop hplain hdrop (ih hm)

end Sifts

section Back

variable {rs : List (List Piece)} (h : S.Scans i rs j)

include h

lemma Reaches.back {c : Cursor} (hc : S.Reaches j c) : S.Reaches i c := by
  obtain ⟨hc, rs', h'⟩ := hc
  exact ⟨hc, rs ++ rs', h.append h'⟩

lemma Behind.back {w : String} {c : Cursor} (hc : S.Behind j w c) : S.Behind i w c := by
  obtain ⟨e, he, hw⟩ := hc
  exact ⟨e, he.back h, hw⟩

lemma BehindHandler.back {c : Cursor} (hc : S.BehindHandler j c) : S.BehindHandler i c := by
  obtain ⟨e, ofGroup, he, hword⟩ := hc
  exact ⟨e, ofGroup, he.back h, hword⟩

lemma AtParameter.back {g : Rules Node} {site : Site} {typed : Bool} {c : Cursor} (hc : S.AtParameter j g site typed c) :
    S.AtParameter i g site typed c := by
  induction hc with
  | function hbehind hread => exact .function (hbehind.back h) hread
  | lambda hbehind hread => exact .lambda (hbehind.back h) hread
  | next _ hparameter hread ih => exact ih.next hparameter hread

lemma Drops.back {n : Node} (hn : S.Drops j n) : S.Drops i n := by
  cases hn with
  | operand hg hbehind hread hp => exact .operand hg (hbehind.back h) hread hp
  | scope hg hc hread hbehind hlist hp => exact .scope hg (hc.back h) hread hbehind hlist hp
  | typeParameters hg hw hbehind hread => exact .typeParameters hg hw (hbehind.back h) hread
  | starName hg hat hstars hread => exact .starName hg (hat.back h) hstars hread
  | starType hg hat hstars hread => exact .starType hg (hat.back h) hstars hread
  | parts hg hat hread => exact .parts hg (hat.back h) hread
  | secondName hg hbehind hread => exact .secondName hg (hbehind.back h) hread
  | boundName hg hbehind hread hn => exact .boundName hg (hbehind.back h) hread hn

lemma Sifts.back {rs' : List (List Piece)} {l : List Written} (hs : S.Sifts j rs' l) : S.Sifts i rs' l := by
  induction hs with
  | nil => exact .nil
  | keep hplain _ ih => exact .keep hplain ih
  | special hspecial _ ih => exact .special hspecial ih
  | drop hplain hdrop _ ih =>
    obtain ⟨n, hn, hx⟩ := hdrop
    exact .drop hplain ⟨n, hn.back h, hx⟩ ih

end Back

end Lexis.Source

namespace Lexis

lemma indents_ahead {e : Expectation} {n : Nat} {c d : Cursor} (h : ahead e n c = .token d) : d.indents = c.indents := by
  induction n generalizing c with
  | zero =>
    obtain rfl : c = d := by simpa [ahead] using h
    rfl
  | succ n ih =>
    rcases ahead_succ_token h with ⟨m, -, -, -, rfl⟩ | ⟨-, rfl⟩ | ⟨k, -, h⟩
    · exact c.indents_skip _
    · exact c.indents_skip _
    · rw [ih h, Cursor.indents_skip, Cursor.skipGaps, Cursor.indents_skip]

end Lexis

namespace Lexis.Source

variable {S : Source} {c d e : Cursor} {l l' : List Written}

structure Moves (S : Source) (c d : Cursor) : Prop where
  has : S.Has d
  le : c.index ≤ d.index
  indents : d.indents = c.indents ∨ d.index = S.chars.length

lemma Moves.refl (hc : S.Has c) : S.Moves c c := ⟨hc, Nat.le_refl _, .inl rfl⟩

lemma Moves.trans (h : S.Moves c d) (h' : S.Moves d e) : S.Moves c e where
  has := h'.has
  le := Nat.le_trans h.le h'.le
  indents := by
    rcases h'.indents with heq | hend
    · rcases h.indents with heq' | hend
      · exact .inl (heq.trans heq')
      · exact .inr (Nat.le_antisymm h'.has.le (hend ▸ h'.le))
    · exact .inr hend

lemma Has.moves_skip (hc : S.Has c) (n : Nat) : S.Moves c (c.skip n) :=
  ⟨hc.skip n, c.le_index_skip n, .inl (c.indents_skip n)⟩

structure Bears (S : Source) (c : Cursor) (l : List Written) (d : Cursor) : Prop extends S.Moves c d where
  literals : ∃ rs, S.Scans c.index rs d.index ∧ S.Sifts c.index rs l

namespace Bears

lemma refl (hc : S.Has c) : S.Bears c [] c := ⟨.refl hc, [], .nil, .nil⟩

lemma append (h : S.Bears c l d) (h' : S.Bears d l' e) : S.Bears c (l ++ l') e where
  toMoves := h.toMoves.trans h'.toMoves
  literals := by
    obtain ⟨rs, hscan, hsift⟩ := h.literals
    obtain ⟨rs', hscan', hsift'⟩ := h'.literals
    exact ⟨rs ++ rs', hscan.append hscan', hsift.append (hsift'.back hscan)⟩

lemma dropped_right (h : S.Bears c (l ++ l') d) (hl : ∀ x ∈ l', S.Dropped c.index x) : S.Bears c l d where
  toMoves := h.toMoves
  literals := by
    obtain ⟨rs, hscan, hsift⟩ := h.literals
    exact ⟨rs, hscan, hsift.dropped_right hl⟩

lemma reaches (h : S.Bears c l d) : S.Reaches c.index d := by
  obtain ⟨rs, hscan, -⟩ := h.literals
  exact ⟨h.has, rs, hscan⟩

lemma skip {n : Nat} (h : S.Bears c l d) (hn : BareUpTo n d.rest) : S.Bears c l (d.skip n) := by
  have hskip : S.Bears d [] (d.skip n) := ⟨h.has.moves_skip n, [], h.has.passes_skip hn, .nil⟩
  simpa using h.append hskip

lemma ahead {x : Expectation} {n : Nat} (h : S.Bears c l d) (ha : Lexis.ahead x n d = .token e) : S.Bears c l e := by
  obtain ⟨he, hle⟩ := ahead_token h.has ha
  have hahead : S.Bears d [] e := ⟨⟨he, hle, .inl (indents_ahead ha)⟩, [], h.has.passes_ahead ha, .nil⟩
  simpa using h.append hahead

end Bears

variable {α β : Type} {p q : Parser α} {f : α → List Written} {k : α → Parser β} {R : β → Cursor → Prop}

lemma gives_advance {n : Nat} {k : Unit → Parser β} (h : Gives (c.skip n) (k ()) R) : Gives c (advance n >>= k) R := h

def Roams (S : Source) (p : Parser α) : Prop := ∀ c, S.Has c → Gives c p fun _ d => S.Moves c d

lemma Roams.last (hp : S.Roams p) (h : S.Moves c d) : Gives d p fun _ e => S.Moves c e :=
  (hp d h.has).mono fun _ _ h' => h.trans h'

lemma Roams.step (hp : S.Roams p) (h : S.Moves c d) (hk : ∀ a e, S.Moves c e → Gives e (k a) R) :
    Gives d (p >>= k) R := (hp.last h).bind hk

lemma bind_ok {a : α} {r : Except Position (β × Cursor)} (h : p c = .ok (a, d)) (hk : k a d = r) : (p >>= k) c = r := by
  simp only [Bind.bind, StateT.bind, Except.bind, h]
  exact hk

lemma gives_series {p : Parser (Option (Option α))} {I : Cursor → Prop}
    (hp : ∀ {l d}, S.Bears c l d → I d → Gives d p fun o e =>
      S.Bears c (l ++ o.toList.flatMap fun o => o.toList.flatMap f) e ∧ ∀ a, o = some (some a) → I e)
    (n : Nat) (h : S.Bears c l d) (hd : I d) :
    Gives d (Parser.series p n) fun r e => S.Bears c (l ++ r.1.flatMap f) e := by
  induction n generalizing l d with
  | zero => exact .fail
  | succ n ih =>
    rw [Parser.series]
    refine (hp h hd).bind fun o e h => ?_
    obtain ⟨h, he⟩ := h
    rcases o with _ | _ | a
    · exact .pure h
    · exact .pure (by simpa using h)
    · exact (ih h (he a rfl)).bind fun r e h => .pure (by simpa using h)

def Keeps (S : Source) (p : Parser α) (f : α → List Written) : Prop :=
  ∀ c, S.Has c → Gives c p fun a d => S.Bears c (f a) d

abbrev Quiet (S : Source) (p : Parser α) : Prop := S.Keeps p fun _ => []

namespace Keeps

lemma roams (hp : S.Keeps p f) : S.Roams p := fun c hc => (hp c hc).mono fun _ _ h => h.toMoves

lemma last (hp : S.Keeps p f) (h : S.Bears c l d) : Gives d p fun a e => S.Bears c (l ++ f a) e :=
  (hp d h.has).mono fun _ _ h' => h.append h'

lemma step (hp : S.Keeps p f) (h : S.Bears c l d) (hk : ∀ a e, S.Bears c (l ++ f a) e → Gives e (k a) R) :
    Gives d (p >>= k) R := (hp.last h).bind hk

lemma known (hp : S.Keeps p f) (h : S.Bears c l d)
    (hk : ∀ a e, p d = .ok (a, e) → S.Bears c (l ++ f a) e → Gives e (k a) R) : Gives d (p >>= k) R :=
  Gives.bind (P := fun a e => p d = .ok (a, e) ∧ S.Bears c (l ++ f a) e) (fun a e he => ⟨he, hp.last h a e he⟩)
    fun a e ⟨he, h'⟩ => hk a e he h'

lemma congr {f' : α → List Written} (hp : S.Keeps p f) (h : ∀ a, f a = f' a) : S.Keeps p f' := by
  obtain rfl : f = f' := funext h
  exact hp

lemma or (hp : S.Keeps p f) (hq : S.Keeps q f) : S.Keeps (p.or q) f := fun c hc => .or (hp c hc) (hq c hc)

lemma optional (hp : S.Keeps p f) : S.Keeps (Parser.optional p) fun o => o.toList.flatMap f := by
  intro c hc o d hd
  simp only [Parser.optional] at hd
  split at hd
  · next a e he =>
    obtain ⟨rfl, rfl⟩ := Prod.mk.inj (Except.ok.inj hd)
    simpa using hp c hc a _ he
  · obtain ⟨rfl, rfl⟩ := Prod.mk.inj (Except.ok.inj hd)
    exact .refl hc

lemma map {g : α → β} {f' : β → List Written} (hp : S.Keeps p f) (h : ∀ a, f' (g a) = f a) :
    S.Keeps (g <$> p) f' := by
  intro c hc
  rw [← bind_pure_comp]
  refine (hp c hc).bind fun a d hd => .pure ?_
  rwa [h a]

lemma collect {p : Parser (Option α)} (hp : S.Keeps p fun o => o.toList.flatMap f) (n : Nat) :
    S.Keeps (Parser.collect p n) fun as => as.flatMap f := by
  induction n with
  | zero => exact fun _ _ => .fail
  | succ n ih =>
    intro c hc
    rw [Parser.collect]
    refine (hp c hc).bind fun o d h => ?_
    cases o with
    | none => exact .pure h
    | some a =>
      refine ih.step h fun as e h => .pure ?_
      simpa using h

lemma series {p : Parser (Option (Option α))}
    (hp : S.Keeps p fun o => o.toList.flatMap fun o => o.toList.flatMap f) (n : Nat) :
    S.Keeps (Parser.series p n) fun r => r.1.flatMap f := fun _ hc =>
  gives_series (I := fun _ => True) (fun h _ => (hp.last h).mono fun _ _ h => ⟨h, fun _ _ => trivial⟩) n (.refl hc) trivial

end Keeps

namespace Quiet

lemma step (hp : S.Quiet p) (h : S.Bears c l d) (hk : ∀ a e, S.Bears c l e → Gives e (k a) R) :
    Gives d (p >>= k) R := Keeps.step hp h fun a e he => hk a e (by simpa using he)

lemma known (hp : S.Quiet p) (h : S.Bears c l d)
    (hk : ∀ a e, p d = .ok (a, e) → S.Bears c l e → Gives e (k a) R) : Gives d (p >>= k) R :=
  Keeps.known hp h fun a e hread he => hk a e hread (by simpa using he)

lemma last (hp : S.Quiet p) (h : S.Bears c l d) : Gives d p fun _ e => S.Bears c l e :=
  (Keeps.last hp h).mono fun _ _ h' => by simpa using h'

lemma both {p q : Parser Bool} (hp : S.Quiet p) (hq : S.Quiet q) : S.Quiet (Parser.both p q) := by
  intro c hc
  rw [Parser.both]
  refine hp.step (.refl hc) fun b d h => .fork (hq.last h) <| .pure h

lemma optional (hp : S.Quiet p) : S.Quiet (Parser.optional p) :=
  Keeps.congr (Keeps.optional hp) fun o => by cases o <;> rfl

lemma collect {p : Parser (Option α)} (hp : S.Quiet p) (n : Nat) : S.Quiet (Parser.collect p n) :=
  Keeps.congr (Keeps.collect (f := fun _ => []) (Keeps.congr hp fun o => by cases o <;> rfl) n) fun as =>
    List.flatMap_eq_nil_iff.mpr fun _ _ => rfl

end Quiet

lemma Stays.quiet (hp : Stays p) : S.Quiet p := by
  intro c hc a d hd
  obtain rfl := hp c a d hd
  exact .refl hc

lemma quiet_look (follow : Follow) (string : Bool) : S.Quiet (look follow string) := by
  intro c hc
  rw [look]
  apply Gives.aheadHere
  cases hahead : Lexis.ahead (follow.expect string) (c.total + 1) c with
  | token d => exact .set (.pure ((Bears.refl hc).ahead hahead))
  | lineEnd => exact .pure (.refl hc)
  | deeper | shallower => exact .fail

lemma quiet_toToken (follow : Follow) (string : Bool) : S.Quiet (toToken follow string) := by
  intro c hc
  rw [toToken]
  refine (quiet_look follow string).step (.refl hc) fun b d h => ?_
  cases b with
  | false => exact .fail
  | true => exact .pure h

lemma quiet_toOperand : S.Quiet toOperand := quiet_toToken _ _

lemma quiet_symbol? {s : String} (hs : s.toList.all isBare = true) : S.Quiet (symbol? s) := by
  intro c hc
  have hsymbol := Gives.symbol? (c := c) (s := s) (f := fun b => (pure b : Parser Bool))
    (R := fun _ d => S.Bears c [] d) (fun hread => .pure ?_) (.pure (.refl hc))
  · simpa using hsymbol
  · have hbare := BareUpTo.of_isPrefixOf hs hread
    rw [String.length_toList] at hbare
    exact (Bears.refl hc).skip hbare

lemma quiet_symbol {s : String} (hs : s.toList.all isBare = true) : S.Quiet (symbol s) := by
  intro c hc
  rw [symbol]
  refine (quiet_symbol? hs).step (.refl hc) fun b d h => ?_
  cases b with
  | false => exact .fail
  | true => exact .pure h

lemma Bears.word (h : S.Bears c l d) : S.Bears c l (d.skip (String.ofList (Lexis.word d.rest)).length) := by
  apply h.skip
  rw [String.length_ofList]
  exact .of_word

lemma quiet_keyword? (s : String) : S.Quiet (keyword? s) := by
  intro c hc
  rw [keyword?]
  refine .wordHere (.ite (fun hw => ?_) fun _ => .pure (.refl hc))
  have hword := (Bears.refl hc).word
  rw [hw] at hword
  exact gives_advance (.pure hword)

lemma quiet_keyword (s : String) : S.Quiet (keyword s) := by
  intro c hc
  rw [keyword]
  refine (quiet_keyword? s).step (.refl hc) fun b d h => ?_
  cases b with
  | false => exact .fail
  | true => exact .pure h

namespace Bears

variable {k : Unit → Parser β}

lemma token {follow : Follow} {string : Bool} (h : S.Bears c l d) (hk : ∀ e, S.Bears c l e → Gives e (k ()) R) :
    Gives d (toToken follow string >>= k) R := (quiet_toToken follow string).step h fun _ => hk

lemma operand (h : S.Bears c l d) (hk : ∀ e, S.Bears c l e → Gives e (k ()) R) : Gives d (toOperand >>= k) R := h.token hk

lemma symbol {s : String} (h : S.Bears c l d) (hs : s.toList.all isBare = true)
    (hk : ∀ e, S.Bears c l e → Gives e (k ()) R) : Gives d (Grammar.symbol s >>= k) R :=
  (quiet_symbol hs).step h fun _ => hk

end Bears

lemma quiet_name : S.Quiet name := by
  intro c hc
  rw [name]
  exact .wordHere (.require fun _ => gives_advance (.pure (Bears.refl hc).word))

lemma keeps_separated {follow follow' : Follow} {b b' : Bool} {closing : String} (hp : S.Keeps p f) :
    S.Keeps (do
      toToken follow b
      if !(← symbol? ",") then pure none
      else do
        toToken follow' b'
        if ← startsWith closing then pure (some none)
        else do
          let a ← p
          pure (some (some a))) fun o => o.toList.flatMap fun o => o.toList.flatMap f := by
  intro c hc
  refine (Bears.refl hc).token fun d h => (quiet_symbol? (by decide)).step h fun _ d h => ?_
  refine .fork (.pure h) <| h.token fun d h => ?_
  refine .startsWith (.fork (.pure (by simpa using h)) ?_)
  exact hp.step h fun a d h => .pure (by simpa using h)

lemma flatMap_flatten {f : α → List Written} (ls : List (List α)) :
    ls.flatten.flatMap f = ls.flatMap fun l => l.flatMap f := by
  rw [← List.flatMap_id, List.flatMap_assoc]
  rfl

structure Closes (S : Source) (c : Cursor) (l : List Written) (d : Cursor) : Prop where
  has : S.Has d
  le : c.index ≤ d.index
  indents : (c.indents ≠ [] ∧ d.indents = c.indents.tail) ∨ d.index = S.chars.length
  literals : ∃ rs, S.Scans c.index rs d.index ∧ S.Sifts c.index rs l

end Lexis.Source

structure Grammar.Rules.Keeps (S : Source) (g : Rules Node) : Prop where
  tied : g.IsTied
  expr : ∀ site level, S.Keeps (g.expr site level) fun p => p.node.literals
  target : ∀ follow, S.Keeps (g.target follow) fun p => p.node.literals
  hint : ∀ site colon, S.Keeps (g.hint site colon) fun p => p.node.literals
  casePattern : ∀ follow, S.Keeps (g.casePattern follow) fun p => p.node.literals
  block : ∀ c, S.Has c → Gives c g.block fun ns d => S.Closes c (ns.flatMap Node.literals) d

end SourceBlocks
