import SourceBlocks.Proofs.Lowering.Module
import SourceBlocks.Proofs.Placement.Recovery

namespace SourceBlocks.Placement

open SourceBlocks.Tree (Extent Mark Node Shape)

variable {s : Setting} {floor : Position}

def HasLiteral (ns : List Node) : Prop := ∃ n ∈ ns.flatMap Node.walk, IsLiteral n

def IsMiss (ns : List Node) (f : Fault) : Prop :=
  (∃ n ∈ ns.flatMap Node.walk, IsLiteral n ∧ f = .notFound n) ∨
    ∃ parent floor found, f = .outOfOrder parent floor found

lemma mem_walk_cons {m n : Node} {ns : List Node} : m ∈ (n :: ns).flatMap Node.walk ↔
    m = n ∨ m ∈ n.children.flatMap Node.walk ∨ m ∈ ns.flatMap Node.walk := by
  rw [List.flatMap_cons, Node.walk_eq, List.cons_append, List.mem_cons, List.mem_append]

lemma mem_walk_head (n : Node) (ns : List Node) : n ∈ (n :: ns).flatMap Node.walk :=
  mem_walk_cons.mpr (.inl rfl)

lemma HasLiteral.children {n : Node} {ns : List Node} (h : HasLiteral n.children) : HasLiteral (n :: ns) := by
  obtain ⟨m, hm, hlit⟩ := h
  exact ⟨m, mem_walk_cons.mpr (.inr (.inl hm)), hlit⟩

lemma HasLiteral.head {n : Node} {ns : List Node} (h : HasLiteral [n]) : HasLiteral (n :: ns) := by
  obtain ⟨m, hm, hlit⟩ := h
  rw [List.flatMap_singleton] at hm
  exact ⟨m, List.mem_append_left _ hm, hlit⟩

lemma HasLiteral.tail {n : Node} {ns : List Node} (h : HasLiteral ns) : HasLiteral (n :: ns) := by
  obtain ⟨m, hm, hlit⟩ := h
  exact ⟨m, mem_walk_cons.mpr (.inr (.inr hm)), hlit⟩

lemma IsMiss.children {n : Node} {ns : List Node} {f : Fault} (h : IsMiss n.children f) :
    IsMiss (n :: ns) f := by
  rcases h with ⟨m, hm, h⟩ | h
  · exact .inl ⟨m, mem_walk_cons.mpr (.inr (.inl hm)), h⟩
  · exact .inr h

lemma IsMiss.tail {n : Node} {ns : List Node} {f : Fault} (h : IsMiss ns f) : IsMiss (n :: ns) f := by
  rcases h with ⟨m, hm, h⟩ | h
  · exact .inl ⟨m, mem_walk_cons.mpr (.inr (.inr hm)), h⟩
  · exact .inr h

lemma hasLiteral_of_led {n : Node} {ns : List Node} {row lo hi : Nat} {S : Lexis.Source}
    (h : S.Laid lo (n :: ns) hi) (hm : n.mark = some (.endsOn row)) : HasLiteral (n :: ns) := by
  induction n using Node.ind generalizing lo ns hi with
  | h n ih =>
    cases h with
    | bare hm' => simp [hm'] at hm
    | known hm' => simp [hm'] at hm
    | led hm' hcs hc hchildren =>
      obtain rfl : _ = row := by simpa [hm'] using hm
      rw [hcs] at ih hchildren
      exact HasLiteral.children (hcs ▸ ih _ List.mem_cons_self hchildren hc)
    | literal _ hs => exact ⟨n, mem_walk_head n ns, _, _, _, _, hm, hs⟩

lemma inOrder_eq_error {complain : List (Option Position) → Fault} {found : List (Option Position)}
    {n : Node} {ns : List Node} {f : Fault} (h : inOrder (place s) complain floor found (n :: ns) = .error f) :
    place s floor n = .error f ∨
    (∃ p q, place s floor n = .ok p ∧ p.start = some q ∧ q < floor ∧ f = complain (found ++ [p.start])) ∨
    ∃ p, PlacedFrom s floor [n] [p] ∧
      inOrder (place s) complain (p.start.getD floor) (found ++ [p.start]) ns = .error f := by
  rw [inOrder] at h
  cases hp : place s floor n with
  | error f' =>
    rw [hp] at h
    exact .inl (congrArg _ (Except.error.inj h))
  | ok p =>
    right
    obtain ⟨cs, hcs, habove⟩ := exists_of_place hp
    rw [hp] at h
    dsimp only [bind, Except.bind] at h
    split at h
    · next q hq =>
      split_ifs at h with hlt
      · exact .inl ⟨p, q, rfl, hq, hlt, (Except.error.inj h).symm⟩
      · refine .inr ⟨p, hcs.above habove (fun x hx => ?_) .nil, ?_⟩
        · obtain rfl := Option.some.inj (hq.symm.trans hx)
          exact Position.not_lt.mp hlt
        · rw [hq, Option.getD_some, ← hq]
          split at h
          · next heq => exact heq.trans h
          · cases h
    · next hnone =>
      refine .inr ⟨p, hcs.above habove (fun x hx => by simp [hnone] at hx) .nil, ?_⟩
      rw [hnone, Option.getD_none, ← hnone]
      split at h
      · next heq => exact heq.trans h
      · cases h

lemma place_eq_error {n : Node} {f : Fault} (h : place s floor n = .error f) :
    inOrder (place s) (.outOfOrder n floor) floor [] n.children = .error f ∨
      ∃ cs, PlacedFrom s floor n.children cs ∧ placeAbove s floor n cs = .error f := by
  rw [place_eq] at h
  cases hcs : inOrder (place s) (.outOfOrder n floor) floor [] n.children with
  | error f' =>
    rw [hcs] at h
    exact .inl (congrArg _ (Except.error.inj h))
  | ok cs =>
    rw [hcs] at h
    exact .inr ⟨cs, inOrder_eq_ok.mp hcs, h⟩

lemma eq_notFound_of_placeAbove {guessed : Bool} {n : Node} {cs : List Placed} {f : Fault} {lo k : Nat}
    (hl : s.text.source.Laid lo [n] k) (hk : k ≤ s.text.source.chars.length)
    (hb : Behind s floor guessed lo) (hcs : PlacedFrom s floor n.children cs)
    (h : placeAbove s floor n cs = .error f) : IsLiteral n ∧ f = .notFound n := by
  cases hl with
  | bare hm => simp [placeAbove, hm] at h
  | known hm => simp [placeAbove, hm] at h
  | led hm hchildren hc =>
    rw [hchildren] at hcs
    cases cs with
    | nil => cases hcs
    | cons p cs =>
      have hlead : leadingPart? (p :: cs) = some p := by
        refine leadingPart?_eq_some.mpr ⟨?_, cs, rfl⟩
        rw [hcs.node_head]
        exact isStringLed_iff.mpr ⟨_, hc⟩
      simp [placeAbove, hm, hlead] at h
  | @literal _ k' _ row _ _ value bytes written hm hs hlit hns =>
    refine ⟨⟨row, value, bytes, written, hm, hs⟩, ?_⟩
    obtain ⟨hrow, hquote⟩ := hb.literal hlit (Nat.le_trans hns.le hk)
    rw [Node.children_of_str hs] at hcs
    cases hcs
    simp only [placeAbove, hm, leadingPart?, List.head?_nil, Option.filter_none, hs, placeString,
      if_neg (Nat.not_lt.mpr hrow)] at h
    split at h
    · cases h
    · next hmiss => exact absurd (locate_eq_noQuote hmiss) hquote
    · exact (Except.error.inj h).symm

lemma Behind.next {guessed : Bool} {n : Node} {p : Placed} {lo k : Nat} (hb : Behind s floor guessed lo)
    (hl : s.text.source.Laid lo [n] k) (hk : k ≤ s.text.source.chars.length)
    (hp : PlacedFrom s floor [n] [p]) :
    ∃ guessed', Behind s (p.start.getD floor) guessed' k ∧
      (guessed' = true → guessed = true ∨ HasLiteral [n]) := by
  by_cases hled : isStringLed n = true
  · obtain ⟨e, he, hstart⟩ := hp.leadFound hled
    obtain ⟨row, hm⟩ := he.mark
    rw [hstart, Option.getD_some]
    exact ⟨true, he.behind hl hk, fun _ => .inr (hasLiteral_of_led hl hm)⟩
  · cases hp with
    | bare => exact ⟨guessed, hb.mono hl.le hk, .inl⟩
    | known hm =>
      obtain ⟨i, -, hik, rfl, -⟩ := hl.from_known hm
      exact ⟨false, behind_placeAt (Nat.le_of_lt hik) hk, nofun⟩
    | led hm => simp [isStringLed, hm] at hled
    | literal hm => simp [isStringLed, hm] at hled

lemma Behind.guessed_of_lt {guessed : Bool} {n : Node} {p : Placed} {q : Position} {lo k : Nat}
    (hb : Behind s floor guessed lo) (hl : s.text.source.Laid lo [n] k)
    (hk : k ≤ s.text.source.chars.length) (hp : place s floor n = .ok p) (hq : p.start = some q)
    (hlt : q < floor) : guessed = true ∨ HasLiteral [n] := by
  obtain ⟨cs, -, habove⟩ := exists_of_place hp
  cases hm : n.mark with
  | none =>
    obtain rfl : Placed.mk n none none cs = p := by simpa [placeAbove, hm] using habove
    simp at hq
  | some m =>
    cases m with
    | endsOn row => exact .inr (hasLiteral_of_led hl hm)
    | known x =>
      obtain rfl : Placed.mk n (some (s.text.start.plus x)) none cs = p := by
        simpa [placeAbove, hm] using habove
      obtain rfl : s.text.start.plus x = q := by simpa using hq
      obtain ⟨i, hlo, hik, rfl, -⟩ := hl.from_known hm
      have hbi := hb.mono hlo (by omega)
      by_contra hnot
      rw [not_or, Bool.not_eq_true] at hnot
      exact Position.not_lt.mpr (hbi.2 hnot.1) hlt

lemma isMiss_cons {guessed : Bool} {parent n : Node} {top : Position} {found : List (Option Position)}
    {ns : List Node} {f : Fault} {lo k : Nat} (hl : s.text.source.Laid lo [n] k)
    (hk : k ≤ s.text.source.chars.length) (hb : Behind s floor guessed lo)
    (hc : inOrder (place s) (.outOfOrder n floor) floor [] n.children = .error f →
      IsMiss n.children f ∧ (guessed = true ∨ HasLiteral n.children))
    (hns : ∀ {floor guessed found}, Behind s floor guessed k →
      inOrder (place s) (.outOfOrder parent top) floor found ns = .error f →
      IsMiss ns f ∧ (guessed = true ∨ HasLiteral ns))
    (h : inOrder (place s) (.outOfOrder parent top) floor found (n :: ns) = .error f) :
    IsMiss (n :: ns) f ∧ (guessed = true ∨ HasLiteral (n :: ns)) := by
  rcases inOrder_eq_error h with hn | ⟨p, q, hp, hq, hlt, rfl⟩ | ⟨p, hp, hrest⟩
  · rcases place_eq_error hn with hchildren | ⟨cs, hcs, habove⟩
    · obtain ⟨hmiss, hlit⟩ := hc hchildren
      exact ⟨hmiss.children, hlit.imp_right HasLiteral.children⟩
    · obtain ⟨hlit, rfl⟩ := eq_notFound_of_placeAbove hl hk hb hcs habove
      exact ⟨.inl ⟨n, mem_walk_head n ns, hlit, rfl⟩, .inr ⟨n, mem_walk_head n ns, hlit⟩⟩
  · exact ⟨.inr ⟨_, _, _, rfl⟩, (hb.guessed_of_lt hl hk hp hq hlt).imp_right HasLiteral.head⟩
  · obtain ⟨guessed', hb', hguess⟩ := hb.next hl hk hp
    obtain ⟨hmiss, hlit⟩ := hns hb' hrest
    refine ⟨hmiss.tail, ?_⟩
    rcases hlit with hg | hlit
    · exact (hguess hg).imp_right HasLiteral.head
    · exact .inr hlit.tail

lemma isMiss_of_inOrder {guessed : Bool} {parent : Node} {top : Position} {found : List (Option Position)}
    {ns : List Node} {f : Fault} {lo hi : Nat} (hl : s.text.source.Laid lo ns hi)
    (hhi : hi ≤ s.text.source.chars.length) (hb : Behind s floor guessed lo)
    (h : inOrder (place s) (.outOfOrder parent top) floor found ns = .error f) :
    IsMiss ns f ∧ (guessed = true ∨ HasLiteral ns) := by
  induction hl generalizing floor guessed parent top found with
  | nil => simp [inOrder] at h
  | bare hm hchildren hns ihc ih =>
    have hk := Nat.le_trans hns.le hhi
    exact isMiss_cons (.bare hm hchildren (.nil (Nat.le_refl _))) hk hb (ihc hk hb) (ih hhi) h
  | known hm hlo hik hchildren hns ihc ih =>
    have hk := Nat.le_trans hns.le hhi
    have hbi := hb.mono hlo (by omega)
    exact isMiss_cons (.known hm hlo hik hchildren (.nil (Nat.le_refl _))) hk hb (ihc hk hbi) (ih hhi) h
  | led hm hcs hc hchildren hns ihc ih =>
    have hk := Nat.le_trans hns.le hhi
    exact isMiss_cons (.led hm hcs hc hchildren (.nil (Nat.le_refl _))) hk hb (ihc hk hb) (ih hhi) h
  | literal hm hs hlit hns ih =>
    have hk := Nat.le_trans hns.le hhi
    refine isMiss_cons (.literal hm hs hlit (.nil (Nat.le_refl _))) hk hb (fun hc => ?_) (ih hhi) h
    simp [Node.children_of_str hs, inOrder] at hc

end SourceBlocks.Placement

namespace SourceBlocks.Reading

open Outcome Placement
open SourceBlocks.Tree (Node)

abbrev setting (r : Reading) (t : Text) : Placement.Setting := ⟨t, r.margin, Grammar.stringValue?⟩

lemma ofText_eq_ok {t : Text} {features : Features} {r : Reading} (h : ofText t features = .ok r) :
    r.margin = (Text.dedent t.lines).margin ∧ ∃ ns, r.tree = .mk none (.module ns) ∧
      t.source.Laid 0 ns t.source.chars.length := by
  obtain ⟨htree, -, hmargin⟩ := ofText_iff.mp h
  exact ⟨hmargin, Grammar.read_laid (S := t.source) htree⟩

lemma children_module (ns : List Node) : (Node.mk none (.module ns)).children = ns := by
  simp [Node.children, Node.shape, Tree.Shape.children, Tree.Shape.fieldNodes, Tree.Shape.fields,
    Tree.Field.nodes]

lemma placeIn_eq {t : Text} {r : Reading} {ns : List Node} (h : r.tree = .mk none (.module ns)) :
    r.placeIn t = ((inOrder (place (r.setting t)) (.outOfOrder r.tree t.start)
      t.start [] ns).map (.mk r.tree none none)).mapError Placement.Fault.toError := by
  have hchildren : r.tree.children = ns := by rw [h, children_module]
  have hmark : r.tree.mark = none := by rw [h]; rfl
  rw [placeIn, placeTree, place_eq, hchildren]
  congr 1
  cases inOrder (place (r.setting t)) (.outOfOrder r.tree t.start) t.start [] ns with
  | error f => rfl
  | ok cs => simp [bind, Except.bind, Except.map, placeAbove, hmark]

lemma placeIn_eq_ok {t : Text} {r : Reading} {ns : List Node} {p : Placed}
    (h : r.tree = .mk none (.module ns)) : r.placeIn t = .ok p ↔
      ∃ cs, PlacedFrom (r.setting t) t.start ns cs ∧ p = .mk r.tree none none cs := by
  have hiff : ∀ cs, PlacedFrom (r.setting t) t.start ns cs ↔
      inOrder (place (r.setting t)) (.outOfOrder r.tree t.start) t.start [] ns = .ok cs :=
    fun cs => inOrder_eq_ok.symm
  simp only [placeIn_eq h, hiff]
  cases inOrder (place (r.setting t)) (.outOfOrder r.tree t.start) t.start [] ns with
  | error f => simp [Except.map, Except.mapError]
  | ok cs => simp [Except.map, Except.mapError, eq_comm]

lemma placeIn_eq_error {t : Text} {r : Reading} {ns : List Node} {e : Error}
    (h : r.tree = .mk none (.module ns)) (he : r.placeIn t = .error e) :
    ∃ f, inOrder (place (r.setting t)) (.outOfOrder r.tree t.start) t.start [] ns =
      .error f ∧ e = f.toError := by
  rw [placeIn_eq h] at he
  cases hf : inOrder (place (r.setting t)) (.outOfOrder r.tree t.start) t.start [] ns with
  | error f =>
    rw [hf] at he
    exact ⟨f, rfl, (Except.error.inj he).symm⟩
  | ok cs =>
    rw [hf] at he
    cases he

/-- The tree of a text is placed exactly if its literals over several rows are found one behind the
other. -/
theorem placeIn_ok_iff_recovers {t : Text} {features : Features} {r : Reading}
    (h : ofText t features = .ok r) :
    ((∃ p, r.placeIn t = .ok p) ↔
      Recovers (r.setting t) t.start false r.tree.children) ∧
    ∀ e, r.placeIn t = .error e → ∃ n ∈ r.tree.walk, IsLiteral n ∧
      (e = (Placement.Fault.notFound n).toError ∨
        ∃ parent floor found, e = (Placement.Fault.outOfOrder parent floor found).toError) := by
  obtain ⟨-, ns, htree, hlaid⟩ := ofText_eq_ok h
  have hchildren : r.tree.children = ns := by rw [htree, children_module]
  have hbehind : Behind (r.setting t) t.start false 0 :=
    ⟨Position.row_le (t.start_le_placeAt 0), fun _ => t.start_le_placeAt 0⟩
  constructor
  · rw [hchildren, ← placedFrom_iff_recovers hlaid (Nat.le_refl _) hbehind]
    simp only [placeIn_eq_ok htree]
    constructor
    · rintro ⟨_, cs, hcs, -⟩
      exact ⟨cs, hcs⟩
    · rintro ⟨cs, hcs⟩
      exact ⟨_, cs, hcs, rfl⟩
  · intro e he
    obtain ⟨f, hf, rfl⟩ := placeIn_eq_error htree he
    obtain ⟨hmiss, hlit⟩ := isMiss_of_inOrder hlaid (Nat.le_refl _) hbehind hf
    have hwalk : ∀ n ∈ ns.flatMap Node.walk, n ∈ r.tree.walk := by
      intro n hn
      rw [Node.walk_eq, hchildren]
      exact List.mem_cons_of_mem _ hn
    rcases hmiss with ⟨n, hn, hn', rfl⟩ | ⟨parent, floor, found, rfl⟩
    · exact ⟨n, hwalk n hn, hn', .inl rfl⟩
    · obtain ⟨n, hn, hn'⟩ := hlit.resolve_left nofun
      exact ⟨n, hwalk n hn, hn', .inr ⟨parent, floor, found, rfl⟩⟩

theorem placeIn_two_literals : ∃ r p,
    ofText (Text.ofString "f('''\n''')\n'''\n'''") .none = .ok r ∧
      r.placeIn (Text.ofString "f('''\n''')\n'''\n'''") = .ok p ∧
      Recovers (r.setting (Text.ofString "f('''\n''')\n'''\n'''")) .start false r.tree.children := by
  have hok : (ofText (Text.ofString "f('''\n''')\n'''\n'''") .none >>= fun r =>
      r.placeIn (Text.ofString "f('''\n''')\n'''\n'''")).isOk = true := by
    decide +kernel
  obtain ⟨p, hp⟩ := isOk_iff.mp hok
  obtain ⟨r, hr, hp⟩ := bind_eq_ok.mp hp
  exact ⟨r, p, hr, hp, (placeIn_ok_iff_recovers hr).1.mp ⟨p, hp⟩⟩

theorem placeIn_short_blank_row :
    ∃ r, ofText (Text.ofString "  '''\n \n  '''\n") .none = .ok r ∧
      r.placeIn (Text.ofString "  '''\n \n  '''\n") =
        .error (.internal "Couldn't find exact position of Str(s='\\n\\n')") := by
  have hok : (ofText (Text.ofString "  '''\n \n  '''\n") .none).isOk = true := by decide +kernel
  have hmiss : ((ofText (Text.ofString "  '''\n \n  '''\n") .none >>= fun r =>
      r.placeIn (Text.ofString "  '''\n \n  '''\n")).map fun _ => ()) =
        .error (.internal "Couldn't find exact position of Str(s='\\n\\n')") := by
    decide +kernel
  obtain ⟨r, hr⟩ := isOk_iff.mp hok
  rw [hr] at hmiss
  exact ⟨r, hr, map_eq_error.mp hmiss⟩

end SourceBlocks.Reading
