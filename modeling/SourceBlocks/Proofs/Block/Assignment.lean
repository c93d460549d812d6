import SourceBlocks.Proofs.Block.Features
import SourceBlocks.Proofs.Grammar.Targets

namespace SourceBlocks.Literal

variable {q c : Char} {u : List Char}

lemma Quotes.newline_not_mem (h : Quotes q c u) : '\n' ∉ u := by
  cases h with
  | plain _ _ _ hline => simpa using hline.symm
  | @letter e he _ =>
    simp only [List.mem_cons, List.not_mem_nil, or_false] at he
    rcases he with rfl | rfl | rfl | rfl | rfl | rfl <;> decide
  | code hc =>
    have hdigits := isHexDigit_of_readFrom? (Number.readFrom?_writePadded (by decide) (Nat.le_refl 16) 2 c.toNat)
    have hcode : '\n' ∉ Number.writePadded 16 2 c.toNat := fun h => nomatch List.all_eq_true.mp hdigits _ h
    simp [hexEscape, hcode]

lemma newline_not_mem_quoted {α : Type} {f : α → Char} {w : α → List Char} (hq : q = '\'' ∨ q = '"')
    (h : ∀ a, Quotes q (f a) (w a)) (l : List α) : '\n' ∉ q :: (l.flatMap w ++ [q]) := by
  have hbody : '\n' ∉ l.flatMap w := by
    simp only [List.mem_flatMap, not_exists, not_and]
    exact fun a _ => (h a).newline_not_mem
  rcases hq with rfl | rfl <;> simp [hbody]

namespace Value

variable {v : Value} {x : Char}

lemma not_mem_commas {ss : List (List Char)} (h : ∀ s ∈ ss, x ∉ s) (hcomma : x ≠ ',') (hblank : x ≠ ' ') :
    x ∉ commas ss := by
  fun_induction commas ss with
  | case1 => simp
  | case2 s => exact h s List.mem_cons_self
  | case3 s u r ih =>
    obtain ⟨hs, hr⟩ := List.forall_mem_cons.mp h
    simp [hs, hcomma, hblank, ih hr]

lemma Exact.newline_not_mem (hv : v.Exact) : '\n' ∉ v.write := by
  have hall : ∀ vs : List Value, (∀ v ∈ vs, '\n' ∉ v.write) → '\n' ∉ commas (writeAll vs) := by
    intro vs h
    rw [writeAll_eq]
    refine not_mem_commas (fun s hs => ?_) (by decide) (by decide)
    obtain ⟨v, hv, rfl⟩ := List.mem_map.mp hs
    exact h v hv
  induction hv with
  | nothing => decide
  | bool b => cases b <;> decide
  | @int n hn =>
    have hdigits : '\n' ∉ Number.write 10 n.natAbs := fun h => by cases Number.isDigit_of_mem_write h
    rw [write, writeInt]
    split_ifs
    · simp [hdigits]
    · exact hdigits
  | str s =>
    have hmark := chooseQuote_cases s.toList
    exact newline_not_mem_quoted (f := id) hmark (fun c => quotes_quoteChar hmark c) s.toList
  | bytes bs =>
    have hmark := chooseQuote_cases (bs.map fun b => Char.ofNat b.toNat)
    have hquoted := newline_not_mem_quoted hmark (fun b => quotes_quoteByte hmark b) bs
    exact List.not_mem_cons_of_ne_of_not_mem (by decide) hquoted
  | @tuple vs hvs ih =>
    rcases vs with _ | ⟨v, _ | ⟨w, vs⟩⟩
    · decide
    · simpa [write] using ih v List.mem_cons_self
    · rw [write]
      · simpa using hall _ ih
      · simp
  | @list vs hvs ih => simpa [write] using hall _ ih
  | @set vs hne hvs ih =>
    obtain ⟨v, vs, rfl⟩ := List.exists_cons_of_ne_nil hne
    rw [write]
    · simpa using hall _ ih
    · simp
  | @dict es hks hvs ihk ihv =>
    have hentries : '\n' ∉ commas (writeEntries es) := by
      rw [writeEntries_eq]
      refine not_mem_commas (fun s hs => ?_) (by decide) (by decide)
      obtain ⟨e, he, rfl⟩ := List.mem_map.mp hs
      simp [writeEntry, ihk e he, ihv e he]
    simpa [write] using hentries

end Value

end SourceBlocks.Literal

namespace SourceBlocks

open Grammar Outcome
open Literal (Value)
open SourceBlocks.Lexis (Source)
open SourceBlocks.Placement
open SourceBlocks.Tree (Node)

variable {t : Text} {v : Value} {f : Features}

namespace Lexis.Source

variable {S : Source} {lo hi : Nat} {ns : List Node}

lemma placeAt_row (h : '\n' ∉ S.chars) (i : Nat) : (S.placeAt i).row = 0 := by
  rw [placeAt, Text.extent_of_not_mem fun hmem => h (List.mem_of_mem_take hmem)]

lemma Laid.not_led (h : '\n' ∉ S.chars) (hl : S.Laid lo ns hi) : ∀ n ∈ ns, ∀ row, n.mark ≠ some (.endsOn row) := by
  induction hl with
  | nil => nofun
  | bare hm _ _ _ ih => exact List.forall_mem_cons.mpr ⟨fun row => by simp [hm], ih⟩
  | known hm _ _ _ _ _ ih => exact List.forall_mem_cons.mpr ⟨fun row => by simp [hm], ih⟩
  | led _ hcs hc _ _ ihc _ => exact absurd hc (ihc _ (hcs ▸ List.mem_cons_self) _)
  | literal _ _ hlit _ _ =>
    obtain ⟨first, rest, hchain, -, -, -, hrow, -⟩ := hlit
    cases hchain with
    | cons hp _ =>
      obtain ⟨a, b, -, -, -, hstart, hstop, -⟩ := hp
      rw [hstart, hstop, placeAt_row h, placeAt_row h] at hrow
      exact absurd rfl hrow

end Lexis.Source

lemma Placement.recovers_of_not_mem {s : Setting} {ns : List Node} {lo hi : Nat} (h : '\n' ∉ s.text.source.chars)
    (hl : s.text.source.Laid lo ns hi) (floor : Position) : Recovers s floor false ns := by
  induction hl generalizing floor with
  | nil => exact .nil
  | bare hm _ _ ihc ih => exact .bare hm (ihc floor) (ih floor)
  | known hm _ _ _ _ ihc ih => exact .known hm nofun (ihc floor) (ih _)
  | led hm hcs hc hchildren _ _ _ => exact absurd hc (hchildren.not_led h _ (hcs ▸ List.mem_cons_self) _)
  | literal hm hs hlit hns _ => exact absurd hm ((Lexis.Source.Laid.literal hm hs hlit hns).not_led h _ List.mem_cons_self _)

namespace Split

lemma chunks_row (h : '\n' ∉ t.chars) (hcode : isCommentOrBlank t.chars = false) :
    ∃ c, chunks t [⟨t.start, none⟩] = .ok [c] := by
  have hpos : t.chars.length ≠ 0 := by
    intro hnil
    rw [List.length_eq_zero_iff] at hnil
    simp [hnil, isCommentOrBlank, isQuiet] at hcode
  have hstop : t.stop = ⟨t.start.row, t.start.offset + t.chars.length⟩ := by
    rw [Text.stop, Text.extent_of_not_mem h]
    simp [Position.plus, Position.advance]
  have hlt : t.start < t.stop := by
    rw [hstop, Position.lt_def]
    exact .inr ⟨rfl, by simp only; omega⟩
  have hrow : t.rowChars t.stop.row = t.chars := by
    have hlines : t.lines = [t.chars] := Text.splitLines_of_not_mem h
    have hfirst := Text.rowChars_start t 0
    rw [hlines] at hfirst
    rw [hstop]
    exact hfirst
  have hend : statementStop t ⟨t.start, none⟩ t.stop = .ok t.stop := by
    have hoffset : t.stop.offset ≠ 0 := by
      rw [hstop]
      simp only
      omega
    have hcomment : beforeLastComment t t.start t.stop = .ok t.stop := by
      rw [beforeLastComment, if_neg]
      simp [hrow, hcode]
    have hloose : stopBeforeLoose t t.start t.stop = .ok t.stop :=
      bind_eq_ok.mpr ⟨_, hcomment, congrArg Except.ok (if_neg hoffset)⟩
    exact bind_eq_ok.mpr ⟨none, rfl, hloose⟩
  have hfrom : chunksFrom t 0 [⟨t.start, none⟩] = .ok [⟨some 0, t.slice t.start t.stop⟩] :=
    chunksFrom_cons.mpr ⟨t.stop, [], hlt, hend, hlt, Position.le_refl _, rfl, by simp [gap, nextStart]⟩
  refine ⟨⟨some 0, t.slice t.start t.stop⟩, ?_⟩
  simp only [chunks, List.getLast?_singleton, bind_eq_ok, check_eq_ok, pure_eq_ok]
  exact ⟨(), Position.le_refl _, (), hlt, _, hfrom, by simp⟩

end Split

lemma newline_not_mem_assigning (hv : v.Exact) : '\n' ∉ assigning v := by
  simpa [assigning] using hv.newline_not_mem

lemma Block.readRoots_assigning (hv : v.Exact) (ht : t.chars = assigning v) (f : Features) (n : Nat) :
    ∃ r : Root, Block.readRoots t f n = .ok [r] ∧ Assigns ⟨0, 0⟩ v r.node ∧ spanOf r = .ok ⟨t.start, none⟩ := by
  have hline : '\n' ∉ t.chars := ht ▸ newline_not_mem_assigning hv
  have hdedent : Text.dedent t.lines = ⟨t.chars, []⟩ := by
    apply Text.dedent_of_head
    intro c hc
    rw [ht, assigning, List.head?_cons, Option.mem_some_iff] at hc
    subst hc
    rfl
  obtain ⟨m, hread, hm⟩ := read_assigning hv 0
  have htree : Reading.ofText t f = .ok ⟨.mk none (.module [m]), [], f⟩ := by
    have hdemands : Dialect.demands (.mk none (.module [m])) = [] :=
      demands_eq_nil rfl (List.forall_mem_singleton.mpr hm.demands)
    rw [Reading.ofText_iff, hdedent, ht, Dialect.check, hdemands]
    exact ⟨hread, rfl, rfl⟩
  obtain ⟨-, ns, hns, hlaid⟩ := Reading.ofText_eq_ok htree
  obtain rfl : [m] = ns := by simpa using hns
  have hchars : '\n' ∉ t.source.chars := by
    rw [Text.source, hdedent]
    exact hline
  have hbehind : Behind (Reading.setting ⟨.mk none (.module [m]), [], f⟩ t) t.start false 0 :=
    ⟨Position.row_le (t.start_le_placeAt 0), fun _ => t.start_le_placeAt 0⟩
  obtain ⟨ps, hps⟩ := (placedFrom_iff_recovers hlaid (Nat.le_refl _) hbehind).mpr (recovers_of_not_mem hchars hlaid _)
  have hplace := (Reading.placeIn_eq_ok rfl).mpr ⟨ps, hps, rfl⟩
  -- the mark is known, so the node stands at the start of the text
  obtain ⟨cs, rfl⟩ : ∃ cs, ps = [.mk m (some t.start) none cs] := by
    cases hps with
    | bare hmark => simp [hm.mark] at hmark
    | @known _ p _ _ cs _ hmark _ _ hns =>
      obtain rfl : Position.start = p := Tree.Mark.known.inj (Option.some.inj (hm.mark.symm.trans hmark))
      cases hns with
      | nil => exact ⟨cs, by rw [Position.plus_start]⟩
    | led hmark => simp [hm.mark] at hmark
    | literal hmark => simp [hm.mark] at hmark
  refine ⟨⟨n, 0, .mk m (some t.start) none cs⟩, ?_, hm, rfl⟩
  exact bind_eq_ok.mpr ⟨_, mapError_eq_ok.mpr htree, bind_eq_ok.mpr ⟨_, mapError_eq_ok.mpr hplace, rfl⟩⟩

lemma Statement.assignment_of_body {s : Statement} {r : Root} {p : Position} (hbody : s.block.body = .ok [r])
    (hr : Assigns p v r.node) : s.assignment = .ok ("x", v) := by
  obtain ⟨target, value, hshape, htarget, heval⟩ := hr.shape
  have hname : assignedName? r.node = some ("x", value) := by rw [assignedName?, hshape]; simp [htarget]
  have hroot : s.root? = .ok (some r) := bind_eq_ok.mpr ⟨_, hbody, rfl⟩
  refine bind_eq_ok.mpr ⟨_, hroot, ?_⟩
  rw [Option.bind_some, hname]
  exact bind_eq_ok.mpr ⟨_, heval, rfl⟩

lemma Statement.ofBlock_assigning (hv : v.Exact) (ht : t.chars = assigning v) (f : Features) (n : Nat) :
    ∃ s, Statement.ofBlock (Block.ofText t f) n = .ok s ∧ s.assignment = .ok ("x", v) := by
  obtain ⟨r, hroots, hr, hspan⟩ := Block.readRoots_assigning hv ht f n
  have hspans : [r].mapM Block.spanOf = .ok [⟨t.start, none⟩] :=
    mapM_eq_ok.mpr (.cons hspan .nil)
  obtain ⟨chunk, hchunk⟩ := Split.chunks_row (ht ▸ newline_not_mem_assigning hv) (by rw [ht]; rfl)
  have hstatements : ((Block.ofText t f).afterReading n).statements =
      .ok [⟨{ (Block.ofText t f).afterReading n with isSingle := true }⟩] :=
    bind_eq_ok.mpr ⟨_, hroots, bind_eq_ok.mpr ⟨_, hspans, bind_eq_ok.mpr ⟨_, mapError_eq_ok.mpr hchunk, rfl⟩⟩⟩
  exact ⟨_, bind_eq_ok.mpr ⟨_, hstatements, rfl⟩, assignment_of_body hroots hr⟩

/-- The value that is assigned to a name is read from the text of the assignment. -/
theorem Statement.assignment_render (hv : v.Exact) (c : Changes) (n : Nat) :
    ∃ s, Statement.ofInput (.text (Text.ofString ("x = " ++ v.render))) c n = .ok s ∧ s.assignment = .ok ("x", v) := by
  refine ofBlock_assigning hv ?_ (c.features.getD .none) n
  rw [Block.chars_applyTo]
  simp [Text.ofString, Text.ofChars, Value.render, assigning]

theorem Statement.assignment_render_nested :
    (Value.dict [(.str "it's \"", .list [.tuple [.int (-1)], .set [.bytes [255], .nothing]])]).Exact ∧
      ∃ s, Statement.ofInput (.text (Text.ofString "x = \x7b'it\\'s \"': [(-1,), \x7bb'\\xff', None\x7d]\x7d"))
        ⟨none, none, none⟩ 0 = .ok s ∧ s.assignment =
          .ok ("x", .dict [(.str "it's \"", .list [.tuple [.int (-1)], .set [.bytes [255], .nothing]])]) := by
  have hv : (Value.dict [(.str "it's \"", .list [.tuple [.int (-1)], .set [.bytes [255], .nothing]])]).Exact := by
    refine .dict (List.forall_mem_singleton.mpr (.str _)) (List.forall_mem_singleton.mpr (.list ?_))
    refine List.forall_mem_cons.mpr ⟨.tuple (List.forall_mem_singleton.mpr (.int (by decide))), ?_⟩
    refine List.forall_mem_singleton.mpr (.set nofun (List.forall_mem_cons.mpr ⟨.bytes _, ?_⟩))
    exact List.forall_mem_singleton.mpr .nothing
  exact ⟨hv, assignment_render hv ⟨none, none, none⟩ 0⟩

end SourceBlocks
