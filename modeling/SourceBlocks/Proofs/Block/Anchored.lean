import SourceBlocks.Proofs.Block.Separation
import SourceBlocks.Proofs.Split.Regroup

namespace SourceBlocks

open SourceBlocks.Tree (Node)

namespace Placement

variable {s : Setting} {floor : Position} {ns : List Node} {ps : List Placed}

lemma holds_of_locate {value : List Char} {last : Nat} {e : Tree.Extent}
    (h : locate s value floor last = .ok e) : s.text.Holds e.start := by
  have htried := List.mem_of_find?_eq_some (locate_eq_ok.mp h).2
  obtain ⟨o, ho, -, -, -, -, -, rfl⟩ := mem_attempts htried
  simp only [openPlaces, List.mem_filter, List.mem_flatMap] at ho
  obtain ⟨⟨row, -, ho⟩, -⟩ := ho
  obtain ⟨q, hq, rfl⟩ := List.mem_map.mp ho
  apply Text.holds_of_lt
  simpa using openingsFrom_lt hq

lemma PlacedFrom.holds_start (h : PlacedFrom s floor ns ps) :
    ∀ p ∈ ps, s.text.source.Begins p.node → ∀ x ∈ p.start, s.text.Holds x := by
  induction h with
  | nil => simp
  | bare _ _ _ _ ih => exact List.forall_mem_cons.mpr ⟨nofun, ih⟩
  | known hm _ _ _ _ ih =>
    refine List.forall_mem_cons.mpr ⟨?_, ih⟩
    rintro hbegins x ⟨⟩
    rcases hbegins with ⟨i, c, hi, hchar, hc⟩ | ⟨row, hrow⟩
    · obtain rfl := Tree.Mark.known.inj (Option.some.inj (hm.symm.trans hi))
      exact Text.holds_placeAt hchar hc
    · cases hm.symm.trans hrow
  | led _ _ hled hq _ _ ihc ih =>
    refine List.forall_mem_cons.mpr ⟨?_, ih⟩
    rintro - x ⟨⟩
    exact ihc _ List.mem_cons_self (.inr (isStringLed_iff.mp hled)) _ hq
  | literal _ _ _ he _ ih =>
    refine List.forall_mem_cons.mpr ⟨?_, ih⟩
    rintro - x ⟨⟩
    exact holds_of_locate he

end Placement

lemma Text.holds_concat {t : Text} {ts : List Text} {p : Position}
    (hchain : (t :: ts).IsChain fun u v => u.stop = v.start) (h : ∃ u ∈ t :: ts, u.Holds p) :
    Holds { t with chars := t.chars ++ ts.flatMap chars } p := by
  induction ts generalizing t with
  | nil =>
    obtain ⟨u, hu, hp⟩ := h
    obtain rfl := List.mem_singleton.mp hu
    exact hp.append_left _
  | cons t' ts ih =>
    obtain ⟨hfollow, hrest⟩ := List.isChain_cons_cons.mp hchain
    obtain ⟨u, hu, hp⟩ := h
    rcases List.mem_cons.mp hu with rfl | hu
    · exact hp.append_left _
    · exact (ih hrest ⟨u, hu, hp⟩).append_right hfollow

namespace Block

open Outcome Placement

inductive Contiguous : Block → Prop
  | ofText (t : Text) (f : Features) : Contiguous (ofText t f)
  | afterReading {b : Block} (n : Nat) : Contiguous b → Contiguous (b.afterReading n)
  | ofInput {i : Input} {c : Changes} {b : Block} : (∀ a, i = .block a → Contiguous a) →
      (∀ s, i = .statement s → Contiguous s.block) → ofInput i c = .ok b → Contiguous b
  | concat {bs : List Block} {b : Block} : (∀ a ∈ bs, Contiguous a) →
      (bs.map Block.text).IsChain (fun u v => u.stop = v.start) → concat bs = .ok b → Contiguous b
  | statement {b : Block} {ss : List Statement} {s : Statement} : Contiguous b →
      b.statements = .ok ss → s ∈ ss → Contiguous s.block
  | group {κ : Type} [BEq κ] {key : Statement → Except Error κ} {b : Block} {gs : List (κ × Block)}
      {g : κ × Block} : Contiguous b → b.groupBy key = .ok gs → g ∈ gs → Contiguous g.2

lemma Contiguous.reachable {b : Block} (h : b.Contiguous) : b.Reachable := by
  induction h with
  | ofText t f => exact .ofText t f
  | afterReading n _ ih => exact .afterReading n ih
  | ofInput _ _ hb ihb ihs => exact .ofInput ihb ihs hb
  | concat _ _ hb ih => exact .concat ih hb
  | statement _ hss hs ih => exact .statement ih hss hs
  | group _ hgs hg ih => exact .group ih hgs hg

def Anchored (b : Block) : Prop :=
  ∀ n roots, b.outcome n = .ok roots → ∀ root ∈ roots, ∀ x ∈ root.placed.start, b.text.Holds x

lemma anchored_ofText (t : Text) (f : Features) : (ofText t f).Anchored := by
  intro n roots hroots root hroot
  simp only [outcome, ofText, readRoots, bind_eq_ok, mapError_eq_ok, pure_eq_ok] at hroots
  obtain ⟨r, hr, p, hp, rfl⟩ := hroots
  obtain ⟨-, ns, htree, -⟩ := Reading.ofText_eq_ok hr
  obtain ⟨cs, hcs, rfl⟩ := (Reading.placeIn_eq_ok htree).mp hp
  have hbegins := Grammar.read_begins (S := t.source) (htree ▸ Reading.read_of_ofText hr)
  rw [← hcs.map_node] at hbegins
  obtain ⟨c, hc, rfl⟩ := List.mem_map.mp hroot
  have hmem := List.fst_mem_of_mem_zipIdx hc
  exact hcs.holds_start _ hmem (hbegins _ (List.mem_map_of_mem hmem))

lemma anchored_concat {bs : List Block} {b : Block} (h : ∀ a ∈ bs, a.Anchored)
    (hchain : (bs.map Block.text).IsChain fun u v => u.stop = v.start) (hb : concat bs = .ok b) : b.Anchored := by
  rcases concat_eq_ok hb with rfl | ⟨a, rest, parts, f, rfl, hparts, -, rfl⟩
  · exact h b List.mem_cons_self
  · rintro n roots ⟨⟩ root hroot x hx
    obtain ⟨part, hpart, hroot⟩ := List.mem_flatten.mp hroot
    obtain ⟨c, hc, hbody⟩ := exists_of_mem_mapM hparts hpart
    have hholds := h c hc 0 part hbody root hroot x hx
    have hmem : c.text ∈ a.text :: rest.map Block.text := List.mem_map_of_mem (f := Block.text) hc
    have := Text.holds_concat hchain ⟨c.text, hmem, hholds⟩
    rwa [List.flatMap_map] at this

lemma holds_of_mem_spans {t : Text} {roots : List Root} {spans : List Split.Span}
    (h : ∀ root ∈ roots, ∀ x ∈ root.placed.start, t.Holds x) (hspans : roots.mapM spanOf = .ok spans) :
    ∀ s ∈ spans, t.Holds s.start := by
  intro s hs
  obtain ⟨root, hroot, hspan⟩ := exists_of_mem_mapM hspans hs
  obtain ⟨start, hstart, rfl⟩ := spanOf_eq_ok.mp hspan
  exact h root hroot start hstart

lemma anchored_statement {b : Block} {ss : List Statement} (hb : b.Anchored) (h : b.statements = .ok ss) :
    ∀ s ∈ ss, s.block.Anchored := by
  intro s hs
  rcases mem_statements h hs with hself |
    ⟨roots, spans, chunks, f, ⟨node, u⟩, hc, hroots, hspans, hchunks, -, rfl⟩
  · rw [hself]
    exact hb
  · rintro n roots' ⟨⟩ root hroot x hx
    obtain ⟨j, rfl, hj⟩ := Option.bind_eq_some_iff.mp (Option.mem_toList.mp hroot)
    obtain ⟨before, after, start, rest, stop, rfl, hstart, hrest, hstop, hlt, hle, rfl⟩ :=
      cut_of_chunk hspans hchunks hc hj
    obtain rfl := Option.some.inj (hstart.symm.trans hx)
    have hholds := hb 0 _ hroots root (by simp) start hstart
    have hafter := holds_of_mem_spans (fun r hr => hb 0 _ hroots r (by simp [hr])) hrest
    have hplace := Split.hasPlace_of_statementStop hholds.hasPlace (Split.hasPlace_nextStart hafter) hstop hlt hle
    obtain ⟨hpiece, hfirst, hlast⟩ := Split.isPiece_slice hholds.hasPlace hplace (Position.le_of_lt hlt)
    apply hpiece.holds hholds
    · rw [hfirst]
      exact Position.le_refl _
    · rwa [hlast]

section Groups

variable {κ : Type} [BEq κ] {key : Statement → Except Error κ} {b : Block} {ss : List Statement}
  {gs : List (κ × Block)}

lemma key_mem_of_mem_runs [LawfulBEq κ] {ps : List (κ × Statement)} {g : κ × List Statement} {s : Statement}
    (hg : g ∈ runs ps) (hs : s ∈ g.2) : (g.1, s) ∈ ps := by
  induction ps generalizing g with
  | nil => simp [runs] at hg
  | cons p ps ih =>
    obtain ⟨k, s'⟩ := p
    rw [runs] at hg
    split at hg
    · next l ss' more hruns =>
      rw [hruns] at ih
      split_ifs at hg with hkey
      · obtain rfl := eq_of_beq hkey
        rcases List.mem_cons.mp hg with rfl | hg
        · rcases List.mem_cons.mp hs with rfl | hs
          · exact List.mem_cons_self
          · exact List.mem_cons_of_mem _ (ih (g := (k, ss')) List.mem_cons_self hs)
        · exact List.mem_cons_of_mem _ (ih (List.mem_cons_of_mem _ hg) hs)
      · rcases List.mem_cons.mp hg with rfl | hg
        · rw [List.mem_singleton.mp hs]
          exact List.mem_cons_self
        · exact List.mem_cons_of_mem _ (ih hg hs)
    · obtain rfl := List.mem_singleton.mp hg
      rw [List.mem_singleton.mp hs]
      exact List.mem_cons_self

lemma groupBy_eq_ok (hss : b.statements = .ok ss) (h : b.groupBy key = .ok gs) :
    ∃ ps, ss.mapM (keyed key) = .ok ps ∧ ((runs ps).map Prod.snd).flatten = ss ∧
      List.Forall₂ (fun r g => r.1 = g.1 ∧ concat (r.2.map Statement.block) = .ok g.2) (runs ps) gs := by
  simp only [groupBy, hss, bind_eq_ok, Except.ok.injEq, exists_eq_left'] at h
  obtain ⟨ps, hps, h⟩ := h
  refine ⟨ps, hps, ?_, (mapM_eq_ok.mp h).imp fun r g hjoin => ?_⟩
  · rw [← List.flatMap_def, flatMap_runs]
    have hpairs := (mapM_eq_ok.mp hps).imp fun s p hp => show s = p.2 by
      simp only [keyed, bind_eq_ok, pure_eq_ok] at hp
      obtain ⟨k, -, rfl⟩ := hp
      rfl
    rw [← List.forall₂_map_right_iff, List.forall₂_eq_eq_eq] at hpairs
    exact hpairs.symm
  · simp only [joinRun, bind_eq_ok, pure_eq_ok] at hjoin
    obtain ⟨b', hb', rfl⟩ := hjoin
    exact ⟨rfl, hb'⟩

lemma Contiguous.anchored {b : Block} (h : b.Contiguous) : b.Anchored := by
  induction h with
  | ofText t f => exact anchored_ofText t f
  | afterReading n _ ih => exact fun _ => ih n
  | ofInput _ _ hb ihb ihs =>
    rcases ofInput_eq_ok hb with ⟨t, f, rfl⟩ | hi | ⟨s, hi, rfl⟩
    · exact anchored_ofText t f
    · exact ihb _ hi
    · exact ihs s hi
  | concat _ hchain hb ih => exact anchored_concat ih hchain hb
  | statement _ hss hs ih => exact anchored_statement ih hss _ hs
  | @group κ _ key b gs g hb hgs hg ih =>
    obtain ⟨ss, hss, -⟩ := bind_eq_ok.mp hgs
    obtain ⟨ps, -, hflat, hruns⟩ := groupBy_eq_ok hss hgs
    obtain ⟨_, _, rfl⟩ := List.append_of_mem hg
    obtain ⟨_, r, _, hrs, -, ⟨-, hconcat⟩, -⟩ := forall₂_append_cons hruns
    have hr : r ∈ runs ps := by simp [hrs]
    have hrun : r.2 <:+: ss := hflat ▸ List.infix_of_mem_flatten (List.mem_map_of_mem hr)
    refine anchored_concat (fun a ha => ?_) ?_ hconcat
    · obtain ⟨s, hs, rfl⟩ := List.mem_map.mp ha
      exact anchored_statement ih hss s (hrun.subset hs)
    · have hfollow := (hb.reachable.tiled hss).texts.follow
      rw [List.map_map]
      exact hfollow.infix (hrun.map Statement.text)

end Groups

end Block

end SourceBlocks
