import Mathlib.Data.List.TakeWhile
import Mathlib.Tactic.Common
import SourceBlocks.Proofs.Features
import SourceBlocks.Proofs.Literal.Numeral

/-! Sets of features as text: bits that are written read back, and names with commas between them
stand for the union of their features, whatever their order and whatever blanks are around them. -/

namespace SourceBlocks

namespace Text

variable {s u v : List Char} {sep : Char}

lemma trimLeft_append (hu : ∀ c ∈ u, isBlank c = true) : trimLeft (u ++ s) = trimLeft s := by
  simp only [trimLeft]
  exact List.dropWhile_append_of_pos hu

lemma trimLeft_of_head (h : ∀ c ∈ s.head?, isBlank c = false) : trimLeft s = s := by
  cases s with
  | nil => rfl
  | cons c s => exact List.dropWhile_cons_of_neg (by simp [h c (by simp)])

lemma trim_of_not_blank (h : ∀ c ∈ s, isBlank c = false) : trim s = s := by
  have hleft : trimLeft s = s := trimLeft_of_head fun c hc => h c (List.mem_of_head? hc)
  have hright : trimLeft s.reverse = s.reverse :=
    trimLeft_of_head fun c hc => h c (List.mem_reverse.mp (List.mem_of_head? hc))
  rw [trim, hleft, hright, List.reverse_reverse]

lemma trim_eq_nil_of_blank (h : ∀ c ∈ s, isBlank c = true) : trim s = [] := by
  have hleft : trimLeft s = [] := List.dropWhile_eq_nil_iff.mpr h
  rw [trim, hleft]
  rfl

lemma trim_append (hu : ∀ c ∈ u, isBlank c = true) (hv : ∀ c ∈ v, isBlank c = true) :
    trim (u ++ (s ++ v)) = trim s := by
  rw [trim, trimLeft_append hu]
  by_cases hs : ∀ c ∈ s, isBlank c = true
  · have hnil : trimLeft (s ++ v) = [] := by
      have hall : ∀ c ∈ s ++ v, isBlank c = true := fun c hc => (List.mem_append.mp hc).elim (hs c) (hv c)
      simpa [trimLeft, List.dropWhile_eq_nil_iff] using hall
    rw [hnil, trim_eq_nil_of_blank hs]
    rfl
  · have hcut : trimLeft (s ++ v) = trimLeft s ++ v := by
      simp only [trimLeft, List.dropWhile_append]
      rw [if_neg]
      simpa [List.dropWhile_eq_nil_iff] using hs
    have hrev : ∀ c ∈ v.reverse, isBlank c = true := fun c hc => hv c (List.mem_reverse.mp hc)
    rw [hcut, List.reverse_append, trimLeft_append hrev, trim]

lemma exists_trim (s : List Char) :
    ∃ u v, (∀ c ∈ u, isBlank c = true) ∧ (∀ c ∈ v, isBlank c = true) ∧ s = u ++ (trim s ++ v) := by
  have hblank : ∀ t : List Char, ∀ c ∈ t.takeWhile isBlank, isBlank c = true := fun t c hc => List.mem_takeWhile_imp hc
  have hsplit : ∀ t : List Char, t.takeWhile isBlank ++ trimLeft t = t := fun t => List.takeWhile_append_dropWhile
  refine ⟨s.takeWhile isBlank, ((trimLeft s).reverse.takeWhile isBlank).reverse, hblank s,
    fun c hc => hblank _ c (List.mem_reverse.mp hc), ?_⟩
  have hback := congrArg List.reverse (hsplit (trimLeft s).reverse)
  rw [List.reverse_append, List.reverse_reverse] at hback
  rw [trim, hback, hsplit]

lemma splitAt_front (hu : sep ∉ u) (s : List Char) :
    ∃ l ls, splitAt sep s = l :: ls ∧ splitAt sep (u ++ s) = (u ++ l) :: ls := by
  obtain ⟨l, ls, hs⟩ := List.exists_cons_of_ne_nil (@splitAt_ne_nil sep s)
  refine ⟨l, ls, hs, ?_⟩
  induction u with
  | nil => exact hs
  | cons c u ih =>
    simp only [List.mem_cons, not_or] at hu
    obtain ⟨k, ks, hk, hcons⟩ := splitAt_cons_of_ne (Ne.symm hu.1) (u ++ s)
    rw [ih hu.2] at hk
    cases hk
    exact hcons

lemma splitAt_behind (hv : sep ∉ v) (s : List Char) :
    ∃ ls l, splitAt sep s = ls ++ [l] ∧ splitAt sep (s ++ v) = ls ++ [l ++ v] := by
  induction s with
  | nil => exact ⟨[], [], rfl, splitAt_of_not_mem hv⟩
  | cons c s ih =>
    obtain ⟨ls, l, hs, hsv⟩ := ih
    by_cases hc : c = sep
    · exact ⟨[] :: ls, l, by simp [splitAt, hc, hs], by simp [splitAt, hc, hsv]⟩
    · cases ls with
      | nil => exact ⟨[], c :: l, by simp [splitAt, hc, hs], by simp [splitAt, hc, hsv]⟩
      | cons k ks => exact ⟨(c :: k) :: ks, l, by simp [splitAt, hc, hs], by simp [splitAt, hc, hsv]⟩

lemma map_trim_splitAt_trim (hsep : isBlank sep = false) (s : List Char) :
    (splitAt sep (trim s)).map trim = (splitAt sep s).map trim := by
  have hfree : ∀ {t : List Char}, (∀ c ∈ t, isBlank c = true) → sep ∉ t := by
    intro t ht hmem
    simp [ht sep hmem] at hsep
  obtain ⟨u, v, hu, hv, hs⟩ := exists_trim s
  obtain ⟨ls, l, htrim, hbehind⟩ := splitAt_behind (hfree hv) (trim s)
  obtain ⟨k, ks, hk, hfront⟩ := splitAt_front (hfree hu) (trim s ++ v)
  have hlast : trim (l ++ v) = trim l := @trim_append l [] v (by simp) hv
  have hfirst : trim (u ++ k) = trim k := by simpa using @trim_append k u [] hu (by simp)
  calc (splitAt sep (trim s)).map trim = (splitAt sep (trim s ++ v)).map trim := by
        rw [htrim, hbehind, List.map_append, List.map_append, List.map_singleton, List.map_singleton, hlast]
    _ = (splitAt sep (u ++ (trim s ++ v))).map trim := by rw [hk, hfront, List.map_cons, List.map_cons, hfirst]
    _ = (splitAt sep s).map trim := by rw [← hs]

lemma mem_joinWith {ls : List (List Char)} {c : Char} (h : c ∈ joinWith sep ls) : c = sep ∨ ∃ l ∈ ls, c ∈ l := by
  induction ls with
  | nil => exact absurd h List.not_mem_nil
  | cons l ls ih =>
    cases ls with
    | nil => exact Or.inr ⟨l, List.mem_cons_self, h⟩
    | cons m ms =>
      rw [joinWith, List.mem_append, List.mem_cons] at h
      rcases h with h | h | h
      · exact Or.inr ⟨l, List.mem_cons_self, h⟩
      · exact Or.inl h
      · rcases ih h with h | ⟨k, hk, hc⟩
        · exact Or.inl h
        · exact Or.inr ⟨k, List.mem_cons_of_mem l hk, hc⟩

lemma intercalate_eq_joinWith (ls : List (List Char)) : [sep].intercalate ls = joinWith sep ls := by
  induction ls with
  | nil => rfl
  | cons l ls ih =>
    cases ls with
    | nil => simp [joinWith]
    | cons m ms => rw [List.intercalate_cons_cons, ih, joinWith, List.append_assoc, List.singleton_append]

end Text

namespace Number

variable {base m n : Nat} {c : Char} {s : List Char}

lemma digit?_ne_none_of_readFrom? (h : readFrom? base m s = some n) : ∀ c ∈ s, digit? base c ≠ none := by
  induction s generalizing m with
  | nil => simp
  | cons d s ih =>
    rw [readFrom?] at h
    split at h
    next k hk =>
      intro c hc
      rcases List.mem_cons.mp hc with rfl | hc
      · simp [hk]
      · exact ih h c hc
    next => cases h

lemma not_blank_of_digit? (h : digit? base c ≠ none) : Text.isBlank c = false := by
  have hrange : ('0' ≤ c ∧ c ≤ '9') ∨ ('a' ≤ c ∧ c ≤ 'f') ∨ ('A' ≤ c ∧ c ≤ 'F') := by
    by_contra hout
    simp only [not_or] at hout
    apply h
    simp only [digit?]
    rw [if_neg hout.1, if_neg hout.2.1, if_neg hout.2.2]
    rfl
  simp only [Char.le_def, UInt32.le_iff_toNat_le, Char.reduceVal, UInt32.reduceToNat] at hrange
  simp only [Text.isBlank, Bool.or_eq_false_iff, Bool.and_eq_false_iff, decide_eq_false_iff_not, beq_eq_false_iff_ne,
    UInt32.le_iff_toNat_le, ne_eq, ← UInt32.toNat_inj, UInt32.reduceToNat]
  omega

end Number

namespace Features

structure SpecItem where
  before : List Char
  feature : Option Feature
  behind : List Char
  before_blank : ∀ c ∈ before, Text.isBlank c = true
  behind_blank : ∀ c ∈ behind, Text.isBlank c = true

namespace SpecItem

def name (e : SpecItem) : String := e.feature.elim "" Feature.name

def text (e : SpecItem) : String := String.ofList (e.before ++ (e.name.toList ++ e.behind))

end SpecItem

def known (a : Features) : Features := ⟨a.bits &&& (ofList Feature.all).bits⟩

lemma on_known (a : Features) (i : Nat) : a.known.On i ↔ a.On i ∧ ∃ f : Feature, i = f.index := by
  have hbits : a.known.bits.toBitVec = a.bits.toBitVec &&& (ofList Feature.all).bits.toBitVec := rfl
  have hall : (ofList Feature.all).On i ↔ ∃ f : Feature, i = f.index := by
    rw [on_ofList]
    constructor
    · rintro ⟨f, -, hf⟩
      exact ⟨f, hf⟩
    · rintro ⟨f, hf⟩
      exact ⟨f, by cases f <;> decide, hf⟩
  rw [← hall]
  simp [On, hbits]

lemma ofList_toList (a : Features) : ofList a.toList = a.known := eq_of_on fun i => by
  rw [on_ofList, on_known]
  simp only [toList, List.mem_filter, has_iff]
  constructor
  · rintro ⟨f, ⟨-, hf⟩, rfl⟩
    exact ⟨hf, f, rfl⟩
  · rintro ⟨hi, f, rfl⟩
    exact ⟨f, ⟨by cases f <;> decide, hi⟩, rfl⟩

lemma ofList_cons (f : Feature) (fs : List Feature) : ofList (f :: fs) = only f ||| ofList fs :=
  eq_of_on fun i => by simp [on_union, on_ofList, on_only]

lemma ofList_eq_iff (fs gs : List Feature) : ofList fs = ofList gs ↔ ∀ f, f ∈ fs ↔ f ∈ gs := by
  have hindex : ∀ f g : Feature, f.index = g.index → f = g := by
    intro f g
    cases f <;> cases g <;> decide
  have hmem : ∀ hs : List Feature, ∀ f, (ofList hs).On f.index ↔ f ∈ hs := by
    intro hs f
    rw [on_ofList]
    constructor
    · rintro ⟨g, hg, heq⟩
      rwa [hindex f g heq]
    · intro hf
      exact ⟨f, hf, rfl⟩
  constructor
  · intro heq f
    rw [← hmem fs, heq, hmem gs]
  · intro hiff
    apply eq_of_on
    intro i
    simp only [on_ofList, hiff]

lemma ofNames_name (fs : List Feature) : ofNames (fs.map fun f => f.name.toList) = .ok (ofList fs) := by
  induction fs with
  | nil => rfl
  | cons f fs ih =>
    have hname : Feature.ofName? f.name = some f := by cases f <;> decide
    rw [List.map_cons, ofNames, String.ofList_toList, hname, ih, ofList_cons]
    rfl

lemma parse_of_not_digit {s : String} (h : ∀ c ∈ s.toList, Number.isDigit c = false) :
    parse s = ofNames (specNames s.toList) := by
  have hmem : ∀ c ∈ Text.trim s.toList, Number.isDigit c = false := by
    obtain ⟨u, v, -, -, hs⟩ := Text.exists_trim s.toList
    intro c hc
    apply h c
    rw [hs]
    simp [hc]
  have hnames : specNames (Text.trim s.toList) = specNames s.toList := by
    rw [specNames, Text.map_trim_splitAt_trim (by decide), specNames]
  have hzero : ∀ r, Text.trim s.toList ≠ '0' :: r := by
    intro r heq
    exact absurd (hmem '0' (by simp [heq])) (by decide)
  simp only [parse]
  split
  next heq => exact absurd heq (hzero _)
  next heq => exact absurd heq (hzero _)
  next =>
    rw [if_neg, hnames]
    intro hdigits
    obtain ⟨hne, hall⟩ := Bool.and_eq_true_iff.mp hdigits
    obtain ⟨c, r, hs⟩ := List.exists_cons_of_ne_nil (l := Text.trim s.toList) (by simpa using hne)
    have hc := hmem c (by simp [hs])
    have hd := List.all_eq_true.mp hall c (by simp [hs])
    simp [hc] at hd

lemma ofNat?_bits (a : Features) : ofNat? a.bits.toNat = some a := by
  rw [ofNat?, if_pos a.bits.toNat_lt]
  simp

lemma parse_render (a : Features) : parse a.render = .ok a := by
  by_cases hempty : a.isEmpty = true
  · have hzero : a.bits = 0 := by simpa [isEmpty] using hempty
    have hnone : a = .none := congrArg mk hzero
    rw [hnone]
    rfl
  · have hread : Number.readFrom? 16 0 (Number.write 16 a.bits.toNat) = some a.bits.toNat :=
      Number.readFrom?_write (by decide) (by decide) _
    have hdigit := Number.digit?_ne_none_of_readFrom? hread
    obtain ⟨d, s, hwrite, -⟩ := Number.write_eq_cons (by decide : 1 < 16) a.bits.toNat
    rw [hwrite] at hread hdigit
    have htrim : Text.trim ('0' :: 'x' :: d :: s) = '0' :: 'x' :: d :: s := by
      apply Text.trim_of_not_blank
      simp only [List.mem_cons]
      rintro c (rfl | rfl | hc)
      · decide
      · decide
      · exact Number.not_blank_of_digit? (hdigit c (List.mem_cons.mpr hc))
    have hplus : d ≠ '+' := by
      rintro rfl
      exact hdigit '+' List.mem_cons_self (by decide)
    have hbits : Number.readPositive? 16 (d :: s) = some a.bits.toNat := by
      unfold Number.readPositive?
      split
      next heq => exact absurd (List.cons.inj heq).1 hplus
      next => exact hread
    rw [render, if_neg hempty, hwrite]
    simp only [parse, String.toList_ofList, htrim, hbits, orInvalid, ofNat?_bits]

lemma name_plain {f : Feature} {c : Char} (h : c ∈ f.name.toList) :
    Text.isBlank c = false ∧ Number.isDigit c = false ∧ c ≠ ',' := by
  have hall : f.name.toList.all (fun c => !Text.isBlank c && !Number.isDigit c && c != ',') = true := by
    cases f <;> decide
  simpa [and_assoc] using List.all_eq_true.mp hall c h

namespace SpecItem

variable {e : SpecItem} {c : Char}

lemma exists_of_mem_name (h : c ∈ e.name.toList) : ∃ f : Feature, c ∈ f.name.toList := by
  rw [name] at h
  cases hf : e.feature with
  | none => simp [hf] at h
  | some f => exact ⟨f, by simpa [hf] using h⟩

lemma trim_text (e : SpecItem) : Text.trim e.text.toList = e.name.toList := by
  rw [text, String.toList_ofList, Text.trim_append e.before_blank e.behind_blank]
  apply Text.trim_of_not_blank
  intro c hc
  obtain ⟨f, hf⟩ := exists_of_mem_name hc
  exact (name_plain hf).1

lemma text_plain (h : c ∈ e.text.toList) : Number.isDigit c = false ∧ c ≠ ',' := by
  have hblank : Text.isBlank c = true → Number.isDigit c = false ∧ c ≠ ',' := by
    intro hc
    constructor
    · by_contra hdigit
      have hmem := Number.mem_of_isDigit (Bool.not_eq_false _ ▸ hdigit)
      have hall : ['0', '1', '2', '3', '4', '5', '6', '7', '8', '9'].all (fun d => !Text.isBlank d) = true := by decide
      have hnot := List.all_eq_true.mp hall c hmem
      rw [hc] at hnot
      cases hnot
    · rintro rfl
      exact absurd hc (by decide)
  rw [text, String.toList_ofList, List.mem_append, List.mem_append] at h
  rcases h with h | h | h
  · exact hblank (e.before_blank c h)
  · obtain ⟨f, hf⟩ := exists_of_mem_name h
    exact (name_plain hf).2
  · exact hblank (e.behind_blank c h)

end SpecItem

lemma specNames_items (items : List SpecItem) :
    specNames (Text.joinWith ',' (items.map fun e => e.text.toList)) =
      (items.filterMap SpecItem.feature).map fun f => f.name.toList := by
  have hpieces : (items.map fun e => e.name.toList).filter (fun n => !n.isEmpty) =
      (items.filterMap SpecItem.feature).map fun f => f.name.toList := by
    induction items with
    | nil => rfl
    | cons e es ih =>
      rw [List.map_cons, List.filterMap_cons, List.filter_cons, ih, SpecItem.name]
      rcases e.feature with - | f
      · rfl
      · rw [if_pos (by cases f <;> rfl)]
        rfl
  cases items with
  | nil => rfl
  | cons e es =>
    have hcomma : ∀ l ∈ (e :: es).map fun e => e.text.toList, ',' ∉ l := by
      intro l hl
      obtain ⟨e, -, rfl⟩ := List.mem_map.mp hl
      exact fun hc => (SpecItem.text_plain hc).2 rfl
    rw [specNames, Text.splitAt_joinWith (by simp) hcomma, List.map_map, ← hpieces]
    congr 1
    apply List.map_congr_left
    intro e _
    exact e.trim_text

lemma parse_items (items : List SpecItem) :
    parse (",".intercalate (items.map SpecItem.text)) = .ok (ofList (items.filterMap SpecItem.feature)) := by
  have hchars : (",".intercalate (items.map SpecItem.text)).toList =
      Text.joinWith ',' (items.map fun e => e.text.toList) := by
    rw [String.toList_intercalate, List.map_map]
    exact Text.intercalate_eq_joinWith _
  rw [parse_of_not_digit, hchars, specNames_items, ofNames_name]
  rw [hchars]
  intro c hc
  rcases Text.mem_joinWith hc with rfl | ⟨l, hl, hc⟩
  · decide
  · obtain ⟨e, -, rfl⟩ := List.mem_map.mp hl
    exact (SpecItem.text_plain hc).1

theorem parse_text :
    (∀ a : Features, parse a.render = .ok a) ∧
    (∀ a : Features, parse (",".intercalate a.names) = .ok a.known) ∧
    (∀ items : List SpecItem,
      parse (",".intercalate (items.map SpecItem.text)) = .ok (ofList (items.filterMap SpecItem.feature))) ∧
    ∀ items others : List SpecItem,
      parse (",".intercalate (items.map SpecItem.text)) = parse (",".intercalate (others.map SpecItem.text)) ↔
        ∀ f : Feature, some f ∈ items.map SpecItem.feature ↔ some f ∈ others.map SpecItem.feature := by
  refine ⟨parse_render, ?_, parse_items, ?_⟩
  · intro a
    -- the names of a set are items without blanks
    have hitems := parse_items (a.toList.map fun f => ⟨[], some f, [], by simp, by simp⟩)
    have htext : (a.toList.map fun f => (⟨[], some f, [], by simp, by simp⟩ : SpecItem)).map SpecItem.text = a.names := by
      rw [List.map_map, names]
      apply List.map_congr_left
      intro f _
      simp [SpecItem.text, SpecItem.name]
    have hfeatures : (a.toList.map fun f => (⟨[], some f, [], by simp, by simp⟩ : SpecItem)).filterMap
        SpecItem.feature = a.toList := by
      rw [List.filterMap_map]
      exact List.filterMap_some
    rwa [htext, hfeatures, ofList_toList] at hitems
  · intro items others
    have hmem : ∀ (es : List SpecItem) (f : Feature),
        f ∈ es.filterMap SpecItem.feature ↔ some f ∈ es.map SpecItem.feature := by
      intro es f
      rw [List.mem_filterMap, List.mem_map]
    rw [parse_items, parse_items, Except.ok.injEq, ofList_eq_iff]
    simp only [hmem]

end Features

end SourceBlocks
