import SourceBlocks.Proofs.Grammar.Values

namespace SourceBlocks.Literal.Value

variable {v w : Value} {s : List Char} {ss : List (List Char)}

lemma length_le_commas (ss : List (List Char)) : ss.length ≤ (commas ss).length + 1 := by
  fun_induction commas ss with
  | case1 => simp
  | case2 => simp
  | case3 s u r ih =>
    simp only [List.length_cons, List.length_append] at ih ⊢
    omega

lemma length_le_commas_of_mem (hs : s ∈ ss) : s.length ≤ (commas ss).length := by
  fun_induction commas ss with
  | case1 => cases hs
  | case2 u =>
    obtain rfl := List.mem_singleton.mp hs
    exact le_rfl
  | case3 u u' r ih =>
    simp only [List.length_cons, List.length_append]
    rcases List.mem_cons.mp hs with rfl | hs
    · omega
    · have := ih hs
      omega

def members : Value → List Value
  | tuple vs => vs
  | list vs => vs
  | set vs => vs
  | dict es => es.flatMap fun e => [e.1, e.2]
  | _ => []

def size : Value → Nat
  | str s => s.length
  | bytes bs => bs.length
  | tuple vs => vs.length
  | list vs => vs.length
  | set vs => vs.length
  | dict es => es.length
  | _ => 0

lemma length_le_flatMap {α : Type} {f : α → Char} {u : α → List Char} {q : Char} (hq : q = '\'' ∨ q = '"')
    (h : ∀ a, Quotes q (f a) (u a)) (l : List α) : l.length ≤ (l.flatMap u).length := by
  induction l with
  | nil => simp
  | cons a l ih =>
    obtain ⟨x, s, hs, -⟩ := (h a).head_ne hq
    rw [List.flatMap_cons, hs]
    simp only [List.length_cons, List.length_append]
    omega

lemma size_le (v : Value) : v.size ≤ v.write.length := by
  have hall : ∀ vs : List Value, vs.length ≤ (commas (writeAll vs)).length + 1 := fun vs => by
    simpa [writeAll_eq] using length_le_commas (writeAll vs)
  have hentries : ∀ es : List (Value × Value), es.length ≤ (commas (writeEntries es)).length + 1 := fun es => by
    simpa [writeEntries_eq] using length_le_commas (writeEntries es)
  cases v with
  | str s =>
    have hmark := chooseQuote_cases s.toList
    have := length_le_flatMap (f := id) hmark (fun c => quotes_quoteChar hmark c) s.toList
    rw [String.length_toList] at this
    simp only [size, write, quote, List.cons_append, List.length_cons, List.length_append]
    omega
  | bytes bs =>
    have hmark := chooseQuote_cases (bs.map fun b => Char.ofNat b.toNat)
    have := length_le_flatMap hmark (fun b => quotes_quoteByte hmark b) bs
    simp only [size, write, quoteBytes, List.cons_append, List.length_cons, List.length_append]
    omega
  | tuple vs =>
    rcases vs with _ | ⟨v, _ | ⟨w, vs⟩⟩
    · exact Nat.zero_le _
    · simp [size, write]
    · have := hall (v :: w :: vs)
      rw [write]
      · simp only [size, List.cons_append, List.length_cons, List.length_append] at this ⊢
        omega
      · simp
  | list vs =>
    have := hall vs
    simp only [size, write, List.cons_append, List.length_cons, List.length_append] at this ⊢
    omega
  | set vs =>
    cases vs with
    | nil => exact Nat.zero_le _
    | cons v vs =>
      have := hall (v :: vs)
      rw [write]
      · simp only [size, List.cons_append, List.length_cons, List.length_append] at this ⊢
        omega
      · simp
  | dict es =>
    have := hentries es
    simp only [size, write, List.cons_append, List.length_cons, List.length_append] at this ⊢
    omega
  | _ => exact Nat.zero_le _

lemma length_write_lt_of_mem (hw : w ∈ v.members) : w.write.length < v.write.length := by
  have hall : ∀ vs : List Value, w ∈ vs → w.write.length ≤ (commas (writeAll vs)).length := by
    intro vs hw
    rw [writeAll_eq]
    exact length_le_commas_of_mem (List.mem_map_of_mem hw)
  cases v with
  | tuple vs =>
    have hcommas := hall vs hw
    match vs with
    | [] => cases hw
    | [v] =>
      obtain rfl := List.mem_singleton.mp hw
      simp only [write, List.cons_append, List.length_cons, List.length_append]
      omega
    | v :: u :: vs =>
      rw [write]
      · simp only [List.cons_append, List.length_cons, List.length_append]
        omega
      · simp
  | list vs =>
    have hcommas := hall vs hw
    simp only [write, List.cons_append, List.length_cons, List.length_append]
    omega
  | set vs =>
    have hcommas := hall vs hw
    cases vs with
    | nil => cases hw
    | cons v vs =>
      rw [write]
      · simp only [List.cons_append, List.length_cons, List.length_append]
        omega
      · simp
  | dict es =>
    obtain ⟨e, he, hw⟩ := List.mem_flatMap.mp hw
    have hcommas : (writeEntry e).length ≤ (commas (writeEntries es)).length := by
      rw [writeEntries_eq]
      exact length_le_commas_of_mem (List.mem_map_of_mem he)
    simp only [writeEntry, List.length_append, List.length_cons] at hcommas
    simp only [write, List.cons_append, List.length_cons, List.length_append]
    simp only [List.mem_cons, List.not_mem_nil, or_false] at hw
    rcases hw with rfl | rfl <;> omega
  | _ => cases hw

lemma exists_write_tuple (vs : List Value) : ∃ s, (tuple vs).write = '(' :: s := by
  match vs with
  | [] => exact ⟨_, rfl⟩
  | [v] => exact ⟨_, rfl⟩
  | v :: w :: vs => exact ⟨_, write_tuple_cons v w vs⟩

lemma Exact.of_mem (hv : v.Exact) (hw : w ∈ v.members) : w.Exact := by
  cases hv with
  | tuple hvs => exact hvs w hw
  | list hvs => exact hvs w hw
  | set hne hvs => exact hvs w hw
  | dict hks hvs =>
    obtain ⟨e, he, hw⟩ := List.mem_flatMap.mp hw
    simp only [List.mem_cons, List.not_mem_nil, or_false] at hw
    rcases hw with rfl | rfl
    · exact hks e he
    · exact hvs e he
  | _ => cases hw

end SourceBlocks.Literal.Value

namespace SourceBlocks.Grammar

open Lexis Grammar.Parser Literal
open SourceBlocks.Tree (Node Shape)

variable {S : Source} {s t : List Char} {g : Rules Node} {site : Site} {follow : Follow} {level : Int} {v : Value}

lemma digit_facts {d : Char} (hd : Number.isDigit d = true) (s : List Char) :
    Quote.atStart? (d :: s) = none ∧ isWordStart d = false := by
  have hmem := Number.mem_of_isDigit hd
  simp only [List.mem_cons, List.not_mem_nil, or_false] at hmem
  rcases hmem with rfl | rfl | rfl | rfl | rfl | rfl | rfl | rfl | rfl | rfl <;> exact ⟨rfl, rfl⟩

lemma reaches_atom_numeral (ht : Closing t) {n : Nat} (hn : n < 2 ^ 127) :
    Reaches S (atom g follow) (Number.write 10 n ++ t) t (IsNumeral n) := by
  have hread := reaches_numeral (S := S) ht hn
  obtain ⟨d, s, hs, hd⟩ := Value.exists_write n
  have hne : ∀ {e}, Number.isDigit e = false → d ≠ e := ne_of_isDigit hd
  rw [hs, List.cons_append] at hread ⊢
  obtain ⟨hquote, hword⟩ := digit_facts hd (s ++ t)
  refine .get fun c hc => ?_
  rw [hc.rest, hquote]
  refine .neg nofun ?_
  split
  next heq => exact absurd (List.cons.inj heq).1 (hne rfl)
  next heq => exact absurd (List.cons.inj heq).1 (hne rfl)
  next heq => exact absurd (List.cons.inj heq).1 (hne rfl)
  next heq =>
    obtain ⟨rfl, rfl⟩ := List.cons.inj heq
    have hdot : '.' ≠ d := (hne rfl).symm
    have hdots : "...".toList.isPrefixOf (d :: (s ++ t)) = false := by simp [List.isPrefixOf, hdot]
    refine .neg (by simp [hword]) ((reaches_startsWith "...").step ?_)
    rw [hdots]
    exact hread
  next heq => cases heq

def Unsigned (v : Value) : Prop := ∀ n : Int, v = .int n → 0 ≤ n

lemma write_unsigned {n : Int} (hn : Unsigned (.int n)) : (Value.int n).write = Number.write 10 n.natAbs := by
  have := hn n rfl
  rw [Value.write, Value.writeInt, if_neg (by omega)]

lemma evaluates_unsigned {n : Int} (hn : Unsigned (.int n)) {p : Phrase Node} (hp : IsNumeral n.natAbs p) :
    Evaluates (.int n) p := by
  have hp := hp.evaluates
  rwa [Int.natAbs_of_nonneg (hn n rfl)] at hp

section Brackets

variable {Q : Phrase Node → Prop}

lemma reaches_atom_paren (h : Reaches S (parenAtom g follow) ('(' :: s) t Q) :
    Reaches S (atom g follow) ('(' :: s) t Q :=
  .get fun c hc => by
    rw [hc.rest]
    exact h

lemma reaches_atom_square (h : Reaches S (listAtom g) ('[' :: s) t Q) : Reaches S (atom g follow) ('[' :: s) t Q :=
  .get fun c hc => by
    rw [hc.rest]
    exact h

lemma reaches_atom_brace (h : Reaches S (braceAtom g) ('\x7b' :: s) t Q) :
    Reaches S (atom g follow) ('\x7b' :: s) t Q :=
  .get fun c hc => by
    rw [hc.rest]
    exact h

end Brackets

lemma reaches_atom_constant {w : String} (hw : w ∈ constants) (hv : constant? w = some v) (ht : Closing t) :
    Reaches S (atom g follow) (w.toList ++ t) t (Evaluates v) := by
  have hread := (reaches_nameAtom (S := S) ht hw hv).mono fun p hp => hp.2
  refine .get fun c hc => ?_
  rw [hc.rest, atStart?_constant hw]
  simp only [constants, List.mem_cons, List.not_mem_nil, or_false] at hw
  rcases hw with rfl | rfl | rfl <;> exact hread

lemma reaches_atom (hv : v.Exact) (hsign : Unsigned v) (h : ∀ w ∈ v.members, ReadsBack S g w)
    (hn : v.write.length < g.bound) (ht : Closing t) :
    Reaches S (atom g follow) (v.write ++ t) t (Evaluates v) := by
  have hsize := v.size_le
  cases hv with
  | nothing => exact reaches_atom_constant (w := "None") (by decide) rfl ht
  | bool b =>
    cases b with
    | false => exact reaches_atom_constant (w := "False") (by decide) rfl ht
    | true => exact reaches_atom_constant (w := "True") (by decide) rfl ht
  | int hint =>
    rw [write_unsigned hsign]
    exact (reaches_atom_numeral ht hint).mono fun p hp => evaluates_unsigned hsign hp
  | str s =>
    refine .get fun c hc => .pos ?_ (reaches_quote s (by simp only [Value.size] at hsize; omega) ht)
    rw [hc.rest]
    exact isSome_atStart?_quote s.toList ht
  | bytes bs =>
    refine .get fun c hc => .pos ?_ (reaches_quoteBytes bs (by simp only [Value.size] at hsize; omega) ht)
    rw [hc.rest]
    exact isSome_atStart?_quoteBytes bs ht
  | @tuple vs hvs =>
    have hread : Reaches S (parenAtom g follow) _ t _ := reaches_parenAtom hvs h (hsize.trans hn.le) t
    obtain ⟨s, hs⟩ := Value.exists_write_tuple vs
    rw [hs] at hread ⊢
    exact reaches_atom_paren hread
  | @list vs hvs => exact reaches_atom_square (reaches_listAtom hvs h (hsize.trans hn.le) t)
  | @set vs hne hvs =>
    have hread := reaches_braceAtom_set hne hvs h (hsize.trans hn.le) t
    obtain ⟨v, vs, rfl⟩ := List.exists_cons_of_ne_nil hne
    rw [Value.write_set_cons] at hread ⊢
    exact reaches_atom_brace hread
  | @dict es hks hvs =>
    have hkeys : ∀ e ∈ es, ReadsBack S g e.1 := fun e he => h e.1 (List.mem_flatMap.mpr ⟨e, he, by simp⟩)
    have hvalues : ∀ e ∈ es, ReadsBack S g e.2 := fun e he => h e.2 (List.mem_flatMap.mpr ⟨e, he, by simp⟩)
    exact reaches_atom_brace (reaches_braceAtom_dict hks hvs hkeys hvalues (hsize.trans hn.le) t)

/-! Operands. -/

lemma reaches_operand_primary {Q : Phrase Node → Prop} {x : Char} (hquote : Quote.atStart? (x :: s) = none)
    (hsign : x ∉ ['-', '+', '~', '*']) (hword : isWordStart x = false)
    (h : Reaches S (primary g site.follow) (x :: s) t Q) : Reaches S (operand g site level) (x :: s) t Q := by
  simp only [List.mem_cons, List.not_mem_nil, or_false, not_or] at hsign
  obtain ⟨hminus, hplus, htilde, hstar⟩ := hsign
  refine .get fun c hc => ?_
  rw [hc.rest, hquote]
  exact .neg nofun (.neg (by simp [hminus, hplus, htilde]) (.neg hstar (.neg (by simp [hword]) h)))

lemma reaches_operand_constant {w : String} (hw : w ∈ constants) (hv : constant? w = some v) (ht : Closing t)
    (hb : 0 < g.bound) : Reaches S (operand g site level) (w.toList ++ t) t (Evaluates v) := by
  have hread : Reaches S (nameOperand g site level) (w.toList ++ t) t (Evaluates v) := by
    refine (reaches_nameAtom ht hw hv).bind fun p hp => ?_
    have hhead : headOf p.node ≠ .name := by simp [headOf, hp.1]
    refine .neg (by simp [hhead]) (.step (.pure rfl) (.neg nofun ?_))
    exact (reaches_trailers ht hb).step (.pure hp.2)
  have hword := word_constant ht hw
  refine .get fun c hc => ?_
  rw [hc.rest, atStart?_constant hw]
  simp only [constants, List.mem_cons, List.not_mem_nil, or_false] at hw
  rcases hw with rfl | rfl | rfl
  all_goals
    refine reaches_wordHere.step ?_
    rw [hword]
    exact hread

lemma reaches_operand_numeral (ht : Closing t) (hb : 0 < g.bound) {n : Nat} (hn : n < 2 ^ 127) :
    Reaches S (operand g site level) (Number.write 10 n ++ t) t (IsNumeral n) := by
  have hread : Reaches S (primary g site.follow) _ t _ := reaches_primary ht hb (reaches_atom_numeral ht hn)
  obtain ⟨d, s, hs, hd⟩ := Value.exists_write n
  obtain ⟨hquote, hword⟩ := digit_facts hd (s ++ t)
  rw [hs, List.cons_append] at hread ⊢
  refine reaches_operand_primary hquote ?_ hword hread
  simp [ne_of_isDigit hd (d := '-') rfl, ne_of_isDigit hd (d := '+') rfl, ne_of_isDigit hd (d := '~') rfl,
    ne_of_isDigit hd (d := '*') rfl]

lemma reaches_operand (hv : v.Exact) (hsign : Unsigned v) (h : ∀ w ∈ v.members, ReadsBack S g w)
    (hn : v.write.length < g.bound) (ht : Closing t) :
    Reaches S (operand g site level) (v.write ++ t) t (Evaluates v) := by
  have hb : 0 < g.bound := Nat.zero_lt_of_lt hn
  have hread : Reaches S (primary g site.follow) _ t _ := reaches_primary ht hb (reaches_atom hv hsign h hn ht)
  cases hv with
  | nothing => exact reaches_operand_constant (w := "None") (by decide) rfl ht hb
  | bool b =>
    cases b with
    | false => exact reaches_operand_constant (w := "False") (by decide) rfl ht hb
    | true => exact reaches_operand_constant (w := "True") (by decide) rfl ht hb
  | int hint =>
    rw [write_unsigned hsign]
    exact (reaches_operand_numeral ht hb hint).mono fun p hp => evaluates_unsigned hsign hp
  | str s =>
    refine .get fun c hc => .pos ?_ hread
    rw [hc.rest]
    exact isSome_atStart?_quote s.toList ht
  | bytes bs =>
    refine .get fun c hc => .pos ?_ hread
    rw [hc.rest]
    exact isSome_atStart?_quoteBytes bs ht
  | @tuple vs hvs =>
    obtain ⟨s, hs⟩ := Value.exists_write_tuple vs
    rw [hs] at hread ⊢
    exact reaches_operand_primary rfl (by decide) rfl hread
  | @list vs hvs => exact reaches_operand_primary rfl (by decide) rfl hread
  | @set vs hne hvs =>
    obtain ⟨v, vs, rfl⟩ := List.exists_cons_of_ne_nil hne
    rw [Value.write_set_cons] at hread ⊢
    exact reaches_operand_primary rfl (by decide) rfl hread
  | @dict es hks hvs => exact reaches_operand_primary rfl (by decide) rfl hread

lemma bound_rules (bound n : Nat) : (rules bound n : Rules Node).bound = bound := by cases n <;> rfl

lemma Evaluates.negative {n : Nat} {p q : Phrase Node} (hp : IsNumeral n p) (hq : q.node.shape = .unaryOp "-" p.node) :
    Evaluates (.int (-n)) q := by
  obtain ⟨text, hp, htext⟩ := hp
  obtain ⟨⟨mark, shape⟩⟩ := q
  obtain rfl : shape = _ := hq
  refine ⟨?_, demands_eq_nil rfl fun s hs => ?_⟩
  · have hnumber : number p.node = .ok (.int n) := by
      rw [number, hp]
      exact htext
    rw [eval]
    exact Outcome.bind_eq_ok.mpr ⟨_, hnumber, rfl⟩
  · obtain rfl := List.mem_singleton.mp hs
    exact (IsNumeral.evaluates ⟨text, hp, htext⟩).2

lemma write_negative {k : Int} (hk : k < 0) : (Value.int k).write = '-' :: Number.write 10 k.natAbs := by
  rw [Value.write, Value.writeInt, if_pos hk]

lemma Opening.digits (n : Nat) (t : List Char) : Opening (Number.write 10 n ++ t) := by
  obtain ⟨d, s, hs, hd⟩ := Value.exists_write n
  exact ⟨d, s ++ t, by rw [hs, List.cons_append], by simp [Value.opens, hd]⟩

lemma reaches_operand_negative {k : Int} (hk : k < 0)
    (h : Reaches S (g.expr site Level.sign) (Number.write 10 k.natAbs ++ t) t (IsNumeral k.natAbs)) :
    Reaches S (operand g site level) ((Value.int k).write ++ t) t (Evaluates (.int k)) := by
  have hvalue : -(k.natAbs : Int) = k := by omega
  rw [write_negative hk, List.cons_append]
  refine .get fun c hc => ?_
  rw [hc.rest]
  refine (reaches_advance_append (s := ['-']) 1 rfl).after fun _ => ?_
  refine Reaches.bind (.after (reaches_toToken (Opening.digits _ t).solid) fun _ => h) fun p hp => .pure ?_
  have := Evaluates.negative hp (q := .leaf c.place p.stop (.unaryOp "-" p.node)) rfl
  rwa [hvalue] at this

theorem readsBack {bound n : Nat} (hv : v.Exact) (hn : v.write.length ≤ n) (hb : v.write.length < bound) :
    ReadsBack S (rules bound n) v := by
  induction n generalizing v with
  | zero =>
    obtain ⟨x, s, hs, -⟩ := hv.write_eq_cons
    simp [hs] at hn
  | succ n ih =>
    intro site level t ht
    have hbound := bound_rules bound n
    refine reaches_expression ht (by omega) ?_
    by_cases hsign : Unsigned v
    · refine reaches_operand hv hsign (fun w hw => ?_) (by omega) ht
      have := Value.length_write_lt_of_mem hw
      exact ih (hv.of_mem hw) (by omega) (by omega)
    · simp only [Unsigned, not_forall, Int.not_le] at hsign
      obtain ⟨k, rfl, hk⟩ := hsign
      refine reaches_operand_negative hk ?_
      -- the digits are read one level deeper, and the sign has made room for that
      cases n with
      | zero =>
        obtain ⟨d, s, hs, -⟩ := Value.exists_write k.natAbs
        simp [write_negative hk, hs] at hn
      | succ n =>
        have hbound := bound_rules bound n
        cases hv with
        | int hint => exact reaches_expression ht (by omega) (reaches_operand_numeral ht (by omega) hint)

end SourceBlocks.Grammar
