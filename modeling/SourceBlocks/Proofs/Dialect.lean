import SourceBlocks.Dialect
import SourceBlocks.Proofs.Features
import SourceBlocks.Proofs.Outcome

/-! What a dialect lets pass. -/

namespace SourceBlocks.Dialect

open Outcome
open SourceBlocks.Tree (Field Node Shape)

namespace Demand

def isPrint : Demand → Bool
  | printStatement _ => true
  | _ => false

def feature? : Demand → Option Feature
  | feature name _ => Feature.ofName? name
  | _ => none

def Meetable : Demand → Prop
  | printStatement _ => True
  | feature name _ => (Feature.ofName? name).isSome ∨ name ∈ settledFeatures
  | default _ => False
  | token text => ∃ d, Literal.decode text.toList = .ok d

end Demand

variable {f g f' : Features} {d : Demand} {ds : List Demand}

lemma meet_eq_ok : meet f d = .ok f' ↔
    d.Meetable ∧ (d.isPrint = true → f.has .printFunction = false) ∧ f' = f ||| .ofList d.feature?.toList := by
  have hkeep : ∀ {a : Features}, a = f' ↔ f' = a ||| .ofList [] := by
    intro a
    rw [show Features.ofList [] = .none from rfl, Features.union_none, eq_comm]
  cases d with
  | printStatement p =>
    simp only [meet, Demand.Meetable, Demand.isPrint, Demand.feature?, Option.toList_none, ← hkeep]
    split_ifs with h <;> simp [h]
  | feature name p =>
    simp only [meet, Demand.Meetable, Demand.isPrint, Demand.feature?]
    cases Feature.ofName? name with
    | some x =>
      have hone : Features.ofList [x] = .only x := Features.eq_of_on fun i => by
        simp [Features.on_ofList, Features.on_only]
      simp only [Option.toList_some, hone, Option.isSome_some, Except.ok.injEq]
      simp [eq_comm (a := f')]
    | none =>
      simp only [Option.toList_none, ← hkeep]
      split_ifs with h <;> simp [h]
  | default p => simp [meet, Demand.Meetable]
  | token text =>
    simp only [meet, Demand.Meetable, Demand.isPrint, Demand.feature?, Option.toList_none, ← hkeep]
    cases Literal.decode text.toList <;> simp

lemma meetAll_cons_eq_ok : meetAll f (d :: ds) = .ok f' ↔ ∃ g, meet f d = .ok g ∧ meetAll g ds = .ok f' := by
  rw [meetAll, bind_eq_ok]

lemma features_of_meetAll (h : meetAll f ds = .ok f') : f' = f ||| .ofList (ds.filterMap Demand.feature?) := by
  induction ds generalizing f with
  | nil =>
    obtain rfl := Except.ok.inj h
    exact (Features.union_none f).symm
  | cons d ds ih =>
    obtain ⟨g, hd, hds⟩ := meetAll_cons_eq_ok.mp h
    obtain ⟨-, -, rfl⟩ := meet_eq_ok.mp hd
    rw [ih hds]
    apply Features.eq_of_on
    intro i
    simp only [Features.on_union, Features.on_ofList]
    cases hf : d.feature? <;> simp [hf, or_assoc]

lemma meetAll_of_has (hg : g.has .printFunction = true → f.has .printFunction = true) (h : meetAll f ds = .ok f') :
    ∃ g', meetAll g ds = .ok g' := by
  induction ds generalizing f g with
  | nil => exact ⟨g, rfl⟩
  | cons d ds ih =>
    obtain ⟨f₁, hd, hds⟩ := meetAll_cons_eq_ok.mp h
    obtain ⟨hmeet, hprint, rfl⟩ := meet_eq_ok.mp hd
    have hd' : meet g d = .ok (g ||| .ofList d.feature?.toList) := by
      refine meet_eq_ok.mpr ⟨hmeet, fun hp => ?_, rfl⟩
      by_contra hnot
      exact absurd (hg (Bool.not_eq_false _ ▸ hnot)) (by simp [hprint hp])
    obtain ⟨g', hg'⟩ := ih (fun hhas => Features.has_union.mpr
      ((Features.has_union.mp hhas).imp_left hg)) hds
    exact ⟨g', meetAll_cons_eq_ok.mpr ⟨_, hd', hg'⟩⟩

lemma meetAll_of_contains (hfg : g.contains f = true) (h : meetAll g ds = .ok f') :
    ∃ e, meetAll f ds = .ok e ∧ f' = e ||| g := by
  have hprint : f.has .printFunction = true → g.has .printFunction = true := by
    simpa only [Features.has_iff] using Features.contains_iff.mp hfg _
  obtain ⟨e, he⟩ := meetAll_of_has hprint h
  refine ⟨e, he, Features.eq_of_on fun i => ?_⟩
  rw [features_of_meetAll h, features_of_meetAll he]
  simp only [Features.on_union]
  have hi := Features.contains_iff.mp hfg i
  tauto

lemma meetAll_of_not_isPrint (hds : ∀ d ∈ ds, d.isPrint = false) (h : meetAll f ds = .ok f') :
    ∃ g', meetAll g ds = .ok g' := by
  induction ds generalizing f g with
  | nil => exact ⟨g, rfl⟩
  | cons d ds ih =>
    obtain ⟨hd₀, hds⟩ := List.forall_mem_cons.mp hds
    obtain ⟨f₁, hd, hrest⟩ := meetAll_cons_eq_ok.mp h
    have hd' : meet g d = .ok (g ||| .ofList d.feature?.toList) :=
      meet_eq_ok.mpr ⟨(meet_eq_ok.mp hd).1, fun hp => absurd hp (by simp [hd₀]), rfl⟩
    obtain ⟨g', hg'⟩ := ih hds hrest
    exact ⟨g', meetAll_cons_eq_ok.mpr ⟨_, hd', hg'⟩⟩

lemma meetAll_eq_printStatement {p : Position} (hg : g.has .printFunction = true)
    (hp : ds.find? Demand.isPrint = some (.printStatement p)) (h : meetAll f ds = .ok f') :
    meetAll g ds = .error (.printStatement p) := by
  induction ds generalizing f g with
  | nil => cases hp
  | cons d ds ih =>
    obtain ⟨f₁, hd, hds⟩ := meetAll_cons_eq_ok.mp h
    obtain ⟨hmeet, -, -⟩ := meet_eq_ok.mp hd
    rw [meetAll]
    cases hprint : d.isPrint with
    | true =>
      obtain rfl : d = .printStatement p := by simpa [List.find?_cons, hprint] using hp
      simp [meet, hg, bind, Except.bind]
    | false =>
      have hd' : meet g d = .ok (g ||| .ofList d.feature?.toList) :=
        meet_eq_ok.mpr ⟨hmeet, fun hp => absurd hp (by simp [hprint]), rfl⟩
      rw [hd']
      refine ih (Features.has_union.mpr (.inl hg)) ?_ hds
      simpa [List.find?_cons, hprint] using hp

/-! The demands of a tree are those of its nodes. -/

lemma Step.flatMap_ofShape {α β : Type} {φ : Step α → List β} (hφ : ∀ a, φ (.lacksDefault a) = []) (s : Shape α) :
    (ofShape s).flatMap φ = s.children.flatMap fun a => φ (.visit a) := by
  have hpos : ∀ (seen : Bool) (ps : List (α × Option α)), (positional seen ps).flatMap φ =
      ps.flatMap fun p => φ (.visit p.1) ++ p.2.toList.flatMap fun a => φ (.visit a) := by
    intro seen ps
    induction ps generalizing seen with
    | nil => rfl
    | cons p ps ih =>
      obtain ⟨a, d⟩ := p
      cases d with
      | none => cases seen <;> simp [positional, ih, hφ]
      | some d => simp [positional, ih]
  cases s with
  | arguments ps vararg ks kwarg =>
    simp [ofShape, Shape.children, hpos, List.flatMap_assoc, List.flatMap_map]
  | _ => simp [ofShape, List.flatMap_map]

lemma filterMap_demands {β : Type} {φ : Demand → Option β} (hφ : ∀ p, φ (.default p) = none) (n : Node) :
    (demands n).filterMap φ = n.walk.flatMap fun m => (own m).filterMap φ := by
  induction n using Node.ind with
  | h n ih =>
    have hsteps : ∀ a, (Step.demands (.lacksDefault a)).filterMap φ = [] := by simp [Step.demands, hφ]
    rw [demands_eq, List.filterMap_append, List.filterMap_flatMap, Step.flatMap_ofShape hsteps, Node.walk_eq,
      List.flatMap_cons, List.flatMap_assoc]
    congr 1
    exact List.flatMap_congr fun c hc => ih c hc

def isPrint (n : Node) : Bool := match n.shape with
  | .print .. => true
  | _ => false

lemma isPrint_of_mem_featureDemand {d : Demand} {n : Node} (h : d ∈ featureDemand n) : d.isPrint = false := by
  unfold featureDemand at h
  split at h
  · obtain rfl := List.mem_singleton.mp h
    rfl
  · cases h

lemma filter_isPrint_own (n : Node) : (own n).filter Demand.isPrint =
    if isPrint n then [.printStatement (placeOf n)] else [] := by
  unfold own
  split
  next h => simp [isPrint, h, Demand.isPrint]
  next h =>
    have hnames : ∀ names : List Node, (names.flatMap featureDemand).filter Demand.isPrint = [] := by
      intro names
      apply List.filter_eq_nil_iff.mpr
      intro d hd
      obtain ⟨m, -, hd⟩ := List.mem_flatMap.mp hd
      simp [isPrint_of_mem_featureDemand hd]
    have hnot : isPrint n = false := by simp [isPrint, h]
    simp only [hnot, Bool.false_eq_true, if_false]
    split_ifs
    · exact hnames _
    · rfl
  next h => simp [isPrint, h, Demand.isPrint]
  next h _ _ =>
    have hnot : isPrint n = false := by
      unfold isPrint
      split
      · exact absurd ‹_› (h _ _ _)
      · rfl
    simp [hnot]

lemma find?_demands (n : Node) : (demands n).find? Demand.isPrint =
    (n.walk.find? isPrint).map fun m => .printStatement (placeOf m) := by
  have hwalk : ∀ ns : List Node, (ns.flatMap fun m => (own m).filter Demand.isPrint) =
      (ns.filter isPrint).map fun m => .printStatement (placeOf m) := by
    intro ns
    induction ns with
    | nil => rfl
    | cons m ns ih =>
      rw [List.flatMap_cons, ih, filter_isPrint_own]
      cases hm : isPrint m <;> simp [hm]
  have hfilter := filterMap_demands (φ := Option.guard Demand.isPrint) (fun _ => rfl) n
  simp only [List.filterMap_eq_filter, hwalk] at hfilter
  rw [← List.head?_filter, hfilter, List.head?_map, List.head?_filter]

def Allows (f : Features) (n : Node) : Prop := f.has .printFunction = true → ∀ m ∈ n.walk, isPrint m = false

lemma find?_isPrint_eq_none {n : Node} : n.walk.find? isPrint = none ↔ ∀ m ∈ n.walk, isPrint m = false := by
  simp [List.find?_eq_none]

lemma check_iff_allows {n : Node} (h : check f n = .ok f') : (∃ g', check g n = .ok g') ↔ Allows g n := by
  have hfind := find?_demands n
  constructor
  · rintro ⟨g', hg'⟩ hhas
    rw [← find?_isPrint_eq_none]
    cases hm : n.walk.find? isPrint with
    | none => rfl
    | some m =>
      rw [hm, Option.map_some] at hfind
      rw [check, meetAll_eq_printStatement hhas hfind h] at hg'
      cases hg'
  · intro hallows
    by_cases hhas : g.has .printFunction = true
    · rw [find?_isPrint_eq_none.mpr (hallows hhas), Option.map_none, List.find?_eq_none] at hfind
      exact meetAll_of_not_isPrint (fun d hd => by simpa using hfind d hd) h
    · exact meetAll_of_has (fun hhas' => absurd hhas' hhas) h

end SourceBlocks.Dialect
