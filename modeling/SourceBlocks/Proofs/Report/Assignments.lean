import SourceBlocks.Proofs.Block.Tiling
import SourceBlocks.Proofs.Literal.Refused
import SourceBlocks.Report.Response

namespace SourceBlocks

open Outcome
open SourceBlocks.Tree (Node Shape)

def Statement.singleTarget? (s : Statement) : Option (Node × Node) := match s.root? with
  | .ok (some r) => match r.node.shape with
    | .assign [target] value => some (target, value)
    | _ => none
  | _ => none

namespace Statement

variable {s : Statement} {root : Option Root} {target value : Node}

lemma singleTarget?_eq_some : s.singleTarget? = some (target, value) ↔
    ∃ r, s.root? = .ok (some r) ∧ r.node.shape = .assign [target] value := by
  unfold singleTarget?
  constructor
  · intro h
    split at h
    · next r hr =>
      split at h
      · next hshape =>
        cases h
        exact ⟨r, hr, hshape⟩
      · cases h
    · cases h
  · rintro ⟨r, hr, hshape⟩
    simp [hr, hshape]

lemma isAssignment_eq (h : s.root? = .ok root) : s.isAssignment = .ok s.singleTarget?.isSome := by
  simp only [isAssignment, nodeIs, singleTarget?, h]
  cases root with
  | none => rfl
  | some r =>
    change Except.ok (isAssignNode r.node) = _
    unfold isAssignNode
    split <;> simp_all

lemma assignedName?_of_name {n : Node} {id : String} (h : n.shape = .assign [target] value)
    (hid : target.shape = .name id) : assignedName? n = some (id, value) := by
  simp [assignedName?, h, hid]

lemma assignedName?_of_no_name {n : Node} (h : n.shape = .assign [target] value)
    (hid : ∀ id, target.shape ≠ .name id) : assignedName? n = none := by
  simp [assignedName?, h]

end Statement

namespace Report

def Json.field? (name : String) : Json → Option Json
  | .object fields => (fields.find? (·.1 = name)).map Prod.snd
  | _ => none

/-- An entry says where a statement starts, the name it assigns to if its target is one, and either the value of the
literal it assigns or what is wrong with it. -/
structure Describes (s : Statement) (target value : Node) (e : Json) : Prop where
  start : e.field? "start" = some (position s.text.start)
  name : ∀ id, e.field? "name" = some (.string id) ↔ target.shape = .name id
  noName : e.field? "name" = some .null ↔ ∀ id, target.shape ≠ .name id
  value : ∀ j, e.field? "value" = some j ↔
    ∃ id v, target.shape = .name id ∧ Literal.eval value = .ok v ∧ Json.string v.render = j
  error : ∀ j, e.field? "error" = some j ↔ ∃ err, s.assignment = .error err ∧ Json.string err.message = j
  one : (e.field? "value").isSome ↔ ¬(e.field? "error").isSome

variable {s : Statement} {target value : Node}

lemma assignment_cases (h : s.singleTarget? = some (target, value)) :
    (∃ id v, target.shape = .name id ∧ Literal.eval value = .ok v ∧ s.assignment = .ok (id, v)) ∨
    (∃ id m, target.shape = .name id ∧ Literal.eval value = .error (.literal m) ∧
      s.assignment = .error (.literal m) ∧ targetName? s = .ok (some id)) ∨
    (∀ id, target.shape ≠ .name id) ∧ (∃ m, s.assignment = .error (.usage m)) ∧ targetName? s = .ok none := by
  obtain ⟨r, hr, hshape⟩ := Statement.singleTarget?_eq_some.mp h
  by_cases hid : ∃ id, target.shape = .name id
  · obtain ⟨id, hid⟩ := hid
    have hname := Statement.assignedName?_of_name hshape hid
    cases hv : Literal.eval value with
    | ok v =>
      refine .inl ⟨id, v, hid, rfl, ?_⟩
      simp [Statement.assignment, hr, hname, hv, bind, Except.bind, pure, Except.pure]
    | error e =>
      obtain ⟨m, rfl⟩ := Literal.refusesOnly_eval value e hv
      refine .inr (.inl ⟨id, m, hid, rfl, ?_, ?_⟩)
      · simp [Statement.assignment, hr, hname, hv, bind, Except.bind]
      · simp [targetName?, hr, hname, bind, Except.bind, pure, Except.pure]
  · have hname := Statement.assignedName?_of_no_name hshape (not_exists.mp hid)
    refine .inr (.inr ⟨not_exists.mp hid, ?_, ?_⟩)
    · simp [Statement.assignment, hr, hname, bind, Except.bind]
    · simp [targetName?, hr, hname, bind, Except.bind, pure, Except.pure]

lemma exists_assignmentEntry (h : s.singleTarget? = some (target, value)) :
    ∃ e, assignmentEntry s = .ok e ∧ Describes s target value e := by
  rcases assignment_cases h with ⟨id, v, hid, hv, hassign⟩ | ⟨id, m, hid, hv, hassign, hname⟩ |
    ⟨hid, ⟨m, hassign⟩, hname⟩
  · refine ⟨_, by rw [assignmentEntry, hassign]; rfl, ?_⟩
    constructor <;> simp [Json.field?, hid, hv, hassign, orNull]
  · refine ⟨_, by rw [assignmentEntry, hassign, hname]; rfl, ?_⟩
    constructor <;> simp [Json.field?, hid, hv, hassign, orNull]
  · refine ⟨_, by rw [assignmentEntry, hassign, hname]; rfl, ?_⟩
    constructor <;> simp [Json.field?, hid, hassign, orNull]

/-- Entries that stand for the statements that assign to one target, in their order. -/
def DescribesAll (ss : List Statement) (entries : List Json) : Prop :=
  List.Forall₂ (fun s e => ∃ target value, s.singleTarget? = some (target, value) ∧ Describes s target value e)
    (ss.filter (·.singleTarget?.isSome)) entries

lemma exists_assignmentEntries {ss : List Statement} {roots : List (Option Root)}
    (h : List.Forall₂ (fun s root => s.root? = .ok root) ss roots) :
    ∃ entries, assignmentEntries ss = .ok entries ∧ DescribesAll ss entries := by
  induction h with
  | nil => exact ⟨[], rfl, .nil⟩
  | @cons s root ss roots hs _ ih =>
    obtain ⟨entries, hentries, hall⟩ := ih
    rw [assignmentEntries, Statement.isAssignment_eq hs]
    cases htarget : s.singleTarget? with
    | none => exact ⟨entries, hentries, by simpa [DescribesAll, htarget] using hall⟩
    | some a =>
      obtain ⟨target, value⟩ := a
      obtain ⟨e, he, hd⟩ := exists_assignmentEntry htarget
      refine ⟨e :: entries, ?_, ?_⟩
      · change (assignmentEntry s >>= _) = _
        rw [he, hentries]
        rfl
      · rw [DescribesAll, List.filter_cons_of_pos (by simp [htarget])]
        exact .cons ⟨target, value, htarget, hd⟩ hall

/-- The report on assignments of a block with statements: one entry for each statement that assigns to one target, in
the order of the statements. -/
theorem assignments_complete {b : Block} {ss : List Statement} (hb : b.Reachable) (hss : b.statements = .ok ss) :
    ∃ entries, assignments b = .ok (.object (header "ok" ++ fileField b ++ [("assignments", .array entries)])) ∧
      DescribesAll ss entries := by
  obtain ⟨roots, hroots, -⟩ := (hb.tiled hss).nodes
  obtain ⟨entries, hentries, hall⟩ := exists_assignmentEntries (mapM_eq_ok.mp hroots)
  refine ⟨entries, ?_, hall⟩
  simp only [assignments, hss, bind, Except.bind, hentries]
  rfl

def mixed : Block := .ofText (Text.ofString "a = -1\nb = f(2)\n# c\nd.e = 3\ng = h = 4\n[i] = 'j'") .none

theorem assignments_complete_mixed :
    ∃ ss entries, mixed.statements = .ok ss ∧ ss.length = 6 ∧
      (ss.filter (·.singleTarget?.isSome)).map (·.text.joined) =
        ["a = -1\n", "b = f(2)\n", "d.e = 3\n", "[i] = 'j'"] ∧
      assignments mixed = .ok (.object (header "ok" ++ fileField mixed ++ [("assignments", .array entries)])) ∧
      DescribesAll ss entries := by
  have hkept : mixed.statements.map
      (fun ss => (ss.length, (ss.filter (·.singleTarget?.isSome)).map (·.text.joined))) =
      .ok (6, ["a = -1\n", "b = f(2)\n", "d.e = 3\n", "[i] = 'j'"]) := by
    decide +kernel
  obtain ⟨ss, hss, h⟩ := map_eq_ok.mp hkept
  obtain ⟨hlen, hlines⟩ := Prod.mk.inj h
  obtain ⟨entries, hreport, hall⟩ := assignments_complete (.ofText _ _) hss
  exact ⟨ss, entries, hss, hlen, hlines, hreport, hall⟩

end Report

end SourceBlocks
