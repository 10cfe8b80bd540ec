/-
# CrewList.Store.Tasks -- the table `tasks`

The columns of migration 0001 that its constraints read, and what PostgreSQL makes
of the constraints: a statement takes effect if the rows it leaves meet all of them,
and else leaves the table as it was.  A deletion always takes effect, because
`ON DELETE CASCADE` deletes whatever it would leave without its parent.

* `insert_accepted`: which rows can be added.  The foreign key is checked with the row
  in place, so it is `no_self_parent` that keeps a task from being its own parent;
* `mem_delete`: what a deletion leaves, and `mem_delete_of_twoLevel`: in the two-level
  hierarchy the server keeps, that is all but the tasks deleted and their children.

The updates modelled keep a task's id; one that gave a task another id would have to
be followed by the rows that refer to it.
-/
import CrewList.Store.Title
import CrewList.Theory.Cascade

namespace CrewList.Store

open CrewList.Core
open CrewList.Theory
open CrewList.Theory.Cascade

set_option autoImplicit false

structure TaskRow where
  id : TaskId
  title : PgText
  parentId : Option TaskId
  summary : Option PgText

/-! ## The constraints -/

/-- `CHECK (summary IS NULL OR char_length(summary) <= 2000)` -/
def summaryCheck : Option PgText → Bool
  | none => true
  | some summary => charLength summary.text.toList ≤ 2000

/-- `CONSTRAINT no_self_parent CHECK (parent_id IS DISTINCT FROM id)` -/
def noSelfParent (r : TaskRow) : Bool := r.parentId ≠ some r.id

/-- The `CHECK`s on one row. -/
def TaskRow.checks (r : TaskRow) : Bool :=
  titleCheck r.title && summaryCheck r.summary && noSelfParent r

theorem TaskRow.checks_iff {r : TaskRow} :
    r.checks = true ↔
      titleCheck r.title = true ∧ summaryCheck r.summary = true ∧ r.parentId ≠ some r.id := by
  simp [checks, noSelfParent, and_assoc]

/-- The row `q` after the row under `r.id` has become `r`. -/
def TaskRow.replace (r q : TaskRow) : TaskRow := if q.id = r.id then r else q

@[simp] theorem TaskRow.replace_id (r q : TaskRow) : (r.replace q).id = q.id := by
  unfold replace
  split
  · rename_i same
    exact same.symm
  · rfl

theorem TaskRow.replace_ids (r : TaskRow) (rows : List TaskRow) :
    (rows.map r.replace).map TaskRow.id = rows.map TaskRow.id := by
  simp [Function.comp_def]

/-- The rows meet the constraints of the table. -/
structure Constraints (rows : List TaskRow) : Prop where
  primaryKey : (rows.map TaskRow.id).Nodup
  checks : ∀ r ∈ rows, r.checks = true
  parentId : RefersWithin TaskRow.id TaskRow.parentId rows

instance (rows : List TaskRow) : Decidable (Constraints rows) :=
  decidable_of_iff
    ((rows.map TaskRow.id).Nodup ∧ (∀ r ∈ rows, r.checks = true) ∧
      RefersWithin TaskRow.id TaskRow.parentId rows)
    ⟨fun ⟨key, checks, parents⟩ => ⟨key, checks, parents⟩,
      fun ⟨key, checks, parents⟩ => ⟨key, checks, parents⟩⟩

/-- The table: rows that meet the constraints. -/
structure Tasks where
  rows : List TaskRow
  constraints : Constraints rows

namespace Tasks

/-! ## Statements -/

/-- The table as the migration creates it. -/
def empty : Tasks where
  rows := []
  constraints := ⟨.nil, by simp, by simp [RefersWithin]⟩

/-- A statement that would leave these rows. -/
def attempt (rows : List TaskRow) : Option Tasks :=
  if constraints : Constraints rows then some { rows, constraints } else none

/-- `INSERT` of one row. -/
def insert (t : Tasks) (r : TaskRow) : Option Tasks := attempt (r :: t.rows)

/-- `UPDATE` of the row under `r.id` to `r`, which keeps its id. -/
def update (t : Tasks) (r : TaskRow) : Option Tasks := attempt (t.rows.map r.replace)

/-- The ids a `WHERE` selects. -/
def selected (t : Tasks) (where_ : TaskRow → Bool) : List TaskId :=
  (t.rows.filter where_).map TaskRow.id

theorem attempt_eq_some {rows : List TaskRow} {t : Tasks} :
    attempt rows = some t ↔ Constraints rows ∧ t.rows = rows := by
  unfold attempt
  split
  · rename_i constraints
    rw [Option.some.injEq]
    constructor
    · rintro rfl
      exact ⟨constraints, rfl⟩
    · rintro ⟨-, rfl⟩
      rfl
  · rename_i violated
    simp [violated]

/-- `DELETE`, with `ON DELETE CASCADE`. -/
def delete (t : Tasks) (where_ : TaskRow → Bool) : Tasks where
  rows := deleteKeys TaskRow.id TaskRow.parentId (t.selected where_) t.rows
  constraints := {
    primaryKey := t.constraints.primaryKey.sublist (deleteKeys_sublist.map TaskRow.id)
    checks := fun r stays => t.constraints.checks r (mem_deleteKeys.mp stays).1
    parentId := t.constraints.parentId.deleteKeys }

/-! ## What a statement does -/

/-- A row is not there yet, and what its parent refers to is. -/
theorem insert_accepted {t : Tasks} {r : TaskRow} :
    (∃ t', t.insert r = some t' ∧ t'.rows = r :: t.rows) ↔
      r.id ∉ t.rows.map TaskRow.id ∧ titleCheck r.title = true ∧ summaryCheck r.summary = true ∧
        ∀ k ∈ r.parentId, k ∈ t.rows.map TaskRow.id := by
  constructor
  · rintro ⟨t', inserted, -⟩
    obtain ⟨⟨key, checks, parents⟩, -⟩ := attempt_eq_some.mp inserted
    obtain ⟨title, summary, notSelf⟩ := TaskRow.checks_iff.mp (checks r (.head _))
    refine ⟨(List.nodup_cons.mp key).1, title, summary, fun k parent => ?_⟩
    rcases List.mem_cons.mp (parents r (.head _) k parent) with rfl | earlier
    · exact absurd parent notSelf
    · exact earlier
  · rintro ⟨fresh, title, summary, parent⟩
    have notSelf : r.parentId ≠ some r.id := fun self => fresh (parent _ self)
    have constraints : Constraints (r :: t.rows) := {
      primaryKey := List.nodup_cons.mpr ⟨fresh, t.constraints.primaryKey⟩
      checks := List.forall_mem_cons.mpr
        ⟨TaskRow.checks_iff.mpr ⟨title, summary, notSelf⟩, t.constraints.checks⟩
      parentId := by
        intro q member k refers
        rcases List.mem_cons.mp member with rfl | old
        · exact .tail _ (parent k refers)
        · exact .tail _ (t.constraints.parentId q old k refers) }
    exact ⟨{ rows := r :: t.rows, constraints }, attempt_eq_some.mpr ⟨constraints, rfl⟩, rfl⟩

/-- An update is accepted if there is no such row, or the new one meets the checks and
its parent is there. -/
theorem update_accepted {t : Tasks} {r : TaskRow} :
    (∃ t', t.update r = some t') ↔
      (r.id ∈ t.rows.map TaskRow.id →
        r.checks = true ∧ ∀ k ∈ r.parentId, k ∈ t.rows.map TaskRow.id) := by
  constructor
  · rintro ⟨t', updated⟩ present
    obtain ⟨⟨-, checks, parents⟩, -⟩ := attempt_eq_some.mp updated
    obtain ⟨q, member, same⟩ := List.mem_map.mp present
    have replaced : r ∈ t.rows.map r.replace :=
      List.mem_map.mpr ⟨q, member, if_pos same⟩
    refine ⟨checks r replaced, fun k parent => ?_⟩
    rw [← r.replace_ids]
    exact parents r replaced k parent
  · intro meets
    have old : ∀ q ∈ t.rows, (r.replace q).checks = true ∧
        ∀ k ∈ (r.replace q).parentId, k ∈ t.rows.map TaskRow.id := by
      intro q member
      unfold TaskRow.replace
      split
      · rename_i same
        exact meets (same ▸ List.mem_map_of_mem member)
      · exact ⟨t.constraints.checks q member, t.constraints.parentId q member⟩
    have constraints : Constraints (t.rows.map r.replace) := {
      primaryKey := by
        rw [r.replace_ids]
        exact t.constraints.primaryKey
      checks := List.forall_mem_map.mpr fun q member => (old q member).1
      parentId := by
        intro q' member
        obtain ⟨q, inTable, rfl⟩ := List.mem_map.mp member
        rw [r.replace_ids]
        exact (old q inTable).2 }
    exact ⟨{ rows := t.rows.map r.replace, constraints },
      attempt_eq_some.mpr ⟨constraints, rfl⟩⟩

/-- The ids are unique, so a row is selected by its id exactly when it is selected. -/
theorem mem_selected {t : Tasks} {where_ : TaskRow → Bool} {q : TaskRow} (member : q ∈ t.rows) :
    q.id ∈ t.selected where_ ↔ where_ q = true := by
  constructor
  · intro byId
    obtain ⟨p, selected, same⟩ := List.mem_map.mp byId
    obtain ⟨inTable, chosen⟩ := List.mem_filter.mp selected
    have one := List.inj_on_of_nodup_map t.constraints.primaryKey inTable member same
    rwa [← one]
  · intro chosen
    exact List.mem_map_of_mem (List.mem_filter.mpr ⟨member, chosen⟩)

/-- **What a deletion leaves**: the rows it did not select and from which no chain of
parents leads to one it did. -/
theorem mem_delete {t : Tasks} {where_ : TaskRow → Bool} {q : TaskRow} :
    q ∈ (t.delete where_).rows ↔
      q ∈ t.rows ∧ where_ q = false ∧
        ¬ Below TaskRow.id TaskRow.parentId t.rows (t.selected where_) q := by
  show q ∈ deleteKeys _ _ _ _ ↔ _
  rw [mem_deleteKeys]
  refine and_congr_right fun member => and_congr_left fun _ => ?_
  rw [mem_selected member, Bool.not_eq_true]

/-! ## The hierarchy -/

/-- A parent has no parent. -/
def TwoLevel (t : Tasks) : Prop :=
  ∀ r ∈ t.rows, ∀ p ∈ t.rows, r.parentId = some p.id → p.parentId = none

/-- **Deleting from a two-level hierarchy** deletes the selected tasks and their
children, and nothing else. -/
theorem mem_delete_of_twoLevel {t : Tasks} (twoLevel : t.TwoLevel) {where_ : TaskRow → Bool}
    {q : TaskRow} :
    q ∈ (t.delete where_).rows ↔
      q ∈ t.rows ∧ where_ q = false ∧
        ∀ p ∈ t.rows, q.parentId = some p.id → where_ p = false := by
  rw [mem_delete]
  refine and_congr_right fun member => and_congr_right fun _ => ?_
  constructor
  · intro free p inTable refers
    rw [← Bool.not_eq_true, ← mem_selected inTable]
    exact fun target => free (.direct member refers target)
  · intro spared below
    cases below with
    | direct _ refers target =>
        obtain ⟨p, selected, rfl⟩ := List.mem_map.mp target
        obtain ⟨inTable, chosen⟩ := List.mem_filter.mp selected
        rw [spared p inTable refers] at chosen
        cases chosen
    | through _ refers above =>
        -- the parent is at the upper level, so its own chain cannot go on
        have top := twoLevel q member _ above.mem refers
        cases above with
        | direct _ further _ =>
            rw [top] at further
            cases further
        | through _ further _ =>
            rw [top] at further
            cases further

theorem TwoLevel.delete {t : Tasks} (twoLevel : t.TwoLevel) (where_ : TaskRow → Bool) :
    (t.delete where_).TwoLevel := by
  intro r stays p parentStays refers
  exact twoLevel r (mem_delete.mp stays).1 p (mem_delete.mp parentStays).1 refers

/-- The check the server is to make before it adds a child: the parent is a root. -/
theorem TwoLevel.insert {t t' : Tasks} (twoLevel : t.TwoLevel) {r : TaskRow}
    (inserted : t.insert r = some t')
    (underRoot : ∀ p ∈ t.rows, r.parentId = some p.id → p.parentId = none) : t'.TwoLevel := by
  obtain ⟨constraints, rows⟩ := attempt_eq_some.mp inserted
  obtain ⟨fresh, -⟩ := insert_accepted.mp ⟨t', inserted, rows⟩
  intro q member p parent refers
  rw [rows] at member parent
  rcases List.mem_cons.mp member with rfl | old
  · rcases List.mem_cons.mp parent with rfl | oldParent
    · exact absurd refers (TaskRow.checks_iff.mp (constraints.checks p (.head _))).2.2
    · exact underRoot p oldParent refers
  · rcases List.mem_cons.mp parent with rfl | oldParent
    -- no old row refers to the new one
    · exact absurd (t.constraints.parentId q old p.id refers) fresh
    · exact twoLevel q old p oldParent refers

/-! ## Runs of statements -/

/-- An update keeps the id of the row it changes. -/
inductive Statement where
  | insert (r : TaskRow)
  | update (r : TaskRow)
  | delete (where_ : TaskRow → Bool)

/-- The table after a statement; one that is refused leaves it as it was. -/
def execute (t : Tasks) : Statement → Tasks
  | .insert r => (t.insert r).getD t
  | .update r => (t.update r).getD t
  | .delete where_ => t.delete where_

/-- The constraints alone admit a cycle, which an update of `parent_id` can close. -/
example : Constraints
    [{ id := 1, title := ⟨"a", by decide⟩, parentId := some 2, summary := none },
      { id := 2, title := ⟨"b", by decide⟩, parentId := some 1, summary := none }] := by
  decide

end Tasks

end CrewList.Store
