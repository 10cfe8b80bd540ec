/-
# CrewList.Store.Hierarchy -- what keeps the hierarchy of tasks in order

The table refers to itself.  Its constraints see one reference at a time: the parent is
there and is not the task itself.  That following parents ends at a root, and after one
step at that, is left to whoever writes the statements; the migration says so of the
two-level limit.  Here is what exactly is left to them, for any sequence of statements
from the empty table on, where an update keeps the id of the row it changes.

* `acyclic_exact`: a cycle comes of nothing but an update that puts a task under one of
  its own descendants;
* `depth_exact`: a third level comes of nothing but a child under a child, or a parent
  under a parent; and while there are two, a deletion takes the selected tasks and their
  children and no others.
-/
import CrewList.Store.Tasks
import CrewList.Theory.Runs

namespace CrewList.Store

open CrewList.Core
open CrewList.Theory
open CrewList.Theory.Cascade

set_option autoImplicit false

/-- An update changes one reference at most. -/
theorem TaskRow.replace_redirects (r : TaskRow) (rows : List TaskRow) :
    Redirects TaskRow.id TaskRow.parentId r.id r.replace rows where
  sameKey q _ := r.replace_id q
  sameRef q _ other := by rw [TaskRow.replace, if_neg other]

namespace Tasks

/-- The table after these statements, one after another. -/
def executeAll (t : Tasks) (ss : List Statement) : Tasks := ss.foldl execute t

/-- Following parents from any task ends at a root. -/
def Acyclic (t : Tasks) : Prop := Grounded TaskRow.id TaskRow.parentId t.rows

/-- What a statement may break it breaks if it takes effect. -/
theorem taken_or_refused {t : Tasks} {taken : Option Tasks} {P : Tasks → Prop} {breaks : Prop}
    (holds : P t) (takesEffect : breaks → taken.isSome = true)
    (exact : ∀ t', taken = some t' → (P t' ↔ ¬ breaks)) : P (taken.getD t) ↔ ¬ breaks := by
  cases taken with
  | none => exact iff_of_true holds fun broken => by cases takesEffect broken
  | some t' => exact exact t' rfl

/-! ## Cycles -/

/-- A new row refers to one that is there, so nothing leads to it yet. -/
theorem insert_acyclic {t t' : Tasks} {r : TaskRow} (acyclic : t.Acyclic)
    (inserted : t.insert r = some t') : t'.Acyclic := by
  have rows := (attempt_eq_some.mp inserted).2
  obtain ⟨-, -, -, parent⟩ := insert_accepted.mp ⟨t', inserted, rows⟩
  rw [Acyclic, rows]
  exact acyclic.cons parent

theorem delete_acyclic {t : Tasks} (acyclic : t.Acyclic) (where_ : TaskRow → Bool) :
    (t.delete where_).Acyclic :=
  Grounded.deleteKeys acyclic

/-- The statement is an update that takes effect and puts its task under a descendant of
the task. -/
def Loops (t : Tasks) : Statement → Prop
  | .update r =>
      (t.update r).isSome = true ∧ r.id ∈ t.rows.map TaskRow.id ∧
        ∃ p ∈ t.rows, r.parentId = some p.id ∧
          Below TaskRow.id TaskRow.parentId t.rows [r.id] p
  | _ => False

/-- What an accepted update leaves, if there is such a row, meets the checks. -/
theorem update_checks {t t' : Tasks} {r : TaskRow} (updated : t.update r = some t')
    (present : r.id ∈ t.rows.map TaskRow.id) : r ∈ t'.rows ∧ r.parentId ≠ some r.id := by
  obtain ⟨constraints, rows⟩ := attempt_eq_some.mp updated
  obtain ⟨q, member, same⟩ := List.mem_map.mp present
  have replaced : r ∈ t'.rows := by
    rw [rows]
    exact List.mem_map.mpr ⟨q, member, if_pos same⟩
  exact ⟨replaced, (TaskRow.checks_iff.mp (t'.constraints.checks r replaced)).2.2⟩

theorem update_acyclic {t t' : Tasks} {r : TaskRow} (acyclic : t.Acyclic)
    (updated : t.update r = some t') : t'.Acyclic ↔ ¬ t.Loops (.update r) := by
  obtain ⟨constraints, rows⟩ := attempt_eq_some.mp updated
  have exact := (TaskRow.replace_redirects r t.rows).grounded_iff t.constraints.primaryKey
    constraints.parentId acyclic
  rw [Acyclic, rows, exact]
  constructor
  · rintro free ⟨-, present, p, parent, refers, below⟩
    obtain ⟨q, member, same⟩ := List.mem_map.mp present
    refine free q member same p parent ?_ (.inr below)
    rwa [TaskRow.replace, if_pos same]
  · intro free q member same p parent refers leads
    rw [TaskRow.replace, if_pos same] at refers
    have present : r.id ∈ t.rows.map TaskRow.id := same ▸ List.mem_map_of_mem member
    rcases leads with self | below
    · exact (update_checks updated present).2 (self ▸ refers)
    · exact free ⟨by rw [updated]; rfl, present, p, parent, refers, below⟩

/-- **One statement** closes a cycle exactly if it is such an update. -/
theorem execute_acyclic (t : Tasks) (s : Statement) (acyclic : t.Acyclic) :
    (t.execute s).Acyclic ↔ ¬ t.Loops s := by
  cases s with
  | insert r =>
      refine iff_of_true ?_ id
      show ((t.insert r).getD t).Acyclic
      cases inserted : t.insert r with
      | none => exact acyclic
      | some t' => exact insert_acyclic acyclic inserted
  | delete where_ => exact iff_of_true (delete_acyclic acyclic where_) id
  | update r => exact taken_or_refused acyclic And.left fun _ => update_acyclic acyclic

/-- **When there are no cycles.**  Along any sequence of statements from the empty table,
following parents ends at a root all the time exactly when no update that takes effect
puts a task under one of its descendants. -/
theorem acyclic_exact (ss : List Statement) :
    (∀ done rest, ss = done ++ rest → (empty.executeAll done).Acyclic) ↔
      ∀ done s rest, ss = done ++ s :: rest → ¬ (empty.executeAll done).Loops s := by
  have start : empty.Acyclic := fun r member => absurd member List.not_mem_nil
  exact always_iff execute_acyclic start ss

/-! ## Levels -/

/-- The statement takes effect and puts a task under a child, or a task with children
under another. -/
def Deepens (t : Tasks) : Statement → Prop
  | .insert r =>
      (t.insert r).isSome = true ∧
        ∃ p ∈ t.rows, r.parentId = some p.id ∧ p.parentId ≠ none
  | .update r =>
      (t.update r).isSome = true ∧ r.id ∈ t.rows.map TaskRow.id ∧
        ∃ p ∈ t.rows, r.parentId = some p.id ∧
          (p.parentId ≠ none ∨ ∃ c ∈ t.rows, c.parentId = some r.id)
  | .delete _ => False

theorem parentId_ne_self {t : Tasks} {q : TaskRow} (member : q ∈ t.rows) :
    q.parentId ≠ some q.id :=
  (TaskRow.checks_iff.mp (t.constraints.checks q member)).2.2

/-- Of two rows in a row, the upper one is a root: what is new has to be so as well. -/
theorem insert_twoLevel {t t' : Tasks} {r : TaskRow} (twoLevel : t.TwoLevel)
    (inserted : t.insert r = some t') : t'.TwoLevel ↔ ¬ t.Deepens (.insert r) := by
  obtain ⟨constraints, rows⟩ := attempt_eq_some.mp inserted
  constructor
  · rintro still ⟨-, p, parent, refers, child⟩
    apply child
    apply still r _ p _ refers
    · rw [rows]
      exact .head _
    · rw [rows]
      exact .tail _ parent
  · intro shallow
    refine twoLevel.insert inserted fun p parent refers => ?_
    by_contra child
    exact shallow ⟨by rw [inserted]; rfl, p, parent, refers, child⟩

/-- A row an update does not touch is there before and after. -/
theorem mem_update_of_ne {t t' : Tasks} {r q : TaskRow} (updated : t.update r = some t')
    (other : q.id ≠ r.id) : q ∈ t'.rows ↔ q ∈ t.rows := by
  rw [(attempt_eq_some.mp updated).2, List.mem_map]
  constructor
  · rintro ⟨q', member, rfl⟩
    rw [TaskRow.replace_id] at other
    rwa [TaskRow.replace, if_neg other]
  · intro member
    exact ⟨q, member, if_neg other⟩

theorem mem_update {t t' : Tasks} {r q : TaskRow} (updated : t.update r = some t')
    (member : q ∈ t'.rows) :
    (q = r ∧ r.id ∈ t.rows.map TaskRow.id) ∨ (q.id ≠ r.id ∧ q ∈ t.rows) := by
  have inNew := member
  rw [(attempt_eq_some.mp updated).2] at inNew
  obtain ⟨q', old, rfl⟩ := List.mem_map.mp inNew
  by_cases same : q'.id = r.id
  · exact .inl ⟨if_pos same, same ▸ List.mem_map_of_mem old⟩
  · have other : (r.replace q').id ≠ r.id := by rwa [TaskRow.replace_id]
    exact .inr ⟨other, (mem_update_of_ne updated other).mp member⟩

theorem update_twoLevel {t t' : Tasks} {r : TaskRow} (twoLevel : t.TwoLevel)
    (updated : t.update r = some t') : t'.TwoLevel ↔ ¬ t.Deepens (.update r) := by
  have accepted : (t.update r).isSome = true := by rw [updated]; rfl
  constructor
  · rintro still ⟨-, present, p, parent, refers, deeper⟩
    obtain ⟨replaced, notSelf⟩ := update_checks updated present
    have otherParent : p.id ≠ r.id := fun same => notSelf (same ▸ refers)
    rcases deeper with child | ⟨c, member, below⟩
    · exact child (still r replaced p ((mem_update_of_ne updated otherParent).mpr parent) refers)
    · have otherChild : c.id ≠ r.id := fun same => parentId_ne_self member (same ▸ below)
      have root := still c ((mem_update_of_ne updated otherChild).mpr member) r replaced below
      rw [root] at refers
      cases refers
  · intro shallow q member p parent refers
    rcases mem_update updated member with ⟨rfl, present⟩ | ⟨-, child⟩
    · rcases mem_update updated parent with ⟨rfl, -⟩ | ⟨-, inTable⟩
      · exact absurd refers (parentId_ne_self parent)
      · by_contra deeper
        exact shallow ⟨accepted, present, p, inTable, refers, .inl deeper⟩
    · rcases mem_update updated parent with ⟨rfl, present⟩ | ⟨-, inTable⟩
      · cases above : p.parentId with
        | none => rfl
        | some k =>
            obtain ⟨upper', inNew, rfl⟩ :=
              List.mem_map.mp (t'.constraints.parentId p parent k above)
            rcases mem_update updated inNew with ⟨rfl, -⟩ | ⟨-, upper⟩
            · exact absurd above (parentId_ne_self parent)
            · exact absurd
                ⟨accepted, present, upper', upper, above, .inr ⟨q, child, refers⟩⟩ shallow
      · exact twoLevel q child p inTable refers

/-- **One statement** adds a level exactly if it is such an insert or update. -/
theorem execute_twoLevel (t : Tasks) (s : Statement) (twoLevel : t.TwoLevel) :
    (t.execute s).TwoLevel ↔ ¬ t.Deepens s := by
  cases s with
  | insert r => exact taken_or_refused twoLevel And.left fun _ => insert_twoLevel twoLevel
  | update r => exact taken_or_refused twoLevel And.left fun _ => update_twoLevel twoLevel
  | delete where_ => exact iff_of_true (twoLevel.delete where_) id

/-- Two levels are no cycle. -/
theorem TwoLevel.acyclic {t : Tasks} (twoLevel : t.TwoLevel) : t.Acyclic := by
  intro q member
  cases refers : q.parentId with
  | none => exact .root member refers
  | some k =>
      obtain ⟨p, parent, rfl⟩ := List.mem_map.mp (t.constraints.parentId q member k refers)
      exact .child member refers (.root parent (twoLevel q member p parent refers))

/-- **When there are two levels.**  Along any sequence of statements from the empty table,
a parent has no parent all the time exactly when no insert or update that takes effect
puts a task under a child, or a task with children under another.  While it is so there
are no cycles, and a deletion takes the selected tasks and their children and no
others. -/
theorem depth_exact (ss : List Statement) :
    ((∀ done rest, ss = done ++ rest → (empty.executeAll done).TwoLevel) ↔
        ∀ done s rest, ss = done ++ s :: rest → ¬ (empty.executeAll done).Deepens s) ∧
      ((empty.executeAll ss).TwoLevel →
        (empty.executeAll ss).Acyclic ∧
          ∀ where_ q, q ∈ (empty.executeAll (ss ++ [.delete where_])).rows ↔
            q ∈ (empty.executeAll ss).rows ∧ where_ q = false ∧
              ∀ p ∈ (empty.executeAll ss).rows, q.parentId = some p.id → where_ p = false) := by
  refine ⟨?_, fun twoLevel => ⟨twoLevel.acyclic, fun where_ q => ?_⟩⟩
  · have start : empty.TwoLevel := fun r member => absurd member List.not_mem_nil
    exact always_iff execute_twoLevel start ss
  · rw [executeAll, List.foldl_append]
    exact mem_delete_of_twoLevel twoLevel

end Tasks

end CrewList.Store
