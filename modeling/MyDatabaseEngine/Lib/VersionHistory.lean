/-
**The history of one record: redo, undo and overwrite.**

A record is present with a value or absent (`Option ρ`). A `Change` is one logged write with its
before- and after-image. `Runs changes x y` says that `changes`, performed one after the other on
`x`, gave `y`, each on the value its before-image names. Over such histories

* `redoAll` — replay forward: an insert is skipped when the record is there, an update overwrites;
* `undoAll` — revert backward: an insert removes the record, an update or a delete puts its
  before-image back *where the record is there*;
* `putAll` — what the writes leave: the last one wins.

`undoAll_runs`: undoing a history from its own result restores the start, except that a record
which was there and was deleted stays lost. `undoAll_some`: what undoing does to a value the history
was not run on is decided by the inserts among the changes and by the first before-image.
-/

import Mathlib.Data.Option.Basic
import Mathlib.Data.List.Basic

namespace VersionHistory

/-- One logged write of a record. -/
inductive Change (ρ : Type*)
  | insert (new : ρ)
  | update (old new : ρ)
  | delete (old : ρ)

variable {ρ : Type*}

namespace Change

/-- What the write leaves. -/
def put : Change ρ → Option ρ
  | insert new => some new
  | update _ new => some new
  | delete _ => none

/-- Replaying the write: an insert does not overwrite. -/
def redo : Change ρ → Option ρ → Option ρ
  | insert new, x => x.or (some new)
  | update _ new, _ => some new
  | delete _, _ => none

/-- Reverting the write: a before-image is put back only over a record that is there. -/
def undo : Change ρ → Option ρ → Option ρ
  | insert _, _ => none
  | update old _, x => x.map fun _ => old
  | delete old, x => x.map fun _ => old

/-- Whether the write is an insert. -/
def isInsert : Change ρ → Bool
  | insert _ => true
  | _ => false

/-- Whether the write is a delete. -/
def isDelete : Change ρ → Bool
  | delete _ => true
  | _ => false

/-- The before-image. -/
def old? : Change ρ → Option ρ
  | insert _ => none
  | update old _ => some old
  | delete old => some old

end Change

/-- **The changes were performed in order, each on the value its before-image names.** -/
inductive Runs : List (Change ρ) → Option ρ → Option ρ → Prop
  | nil (x : Option ρ) : Runs [] x x
  | cons {change : Change ρ} {rest : List (Change ρ)} {y : Option ρ} :
      Runs rest change.put y → Runs (change :: rest) change.old? y

theorem Runs.head {change : Change ρ} {rest : List (Change ρ)} {x y : Option ρ}
    (runs : Runs (change :: rest) x y) : x = change.old? ∧ Runs rest change.put y := by
  cases runs with
  | cons rest => exact ⟨rfl, rest⟩

theorem Runs.append {first second : List (Change ρ)} {x y z : Option ρ}
    (runs : Runs first x y) (more : Runs second y z) : Runs (first ++ second) x z := by
  induction runs with
  | nil _ => exact more
  | cons _ ih => exact .cons (ih more)

/-- A prefix of a history is a history. -/
theorem Runs.split {first second : List (Change ρ)} {x z : Option ρ}
    (runs : Runs (first ++ second) x z) : ∃ y, Runs first x y ∧ Runs second y z := by
  induction first generalizing x with
  | nil => exact ⟨x, .nil x, runs⟩
  | cons change first ih =>
    obtain ⟨rfl, rest⟩ := Runs.head runs
    obtain ⟨y, before, after⟩ := ih rest
    exact ⟨y, .cons before, after⟩

/-- A record that comes to be there was inserted. -/
theorem Runs.exists_insert {changes : List (Change ρ)} {r : ρ} (runs : Runs changes none (some r)) :
    ∃ change ∈ changes, change.isInsert := by
  generalize start : (none : Option ρ) = x at runs
  generalize result : some r = y at runs
  cases runs with
  | nil x => exact absurd (start.trans result.symm) nofun
  | @cons change rest =>
    refine ⟨change, List.mem_cons_self, ?_⟩
    cases change with
    | insert new => rfl
    | update old new => exact nomatch start
    | delete old => exact nomatch start

/-- Replay forward. -/
def redoAll (changes : List (Change ρ)) (x : Option ρ) : Option ρ :=
  changes.foldl (fun x change => change.redo x) x

/-- Revert backward. -/
def undoAll (changes : List (Change ρ)) (x : Option ρ) : Option ρ :=
  changes.foldr Change.undo x

/-- The last write wins. -/
def putAll (changes : List (Change ρ)) (x : Option ρ) : Option ρ :=
  changes.foldl (fun _ change => change.put) x

/-! ### Forward -/

theorem redoAll_cons (change : Change ρ) (rest : List (Change ρ)) (x : Option ρ) :
    redoAll (change :: rest) x = redoAll rest (change.redo x) := rfl

/-- **Replaying a history from its start gives its result.** -/
theorem redoAll_runs {changes : List (Change ρ)} {x y : Option ρ} (runs : Runs changes x y) :
    redoAll changes x = y := by
  induction runs with
  | nil x => rfl
  | @cons change rest y _ ih =>
    rw [redoAll_cons]
    have step : change.redo change.old? = change.put := by cases change <;> rfl
    rw [step, ih]

theorem putAll_runs {changes : List (Change ρ)} {x y : Option ρ} (runs : Runs changes x y) :
    putAll changes x = y := by
  induction runs with
  | nil x => rfl
  | cons _ ih => exact ih

/-- Replaying and overwriting agree on whether the record is there. -/
theorem isSome_redoAll (changes : List (Change ρ)) :
    ∀ {x y : Option ρ}, x.isSome = y.isSome →
      (redoAll changes x).isSome = (putAll changes y).isSome := by
  induction changes with
  | nil => exact fun same => same
  | cons change rest ih =>
    intro x y _
    refine ih ?_
    cases change with
    | insert new => cases x <;> rfl
    | update old new => rfl
    | delete old => rfl

/-! ### Backward -/

/-- An absent record stays absent. -/
theorem undoAll_none (changes : List (Change ρ)) : undoAll changes none = none := by
  induction changes with
  | nil => rfl
  | cons change rest ih =>
    show change.undo (undoAll rest none) = none
    rw [ih]
    cases change <;> rfl

/-- **Undoing a history from its own result**: the start comes back, except for a record that was
there and was deleted on the way. -/
theorem undoAll_runs {changes : List (Change ρ)} {x y : Option ρ} (runs : Runs changes x y) :
    undoAll changes y = if x.isSome ∧ ∃ change ∈ changes, change.isDelete then none else x := by
  induction runs with
  | nil x => simp [undoAll]
  | @cons change rest y _ ih =>
    show change.undo (undoAll rest y) = _
    rw [ih]
    cases change with
    | insert new => simp [Change.undo, Change.old?]
    | update old new =>
      have keeps : (Change.update old new).isDelete = false := rfl
      by_cases lost : ∃ c ∈ rest, c.isDelete
      · simp [Change.undo, Change.old?, Change.put, keeps, lost]
      · simp [Change.undo, Change.old?, Change.put, keeps, lost]
    | delete old => simp [Change.undo, Change.old?, Change.put, Change.isDelete]

/-- An insert anywhere in the changes removes the record. -/
theorem undoAll_of_insert {changes : List (Change ρ)}
    (inserted : ∃ change ∈ changes, change.isInsert) (x : Option ρ) : undoAll changes x = none := by
  induction changes with
  | nil => simp at inserted
  | cons change rest ih =>
    show change.undo (undoAll rest x) = none
    cases change with
    | insert new => rfl
    | update old new =>
      rw [ih (by simpa [Change.isInsert] using inserted)]
      rfl
    | delete old =>
      rw [ih (by simpa [Change.isInsert] using inserted)]
      rfl

/-- **Undoing changes that were not run on the value**: without an insert among them, the value
becomes the first before-image. -/
theorem undoAll_some {changes : List (Change ρ)}
    (noInsert : ¬ ∃ change ∈ changes, change.isInsert) (r : ρ) :
    undoAll changes (some r) = some ((changes.head?.bind Change.old?).getD r) := by
  induction changes with
  | nil => rfl
  | cons change rest ih =>
    have restNoInsert : ¬ ∃ c ∈ rest, c.isInsert := fun ⟨c, member, isInsert⟩ =>
      noInsert ⟨c, List.mem_cons_of_mem _ member, isInsert⟩
    show change.undo (undoAll rest (some r)) = _
    rw [ih restNoInsert]
    cases change with
    | insert new => exact absurd ⟨_, List.mem_cons_self, rfl⟩ noInsert
    | update old new => rfl
    | delete old => rfl

/-- **Undoing a history that was never applied**, on the value it started from: nothing changes,
unless the history inserts a record that was there at its start. -/
theorem undoAll_start {changes : List (Change ρ)} {x y : Option ρ} (runs : Runs changes x y) :
    undoAll changes x = if ∃ change ∈ changes, change.isInsert then none else x := by
  by_cases inserted : ∃ change ∈ changes, change.isInsert
  · rw [undoAll_of_insert inserted, if_pos inserted]
  · rw [if_neg inserted]
    cases x with
    | none => exact undoAll_none changes
    | some r =>
      rw [undoAll_some inserted]
      cases changes with
      | nil => rfl
      | cons change rest =>
        rw [List.head?_cons, Option.bind_some, ← (Runs.head runs).1]
        rfl

/-- **Overwriting against redo-then-undo.** `undone` was not run on the value `done` leaves;
reverting it there does nothing exactly when it is harmless: without an insert, and starting from
that value. -/
theorem undoAll_redoAll_eq_putAll_iff {undone done : List (Change ρ)}
    (agree : undone = [] → redoAll done none = putAll done none) :
    undoAll undone (redoAll done none) = putAll done none ↔
      ∀ row, putAll done none = some row → (¬ ∃ change ∈ undone, change.isInsert) ∧
        ∀ change, undone.head? = some change → change.old? = some row := by
  have present := isSome_redoAll done (x := (none : Option ρ)) (y := none) rfl
  cases left : putAll done none with
  | none =>
    rw [left, Option.isSome_none, Option.isSome_eq_false_iff, Option.isNone_iff_eq_none] at present
    rw [present, undoAll_none]
    simp
  | some row =>
    obtain ⟨row', redone⟩ := Option.isSome_iff_exists.mp (present.trans (by rw [left]; rfl))
    cases undone with
    | nil =>
      rw [agree rfl, left]
      simp [undoAll]
    | cons change rest =>
      rw [redone]
      by_cases inserted : ∃ c ∈ change :: rest, c.isInsert
      · rw [undoAll_of_insert inserted]
        constructor
        · intro impossible
          cases impossible
        · exact fun harmless => absurd inserted (harmless row rfl).1
      · rw [undoAll_some inserted]
        have harmless : (∀ row₁, some row = some row₁ → (¬ ∃ c ∈ change :: rest, c.isInsert) ∧
            ∀ c, (change :: rest).head? = some c → c.old? = some row₁) ↔ change.old? = some row :=
          ⟨fun all => (all row rfl).2 change rfl, by
            rintro first _ ⟨⟩
            exact ⟨inserted, by rintro _ ⟨⟩; exact first⟩⟩
        rw [harmless]
        cases change with
        | insert new => exact absurd ⟨_, List.mem_cons_self, rfl⟩ inserted
        | update old new => rfl
        | delete old => rfl

end VersionHistory
