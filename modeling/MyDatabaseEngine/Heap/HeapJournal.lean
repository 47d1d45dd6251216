/-
**What becomes of a heap's rows when the process stops.**

The changes that a heap has seen are the one cell of a memory that is written back later
(`Journal`): every insertion and deletion adds a change at the end, a flush settles the changes so
far, and a crash goes back to how far they had got at some moment since. `Kept` is what follows for
one row: whatever happened before a flush is not undone by any later crash.
-/

import MyDatabaseEngine.Heap.HeapHistory
import MyDatabaseEngine.Lib.WriteBack

namespace MyDb

open SlotArray

namespace TableHeap

/-- What happens to a heap in a process that may stop. -/
inductive CrashEvent
  | heap (event : HeapEvent)
  /-- All pages are flushed, or the heap's. -/
  | flushed
  /-- The process stops, and starts again on the file that is left. -/
  | crashed

def CrashEvent.change? (heap : TableHeap) : CrashEvent → Option (Change Row)
  | .heap event => event.change? heap
  | _ => none

/-- **The changes that a heap has seen**, as a memory of one cell. -/
abbrev Journal := WriteBack Unit (List (Change Row))

/-- A change is added at the end. -/
def addsChange (_ : Unit) (old new : List (Change Row)) : Prop := ∃ change, new = old ++ [change]

/-- The changes a heap has seen now. -/
def Journal.changes (journal : Journal) : List (Change Row) := journal.now ()

/-- The journal of a heap that has just been made. -/
def Journal.empty : Journal := .idle fun _ => []

/-- **What an event does to the journal.** The id of an inserted row is the number of slots given so
far. -/
inductive JournalStep (heap : TableHeap) (journal : Journal) : CrashEvent → Journal → Prop
  | changed {event : HeapEvent} {change : Change Row} :
      event.change? heap = some change →
      (∀ row rid, event = .inserted row rid →
        rid = { pageId := heap.firstPageId, slotIndex := (after [] journal.changes).length }) →
      JournalStep heap journal (.heap event) (journal.write () (journal.changes ++ [change]))
  | unchanged {event : HeapEvent} :
      event.change? heap = none → JournalStep heap journal (.heap event) journal
  | flushed : JournalStep heap journal .flushed (journal.settle Set.univ)
  | crashed {journal' : Journal} :
      WriteBack.Step addsChange journal .crash journal' → JournalStep heap journal .crashed journal'

/-- **A run of the journal.** -/
inductive JournalRun (heap : TableHeap) (journal : Journal) : List CrashEvent → Journal → Prop
  | nil : JournalRun heap journal [] journal
  | concat {events : List CrashEvent} {event : CrashEvent} {journal' journal'' : Journal} :
      JournalRun heap journal events journal' → JournalStep heap journal' event journal'' →
      JournalRun heap journal (events ++ [event]) journal''

variable {heap : TableHeap} {journal journal' : Journal} {events front back : List CrashEvent}
  {event : CrashEvent} {row : Row} {rid : RowId} {i : Nat}

theorem changes_write (journal : Journal) (changes : List (Change Row)) :
    Journal.changes (journal.write () changes) = changes := WriteBack.now_write_self

/-! ### Runs in parts -/

/-- **A run taken apart at an event.** -/
theorem JournalRun.split (run : JournalRun heap journal events journal') :
    ∀ {front back : List CrashEvent} {event : CrashEvent}, events = front ++ event :: back →
      ∃ before after, JournalRun heap journal front before ∧ JournalStep heap before event after ∧
        JournalRun heap after back journal' := by
  induction run with
  | nil =>
    intro front back event same
    exact absurd same.symm (List.append_ne_nil_of_right_ne_nil _ (List.cons_ne_nil _ _))
  | @concat events last journal' journal'' run step ih =>
    intro front back event same
    rcases List.eq_nil_or_concat back with rfl | ⟨back, last', rfl⟩
    · obtain ⟨rfl, isLast⟩ := List.append_inj' same rfl
      obtain rfl := List.head_eq_of_cons_eq isLast
      exact ⟨journal', journal'', run, step, .nil⟩
    · rw [List.concat_eq_append, ← List.cons_append, ← List.append_assoc] at same
      obtain ⟨rfl, isLast⟩ := List.append_inj' same rfl
      obtain rfl := List.head_eq_of_cons_eq isLast
      obtain ⟨before, after, first, middle, next⟩ := ih rfl
      exact ⟨before, after, first, middle, List.concat_eq_append ▸ next.concat step⟩

/-- Without a crash the journal sees every change. -/
theorem JournalRun.changes_eq (run : JournalRun heap journal events journal')
    (noCrash : .crashed ∉ events) :
    journal'.changes = journal.changes ++ events.filterMap (CrashEvent.change? heap) := by
  induction run with
  | nil => exact (List.append_nil _).symm
  | @concat events event journal' journal'' run step ih =>
    have before := ih fun member => noCrash (List.mem_append_left _ member)
    rw [List.filterMap_append, ← List.append_assoc, ← before]
    cases step with
    | @changed event change changes _ =>
      rw [changes_write, List.filterMap_cons_some (by exact changes)]
      rfl
    | @unchanged event nothing =>
      rw [List.filterMap_cons_none (by exact nothing)]
      exact (List.append_nil _).symm
    | flushed => exact (List.append_nil _).symm
    | crashed => exact absurd (List.mem_append_right _ (List.mem_singleton_self _)) noCrash

/-! ### What is flushed -/

/-- The changes go on from these, with changes made by `events`. -/
def GoesOn (heap : TableHeap) (events : List CrashEvent) (flushed changes : List (Change Row)) :
    Prop :=
  ∃ later, changes = flushed ++ later ∧ ∀ change ∈ later, ∃ event ∈ events,
    event.change? heap = some change

theorem GoesOn.mono {flushed changes : List (Change Row)}
    (goesOn : GoesOn heap front flushed changes) (sub : front ⊆ back) :
    GoesOn heap back flushed changes := by
  obtain ⟨later, split, made⟩ := goesOn
  refine ⟨later, split, fun change member => ?_⟩
  obtain ⟨event, among, changes⟩ := made change member
  exact ⟨event, sub among, changes⟩

/-- **Step lemma**: what was flushed is never undone. -/
theorem JournalStep.goesOn {flushed : List (Change Row)}
    (step : JournalStep heap journal event journal') (among : event ∈ events)
    (always : journal.Always () (GoesOn heap events flushed)) :
    journal'.Always () (GoesOn heap events flushed) := by
  cases step with
  | @changed event change changes _ =>
    refine (@WriteBack.Step.write _ _ _ addsChange _ _ _ ⟨change, rfl⟩).always ?_ always
    rintro _ same ⟨later, split, made⟩
    obtain ⟨-, rfl⟩ := WriteBack.Op.write.inj same
    refine ⟨later ++ [change], ?_, fun other member => ?_⟩
    · rw [← List.append_assoc, ← split]
    · rcases List.mem_append.mp member with member | member
      · exact made other member
      · rw [List.mem_singleton.mp member]
        exact ⟨_, among, changes⟩
  | unchanged => exact always
  | flushed =>
    exact (@WriteBack.Step.settle _ _ _ addsChange _ _).always (fun _ same => nomatch same) always
  | crashed crash => exact crash.always (fun _ same => nomatch same) always

/-- **Run lemma.** -/
theorem JournalRun.goesOn {flushed : List (Change Row)}
    (run : JournalRun heap journal events journal')
    (always : journal.Always () (GoesOn heap [] flushed)) :
    journal'.Always () (GoesOn heap events flushed) := by
  induction run with
  | nil => exact always
  | @concat events event _ _ _ step ih =>
    refine step.goesOn (List.mem_append_right _ (List.mem_singleton_self event))
      ⟨?_, fun value member => ?_⟩
    · exact ih.now.mono (List.subset_append_left _ _)
    · exact (ih.since value member).mono (List.subset_append_left _ _)

/-- A removal is the deletion of the id. -/
theorem removes_iff : event.change? heap = some (.remove i) ↔
    event = .heap (.deleted { pageId := heap.firstPageId, slotIndex := i } true) := by
  cases event with
  | heap event =>
    rw [CrashEvent.heap.injEq]
    exact change?_eq_remove
  | flushed => exact iff_of_false nofun nofun
  | crashed => exact iff_of_false nofun nofun

theorem JournalStep.inserted (step : JournalStep heap journal (.heap (.inserted row rid)) journal')
    (valid : rid.valid = true) :
    rid = { pageId := heap.firstPageId, slotIndex := (after [] journal.changes).length } ∧
      journal'.changes = journal.changes ++ [.add row] := by
  have adds : HeapEvent.change? heap (.inserted row rid) = some (.add row) := if_pos valid
  cases step with
  | changed changes given =>
    obtain rfl := Option.some.inj (adds.symm.trans changes)
    exact ⟨given row rid rfl, changes_write ..⟩
  | unchanged nothing => exact nomatch nothing.symm.trans adds

/-- **A row that is inserted and then flushed**, with no crash in between, is in its slot after
anything that follows, unless it is deleted; and if it was deleted before the flush, its slot is
empty. -/
theorem JournalRun.read_flushed {first middle : List CrashEvent}
    (run : JournalRun heap journal events journal')
    (split : events = first ++ .heap (.inserted row rid) :: middle ++ .flushed :: back)
    (valid : rid.valid = true) (noCrash : .crashed ∉ middle) :
    rid.pageId = heap.firstPageId ∧
      (.heap (.deleted rid true) ∉ middle ++ back →
        read (after [] journal'.changes) rid.slotIndex = some row) ∧
      (.heap (.deleted rid true) ∈ middle →
        read (after [] journal'.changes) rid.slotIndex = none) := by
  rw [List.append_assoc, List.cons_append] at split
  obtain ⟨j₁, j₂, -, inserts, run₂⟩ := run.split split
  obtain ⟨j₃, j₄, run₃, flushes, run₄⟩ := run₂.split rfl
  obtain ⟨numbered, changes₂⟩ := inserts.inserted valid
  -- nothing is lost up to the flush, and nothing of that later
  have changes₃ := run₃.changes_eq noCrash
  have settled : j₄.Always () (GoesOn heap [] j₃.changes) := by
    cases flushes with
    | flushed =>
      exact WriteBack.always_settle ⟨[], (List.append_nil _).symm, nofun⟩ (Set.mem_univ _)
  obtain ⟨later, changes, made⟩ := (run₄.goesOn settled).now
  have whole : journal'.changes =
      j₁.changes ++ .add row :: (middle.filterMap (CrashEvent.change? heap) ++ later) := by
    rw [show journal'.changes = j₃.changes ++ later from changes, changes₃, changes₂]
    simp only [List.append_assoc, List.cons_append, List.nil_append]
  have slot : rid.slotIndex = (after [] j₁.changes).length := congrArg RowId.slotIndex numbered
  have isDeleted : ∀ {event : CrashEvent}, event.change? heap = some (.remove rid.slotIndex) ↔
      event = .heap (.deleted rid true) := by
    intro event
    rw [removes_iff, slot, ← numbered]
  refine ⟨congrArg RowId.pageId numbered, ?_⟩
  rw [whole, slot, read_after_add, ← slot]
  constructor
  · intro kept
    refine if_neg fun member => kept ?_
    rcases List.mem_append.mp member with member | member
    · obtain ⟨event, among, removes⟩ := List.mem_filterMap.mp member
      exact List.mem_append_left _ (isDeleted.mp removes ▸ among)
    · obtain ⟨event, among, removes⟩ := made _ member
      exact List.mem_append_right _ (isDeleted.mp removes ▸ among)
  · intro deleted
    refine if_pos (List.mem_append_left _ ?_)
    exact List.mem_filterMap.mpr ⟨_, deleted, isDeleted.mpr rfl⟩

/-- Every row of these slots was inserted under the id it has. -/
def AllInserted (heap : TableHeap) (events : List CrashEvent) (changes : List (Change Row)) :
    Prop :=
  ∀ i row, read (after [] changes) i = some row →
    .heap (.inserted row { pageId := heap.firstPageId, slotIndex := i }) ∈ events

/-- **Step lemma**: crashes bring up no row that was never inserted. -/
theorem JournalStep.allInserted (step : JournalStep heap journal event journal')
    (among : event ∈ events) (always : journal.Always () (AllInserted heap events)) :
    journal'.Always () (AllInserted heap events) := by
  cases step with
  | @changed event change changes given =>
    refine (@WriteBack.Step.write _ _ _ addsChange _ _ _ ⟨change, rfl⟩).always ?_ always
    rintro _ same inserted i row found
    obtain ⟨-, rfl⟩ := WriteBack.Op.write.inj same
    rw [after_concat, show journal.now () = journal.changes from rfl] at found
    cases change with
    | remove j =>
      by_cases here : j = i
      · rw [here, read_remove_self] at found
        exact nomatch found
      · refine inserted i row ((read_apply_of_ne (fun k same => ?_) nofun).symm.trans found)
        exact Change.remove.inj same ▸ here
    | add row' =>
      by_cases here : i = (after [] journal.changes).length
      · obtain ⟨rid, rfl, valid⟩ := change?_eq_add.mp changes
        rw [here, read_add_self] at found
        obtain rfl := Option.some.inj found
        rw [here, ← given _ _ rfl]
        exact among
      · refine inserted i row
          ((read_apply_of_ne (fun k never => ?_) fun _ _ => here).symm.trans found)
        exact nomatch never
  | unchanged => exact always
  | flushed =>
    exact (@WriteBack.Step.settle _ _ _ addsChange _ _).always (fun _ same => nomatch same) always
  | crashed crash => exact crash.always (fun _ same => nomatch same) always

theorem AllInserted.mono {changes : List (Change Row)} (inserted : AllInserted heap front changes)
    (sub : front ⊆ back) : AllInserted heap back changes :=
  fun i row found => sub (inserted i row found)

/-- **Run lemma.** -/
theorem JournalRun.allInserted (run : JournalRun heap journal events journal')
    (always : journal.Always () (AllInserted heap [])) :
    journal'.Always () (AllInserted heap events) := by
  induction run with
  | nil => exact always
  | @concat events event _ _ _ step ih =>
    have among : event ∈ events ++ [event] :=
      List.mem_append_right _ (List.mem_singleton_self event)
    refine step.allInserted among ⟨?_, fun value member => ?_⟩
    · exact ih.now.mono (List.subset_append_left _ _)
    · exact (ih.since value member).mono (List.subset_append_left _ _)

end TableHeap

end MyDb
