/-
**What an update does to the rows of a heap.**

`updateRow` deletes the row and inserts the new one without a look at whether it found space.
`updateRow_keeps_rows_iff`: it replaces the row exactly when the new row's text fits in front of the
rows that are left and reads back as the new row. When it does not fit the old row is gone.

`Reachable` are the pools that any calls of a heap lead to, thrown ones included, with anything
others do to other pages in between. What an update should do is a matter of the rows: the old one
goes out and the new one comes in (`Replaces`), at whatever slot. The condition looks at the page
without the old row's slot: where the row data starts then, and how long the directory will be.
-/

import MyDatabaseEngine.Heap.HeapVisits

namespace MyDb

open Outcome SlotArray

namespace TableHeap

open BufferPool

variable {heap : TableHeap} {pool pool' : BufferPool} {page page' : Page} {order : RowOrder}
  {padding : Byte} {row newRow old : Row} {rid : RowId}

/-! ### Reachable heaps -/

/-- The calls that write to a heap's page. -/
inductive HeapCall
  | insert (order : RowOrder) (padding : Byte) (row : Row)
  | delete (rid : RowId)
  | update (order : RowOrder) (padding : Byte) (rid : RowId) (newRow : Row)

def HeapCall.run (heap : TableHeap) : HeapCall → EStateM Fault BufferPool Unit
  | .insert order padding row => do let _ ← heap.insertRow order padding row
  | .delete rid => do let _ ← deleteRow rid
  | .update order padding rid newRow => do let _ ← heap.updateRow order padding rid newRow

/-- **The heap in the states it can come to**: after any of its calls, whether they return or throw,
unless their behaviour is undefined, and after anything that writes no byte of its page. -/
inductive Reachable (heap : TableHeap) : BufferPool → Prop
  | create {pool pool' : BufferPool} : pool.Consistent → create pool = .ok heap pool' →
    Reachable heap pool'
  | call {pool : BufferPool} (c : HeapCall) : Reachable heap pool →
      (∀ pool', c.run heap pool ≠ .error .undefinedBehaviour pool') →
      Reachable heap (Outcome.after (c.run heap pool))
  | others {pool pool' : BufferPool} : Reachable heap pool → pool'.Consistent →
      pool'.content heap.firstPageId = pool.content heap.firstPageId → Reachable heap pool'

/-- The heap owns its page, or the behaviour was undefined. -/
def StillOwns (heap : TableHeap) (fault : Fault) (pool : BufferPool) : Prop :=
  fault = .undefinedBehaviour ∨ ∃ page, Owns heap pool page

theorem insertRow_owns (owns : Owns heap pool page) :
    Ends (heap.insertRow order padding row) pool (fun _ pool' => ∃ page', Owns heap pool' page')
      (StillOwns heap) := by
  rcases Nat.lt_or_ge page.dataStart (storedText order row).length with long | fits
  · have fails : insertIntoPage order padding page row = .error .undefinedBehaviour := by
      rcases insertIntoPage_cases order padding owns.well row with
        ⟨-, fails⟩ | ⟨fits, -⟩ | ⟨free, -⟩
      · exact fails
      · exact absurd fits (Nat.not_le.mpr long)
      · omega
    unfold insertRow
    refine fetching_ends owns.consistent owns.holds ?_ fun pinned fetched => ?_
    · exact fun fault pool' missed => .inr ⟨page, owns.of_moves missed.2.2.2⟩
    · unfold inMemory
      rw [fails]
      exact .inl rfl
  · refine (insertRow_ends owns.consistent owns.holds owns.well fits).mono ?_ ?_
    · rintro rid pool' ⟨page', inserts, moves⟩
      exact ⟨page', owns.of_update moves (inserts.kept owns.well)⟩
    · exact fun fault pool' missed => .inr ⟨page, owns.of_moves missed.2.2.2⟩

theorem deleteRow_owns (owns : Owns heap pool page) :
    Ends (deleteRow rid) pool (fun _ pool' => ∃ page', Owns heap pool' page') (StillOwns heap) := by
  by_cases onPage : rid.pageId = heap.firstPageId
  · refine (deleteRow_ends owns.consistent (onPage ▸ owns.holds) owns.well).mono ?_ ?_
    · rintro done pool' ⟨page', deletes, moves⟩
      exact ⟨page', owns.of_update (onPage ▸ moves) (deletes.kept owns.well)⟩
    · exact fun fault pool' missed => .inr ⟨page, owns.of_moves missed.2.2.2⟩
  · refine (deleteRow_visits owns.consistent).mono ?_ ?_
    · rintro done pool' ⟨⟨page', moves⟩, -⟩
      refine ⟨page, moves.consistent, ?_, owns.well, owns.id⟩
      rw [moves.content, Function.update_of_ne (Ne.symm onPage)]
      exact owns.holds
    · rintro fault pool' (undefined | moves)
      · exact .inl undefined
      · exact .inr ⟨page, owns.of_moves moves⟩

theorem updateRow_owns (owns : Owns heap pool page) :
    Ends (heap.updateRow order padding rid newRow) pool
      (fun _ pool' => ∃ page', Owns heap pool' page')
      (StillOwns heap) := by
  unfold updateRow
  refine Ends.bind (deleteRow_owns owns) ?_
  rintro done freed ⟨page', owns'⟩
  cases done with
  | false => exact ⟨page', owns'⟩
  | true => exact (insertRow_owns owns').bind fun _ _ kept => kept

/-- **The page of a reachable heap.** -/
theorem Reachable.owns (reached : Reachable heap pool) : ∃ page, Owns heap pool page := by
  induction reached with
  | create ok ran =>
    obtain ⟨page, owns, -⟩ := owns_create ok ran
    exact ⟨page, owns⟩
  | @call pool c _ defined ih =>
    obtain ⟨page, owns⟩ := ih
    have ends : Ends (c.run heap) pool (fun _ pool' => ∃ page', Owns heap pool' page')
        (StillOwns heap) := by
      cases c with
      | insert order padding row => exact (insertRow_owns owns).bind fun _ _ kept => kept
      | delete rid => exact (deleteRow_owns owns).bind fun _ _ kept => kept
      | update order padding rid newRow => exact (updateRow_owns owns).bind fun _ _ kept => kept
    cases ran : c.run heap pool with
    | ok _ pool' => exact ends.of_ok ran
    | error fault pool' =>
      refine (ends.of_error ran).resolve_left fun undefined => ?_
      exact defined pool' (undefined ▸ ran)
  | others _ ok same ih =>
    obtain ⟨page, owns⟩ := ih
    exact ⟨page, ok, same.trans owns.holds, owns.well, owns.id⟩

/-! ### Updates -/

/-- **What an update should do** to the rows of a heap, slot by slot: the row is replaced, in
whatever slot, or all rows are left as they are. -/
def Replaces (old newRow : Row) (before : List (Option Row)) (done : Bool)
    (after : List (Option Row)) :
    Prop :=
  (done = true ∧ entries after = newRow ::ₘ (entries before).erase old) ∨
    (done = false ∧ after = before)

/-- What is left without the row. -/
theorem entries_withoutSlot (well : page.WellSlotted) {i : Nat} (found : page.rowAt i = some old) :
    page.Live i ∧ entries (page.withoutSlot i).slots = (entries page.slots).erase old := by
  have live : page.Live i := by
    by_contra dead
    unfold Page.rowAt at found
    rw [if_neg dead] at found
    exact nomatch found
  rw [← Page.read_slots] at found
  refine ⟨live, ?_⟩
  rw [(well.freed_withoutSlot live.1).slots_eq, entries_remove found, Multiset.erase_cons_head]

/-- **When a row that was inserted replaces the old one.** -/
theorem replaces_iff (well : page.WellSlotted) {i : Nat} (found : page.rowAt i = some old)
    (text : storedText order newRow = serializeRowData order newRow)
    (inserts : Inserts order (page.withoutSlot i) newRow rid page') :
    Replaces old newRow page.slots true page'.slots ↔
      slotOffset (page.recordCount + 1) + (serializeRowData order newRow).length ≤
          (page.withoutSlot i).dataStart ∧
        deserializeRowData (serializeRowData order newRow) = newRow := by
  obtain ⟨live, left⟩ := entries_withoutSlot well found
  have freed := well.freed_withoutSlot live.1
  unfold Replaces
  rw [← left]
  simp only [true_and, Bool.true_eq_false, false_and, or_false]
  rcases inserts with ⟨-, free, grown⟩ | ⟨-, full, rfl⟩
  · rw [text, freed.recordCount] at free
    rw [grown.slots_eq, entries_add, text, Multiset.cons_inj_left]
    exact ⟨fun same => ⟨free, same⟩, And.right⟩
  · rw [text, freed.recordCount] at full
    refine iff_of_false (fun same => ?_) fun both => absurd both.1 (Nat.not_le.mpr full)
    have card := congrArg Multiset.card same
    rw [Multiset.card_cons] at card
    omega

/-- **When `updateRow` does what it should**, for a row of the heap and a new text no longer than
the data start of the page without the row: it can have no frame for the page, and changes nothing,
or the new text fits between the directory with a slot more and the rows that are left, and it reads
back as the new row. -/
theorem updateRow_keeps_rows_iff (reached : Reachable heap pool)
    (holds : pool.content heap.firstPageId = some page) (onPage : rid.pageId = heap.firstPageId)
    (found : page.rowAt rid.slotIndex = some old) (order : RowOrder) (padding : Byte) (newRow : Row)
    (fits : (serializeRowData order newRow).length ≤ (page.withoutSlot rid.slotIndex).dataStart) :
    Ends (heap.updateRow order padding rid newRow) pool
        (fun done pool' => ∃ page', pool'.content heap.firstPageId = some page' ∧
          Replaces old newRow page.slots done page'.slots)
        (fun _ pool' => pool'.content = pool.content) ↔
      (heap.firstPageId ∉ pool.pages ∧ pool.Full) ∨
        slotOffset (page.recordCount + 1) + (serializeRowData order newRow).length ≤
            (page.withoutSlot rid.slotIndex).dataStart ∧
          deserializeRowData (serializeRowData order newRow) = newRow := by
  obtain ⟨_, owns⟩ := reached.owns
  obtain rfl := Option.some.inj (holds.symm.trans owns.holds)
  have start : (page.withoutSlot rid.slotIndex).dataStart ≤ pageSize := Page.dataStart_le
  have size : pageSize = 4096 := rfl
  have text : storedText order newRow = serializeRowData order newRow :=
    storedText_of_short (by omega)
  have live := (entries_withoutSlot owns.well found).1
  have ends :=
    @updateRow_ends pool page order padding newRow rid heap owns.consistent holds owns.well
    onPage (text ▸ fits)
  cases ran : heap.updateRow order padding rid newRow pool with
  | error fault pool' =>
    obtain ⟨absent, -, full, moves⟩ := ends.of_error ran
    exact iff_of_true (ends_of_eq_error ran moves.content) (.inl ⟨absent, full⟩)
  | ok done pool' =>
    obtain ⟨rfl, -, newId, page', inserts, moves⟩ :=
      (ends.of_ok ran).resolve_right fun kept => kept.2.1 live
    have holds' : pool'.content heap.firstPageId = some page' := by
      rw [moves.content]
      exact Function.update_self ..
    -- a call that returned had a frame for the page
    have served : ¬ (heap.firstPageId ∉ pool.pages ∧ pool.Full) := by
      rintro ⟨absent, full⟩
      have refused : Ends (deleteRow rid) pool (fun _ _ => False) (fun _ _ => True) := by
        unfold deleteRow
        rw [onPage]
        exact ((fetchPage_refused owns.consistent full absent).mono (fun _ _ never => never)
          fun _ _ _ => trivial).bind nofun
      have throws : Ends (heap.updateRow order padding rid newRow) pool (fun _ _ => False)
          (fun _ _ => True) := refused.bind nofun
      exact throws.of_ok ran
    rw [or_iff_right served, ← replaces_iff owns.well found text inserts]
    constructor
    · intro property
      obtain ⟨_, same, replaces⟩ := property.of_ok ran
      obtain rfl := Option.some.inj (holds'.symm.trans same)
      exact replaces
    · exact fun replaces => ends_of_eq_ok ran ⟨page', holds', replaces⟩

theorem updateRow_keeps_rows_iff_oneRow :
    ∃ (heap : TableHeap) (pool : BufferPool) (page : Page),
      Reachable heap pool ∧ page.rowAt 0 = some (longRow 1) ∧
      (Ends (heap.updateRow default 0 ⟨0, 0⟩ (longRow 3)) pool
          (fun done pool' => ∃ page', pool'.content heap.firstPageId = some page' ∧
            Replaces (longRow 1) (longRow 3) page.slots done page'.slots)
          (fun _ pool' => pool'.content = pool.content) ↔
        (heap.firstPageId ∉ pool.pages ∧ pool.Full) ∨
          slotOffset (page.recordCount + 1) + (serializeRowData default (longRow 3)).length ≤
              (page.withoutSlot 0).dataStart ∧
            deserializeRowData (serializeRowData default (longRow 3)) = longRow 3) := by
  obtain ⟨heap, start, pool, pool', page, -, ok, created, isFirst, owns, ran, ready,
      owns', grown⟩ :=
    exists_oneRow
  have count : (Page.new 0).recordCount = 0 := Page.recordCount_new 0
  have reached : Reachable heap pool' := by
    have same : (HeapCall.insert default 0 (longRow 1)).run heap pool = .ok ⟨⟩ pool' := by
      show EStateM.bind _ _ pool = _
      unfold EStateM.bind
      rw [ran]
      rfl
    have call := Reachable.call (.insert default 0 (longRow 1)) (.create ok created)
      (by rw [same]; exact nofun)
    rwa [same] at call
  have found : page.rowAt 0 = some (longRow 1) := by
    have live := grown.live
    have text := grown.text
    rw [count] at live text
    unfold Page.rowAt
    rw [if_pos live, text]
    decide +kernel
  have fits : (serializeRowData default (longRow 3)).length ≤ (page.withoutSlot 0).dataStart := by
    have freed := owns'.well.freed_withoutSlot (entries_withoutSlot owns'.well found).1.1
    have empty : ∀ i, ¬ (page.withoutSlot 0).Live i := by
      rintro i ⟨counted, valid⟩
      rw [freed.recordCount, grown.recordCount, count] at counted
      obtain rfl := Nat.lt_one_iff.mp counted
      exact valid freed.dead
    rw [Page.dataStart_of_empty empty]
    decide +kernel
  exact ⟨heap, pool', page, reached, found,
    updateRow_keeps_rows_iff reached owns'.holds isFirst.symm found default 0 (longRow 3) fits⟩

instance : DecidableEq (List (Option Row)) := inferInstance

/-- A row is inserted, and replaced by one for which there is no space. -/
def unlucky : EStateM Fault BufferPool (Bool × List (List (Option Row))) := do
  let heap ← create
  let rid ← heap.insertRow default 0 (longRow 1)
  let before ← fetchPage heap.firstPageId
  let done ← heap.updateRow default 0 rid (longRow 4077)
  let after ← fetchPage heap.firstPageId
  return (done, [before.slots, after.slots])

/-- **An update that finds no space loses the row.** -/
theorem updateRow_loses_row :
    returned (unlucky onePagePool) = some (true, [[some (longRow 1)], [none]]) ∧
      ¬ Replaces (longRow 1) (longRow 4077) [some (longRow 1)] true [none] := by
  refine ⟨by decide +kernel, ?_⟩
  rintro (⟨-, same⟩ | ⟨never, -⟩)
  · exact absurd (congrArg Multiset.card same) (by decide)
  · exact nomatch never

end TableHeap

end MyDb
