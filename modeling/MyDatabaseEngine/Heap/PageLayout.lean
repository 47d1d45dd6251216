/-
**What a slotted page holds.**

On a `WellSlotted` page the directory and the texts of the live rows lie side by side within the
page. `insertIntoPage_cases` says all that an insertion can do to such a page, for a text of any
length: leave it as it is, add a slot at the end of the directory (`Grown`), or write outside the
page. Taking a slot back (`Page.setSlotEntry` with `valid = 0`) leaves everything else as it is
(`Freed`).

A page is read by slices of its bytes, and a write changes the slices it overlaps; the lemmas on
`written` say so once, and the rest is where things stand. The offset of a slot that is not in use
may be anything. `withoutSlot` is the page after a deletion, whether or not the slot was in use.
-/

import MyDatabaseEngine.Heap.SlottedPage

namespace MyDb

/-! ### Reading -/

namespace SlotEntry

@[simp]
theorem length_bytes (entry : SlotEntry) : entry.bytes.length = slotSize := by
  unfold bytes
  simp only [List.length_append, LittleEndian.length_bytes, List.length_cons, List.length_nil]
  rfl

/-- **An entry is read back.** -/
theorem ofBytes_bytes {entry : SlotEntry} (offset : entry.offset < 2 ^ 16)
    (length : entry.length < 2 ^ 16) :
    ofBytes entry.bytes = entry := by
  have first := LittleEndian.length_bytes 2 entry.offset
  have second := LittleEndian.length_bytes 2 entry.length
  unfold ofBytes bytes
  rw [List.append_assoc, List.take_left' first, List.drop_left' first, List.take_left' second,
    LittleEndian.value_bytes offset, LittleEndian.value_bytes length]
  congr 1

end SlotEntry

namespace Page

/-- The entry of a slot. -/
def entryAt (page : Page) (i : Nat) : SlotEntry :=
  SlotEntry.ofBytes (FileStream.readAt page.bytes (slotOffset i) slotSize)

/-- The text a slot points to. -/
def textAt (page : Page) (i : Nat) : Str :=
  FileStream.readAt page.bytes (page.entryAt i).offset (page.entryAt i).length

/-- **The slot holds a row.** -/
def Live (page : Page) (i : Nat) : Prop := i < page.recordCount ∧ (page.entryAt i).valid ≠ 0

instance (page : Page) (i : Nat) : Decidable (page.Live i) := inferInstanceAs (Decidable (_ ∧ _))

/-- **The directory and the texts of the live rows lie side by side within the page.** -/
structure WellSlotted (page : Page) : Prop where
  directory : slotOffset page.recordCount ≤ pageSize
  behind : ∀ i, page.Live i → slotOffset page.recordCount ≤ (page.entryAt i).offset
  inside : ∀ i, page.Live i → (page.entryAt i).offset + (page.entryAt i).length ≤ pageSize
  apart : ∀ i j, page.Live i → page.Live j → i ≠ j →
    (page.entryAt i).offset + (page.entryAt i).length ≤ (page.entryAt j).offset ∨
      (page.entryAt j).offset + (page.entryAt j).length ≤ (page.entryAt i).offset

variable {page : Page} {i : Nat}

theorem slotEntry_eq_ok (inside : slotOffset i + slotSize ≤ pageSize) :
    page.slotEntry i = .ok (page.entryAt i) := by
  unfold slotEntry peek
  rw [if_pos inside]
  rfl

theorem WellSlotted.slot_inside (well : page.WellSlotted) (counted : i < page.recordCount) :
    slotOffset i + slotSize ≤ pageSize := by
  have directory := well.directory
  unfold slotOffset slotSize at *
  omega

theorem WellSlotted.slotEntry (well : page.WellSlotted) (counted : i < page.recordCount) :
    page.slotEntry i = .ok (page.entryAt i) := slotEntry_eq_ok (well.slot_inside counted)

theorem WellSlotted.peek_text (well : page.WellSlotted) (live : page.Live i) :
    page.peek (page.entryAt i).offset (page.entryAt i).length = .ok (page.textAt i) :=
  if_pos (well.inside i live)

/-! ### The start of the row data -/

/-- The lowest offset among `count` slots and a bound. -/
def lowest (page : Page) : (count i bound : Nat) → Nat
  | 0, _, bound => bound
  | count + 1, i, bound =>
    lowest page count (i + 1)
      (if (page.entryAt i).valid ≠ 0 ∧ (page.entryAt i).offset < bound then (page.entryAt i).offset
      else bound)

/-- **The start of the row data**: the lowest offset of a live row. -/
def dataStart (page : Page) : Nat := page.lowest page.recordCount 0 pageSize

theorem dataStartFrom_eq (count : Nat) : ∀ {i bound : Nat}, slotOffset (i + count) ≤ pageSize →
    page.dataStartFrom count i bound = .ok (page.lowest count i bound) := by
  induction count with
  | zero => exact fun _ => rfl
  | succ count ih =>
    intro i bound inside
    have here : slotOffset i + slotSize ≤ pageSize := by
      unfold slotOffset slotSize at *
      omega
    rw [dataStartFrom, slotEntry_eq_ok here, lowest]
    exact ih (by rwa [Nat.add_right_comm, Nat.add_assoc])

theorem lowest_le (count : Nat) : ∀ {i bound : Nat}, page.lowest count i bound ≤ bound ∧
    ∀ j, i ≤ j → j < i + count → (page.entryAt j).valid ≠ 0 →
      page.lowest count i bound ≤ (page.entryAt j).offset := by
  induction count with
  | zero => exact fun {i bound} => ⟨Nat.le_refl _, fun j low high => by omega⟩
  | succ count ih =>
    intro i bound
    rw [lowest]
    obtain ⟨le, below⟩ :=
      @ih (i + 1) (if (page.entryAt i).valid ≠ 0 ∧ (page.entryAt i).offset < bound
      then (page.entryAt i).offset else bound)
    constructor
    · refine le.trans ?_
      split
      · rename_i lower
        exact lower.2.le
      · exact Nat.le_refl _
    · intro j low high valid
      rcases Nat.eq_or_lt_of_le low with rfl | later
      · refine le.trans ?_
        split
        · exact Nat.le_refl _
        · rename_i notLower
          exact Nat.not_lt.mp fun lower => notLower ⟨valid, lower⟩
      · exact below j later (by omega) valid

theorem lowest_eq (count : Nat) : ∀ {i bound : Nat}, page.lowest count i bound = bound ∨
    ∃ j, i ≤ j ∧ j < i + count ∧ (page.entryAt j).valid ≠ 0 ∧
      page.lowest count i bound = (page.entryAt j).offset := by
  induction count with
  | zero => exact fun {i bound} => .inl rfl
  | succ count ih =>
    intro i bound
    rw [lowest]
    rcases @ih (i + 1) (if (page.entryAt i).valid ≠ 0 ∧ (page.entryAt i).offset < bound
      then (page.entryAt i).offset else bound) with same | ⟨j, low, high, valid, same⟩
    · rw [same]
      split
      · rename_i lower
        exact .inr ⟨i, Nat.le_refl _, by omega, lower.1, rfl⟩
      · exact .inl rfl
    · exact .inr ⟨j, by omega, by omega, valid, same⟩

theorem dataStart_le : page.dataStart ≤ pageSize := (lowest_le page.recordCount).1

/-- Every live row lies behind the start of the row data. -/
theorem dataStart_le_offset (live : page.Live i) : page.dataStart ≤ (page.entryAt i).offset :=
  (lowest_le page.recordCount).2 i (Nat.zero_le _) (by rw [Nat.zero_add]; exact live.1) live.2

/-- Without a live row all the space behind the directory is free. -/
theorem dataStart_of_empty (empty : ∀ i, ¬ page.Live i) : page.dataStart = pageSize := by
  rcases @lowest_eq page page.recordCount 0 pageSize with same | ⟨j, -, counted, valid, -⟩
  · exact same
  · exact (empty j ⟨by omega, valid⟩).elim

/-! ### Writing -/

/-- A copy into the page. -/
def written (page : Page) (offset : Nat) (bytes : Str) (inside : offset + bytes.length ≤ pageSize) :
    Page :=
  ⟨FileStream.writeAt page.bytes offset bytes, page.length_writeAt_bytes inside⟩

theorem poke_eq_ok {offset : Nat} {bytes : Str} (inside : offset + bytes.length ≤ pageSize) :
    page.poke offset bytes = .ok (page.written offset bytes inside) := dif_pos inside

theorem readAt_written {offset : Nat} {bytes : Str} {inside : offset + bytes.length ≤ pageSize} :
    FileStream.readAt (page.written offset bytes inside).bytes offset bytes.length = bytes := by
  refine FileStream.readAt_writeAt ?_ bytes
  rw [page.length_eq]
  omega

theorem readAt_written_of_disjoint {offset other count : Nat} {bytes : Str}
    {inside : offset + bytes.length ≤ pageSize}
    (apart : other + count ≤ offset ∨ offset + bytes.length ≤ other) :
    FileStream.readAt (page.written offset bytes inside).bytes other count =
      FileStream.readAt page.bytes other count := by
  refine FileStream.readAt_writeAt_of_disjoint ?_ apart
  rw [page.length_eq]
  omega

theorem id_eq_readAt (page : Page) :
    page.id = LittleEndian.value (FileStream.readAt page.bytes 0 4) := rfl

/-- **The page with a slot more**, at the end of the directory. -/
structure Grown (page page' : Page) (text : Str) : Prop where
  recordCount : page'.recordCount = page.recordCount + 1
  id : page'.id = page.id
  entries : ∀ i < page.recordCount, page'.entryAt i = page.entryAt i
  texts : ∀ i, page.Live i → page'.textAt i = page.textAt i
  live : page'.Live page.recordCount
  length : (page'.entryAt page.recordCount).length = text.length
  text : page'.textAt page.recordCount = text
  well : page'.WellSlotted

/-- Entries that are the same and point to the same bytes. -/
theorem textAt_congr {page' : Page} (entry : page'.entryAt i = page.entryAt i)
    (bytes : FileStream.readAt page'.bytes (page.entryAt i).offset (page.entryAt i).length =
      page.textAt i) : page'.textAt i = page.textAt i := by
  unfold textAt
  rw [entry]
  exact bytes

theorem recordCount_setRecordCount {count : Nat} (small : count < 2 ^ 16) :
    (page.setRecordCount count).recordCount = count := by
  have length := LittleEndian.length_bytes 2 count
  have read := @FileStream.readAt_writeAt Byte _ page.bytes 6 (by rw [page.length_eq]; decide)
    (LittleEndian.bytes 2 count)
  rw [length] at read
  unfold recordCount setRecordCount
  rw [read]
  exact LittleEndian.value_bytes small

theorem readAt_setRecordCount {count other length : Nat} (apart : other + length ≤ 6 ∨ 8 ≤ other) :
    FileStream.readAt (page.setRecordCount count).bytes other length =
      FileStream.readAt page.bytes other length := by
  refine FileStream.readAt_writeAt_of_disjoint ?_ ?_
  · rw [page.length_eq]
    decide
  · rwa [LittleEndian.length_bytes]

theorem slotOffset_mono {j : Nat} (le : i ≤ j) : slotOffset i ≤ slotOffset j := by
  unfold slotOffset slotSize
  omega

theorem slotOffset_succ (i : Nat) : slotOffset (i + 1) = slotOffset i + slotSize := by
  unfold slotOffset
  rw [Nat.succ_mul, Nat.add_assoc]

theorem le_slotOffset (i : Nat) : 14 ≤ slotOffset i := Nat.le_add_right 14 _

/-- A page with one more slot, for bytes in front of all others, is as well slotted. -/
theorem WellSlotted.push (well : page.WellSlotted) {page' : Page} {entry : SlotEntry}
    (newCount : page'.recordCount = page.recordCount + 1)
    (entries : ∀ i < page.recordCount, page'.entryAt i = page.entryAt i)
    (newEntry : page'.entryAt page.recordCount = entry)
    (free : slotOffset (page.recordCount + 1) ≤ entry.offset)
    (below : entry.offset + entry.length ≤ page.dataStart) : page'.WellSlotted := by
  have start : page.dataStart ≤ pageSize := dataStart_le
  have slot := slotOffset_succ page.recordCount
  have sizes : pageSize = 4096 ∧ slotSize = 6 := ⟨rfl, rfl⟩
  have liveOld : ∀ {i}, page'.Live i → i ≠ page.recordCount → page.Live i := by
    rintro i ⟨counted, valid⟩ old
    have counted' : i < page.recordCount := by omega
    exact ⟨counted', entries i counted' ▸ valid⟩
  refine ⟨?_, ?_, ?_, ?_⟩
  · rw [newCount]
    omega
  · intro i live
    rw [newCount]
    by_cases new : i = page.recordCount
    · rw [new, newEntry]
      exact free
    · have old := liveOld live new
      rw [entries i old.1]
      have above := dataStart_le_offset old
      omega
  · intro i live
    by_cases new : i = page.recordCount
    · rw [new, newEntry]
      omega
    · have old := liveOld live new
      rw [entries i old.1]
      exact well.inside i old
  · -- the new bytes lie in front of all others
    have front : ∀ {i}, page.Live i → entry.offset + entry.length ≤ (page.entryAt i).offset := by
      intro i old
      exact below.trans (dataStart_le_offset old)
    intro i j live live' different
    by_cases new : i = page.recordCount
    · have old := liveOld live' (new ▸ different.symm)
      rw [new, newEntry, entries j old.1]
      exact .inl (front old)
    · have old := liveOld live new
      by_cases new' : j = page.recordCount
      · rw [new', newEntry, entries i old.1]
        exact .inr (front old)
      · have old' := liveOld live' new'
        rw [entries i old.1, entries j old'.1]
        exact well.apart i j old old' different

/-- **The three copies of an insertion** into free space. -/
theorem WellSlotted.grown (well : page.WellSlotted) {offset : Nat} {text : Str} {padding : Byte}
    (free : slotOffset (page.recordCount + 1) ≤ offset)
    (below : offset + text.length ≤ page.dataStart) :
    ∃ filled stored, page.poke offset text = .ok filled ∧
      filled.setSlotEntry page.recordCount { offset, length := text.length, valid := 1, padding } =
        .ok stored ∧
      page.Grown (stored.setRecordCount (page.recordCount + 1)) text := by
  have start : page.dataStart ≤ pageSize := dataStart_le
  have slot := slotOffset_succ page.recordCount
  have header := le_slotOffset page.recordCount
  have sizes : pageSize = 4096 ∧ slotSize = 6 := ⟨rfl, rfl⟩
  have count : page.recordCount + 1 < 2 ^ 16 := by
    unfold slotOffset slotSize at free
    omega
  let entry : SlotEntry := { offset, length := text.length, valid := 1, padding }
  have insideText : offset + text.length ≤ pageSize := by omega
  have insideSlot : slotOffset page.recordCount + entry.bytes.length ≤ pageSize := by
    rw [SlotEntry.length_bytes]
    omega
  refine ⟨_, _, poke_eq_ok insideText, poke_eq_ok insideSlot, ?_⟩
  generalize same : ((page.written offset text insideText).written (slotOffset page.recordCount)
    entry.bytes insideSlot).setRecordCount (page.recordCount + 1) = page'
  have bytesSlot : slotOffset page.recordCount + entry.bytes.length =
      slotOffset (page.recordCount + 1) := by
    rw [SlotEntry.length_bytes, slot]
  -- bytes outside the three copies stay
  have frame : ∀ other length, (other + length ≤ 6 ∨ 8 ≤ other) →
      (other + length ≤ slotOffset page.recordCount ∨ slotOffset (page.recordCount + 1) ≤ other) →
      (other + length ≤ offset ∨ offset + text.length ≤ other) →
      FileStream.readAt page'.bytes other length = FileStream.readAt page.bytes other length := by
    intro other length notCount notSlot notText
    rw [← same, readAt_setRecordCount notCount, readAt_written_of_disjoint (by rwa [bytesSlot]),
      readAt_written_of_disjoint notText]
  have newCount : page'.recordCount = page.recordCount + 1 := by
    rw [← same]
    exact recordCount_setRecordCount count
  have entries : ∀ i < page.recordCount, page'.entryAt i = page.entryAt i := by
    intro i counted
    have before : slotOffset i + slotSize ≤ slotOffset page.recordCount := by
      rw [← slotOffset_succ]
      exact slotOffset_mono counted
    have header := le_slotOffset i
    unfold entryAt
    rw [frame _ _ (.inr (by omega)) (.inl before) (.inl (by omega))]
  have newEntry : page'.entryAt page.recordCount = entry := by
    have read : FileStream.readAt page'.bytes (slotOffset page.recordCount) slotSize =
        entry.bytes := by
      rw [← same, readAt_setRecordCount (.inr (by omega)), ← SlotEntry.length_bytes entry]
      exact readAt_written
    unfold entryAt
    rw [read]
    refine SlotEntry.ofBytes_bytes ?_ ?_
    · show offset < 2 ^ 16
      omega
    · show text.length < 2 ^ 16
      omega
  have newText : page'.textAt page.recordCount = text := by
    unfold textAt
    rw [newEntry]
    show FileStream.readAt page'.bytes offset text.length = text
    rw [← same, readAt_setRecordCount (.inr (by omega)),
      readAt_written_of_disjoint (.inr (by omega))]
    exact readAt_written
  refine ⟨newCount, ?_, entries, ?_, ⟨by omega, ?_⟩, ?_, newText,
    well.push newCount entries newEntry free below⟩
  · rw [id_eq_readAt, id_eq_readAt, frame 0 4 (.inl (by omega)) (.inl (by omega)) (.inl (by omega))]
  · intro i live
    refine textAt_congr (entries i live.1) (frame _ _ ?_ ?_ ?_)
    · have behind := well.behind i live
      exact .inr (by omega)
    · have above := dataStart_le_offset live
      exact .inr (by omega)
    · have above := dataStart_le_offset live
      exact .inr (by omega)
  · rw [newEntry]
    show (1 : Byte) ≠ 0
    decide
  · rw [newEntry]

/-- **The page with a slot taken back.** -/
structure Freed (page page' : Page) (i : Nat) : Prop where
  recordCount : page'.recordCount = page.recordCount
  id : page'.id = page.id
  dead : (page'.entryAt i).valid = 0
  entries : ∀ j < page.recordCount, j ≠ i → page'.entryAt j = page.entryAt j
  texts : ∀ j, page.Live j → j ≠ i → page'.textAt j = page.textAt j
  well : page'.WellSlotted

/-- An entry of the directory is no longer than its numbers' 16 bits. -/
theorem entryAt_small (page : Page) (i : Nat) :
    (page.entryAt i).offset < 2 ^ 16 ∧ (page.entryAt i).length < 2 ^ 16 := by
  have bound : ∀ bytes : Str, bytes.length ≤ 2 → LittleEndian.value bytes < 2 ^ 16 := by
    intro bytes short
    match bytes, short with
    | [], _ => decide
    | [a], _ =>
      have := a.isLt
      simp only [LittleEndian.value]
      omega
    | [a, b], _ =>
      have := a.isLt
      have := b.isLt
      simp only [LittleEndian.value]
      omega
  exact ⟨bound _ (List.length_take_le ..), bound _ (List.length_take_le ..)⟩

/-- **Clearing a slot's valid byte.** -/
theorem WellSlotted.freed (well : page.WellSlotted) (counted : i < page.recordCount) :
    ∃ page', page.setSlotEntry i { page.entryAt i with valid := 0 } = .ok page' ∧
      page.Freed page' i := by
  let entry : SlotEntry := { page.entryAt i with valid := 0 }
  have inside : slotOffset i + entry.bytes.length ≤ pageSize := by
    rw [SlotEntry.length_bytes]
    exact well.slot_inside counted
  refine ⟨_, poke_eq_ok inside, ?_⟩
  generalize same : page.written (slotOffset i) entry.bytes inside = page'
  have header := le_slotOffset i
  have slot := slotOffset_succ i
  have frame : ∀ other length, (other + length ≤ slotOffset i ∨ slotOffset i + slotSize ≤ other) →
      FileStream.readAt page'.bytes other length = FileStream.readAt page.bytes other length := by
    intro other length apart
    rw [← same]
    exact readAt_written_of_disjoint (by rwa [SlotEntry.length_bytes])
  have sameCount : page'.recordCount = page.recordCount := by
    unfold recordCount
    rw [frame 6 2 (.inl (by omega))]
  have entries : ∀ j, j ≠ i → page'.entryAt j = page.entryAt j := by
    intro j different
    unfold entryAt
    rw [frame]
    rcases Nat.lt_or_gt_of_ne different with before | after
    · left
      rw [← slotOffset_succ]
      exact slotOffset_mono before
    · right
      rw [← slotOffset_succ]
      exact slotOffset_mono after
  have freed : page'.entryAt i = entry := by
    have read : FileStream.readAt page'.bytes (slotOffset i) slotSize = entry.bytes := by
      rw [← same, ← SlotEntry.length_bytes entry]
      exact readAt_written
    unfold entryAt
    rw [read]
    exact SlotEntry.ofBytes_bytes (entryAt_small page i).1 (entryAt_small page i).2
  have liveOld : ∀ {j}, page'.Live j → j ≠ i ∧ page.Live j := by
    rintro j ⟨counted', valid⟩
    have different : j ≠ i := by
      rintro rfl
      rw [freed] at valid
      exact valid rfl
    exact ⟨different, sameCount ▸ counted', entries j different ▸ valid⟩
  have dirEnd := well.slot_inside counted
  refine ⟨sameCount, ?_, by rw [freed], fun j _ => entries j, fun j live different => ?_,
    ⟨?_, ?_, ?_, ?_⟩⟩
  · rw [id_eq_readAt, id_eq_readAt, frame 0 4 (.inl (by omega))]
  · refine textAt_congr (entries j different) (frame _ _ (.inr ?_))
    have behind := well.behind j live
    have mono := slotOffset_mono (Nat.succ_le_of_lt counted)
    have succ : slotOffset i.succ = slotOffset i + slotSize := slot
    omega
  · rw [sameCount]
    exact well.directory
  · intro j live
    obtain ⟨different, old⟩ := liveOld live
    rw [sameCount, entries j different]
    exact well.behind j old
  · intro j live
    obtain ⟨different, old⟩ := liveOld live
    rw [entries j different]
    exact well.inside j old
  · intro j k live live' apart
    obtain ⟨different, old⟩ := liveOld live
    obtain ⟨different', old'⟩ := liveOld live'
    rw [entries j different, entries k different']
    exact well.apart j k old old' apart

/-- The page with a slot's valid byte cleared. -/
def withoutSlot (page : Page) (i : Nat) : Page :=
  match page.setSlotEntry i { page.entryAt i with valid := 0 } with
  | .ok page' => page'
  | .error _ => page

theorem WellSlotted.setSlotEntry (well : page.WellSlotted) (counted : i < page.recordCount) :
    page.setSlotEntry i { page.entryAt i with valid := 0 } = .ok (page.withoutSlot i) := by
  obtain ⟨page', stored, -⟩ := well.freed counted
  unfold withoutSlot
  rw [stored]

theorem WellSlotted.freed_withoutSlot (well : page.WellSlotted) (counted : i < page.recordCount) :
    page.Freed (page.withoutSlot i) i := by
  obtain ⟨page', stored, freed⟩ := well.freed counted
  obtain rfl := Except.ok.inj ((well.setSlotEntry counted).symm.trans stored)
  exact freed

/-- **A new page** has no slots. -/
theorem recordCount_new (id : Nat) : (new id).recordCount = 0 := by
  have length := LittleEndian.length_bytes 4 id
  have read : FileStream.readAt (new id).bytes 6 2 = LittleEndian.bytes 2 0 := by
    unfold new FileStream.readAt
    simp only [List.append_assoc]
    rw [show (6 : Nat) = 4 + 2 from rfl, ← List.drop_drop, List.drop_left' length,
      List.drop_left' (LittleEndian.length_bytes 2 _),
        List.take_left' (LittleEndian.length_bytes 2 0)]
  unfold recordCount
  rw [read]
  rfl

theorem wellSlotted_of_empty (empty : page.recordCount = 0) : page.WellSlotted := by
  have none : ∀ i, ¬ page.Live i := fun i live => by
    rw [Live, empty] at live
    exact Nat.not_lt_zero i live.1
  refine ⟨?_, fun i live => (none i live).elim, fun i live => (none i live).elim,
    fun i _ live => (none i live).elim⟩
  rw [empty]
  decide

end Page

/-! ### Insertion -/

namespace TableHeap

variable {page : Page} {order : RowOrder} {padding : Byte} {row : Row}

/-- As much of a row's text as an insertion copies: its length is kept in 16 bits. -/
def storedText (order : RowOrder) (row : Row) : Str :=
  (serializeRowData order row).take ((serializeRowData order row).length % 2 ^ 16)

theorem length_storedText (order : RowOrder) (row : Row) :
    (storedText order row).length = (serializeRowData order row).length % 2 ^ 16 := by
  unfold storedText
  rw [List.length_take]
  exact Nat.min_eq_left (Nat.mod_le _ _)

theorem storedText_of_short (short : (serializeRowData order row).length < 2 ^ 16) :
    storedText order row = serializeRowData order row := by
  unfold storedText
  rw [Nat.mod_eq_of_lt short, List.take_length]

/-- **All that an insertion can do to a well-slotted page.** -/
theorem insertIntoPage_cases (order : RowOrder) (padding : Byte) (well : page.WellSlotted)
    (row : Row) :
    (page.dataStart < (storedText order row).length ∧
        insertIntoPage order padding page row = .error .undefinedBehaviour) ∨
      ((storedText order row).length ≤ page.dataStart ∧
        page.dataStart < slotOffset (page.recordCount + 1) + (storedText order row).length ∧
        insertIntoPage order padding page row = .ok ({}, page)) ∨
      (slotOffset (page.recordCount + 1) + (storedText order row).length ≤ page.dataStart ∧
        ∃ page', insertIntoPage order padding page row =
            .ok ({ pageId := page.id, slotIndex := page.recordCount }, page') ∧
          page.Grown page' (storedText order row)) := by
  have start : page.dataStartFrom page.recordCount 0 pageSize = .ok page.dataStart :=
    Page.dataStartFrom_eq _ (by rw [Nat.zero_add]; exact well.directory)
  have length := length_storedText order row
  have slot := Page.slotOffset_succ page.recordCount
  have directory := well.directory
  have le : page.dataStart ≤ pageSize := Page.dataStart_le
  have sizes : pageSize = 4096 ∧ slotSize = 6 := ⟨rfl, rfl⟩
  have narrow : (storedText order row).length < 2 ^ 16 := by omega
  unfold insertIntoPage
  simp only [start, ← length, bind, Except.bind, ← slot]
  rcases Nat.lt_or_ge page.dataStart (storedText order row).length with long | fits
  · left
    have wraps : ((page.dataStart : Int) - (storedText order row).length) % 2 ^ 64 =
        2 ^ 64 + page.dataStart - (storedText order row).length := by omega
    have beyond : ¬ (((page.dataStart : Int) - (storedText order row).length) % 2 ^ 16).toNat +
        (storedText order row).length ≤ pageSize := by omega
    refine ⟨long, ?_⟩
    rw [if_neg (by rw [wraps]; omega)]
    unfold Page.poke
    rw [dif_neg (by rwa [List.length_take, length, Nat.min_eq_left (Nat.mod_le _ _), ← length])]
  · right
    have same64 : ((page.dataStart : Int) - (storedText order row).length) % 2 ^ 64 =
        page.dataStart - (storedText order row).length := by omega
    have same16 : (((page.dataStart : Int) - (storedText order row).length) % 2 ^ 16).toNat =
        page.dataStart - (storedText order row).length := by omega
    rw [same64, same16]
    rcases Nat.lt_or_ge page.dataStart
      (slotOffset (page.recordCount + 1) + (storedText order row).length) with full | free
    · left
      rw [if_pos (by omega)]
      exact ⟨fits, full, rfl⟩
    · right
      obtain ⟨filled, stored, fill, store, grown⟩ := @Page.WellSlotted.grown page well
        (page.dataStart - (storedText order row).length) (storedText order row) padding
        (by omega) (by omega)
      refine ⟨free, stored.setRecordCount (page.recordCount + 1), ?_, grown⟩
      rw [if_neg (by omega)]
      have taken : (serializeRowData order row).take (storedText order row).length =
          storedText order row := by
        rw [length]
        rfl
      rw [taken, fill]
      simp only [store, pure, Except.pure, grown.id]

end TableHeap

end MyDb
