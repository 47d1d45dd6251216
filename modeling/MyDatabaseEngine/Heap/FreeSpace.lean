/-
**The free-space test of an insertion.**

`insertIntoPage` keeps a text's length in 16 bits and subtracts it from the start of the row data
before an unsigned comparison. `insertIntoPage_safe_iff`: on every page of a heap the insertion does
what it should exactly when the length in 16 bits does not exceed the start of the row data and a
longer text is refused.

`HeapPage` are the pages that insertions and deletions make of new ones; each is well-slotted,
because an insertion that goes through writes between the directory and the row data. When the
length exceeds the start of the row data the difference is negative, and as a `size_t` it is larger
than any directory: the row is taken, and `memcpy` writes outside the page
(`insertIntoPage_overruns`). A length of 2^16 or more is cut, and what is stored then is a front of
the text.
-/

import MyDatabaseEngine.Heap.PageLayout

namespace MyDb

namespace TableHeap

/-- **The pages that the operations of heaps make** of new pages. -/
inductive HeapPage : Page → Prop
  | new {id : Nat} : id < invalidPageId → HeapPage (Page.new id)
  | inserted {page page' : Page} {order : RowOrder} {padding : Byte} {row : Row} {rid : RowId} :
      HeapPage page → insertIntoPage order padding page row = .ok (rid, page') → HeapPage page'
  /-- `deleteRow`, and `updateRow` before it inserts. -/
  | freed {page page' : Page} {i : Nat} {entry : SlotEntry} :
      HeapPage page → i < page.recordCount → page.slotEntry i = .ok entry →
      page.setSlotEntry i { entry with valid := 0 } = .ok page' → HeapPage page'

variable {page page' : Page} {order : RowOrder} {padding : Byte} {row : Row} {rid : RowId}

/-- **An insertion keeps the page well-slotted**, for a text of any length. -/
theorem wellSlotted_insertIntoPage (well : page.WellSlotted)
    (ran : insertIntoPage order padding page row = .ok (rid, page')) :
    page'.WellSlotted ∧ page'.id = page.id := by
  rcases insertIntoPage_cases order padding well row with
    ⟨-, failed⟩ | ⟨-, -, same⟩ | ⟨-, grownPage, inserted, grown⟩
  · exact nomatch ran.symm.trans failed
  · obtain ⟨-, rfl⟩ := Prod.mk.inj (Except.ok.inj (ran.symm.trans same))
    exact ⟨well, rfl⟩
  · obtain ⟨-, rfl⟩ := Prod.mk.inj (Except.ok.inj (ran.symm.trans inserted))
    exact ⟨grown.well, grown.id⟩

/-- **The pages of heaps are well-slotted.** -/
theorem HeapPage.wellSlotted (reached : HeapPage page) :
    page.WellSlotted ∧ page.id < invalidPageId := by
  induction reached with
  | new small =>
    refine ⟨Page.wellSlotted_of_empty (Page.recordCount_new _), ?_⟩
    rw [Page.id_new (small.trans (by decide))]
    exact small
  | inserted _ ran ih =>
    obtain ⟨well, same⟩ := wellSlotted_insertIntoPage ih.1 ran
    exact ⟨well, same ▸ ih.2⟩
  | freed _ counted read cleared ih =>
    obtain rfl := Except.ok.inj (read.symm.trans (ih.1.slotEntry counted))
    obtain ⟨_, stored, freed⟩ := ih.1.freed counted
    obtain rfl := Except.ok.inj (cleared.symm.trans stored)
    exact ⟨freed.well, freed.id ▸ ih.2⟩

/-- **What an insertion should do**: refuse the row and leave the page as it is, or add the row's
whole text within the page and leave every other row alone. -/
def InsertsSafely (order : RowOrder) (padding : Byte) (page : Page) (row : Row) : Prop :=
  ∃ rid page', insertIntoPage order padding page row = .ok (rid, page') ∧
    (rid.valid = false ∧ page' = page ∨
      rid.valid = true ∧ page'.WellSlotted ∧ page'.Live rid.slotIndex ∧
        (page'.entryAt rid.slotIndex).length = (serializeRowData order row).length ∧
        page'.textAt rid.slotIndex = serializeRowData order row ∧
        ∀ i, page.Live i → i ≠ rid.slotIndex ∧ page'.Live i ∧ page'.entryAt i = page.entryAt i ∧
          page'.textAt i = page.textAt i)

/-- The slot of an insertion that went through holds the text that was stored. -/
theorem insertsSafely_of_grown (valid : page.id < invalidPageId)
    (ran : insertIntoPage order padding page row =
      .ok ({ pageId := page.id, slotIndex := page.recordCount }, page'))
    (grown : page.Grown page' (storedText order row)) :
    InsertsSafely order padding page row ↔ (serializeRowData order row).length < 2 ^ 16 := by
  have isValid : RowId.valid { pageId := page.id, slotIndex := page.recordCount } = true :=
    decide_eq_true valid.ne
  constructor
  · rintro ⟨rid, stored, ran', outcome⟩
    obtain ⟨rfl, rfl⟩ := Prod.mk.inj (Except.ok.inj (ran'.symm.trans ran))
    rcases outcome with ⟨invalid, -⟩ | ⟨-, -, -, length, -⟩
    · exact Bool.noConfusion (invalid.symm.trans isValid)
    · have short := grown.length
      rw [length, length_storedText] at short
      omega
  · intro short
    have text := storedText_of_short short
    rw [text] at grown
    refine ⟨_, page', ran, .inr ⟨isValid, grown.well, grown.live, grown.length, grown.text, ?_⟩⟩
    intro i live
    have entry := grown.entries i live.1
    refine ⟨live.1.ne, ⟨?_, entry ▸ live.2⟩, entry, grown.texts i live⟩
    rw [grown.recordCount]
    exact live.1.trans (Nat.lt_succ_self _)

/-- **When an insertion does what it should**: the text's length in 16 bits does not exceed the
start of the row data, so that the subtraction does not wrap, and a text whose length takes more
than 16 bits is refused for want of space. -/
theorem insertIntoPage_safe_iff (reached : HeapPage page) (order : RowOrder) (padding : Byte)
    (row : Row) :
    InsertsSafely order padding page row ↔
      (serializeRowData order row).length % 2 ^ 16 ≤ page.dataStart ∧
        ((serializeRowData order row).length < 2 ^ 16 ∨
          page.dataStart <
            slotOffset (page.recordCount + 1) + (serializeRowData order row).length % 2 ^ 16) := by
  obtain ⟨well, valid⟩ := reached.wellSlotted
  rw [← length_storedText]
  rcases insertIntoPage_cases order padding well row with
    ⟨long, failed⟩ | ⟨fits, full, refused⟩ | ⟨free, page', inserted, grown⟩
  · refine iff_of_false ?_ fun both => absurd both.1 (Nat.not_le.mpr long)
    rintro ⟨rid, page', ran, -⟩
    exact nomatch ran.symm.trans failed
  · exact iff_of_true ⟨_, _, refused, .inl ⟨rfl, rfl⟩⟩ ⟨fits, .inr full⟩
  · rw [insertsSafely_of_grown valid inserted grown]
    constructor
    · exact fun short => ⟨by omega, .inl short⟩
    · rintro ⟨-, short | full⟩
      · exact short
      · omega

/-- A row with one value of `length` bytes. -/
def longRow (length : Nat) : Row := (∅ : Row).insert (str "c") (List.replicate length (chr 'x'))

/-- A row is inserted into a new page and deleted again; then a second one is inserted. -/
theorem insertIntoPage_safe_iff_deleted : ∃ rid page page',
    insertIntoPage default 0 (Page.new 0) (longRow 3) = .ok (rid, page) ∧ page.recordCount = 1 ∧
    page.setSlotEntry 0 { page.entryAt 0 with valid := 0 } = .ok page' ∧
    (InsertsSafely default 0 page' (longRow 5) ↔
      (serializeRowData default (longRow 5)).length % 2 ^ 16 ≤ page'.dataStart ∧
        ((serializeRowData default (longRow 5)).length < 2 ^ 16 ∨
          page'.dataStart < slotOffset (page'.recordCount + 1) +
            (serializeRowData default (longRow 5)).length % 2 ^ 16)) := by
  have new : HeapPage (Page.new 0) := .new (by decide)
  rcases insertIntoPage_cases default 0 new.wellSlotted.1 (longRow 3) with
    ⟨long, -⟩ | ⟨-, full, -⟩ | ⟨-, page, inserted, grown⟩
  · exact absurd long (by decide +kernel)
  · exact absurd full (by decide +kernel)
  · have reached : HeapPage page := .inserted new inserted
    have counted : page.recordCount = 1 := by
      rw [grown.recordCount, Page.recordCount_new]
    have inside : 0 < page.recordCount := by rw [counted]; exact Nat.one_pos
    obtain ⟨page', stored, -⟩ := grown.well.freed inside
    have freed : HeapPage page' := .freed reached inside (grown.well.slotEntry inside) stored
    exact ⟨_, page, page', inserted, counted, stored,
      insertIntoPage_safe_iff freed default 0 (longRow 5)⟩

/-- **A row of 4100 bytes is written outside an empty page.** -/
theorem insertIntoPage_overruns :
    insertIntoPage default 0 (Page.new 0) (longRow 4097) = .error .undefinedBehaviour ∧
      ¬ InsertsSafely default 0 (Page.new 0) (longRow 4097) := by
  have overruns :
      insertIntoPage default 0 (Page.new 0) (longRow 4097) = .error .undefinedBehaviour := by
    decide +kernel
  refine ⟨overruns, ?_⟩
  rintro ⟨rid, page', ran, -⟩
  exact nomatch ran.symm.trans overruns

end TableHeap

end MyDb
