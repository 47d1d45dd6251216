/-
**Reading undoes writing, up to a torn tail.**

A reader `Decodes` some bytes when it returns their value wherever they stand next in the file, and
fails when the file ends inside them. Readers one after the other decode the bytes one after the
other (`Decodes.andThen`), so `readRecord` decodes the bytes `writeRecord` wrote. `readRecords_cut`:
from the first `n` bytes of any records, the reading loop returns the records that lie wholly within
them.

A record is `Storable` when its numbers fit the eight bytes they get and its texts the four bytes of
their lengths. The type's byte is read back through the table of codes. `readRecords_torn` is the
induction over the records: the first one that is cut ends the loop, and what is behind it is never
reached.
-/

import MyDatabaseEngine.Txn.WalFile

namespace MyDb

/-! ### Readers of given bytes -/

section Readers

/-- **What a reader makes of some bytes**, at the position of a readable stream. -/
structure Decodes {α : Type} (reader : Reader α) (bytes : Str) (value : α) : Prop where
  whole : ∀ {file : FileStream Byte}, Readable file → bytes <+: file.bytes.drop file.pos →
    reader file = (some value, { file with pos := file.pos + bytes.length })
  torn : ∀ {file : FileStream Byte}, Readable file → file.bytes.drop file.pos <+: bytes →
    file.bytes.drop file.pos ≠ bytes → (reader file).1 = none

variable {file : FileStream Byte}

theorem Readable.not_eof (readable : Readable file) : file.eof = false ∧ file.fail = false := by
  have good := readable.good
  unfold FileStream.good at good
  simpa using good

/-- Behind bytes that were there the stream is readable, and the rest comes next. -/
theorem Readable.skip (readable : Readable file) {bytes : Str}
    (there : bytes <+: file.bytes.drop file.pos) :
    Readable { file with pos := file.pos + bytes.length } := by
  refine ⟨readable.good, ?_⟩
  have fits := there.length_le
  have inside := readable.inside
  rw [List.length_drop] at fits
  show file.pos + bytes.length ≤ file.bytes.length
  omega

theorem readBytes_decodes (bytes : Str) : Decodes (readBytes bytes.length) bytes bytes := by
  constructor
  · intro file readable there
    have got : FileStream.readAt file.bytes file.pos bytes.length = bytes :=
      List.prefix_iff_eq_take.mp there |>.symm
    obtain ⟨noEof, noFail⟩ := readable.not_eof
    unfold readBytes FileStream.read
    rw [if_pos readable.good]
    simp only [got, Nat.lt_irrefl, decide_false, Bool.false_eq_true, if_false, noEof, noFail]
  · intro file readable cut notWhole
    have short : (file.bytes.drop file.pos).length < bytes.length :=
      lt_of_le_of_ne cut.length_le fun same => notWhole (cut.eq_of_length same)
    have got : FileStream.readAt file.bytes file.pos bytes.length = file.bytes.drop file.pos :=
      List.take_of_length_le short.le
    unfold readBytes FileStream.read
    rw [if_pos readable.good]
    simp only [got, short, decide_true, if_true]

/-- **One reader after the other.** -/
theorem Decodes.andThen {α γ : Type} {first : Reader α} {next : α → Reader γ} {bytes bytes' : Str}
    {value : α} {value' : γ} (decodes : Decodes first bytes value)
    (decodes' : Decodes (next value) bytes' value') :
    Decodes (first.andThen next) (bytes ++ bytes') value' := by
  constructor
  · intro file readable there
    have firstThere : bytes <+: file.bytes.drop file.pos := (List.prefix_append _ _).trans there
    have nextThere : bytes' <+: file.bytes.drop (file.pos + bytes.length) := by
      obtain ⟨rest, split⟩ := there
      rw [← List.drop_drop, ← split, List.append_assoc, List.drop_left]
      exact List.prefix_append _ _
    unfold Reader.andThen
    rw [decodes.whole readable firstThere]
    dsimp only
    rw [decodes'.whole (readable.skip firstThere) nextThere, List.length_append, Nat.add_assoc]
  · intro file readable cut notWhole
    unfold Reader.andThen
    by_cases firstThere : bytes <+: file.bytes.drop file.pos
    · rw [decodes.whole readable firstThere]
      obtain ⟨rest, split⟩ := firstThere
      have left : file.bytes.drop (file.pos + bytes.length) = rest := by
        rw [← List.drop_drop, ← split, List.drop_left]
      refine decodes'.torn (readable.skip ⟨rest, split⟩) ?_ fun same => notWhole ?_
      · show file.bytes.drop (file.pos + bytes.length) <+: bytes'
        rw [left]
        rw [← split] at cut
        exact (List.prefix_append_right_inj bytes).mp cut
      · rw [← split, ← left]
        exact congrArg (bytes ++ ·) same
    · have short : file.bytes.drop file.pos <+: bytes :=
        (List.prefix_or_prefix_of_prefix cut (List.prefix_append _ _)).resolve_right firstThere
      have failed := decodes.torn readable short fun same => firstThere (same ▸ List.prefix_rfl)
      rcases read : first file with ⟨value?, file'⟩
      rw [read] at failed
      cases failed
      rfl

theorem pure_decodes {α : Type} (value : α) :
    Decodes (fun file => (some value, file)) [] value := by
  constructor
  · intro file _ _
    rfl
  · intro file _ cut notWhole
    exact absurd (List.prefix_nil.mp cut) notWhole

end Readers

/-! ### Records -/

section Records

/-- **A record whose fields fit their types**: 64-bit numbers, strings whose length fits 32 bits,
and `unnamed` only for a byte no enumerator has. -/
structure LogRecord.Storable (rec : LogRecord) : Prop where
  lsn : rec.lsn < 2 ^ 64
  prevLsn : rec.prevLsn < 2 ^ 64
  txnId : rec.txnId < 2 ^ 64
  type : RecordType.ofCode rec.type.code = rec.type
  table : rec.table.length < 2 ^ 32
  key : rec.key.length < 2 ^ 32
  oldValue : rec.oldValue.length < 2 ^ 32
  newValue : rec.newValue.length < 2 ^ 32

theorem readStr_decodes {s : Str} (fits : s.length < 2 ^ 32) : Decodes readStr (strBytes s) s := by
  have length := readBytes_decodes (LittleEndian.bytes 4 s.length)
  rw [LittleEndian.length_bytes] at length
  have text := readBytes_decodes s
  have value : LittleEndian.value (LittleEndian.bytes 4 s.length) = s.length :=
    LittleEndian.value_bytes fits
  unfold strBytes
  rw [Nat.mod_eq_of_lt fits, List.take_length]
  exact length.andThen (value.symm ▸ text)

/-- **`readRecord` undoes `writeRecord`.** -/
theorem readRecord_decodes {rec : LogRecord} (storable : rec.Storable) :
    Decodes readRecord (recordBytes rec) rec := by
  have number : ∀ n, Decodes (readBytes 8) (LittleEndian.bytes 8 n) (LittleEndian.bytes 8 n) := by
    intro n
    have decodes := readBytes_decodes (LittleEndian.bytes 8 n)
    rwa [LittleEndian.length_bytes] at decodes
  have value : ∀ {n}, n < 2 ^ 64 → LittleEndian.value (LittleEndian.bytes 8 n) = n :=
    fun fits => LittleEndian.value_bytes fits
  have fields : recordBytes rec = LittleEndian.bytes 8 rec.lsn ++
    (LittleEndian.bytes 8 rec.prevLsn ++
      (LittleEndian.bytes 8 rec.txnId ++ ([rec.type.code] ++ (strBytes rec.table ++
        (strBytes rec.key ++ (strBytes rec.oldValue ++ (strBytes rec.newValue ++ []))))))) := by
    simp only [recordBytes, List.append_assoc, List.append_nil]
  rw [fields]
  unfold readRecord
  refine (number rec.lsn).andThen ((number rec.prevLsn).andThen ((number rec.txnId).andThen ?_))
  refine (readBytes_decodes [rec.type.code]).andThen ?_
  refine (readStr_decodes storable.table).andThen ((readStr_decodes storable.key).andThen ?_)
  refine (readStr_decodes storable.oldValue).andThen
    ((readStr_decodes storable.newValue).andThen ?_)
  simp only [value storable.lsn, value storable.prevLsn, value storable.txnId, List.headD_cons,
    storable.type]
  exact pure_decodes rec

theorem length_recordBytes_pos (rec : LogRecord) : 0 < (recordBytes rec).length := by
  simp only [recordBytes, List.length_append, LittleEndian.length_bytes]
  omega

/-- Inside a record's bytes, cut short, no record is read. -/
theorem readRecords_torn {file : FileStream Byte} {rec : LogRecord} (storable : rec.Storable)
    (readable : Readable file) (cut : file.bytes.drop file.pos <+: recordBytes rec)
    (notWhole : file.bytes.drop file.pos ≠ recordBytes rec) (fuel : Nat) :
    (readRecords fuel file).1 = [] := by
  cases fuel with
  | zero => rfl
  | succ fuel =>
    have failed := (readRecord_decodes storable).torn readable cut notWhole
    rw [readRecords]
    split
    · rfl
    · rename_i found
      rw [found] at failed
      cases failed

/-- **Reading records in a row**, when the bytes to come are the first `n` of theirs: a record is
read when it ends within the `n` bytes. -/
theorem readRecords_decodes {records : List LogRecord} (storable : ∀ rec ∈ records, rec.Storable) :
    ∀ {fuel n : Nat} {file : FileStream Byte}, Readable file →
      file.bytes.drop file.pos = (records.flatMap recordBytes).take n →
      (file.bytes.drop file.pos).length < fuel → ∀ i, (readRecords fuel file).1[i]? =
        if ((records.take (i + 1)).flatMap recordBytes).length ≤ n then records[i]? else none := by
  induction records with
  | nil =>
    intro fuel n file readable left _ i
    have nothing : file.bytes.drop file.pos = [] := left.trans List.take_nil
    have emptyRecord : LogRecord.Storable { txnId := 0, type := .begin } := by
      constructor <;> decide
    rw [readRecords_torn emptyRecord readable (nothing ▸ List.nil_prefix)
      fun same => absurd (congrArg List.length (nothing.symm.trans same))
        (length_recordBytes_pos _).ne]
    simp
  | cons rec rest ih =>
    intro fuel n file readable left enough i
    have own := storable rec List.mem_cons_self
    have positive := length_recordBytes_pos rec
    rw [List.flatMap_cons, List.take_append] at left
    by_cases fits : (recordBytes rec).length ≤ n
    · rw [List.take_of_length_le fits] at left
      have there : recordBytes rec <+: file.bytes.drop file.pos := left ▸ List.prefix_append _ _
      have left' : file.bytes.drop (file.pos + (recordBytes rec).length) =
          (rest.flatMap recordBytes).take (n - (recordBytes rec).length) := by
        rw [← List.drop_drop, left, List.drop_left]
      have shorter : (file.bytes.drop (file.pos + (recordBytes rec).length)).length + 1 ≤
          (file.bytes.drop file.pos).length := by
        have all := there.length_le
        rw [List.length_drop] at all ⊢
        rw [List.length_drop]
        omega
      cases fuel with
      | zero => exact absurd enough (Nat.not_lt_zero _)
      | succ fuel =>
        have later := ih (fun r member => storable r (List.mem_cons_of_mem _ member))
          (readable.skip there) left' (Nat.lt_of_succ_lt_succ (lt_of_le_of_lt shorter enough))
        rw [readRecords, (readRecord_decodes own).whole readable there]
        cases i with
        | zero => simp [fits]
        | succ i =>
          rw [List.take_succ_cons, List.flatMap_cons, List.length_append]
          simp only [List.getElem?_cons_succ]
          rw [later i]
          congr 1
          exact propext (by omega)
    · have short : n < (recordBytes rec).length := Nat.lt_of_not_le fits
      have cut : file.bytes.drop file.pos = (recordBytes rec).take n := by
        rw [left, Nat.sub_eq_zero_of_le short.le, List.take_zero, List.append_nil]
      rw [readRecords_torn own readable (cut ▸ List.take_prefix _ _) fun same => ?_, if_neg ?_]
      · rfl
      · rw [List.take_succ_cons, List.flatMap_cons, List.length_append]
        omega
      · have lengths := congrArg List.length (cut.symm.trans same)
        rw [List.length_take] at lengths
        omega

/-- The bytes `writeRecord` puts into an empty file, record by record. -/
def writtenBytes (records : List LogRecord) : Str :=
  (records.foldl (fun file rec => writeRecord rec file) { bytes := [] }).bytes

theorem writtenBytes_eq (records : List LogRecord) :
    writtenBytes records = records.flatMap recordBytes := by
  have appended : ∀ {file : FileStream Byte}, FileStream.Appending file →
      (records.foldl (fun file rec => writeRecord rec file) file).bytes =
        file.bytes ++ records.flatMap recordBytes := by
    induction records with
    | nil => exact fun _ => (List.append_nil _).symm
    | cons rec rest ih =>
      intro file appending
      obtain ⟨written, appending'⟩ := writeRecord_appending appending rec
      rw [List.foldl_cons, ih appending', written, List.flatMap_cons, List.append_assoc]
  exact (appended ⟨rfl, rfl⟩).trans (List.nil_append _)

/-- **Reading undoes writing, up to a torn tail.** From the start of the first `n` bytes of the
records' encodings, the reading loop returns exactly the records that end within the `n` bytes, in
order, and then a read fails at the end of the file. -/
theorem readRecords_cut {records : List LogRecord} (storable : ∀ rec ∈ records, rec.Storable)
    (n : Nat) {file : FileStream Byte} (cut : file = { bytes := (writtenBytes records).take n }) :
    (∀ i, (readRecords (file.bytes.length + 1) file).1[i]? =
      if (writtenBytes (records.take (i + 1))).length ≤ n then records[i]? else none) ∧
    AtEnd (readRecords (file.bytes.length + 1) file).2 := by
  have readable : Readable file := by
    rw [cut]
    exact ⟨rfl, Nat.zero_le _⟩
  have start : file.pos = 0 := by rw [cut]
  refine ⟨fun i => ?_, ?_⟩
  · rw [writtenBytes_eq]
    refine readRecords_decodes storable readable ?_ ?_ i
    · rw [start, List.drop_zero, cut, writtenBytes_eq]
    · rw [start, List.drop_zero]
      exact Nat.lt_succ_self _
  · exact (readRecords_stops _ readable (by omega)).2

/-- An Insert record, and a Commit record cut short. -/
theorem readRecords_cut_insert : ∃ records : List LogRecord, ∃ file : FileStream Byte,
    records =
        [{ txnId := 1, type := .insert, table := str "t", key := str "1", newValue := str "id=1;" },
          { txnId := 1, type := .commit }] ∧
      file = { bytes := (writtenBytes records).take 60 } ∧
    (∀ i, (readRecords (file.bytes.length + 1) file).1[i]? =
      if (writtenBytes (records.take (i + 1))).length ≤ 60 then records[i]? else none) ∧
    AtEnd (readRecords (file.bytes.length + 1) file).2 := by
  refine ⟨_, _, rfl, rfl, readRecords_cut ?_ 60 rfl⟩
  intro rec member
  rcases List.mem_cons.mp member with rfl | member
  · constructor <;> decide
  · rw [List.mem_singleton.mp member]
    constructor <;> decide

end Records

end MyDb
