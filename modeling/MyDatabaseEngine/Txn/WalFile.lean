/-
**The log file across openings.**

`readRecords_stops`: the loop `while (readRecord(rec))` ends with a failed read, at the end of the
file and with `fail` set. The constructor leaves the stream in that state, so no later `append`
reaches the file, and `readAll`, which seeks before it clears the flags, reads from the end.

* `readAll_openFile`: a log just opened reads back no record, whatever its file holds.
* `runs_of_openFile`: whatever is appended to it, its file stays, and recovery through it does
  nothing.
* `readsBack_iff`: so a log does what it is for only when there is nothing to keep.
* `writeRecord_appending`: what `append` would write at the end of a usable stream.
-/

import MyDatabaseEngine.Txn.Wal

namespace MyDb

/-! ### Reading to the end -/

section Readers

/-- The stream is usable and inside its file. -/
structure Readable (file : FileStream Byte) : Prop where
  good : file.good = true
  inside : file.pos ≤ file.bytes.length

/-- The stream has failed at the end of its file. -/
structure AtEnd (file : FileStream Byte) : Prop where
  fail : file.fail = true
  pos : file.pos = file.bytes.length

/-- **What a reader does to a readable stream**: it advances by at least `least`, or it fails at the
end of the file. -/
def Advances {α : Type} (least : Nat) (reader : Reader α) : Prop :=
  ∀ file, Readable file → (reader file).2.bytes = file.bytes ∧
    match (reader file).1 with
    | none => AtEnd (reader file).2
    | some _ => Readable (reader file).2 ∧ file.pos + least ≤ (reader file).2.pos

theorem readBytes_advances (count : Nat) : Advances count (readBytes count) := by
  intro file readable
  have sameBytes := FileStream.read_bytes count file
  refine ⟨sameBytes, ?_⟩
  cases failed : (file.read count).2.fail with
  | true =>
    have atEnd := FileStream.read_fail_pos readable.good readable.inside failed
    simp only [readBytes, failed, if_true]
    exact ⟨failed, atEnd.trans (congrArg List.length sameBytes.symm)⟩
  | false =>
    obtain ⟨_, pos, _⟩ := FileStream.read_success failed
    have inside := FileStream.read_pos_le readable.inside count
    simp only [readBytes, failed, Bool.false_eq_true, if_false]
    refine ⟨⟨FileStream.read_good failed, ?_⟩, le_of_eq pos.symm⟩
    rw [sameBytes]
    exact inside

theorem Advances.andThen {α γ : Type} {least : Nat} {least' : α → Nat} {first : Reader α}
    {next : α → Reader γ} (advances : Advances least first)
    (continues : ∀ value, Advances (least' value) (next value)) :
    Advances least (first.andThen next) := by
  intro file readable
  obtain ⟨sameBytes, outcome⟩ := advances file readable
  unfold Reader.andThen
  rcases read : first file with ⟨value?, file'⟩
  rw [read] at sameBytes outcome
  cases value? with
  | none => exact ⟨sameBytes, outcome⟩
  | some value =>
    obtain ⟨readable', pos⟩ := outcome
    obtain ⟨sameBytes', outcome'⟩ := continues value file' readable'
    refine ⟨sameBytes'.trans sameBytes, ?_⟩
    dsimp only
    split at outcome'
    · exact outcome'
    · exact ⟨outcome'.1, le_trans pos (le_trans (Nat.le_add_right _ _) outcome'.2)⟩

theorem pure_advances {α : Type} (value : α) : Advances 0 fun file => (some value, file) :=
  fun _ readable => ⟨rfl, readable, le_refl _⟩

theorem readStr_advances : Advances 4 readStr :=
  (readBytes_advances 4).andThen fun _ => readBytes_advances _

theorem readRecord_advances : Advances 8 readRecord :=
  (readBytes_advances 8).andThen fun _ => (readBytes_advances 8).andThen fun _ =>
  (readBytes_advances 8).andThen fun _ => (readBytes_advances 1).andThen fun _ =>
  readStr_advances.andThen fun _ => readStr_advances.andThen fun _ =>
  readStr_advances.andThen fun _ => readStr_advances.andThen fun _ => pure_advances _

/-- **The reading loop ends at the end of the file, with `fail` set.** -/
theorem readRecords_stops (fuel : Nat) :
    ∀ {file : FileStream Byte}, Readable file → file.bytes.length - file.pos < fuel →
      (readRecords fuel file).2.bytes = file.bytes ∧ AtEnd (readRecords fuel file).2 := by
  induction fuel with
  | zero => exact fun _ enough => absurd enough (Nat.not_lt_zero _)
  | succ fuel ih =>
    intro file readable enough
    obtain ⟨sameBytes, outcome⟩ := readRecord_advances file readable
    rw [readRecords]
    rcases read : readRecord file with ⟨rec?, file'⟩
    rw [read] at sameBytes outcome
    cases rec? with
    | none => exact ⟨sameBytes, outcome⟩
    | some rec =>
      obtain ⟨readable', pos⟩ := outcome
      have inside := readable'.inside
      have closer : file'.bytes.length - file'.pos < fuel := by
        dsimp only at sameBytes pos inside
        rw [sameBytes] at inside ⊢
        omega
      obtain ⟨sameBytes', atEnd⟩ := ih readable' closer
      exact ⟨sameBytes'.trans sameBytes, atEnd⟩

end Readers

/-! ### Writing -/

section Writers

/-- The bytes of a string in the log. -/
def strBytes (s : Str) : Str := LittleEndian.bytes 4 s.length ++ s.take (s.length % 2 ^ 32)

/-- The bytes of one record in the log. -/
def recordBytes (rec : LogRecord) : Str :=
  LittleEndian.bytes 8 rec.lsn ++ LittleEndian.bytes 8 rec.prevLsn ++
    LittleEndian.bytes 8 rec.txnId ++
    [rec.type.code] ++ strBytes rec.table ++ strBytes rec.key ++ strBytes rec.oldValue ++
      strBytes rec.newValue

open FileStream (Appending write_appending)

theorem writeStr_appending {file : FileStream Byte} (appending : Appending file) (s : Str) :
    (writeStr s file).bytes = file.bytes ++ strBytes s ∧ Appending (writeStr s file) := by
  obtain ⟨length, afterLength⟩ := write_appending appending (LittleEndian.bytes 4 s.length)
  obtain ⟨text, afterText⟩ := write_appending afterLength (s.take (s.length % 2 ^ 32))
  refine ⟨?_, afterText⟩
  rw [writeStr, text, length, List.append_assoc]
  rfl

/-- **`writeRecord` at the end of a usable stream appends the record's bytes.** -/
theorem writeRecord_appending {file : FileStream Byte} (appending : Appending file)
    (rec : LogRecord) :
    (writeRecord rec file).bytes = file.bytes ++ recordBytes rec ∧
      Appending (writeRecord rec file) := by
  obtain ⟨lsn, afterLsn⟩ := write_appending appending (LittleEndian.bytes 8 rec.lsn)
  obtain ⟨prevLsn, afterPrevLsn⟩ := write_appending afterLsn (LittleEndian.bytes 8 rec.prevLsn)
  obtain ⟨txnId, afterTxnId⟩ := write_appending afterPrevLsn (LittleEndian.bytes 8 rec.txnId)
  obtain ⟨type, afterType⟩ := write_appending afterTxnId [rec.type.code]
  obtain ⟨table, afterTable⟩ := writeStr_appending afterType rec.table
  obtain ⟨key, afterKey⟩ := writeStr_appending afterTable rec.key
  obtain ⟨oldValue, afterOld⟩ := writeStr_appending afterKey rec.oldValue
  obtain ⟨newValue, afterNew⟩ := writeStr_appending afterOld rec.newValue
  refine ⟨?_, afterNew⟩
  simp only [writeRecord, newValue, oldValue, key, table, type, txnId, prevLsn, lsn, recordBytes,
    List.append_assoc]

theorem writeStr_of_fail {file : FileStream Byte} (failed : file.fail = true) (s : Str) :
    writeStr s file = file := by
  unfold writeStr
  rw [FileStream.write_of_fail failed, FileStream.write_of_fail failed]

theorem writeRecord_of_fail {file : FileStream Byte} (failed : file.fail = true) (rec : LogRecord) :
    writeRecord rec file = file := by
  unfold writeRecord
  simp only [FileStream.write_of_fail failed, writeStr_of_fail failed]

namespace Wal

theorem openFile_atEnd (bytes : Str) :
    (openFile bytes).file.bytes = bytes ∧ AtEnd (openFile bytes).file :=
  readRecords_stops _ ⟨rfl, Nat.zero_le _⟩ (Nat.lt_succ_self _)

/-- **`append` on a log whose stream has failed writes nothing.** -/
theorem append_file {wal : Wal} (failed : wal.file.fail = true) (record : LogRecord) :
    (wal.append record).2.file = wal.file := by
  unfold append FileStream.seekEnd
  dsimp only
  rw [FileStream.seek_of_fail failed, writeRecord_of_fail failed]

/-- **A log whose stream has failed at the end of its file reads back nothing.** -/
theorem readAll_of_atEnd {wal : Wal} (atEnd : AtEnd wal.file) : wal.readAll.1 = [] := by
  unfold readAll
  dsimp only
  rw [FileStream.seek_of_fail atEnd.fail]
  have readable : Readable wal.file.clear := ⟨rfl, le_of_eq atEnd.pos⟩
  obtain ⟨sameBytes, outcome⟩ := readRecord_advances _ readable
  have inside : (readRecord wal.file.clear).1 = none := by
    cases found : (readRecord wal.file.clear).1 with
    | none => rfl
    | some rec =>
      rw [found] at outcome
      obtain ⟨⟨_, inside⟩, pos⟩ := outcome
      rw [sameBytes] at inside
      have start : wal.file.clear.pos = wal.file.clear.bytes.length := atEnd.pos
      omega
  rw [readRecords]
  split
  · rfl
  · rename_i found
    rw [found] at inside
    cases inside

theorem readAll_openFile (bytes : Str) : (openFile bytes).readAll.1 = [] :=
  readAll_of_atEnd (openFile_atEnd bytes).2

theorem recover_of_atEnd {wal : Wal} (atEnd : AtEnd wal.file) (storage : TableStorage) :
    (wal.recover storage).1 = storage := by
  unfold recover
  dsimp only
  rw [readAll_of_atEnd atEnd]
  rfl

end Wal

end Writers

/-! ### A log object from its opening on -/

section Calls

/-- The calls of a client that only writes. -/
inductive WalCall
  | append (record : LogRecord)
  | flush
  deriving DecidableEq, Repr

/-- One call. -/
def WalCall.run (call : WalCall) (wal : Wal) : Wal :=
  match call with
  | .append record => (wal.append record).2
  | .flush => wal.flush

/-- A call on a log whose stream has failed leaves its file as it is. -/
theorem run_of_atEnd (call : WalCall) {wal : Wal} (atEnd : AtEnd wal.file) :
    (call.run wal).file.bytes = wal.file.bytes ∧ AtEnd (call.run wal).file := by
  cases call with
  | append record =>
    rw [WalCall.run, Wal.append_file atEnd.fail]
    exact ⟨rfl, atEnd⟩
  | flush => exact ⟨rfl, atEnd⟩

/-- **A log that was opened is never written**, whatever is appended to it, and recovery through it
changes no table. -/
theorem runs_of_openFile (bytes : Str) (calls : List WalCall) (storage : TableStorage) :
    (calls.foldl (fun wal call => call.run wal) (Wal.openFile bytes)).file.bytes = bytes ∧
      ((calls.foldl (fun wal call => call.run wal) (Wal.openFile bytes)).recover storage).1 =
        storage := by
  have kept : ∀ {wal : Wal}, AtEnd wal.file →
      (calls.foldl (fun wal call => call.run wal) wal).file.bytes = wal.file.bytes ∧
        AtEnd (calls.foldl (fun wal call => call.run wal) wal).file := by
    induction calls with
    | nil => exact fun atEnd => ⟨rfl, atEnd⟩
    | cons call rest ih =>
      intro wal atEnd
      obtain ⟨same, atEnd'⟩ := run_of_atEnd call atEnd
      obtain ⟨same', atEnd''⟩ := ih atEnd'
      exact ⟨same'.trans same, atEnd''⟩
  obtain ⟨held, atEnd⟩ := Wal.openFile_atEnd bytes
  obtain ⟨same, atEnd'⟩ := kept atEnd
  exact ⟨same.trans held, Wal.recover_of_atEnd atEnd' storage⟩

/-- **What a log is for**: after calls on a log opened on a file of records, the file read again
yields the old records and then the appended ones, whose LSNs exceed all before them. -/
def ReadsBack (old : List LogRecord) (calls : List WalCall) : Prop :=
  let wal := calls.foldl (fun wal call => call.run wal) (Wal.openFile (old.flatMap recordBytes))
  (Wal.openFile wal.file.bytes).readAll.1 = old ++ wal.appended ∧
    ∀ before rec after, wal.appended = before ++ rec :: after → ∀ r ∈ old ++ before, r.lsn < rec.lsn

/-- The records a client's calls hand to `append`. -/
theorem length_appended (calls : List WalCall) (wal : Wal) :
    (calls.foldl (fun wal call => call.run wal) wal).appended.length =
      wal.appended.length + (calls.filter (· ≠ .flush)).length := by
  induction calls generalizing wal with
  | nil => rfl
  | cons call rest ih =>
    rw [List.foldl_cons, ih]
    cases call with
    | append record =>
      simp [WalCall.run, Wal.append]
      omega
    | flush => simp [WalCall.run, Wal.flush]

/-- **When a log reads back**: its file holds no record and none is appended. -/
theorem readsBack_iff (old : List LogRecord) (calls : List WalCall) :
    ReadsBack old calls ↔ old = [] ∧ ∀ call ∈ calls, call = .flush := by
  have appended := length_appended calls (Wal.openFile (old.flatMap recordBytes))
  have onlyFlush : (calls.filter (· ≠ .flush)).length = 0 ↔ ∀ call ∈ calls, call = .flush := by
    rw [List.length_eq_zero_iff, List.filter_eq_nil_iff]
    simp
  have start : (Wal.openFile (old.flatMap recordBytes)).appended.length = 0 := rfl
  unfold ReadsBack
  dsimp only
  rw [Wal.readAll_openFile]
  constructor
  · rintro ⟨same, _⟩
    obtain ⟨noOld, noAppended⟩ := List.append_eq_nil_iff.mp same.symm
    refine ⟨noOld, onlyFlush.mp ?_⟩
    rw [noAppended, List.length_nil] at appended
    omega
  · rintro ⟨rfl, flushes⟩
    have noAppended := List.length_eq_zero_iff.mp
      (appended.trans (by rw [start, onlyFlush.mpr flushes]))
    rw [noAppended]
    refine ⟨rfl, fun before rec after split => ?_⟩
    simp at split

/-- **An appended record is not read back.** -/
theorem append_not_read_back :
    ¬ ∀ (old : List LogRecord) (calls : List WalCall), ReadsBack old calls := by
  intro claim
  have readsBack := claim [] [.append { txnId := 1, type := .begin }, .flush]
  exact absurd readsBack.1 (by decide)

end Calls

end MyDb
