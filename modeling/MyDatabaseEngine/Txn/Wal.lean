/-
**The write-ahead log** (`include/wal.h`, `src/wal.cpp`).

The log file is a `FileStream` of bytes. A record is written field by field, integers little-endian
and each string behind its 32-bit length. The constructor reads the whole file to find the next LSN;
`append` seeks to the end and writes; `readAll` seeks to the start, clears the flags and reads.

`recoverFrom` is the body of `WAL::recover` after its call of `readAll`: redo the records of the
transactions with a Commit record, then undo the others' backwards. The three ways the source looks
for a row by its `id` are kept apart: `find` (`hasKey`), which only reads, `row["id"]` (`touchId`),
which gives a row without the column an empty one, and `remove_if`.
-/

import MyDatabaseEngine.Txn.RowCodec
import MyDatabaseEngine.Txn.Transaction
import MyDatabaseEngine.Lib.FileStream
import MyDatabaseEngine.Lib.LittleEndian

namespace MyDb

/-- `LSN = uint64_t`: the counter of a log runs modulo `2 ^ 64`. -/
abbrev LSN := Nat

/-- `LogRecord::Type`; `unnamed` is a byte read back that no enumerator has. -/
inductive RecordType
  | begin
  | commit
  | abort
  | update
  | insert
  | delete
  | unnamed (code : Byte)
  deriving DecidableEq, Repr

namespace RecordType

/-- `static_cast<uint8_t>(rec.type)`. -/
def code : RecordType → Byte
  | begin => 0
  | commit => 1
  | abort => 2
  | update => 3
  | insert => 4
  | delete => 5
  | unnamed code => code

/-- `static_cast<LogRecord::Type>(type)`. -/
def ofCode (code : Byte) : RecordType :=
  match code.val with
  | 0 => begin
  | 1 => commit
  | 2 => abort
  | 3 => update
  | 4 => insert
  | 5 => delete
  | _ => unnamed code

end RecordType

structure LogRecord where
  lsn : LSN := 0
  prevLsn : LSN := 0
  txnId : TxnId
  type : RecordType
  table : Str := []
  key : Str := []
  oldValue : Str := []
  newValue : Str := []
  deriving DecidableEq, Repr

/-! ### The record format -/

/-- `writeStr`. -/
def writeStr (s : Str) (file : FileStream Byte) : FileStream Byte :=
  (file.write (LittleEndian.bytes 4 s.length)).write (s.take (s.length % 2 ^ 32))

/-- `WAL::writeRecord`. -/
def writeRecord (rec : LogRecord) (file : FileStream Byte) : FileStream Byte :=
  let file := file.write (LittleEndian.bytes 8 rec.lsn)
  let file := file.write (LittleEndian.bytes 8 rec.prevLsn)
  let file := file.write (LittleEndian.bytes 8 rec.txnId)
  let file := file.write [rec.type.code]
  writeStr rec.newValue (writeStr rec.oldValue (writeStr rec.key (writeStr rec.table file)))

/-- A stream computation that stops at the first failed read: `none` then. -/
abbrev Reader (α : Type) := FileStream Byte → Option α × FileStream Byte

/-- `if (!file_.read(buffer, count)) return false;` -/
def readBytes (count : Nat) : Reader Str := fun file =>
  let (got, file) := file.read count
  (if file.fail then none else some got, file)

/-- The next read, when the one before succeeded. -/
def Reader.andThen {α γ : Type} (first : Reader α) (next : α → Reader γ) : Reader γ := fun file =>
  match first file with
  | (none, file) => (none, file)
  | (some value, file) => next value file

/-- `readStr`. -/
def readStr : Reader Str :=
  (readBytes 4).andThen fun length => readBytes (LittleEndian.value length)

/-- `WAL::readRecord`. -/
def readRecord : Reader LogRecord :=
  (readBytes 8).andThen fun lsn =>
  (readBytes 8).andThen fun prevLsn =>
  (readBytes 8).andThen fun txnId =>
  (readBytes 1).andThen fun type =>
  readStr.andThen fun table =>
  readStr.andThen fun key =>
  readStr.andThen fun oldValue =>
  readStr.andThen fun newValue file =>
    (some { lsn := LittleEndian.value lsn, prevLsn := LittleEndian.value prevLsn,
            txnId := LittleEndian.value txnId, type := RecordType.ofCode (type.headD 0),
            table, key, oldValue, newValue }, file)

/-- `while (readRecord(rec)) ...`: every record read, and the stream the failed read left. A record
takes at least one byte, so a file never yields more records than it has bytes. -/
def readRecords : Nat → FileStream Byte → List LogRecord × FileStream Byte
  | 0, file => ([], file)
  | fuel + 1, file =>
    match readRecord file with
    | (none, file) => ([], file)
    | (some rec, file) =>
      let (rest, file) := readRecords fuel file
      (rec :: rest, file)

/-! ### The log object -/

/-- `WAL`. `appended` is no field of the source: it lists the records handed to `append` with the
LSN each was given. -/
structure Wal where
  file : FileStream Byte
  nextLsn : LSN := 1
  /-- `nextLsn_` is a `uint64_t`. -/
  nextLsn_lt : nextLsn < 2 ^ 64 := by decide
  appended : List LogRecord := []
  deriving DecidableEq

namespace Wal

/-- The constructor, on a file holding these bytes (none, when the file had to be created). -/
def openFile (bytes : Str) : Wal :=
  let (records, file) := readRecords (bytes.length + 1) { bytes }
  { file
    nextLsn :=
      match records.getLast? with
      | none => 1
      | some rec => (rec.lsn + 1) % 2 ^ 64
    nextLsn_lt := by
      split
      · decide
      · exact Nat.mod_lt _ (by decide) }

/-- `WAL::append`. -/
def append (record : LogRecord) (wal : Wal) : LSN × Wal :=
  let record := { record with lsn := wal.nextLsn }
  (record.lsn,
    { file := writeRecord record wal.file.seekEnd
      nextLsn := (wal.nextLsn + 1) % 2 ^ 64
      nextLsn_lt := Nat.mod_lt _ (by decide)
      appended := wal.appended ++ [record] })

/-- `WAL::flush`. -/
def flush (wal : Wal) : Wal := { wal with file := wal.file.flush }

/-- `WAL::readAll`. -/
def readAll (wal : Wal) : List LogRecord × Wal :=
  let (records, file) := readRecords (wal.file.bytes.length + 1) (wal.file.seek 0).clear
  (records, { wal with file })

end Wal

/-! ### Recovery -/

/-- `it != r.end() && it->second == key`. -/
def hasKey (key : Str) (row : Row) : Bool := row.id? = some key

/-- The row after `row["id"]` was evaluated. -/
def touchId (row : Row) : Row :=
  match row.id? with
  | some _ => row
  | none => row.insert idColumn []

/-- `for (auto& row : table) { if (row["id"] == key) { row = newRow; found = true; break; } }`. -/
def overwriteFirst (key : Str) (newRow : Row) : List Row → List Row × Bool
  | [] => ([], false)
  | row :: rest =>
    if hasKey key (touchId row) then (newRow :: rest, true)
    else
      let (rest', found) := overwriteFirst key newRow rest
      (touchId row :: rest', found)

/-- `table.erase(std::remove_if(...), table.end())` on the rows with the key. -/
def removeKey (key : Str) (rows : List Row) : List Row := rows.filter fun row => !hasKey key row

/-- One iteration of the redo loop, for a record of a committed transaction. -/
def redoRecord (rec : LogRecord) (storage : TableStorage) : TableStorage :=
  match rec.type with
  | .insert =>
    let newRow := deserializeRow rec.newValue
    let rows := storage.rows rec.table
    storage.setRows rec.table (if rows.any (hasKey rec.key) then rows else rows ++ [newRow])
  | .update =>
    let newRow := deserializeRow rec.newValue
    let (rows, found) := overwriteFirst rec.key newRow (storage.rows rec.table)
    storage.setRows rec.table (if found then rows else rows ++ [newRow])
  | .delete => storage.setRows rec.table (removeKey rec.key (storage.rows rec.table))
  | _ => storage

/-- One iteration of the undo loop, for a record of a transaction without a Commit record. -/
def undoRecord (rec : LogRecord) (storage : TableStorage) : TableStorage :=
  match rec.type with
  | .insert => storage.setRows rec.table (removeKey rec.key (storage.rows rec.table))
  | .update | .delete =>
    let oldRow := deserializeRow rec.oldValue
    storage.setRows rec.table (overwriteFirst rec.key oldRow (storage.rows rec.table)).1
  | _ => storage

/-- The ids inserted into `committed`. -/
def committedIds (records : List LogRecord) : List TxnId :=
  (records.filter fun rec => rec.type = .commit).map LogRecord.txnId

/-- `WAL::recover`, once `readAll` has returned the records. -/
def recoverFrom (records : List LogRecord) (storage : TableStorage) : TableStorage :=
  let committed := committedIds records
  let redone := records.foldl (fun storage rec =>
    if rec.txnId ∈ committed then redoRecord rec storage else storage) storage
  records.foldr (fun rec storage =>
    if rec.txnId ∈ committed then storage else undoRecord rec storage) redone

/-- `WAL::recover`. -/
def Wal.recover (wal : Wal) (storage : TableStorage) : TableStorage × Wal :=
  let (records, wal) := wal.readAll
  (recoverFrom records storage, wal)

end MyDb
