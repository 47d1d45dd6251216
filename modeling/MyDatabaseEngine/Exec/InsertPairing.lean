/-
**The column list and the value list of an INSERT.**

The parser reads the two lists one after the other and compares their lengths nowhere; the loop of
`executeInsert` runs over the columns and takes the value at each index. `insert_pairs_iff`: on a
table that is there the lists are paired as they stand exactly when they have one length. A column
too many is read past the end of the values, a value too many is dropped.

A column may be named twice: the later value is the one stored, and the pairing asks no more of it.
So what `PairsByPosition` says of a column is the value at its last place in the list
(`lookup_buildRow`). `insert_mispairs`: texts that the parser accepts need not have two lists of one
length, on either side.
-/

import MyDatabaseEngine.Exec.Select
import MyDatabaseEngine.Exec.Dml
import MyDatabaseEngine.Sql.Parser

namespace MyDb

open Sql

/-- **The row pairs the lists by position.** Of a column that is given twice the last value
stays. -/
def PairsByPosition (columns : List Str) (values : List Expr) (row : Row) : Prop :=
  (∀ column, (row.lookup column).isSome ↔ column ∈ columns) ∧
    ∀ (k : Nat) column value, columns[k]? = some column → values[k]? = some value →
      column ∉ columns.drop (k + 1) → row.lookup column = some (extractLiteral value)

/-- **What an INSERT may do**: throw an exception, before anything is written, or append the one row
that pairs two lists of one length, and log it. -/
def InsertSafe (stmt : InsertStatement) (storage : TableStorage) (txn : Option Transaction) :
    Prop :=
  (∃ what, executeInsert stmt storage txn = .error (.runtimeError what)) ∨
    stmt.columns.length = stmt.values.length ∧ ∃ row, PairsByPosition stmt.columns stmt.values row ∧
      executeInsert stmt storage txn =
        .ok (storage.setRows stmt.table (storage.rows stmt.table ++ [row]),
          logIfActive txn (insertRecord stmt.table row))

section BuildRow

variable {columns : List Str} {values : List Expr} {row built : Row}

theorem buildRow_of_le (enough : columns.length ≤ values.length) :
    ∃ built, buildRow columns values row = .ok built := by
  induction columns generalizing values row with
  | nil => exact ⟨row, rfl⟩
  | cons column columns ih =>
    cases values with
    | nil => exact absurd enough (Nat.not_succ_le_zero _)
    | cons value values => exact ih (Nat.le_of_succ_le_succ enough)

/-- With fewer values than columns the loop reads past their end. -/
theorem buildRow_of_lt (few : values.length < columns.length) :
    buildRow columns values row = .error .undefinedBehaviour := by
  induction columns generalizing values row with
  | nil => exact absurd few (Nat.not_lt_zero _)
  | cons column columns ih =>
    cases values with
    | nil => rfl
    | cons value values => exact ih (Nat.lt_of_succ_lt_succ few)

theorem lookup_buildRow_of_not_mem {column : Str} (done : buildRow columns values row = .ok built)
    (other : column ∉ columns) : built.lookup column = row.lookup column := by
  induction columns generalizing values row with
  | nil =>
    cases done
    rfl
  | cons first rest ih =>
    cases values with
    | nil => cases done
    | cons value values =>
      obtain ⟨different, others⟩ := not_or.mp (mt List.mem_cons.mpr other)
      rw [ih done others, Finmap.lookup_insert_of_ne _ different]

/-- The row of an INSERT, in a column that no later one repeats. -/
theorem lookup_buildRow {k : Nat} {column : Str} {value : Expr}
    (done : buildRow columns values row = .ok built) (isColumn : columns[k]? = some column)
    (last : column ∉ columns.drop (k + 1)) (isValue : values[k]? = some value) :
    built.lookup column = some (extractLiteral value) := by
  induction columns generalizing values row k with
  | nil => cases isColumn
  | cons first rest ih =>
    cases values with
    | nil => cases done
    | cons head values =>
      cases k with
      | zero =>
        cases isColumn
        cases isValue
        have kept := @lookup_buildRow_of_not_mem rest values _ _ _ done last
        rw [kept, Finmap.lookup_insert]
      | succ k => exact ih done isColumn last isValue

/-- The row has the columns of the list, and those it had before. -/
theorem isSome_lookup_buildRow (done : buildRow columns values row = .ok built) (column : Str) :
    (built.lookup column).isSome ↔ column ∈ columns ∨ (row.lookup column).isSome := by
  induction columns generalizing values row with
  | nil =>
    cases done
    simp
  | cons first rest ih =>
    cases values with
    | nil => cases done
    | cons value values =>
      rw [ih done, List.mem_cons]
      by_cases same : column = first
      · rw [same, Finmap.lookup_insert]
        simp
      · rw [Finmap.lookup_insert_of_ne _ same]
        simp [same]

theorem pairsByPosition_buildRow (done : buildRow columns values ∅ = .ok built) :
    PairsByPosition columns values built := by
  refine ⟨fun column => ?_, fun k column value isColumn isValue last =>
    lookup_buildRow done isColumn last isValue⟩
  rw [isSome_lookup_buildRow done, Finmap.lookup_empty]
  simp

end BuildRow

/-- **When an INSERT is safe**: its table is not there, which is found out first, or its lists have
one length. -/
theorem insert_pairs_iff (stmt : InsertStatement) (storage : TableStorage)
    (txn : Option Transaction) :
    InsertSafe stmt storage txn ↔
      storage.lookup stmt.table = none ∨ stmt.columns.length = stmt.values.length := by
  unfold InsertSafe executeInsert
  cases found : storage.lookup stmt.table with
  | none => exact iff_of_true (.inl ⟨_, rfl⟩) (.inl rfl)
  | some rows =>
    rw [TableStorage.rows_of_lookup found]
    simp only [reduceCtorEq, false_or]
    constructor
    · rintro (⟨what, thrown⟩ | ⟨same, -⟩)
      · rcases Nat.lt_or_ge stmt.values.length stmt.columns.length with few | enough
        · rw [buildRow_of_lt few] at thrown
          cases thrown
        · obtain ⟨built, done⟩ := @buildRow_of_le stmt.columns stmt.values ∅ enough
          rw [done] at thrown
          cases thrown
      · exact same
    · intro same
      obtain ⟨built, done⟩ := @buildRow_of_le stmt.columns stmt.values ∅ (Nat.le_of_eq same)
      refine .inr ⟨same, built, pairsByPosition_buildRow done, ?_⟩
      rw [done]
      rfl

/-- **The lists of an accepted INSERT need not match**: one is read past the end of its values,
another drops a value. -/
theorem insert_mispairs :
    (¬ ∀ sql stmt, parseSQL sql = .ok (.insert stmt) → ∀ storage txn, InsertSafe stmt storage txn) ∧
      ∃ stmt, parseSQL (str "INSERT INTO users (id) VALUES (1, 30)") = .ok (.insert stmt) ∧
        ¬ InsertSafe stmt (usersStorage []) none := by
  constructor
  · intro claim
    have parsed : parseSQL (str "INSERT INTO users (id, age) VALUES (1)") =
        .ok (.insert ⟨str "users", [str "id", str "age"], [.literal .integer (str "1")]⟩) := by
      decide +kernel
    have safe := claim _ _ parsed (usersStorage []) none
    rw [insert_pairs_iff] at safe
    exact absurd safe (by decide +kernel)
  · refine ⟨⟨str "users", [str "id"], [.literal .integer (str "1"), .literal .integer (str "30")]⟩,
      by decide +kernel, ?_⟩
    rw [insert_pairs_iff]
    decide +kernel

end MyDb
