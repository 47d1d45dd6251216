/-
**Rows of the SQL front end as text.**

The log and the table heap each have a copy of the row codec. A column of a row that SQL created is
an identifier, so it cannot be mistaken for a separator; its value is any string.
`codec_roundTrip_iff`: the row is read back, by either copy and whatever the order of its columns,
exactly when no value holds a semicolon.

The two copies are the same functions under different names, and the codec's own theorem decides
both. An identifier has a letter or an underscore in front and neither `=` nor `;` in it. A value
with a semicolon is cut there, and what is behind it is lost or read as another column
(`codec_loses_text`).
-/

import MyDatabaseEngine.Heap.SlottedPage
import MyDatabaseEngine.Sql.Lexer

namespace MyDb

open Sql (Lexer.isWord)

/-- Letters, digits and underscores. -/
def IsName (col : Str) : Prop := col ≠ [] ∧ ∀ c ∈ col, Lexer.isWord c = true

instance (col : Str) : Decidable (IsName col) := inferInstanceAs (Decidable (_ ∧ _))

/-- No separator is a letter, a digit or an underscore. -/
theorem isWord_separators : Lexer.isWord (chr '=') = false ∧ Lexer.isWord (chr ';') = false := by
  decide

theorem IsName.plain {col : Str} (name : IsName col) : PlainColumn col :=
  ⟨name.1, fun member => Bool.false_ne_true (isWord_separators.1.symm.trans (name.2 _ member)),
    fun member => Bool.false_ne_true (isWord_separators.2.symm.trans (name.2 _ member))⟩

/-- **When a row that SQL created survives its text**, in the log and in the heap. -/
theorem codec_roundTrip_iff (order : RowOrder) {row : Row} (names : ∀ col ∈ row, IsName col) :
    (deserializeRow (serializeRow order row) = row ↔ PlainValues row) ∧
      (TableHeap.deserializeRowData (TableHeap.serializeRowData order row) = row ↔
        PlainValues row) := by
  have both := (deserializeRow_serializeRow_iff order row).trans
    (faithfulText_iff.trans (and_iff_right fun col member => (names col member).plain))
  exact ⟨both, both⟩

/-- A row with a comment, which may be any string. -/
def commentRow (text : String) : Row := (∅ : Row).insert (str "comment") (str text)

theorem isName_commentRow (text : String) : ∀ col ∈ commentRow text, IsName col := by
  intro col member
  rcases Finmap.mem_insert.mp member with rfl | none
  · decide +kernel
  · exact (Finmap.notMem_empty none).elim

theorem codec_roundTrip_iff_comment :
    (deserializeRow (serializeRow default (commentRow "fine")) = commentRow "fine" ↔
        PlainValues (commentRow "fine")) ∧
      (TableHeap.deserializeRowData (TableHeap.serializeRowData default (commentRow "fine")) =
          commentRow "fine" ↔ PlainValues (commentRow "fine")) :=
  codec_roundTrip_iff default (isName_commentRow "fine")

/-- **A semicolon in a value cuts it off**, in either copy. -/
theorem codec_loses_text :
    (¬ ∀ (order : RowOrder) (row : Row), (∀ col ∈ row, IsName col) →
      deserializeRow (serializeRow order row) = row) ∧
    ¬ ∀ (order : RowOrder) (row : Row), (∀ col ∈ row, IsName col) →
      TableHeap.deserializeRowData (TableHeap.serializeRowData order row) = row := by
  have cut : deserializeRow (serializeRow default (commentRow "a;b")) ≠ commentRow "a;b" := by
    decide
  exact ⟨fun claim => cut (claim default _ (isName_commentRow "a;b")),
    fun claim => cut (claim default _ (isName_commentRow "a;b"))⟩

end MyDb
