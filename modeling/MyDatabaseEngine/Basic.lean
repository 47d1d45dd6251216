/-
**Bytes, strings, rows and tables.**

`std::string` is a list of bytes (`Str`), ordered as `std::string::operator<` orders it
(lexicographically, bytes as `unsigned char`). An `unordered_map` is a `Finmap`: its entries carry
no order, and two of them are equal when they hold the same bindings. Where the source iterates over
an `unordered_map`, the order is a parameter of the model (`RowOrder`).

`Fault` are the ways in which a call may not return: the exceptions the source throws, with their
texts, an access that has no defined outcome, and not ending at all. The character classes are those
of the "C" locale. `TableStorage` is the map of tables that the executor works on; a table that is
not there has no rows.
-/

import Mathlib.Data.Finmap
import Mathlib.Data.List.Lex
import Mathlib.Data.List.Sort
import Mathlib.Data.Prod.Lex
import Mathlib.Order.Fin.Basic
import MyDatabaseEngine.Lib.LittleEndian

namespace MyDb

/-- `char`, compared as `unsigned char`. -/
abbrev Byte := Fin 256

/-- `std::string`. -/
abbrev Str := List Byte

instance Byte.lawfulBEq : LawfulBEq Byte := inferInstance

instance Str.lawfulBEq : LawfulBEq Str := inferInstance

/-- The byte of an ASCII character. -/
def chr (c : Char) : Byte := Fin.ofNat 256 c.toNat

/-- The bytes of a string literal of the source (UTF-8). -/
def str (s : String) : Str :=
  s.toList.flatMap fun c => (String.utf8EncodeChar c).map fun b => b.toFin

/-! ### Character classes of the "C" locale -/

/-- `std::isspace`. -/
def isSpace (c : Byte) : Bool := c = chr ' ' ∨ (9 ≤ c ∧ c ≤ 13)

/-- `std::isdigit`. -/
def isDigit (c : Byte) : Bool := chr '0' ≤ c ∧ c ≤ chr '9'

/-- The lower-case letters. -/
def isLower (c : Byte) : Bool := chr 'a' ≤ c ∧ c ≤ chr 'z'

/-- The upper-case letters. -/
def isUpper (c : Byte) : Bool := chr 'A' ≤ c ∧ c ≤ chr 'Z'

/-- `std::isalpha`. -/
def isAlpha (c : Byte) : Bool := isLower c || isUpper c

/-- `std::isalnum`. -/
def isAlnum (c : Byte) : Bool := isAlpha c || isDigit c

/-- `std::toupper`. -/
def toUpper (c : Byte) : Byte := if isLower c then c - 32 else c

/-- `std::to_string` of an unsigned value. -/
def toString10 (n : Nat) : Str := (Nat.toDigits 10 n).map chr

theorem isDigit_of_char {c : Char} (digit : c.isDigit = true) :
    isDigit (chr c) = true ∧ (chr c).val = c.toNat := by
  have bounds : 48 ≤ c.toNat ∧ c.toNat ≤ 57 := by
    unfold Char.isDigit at digit
    rw [Bool.and_eq_true, decide_eq_true_eq, decide_eq_true_eq] at digit
    exact ⟨UInt32.le_iff_toNat_le.mp digit.1, UInt32.le_iff_toNat_le.mp digit.2⟩
  have value : (chr c).val = c.toNat := Nat.mod_eq_of_lt (by omega)
  have low : (chr '0').val = 48 := rfl
  have high : (chr '9').val = 57 := rfl
  refine ⟨decide_eq_true ⟨?_, ?_⟩, value⟩
  · rw [Fin.le_def, low, value]
    exact bounds.1
  · rw [Fin.le_def, high, value]
    exact bounds.2

theorem isDigit_toString10 (n : Nat) : ∀ c ∈ toString10 n, isDigit c = true := by
  intro c member
  obtain ⟨digit, among, rfl⟩ := List.mem_map.mp member
  exact (isDigit_of_char (Nat.isDigit_of_mem_toDigits (by decide) (by decide) among)).1

theorem toString10_ne_nil (n : Nat) : toString10 n ≠ [] :=
  fun empty => Nat.toDigits_ne_nil (List.map_eq_nil_iff.mp empty)

/-- Reading the digits of a printed number, one by one, gives the number. -/
theorem foldl_toString10 {step : Nat → Byte → Nat}
    (digit : ∀ value c, isDigit c = true → step value c = 10 * value + (c.val - (chr '0').val))
    (n : Nat) : (toString10 n).foldl step 0 = n := by
  have same : ∀ (digits : List Char) (value : Nat), (∀ c ∈ digits, c.isDigit = true) →
      (digits.map chr).foldl step value = Nat.ofDigitChars 10 digits value := by
    intro digits
    induction digits with
    | nil => exact fun value _ => rfl
    | cons c digits ih =>
      intro value all
      have isDigit := isDigit_of_char (all c List.mem_cons_self)
      rw [List.map_cons, List.foldl_cons, Nat.ofDigitChars_cons, digit _ _ isDigit.1,
        ih _ fun c' member => all c' (List.mem_cons_of_mem _ member), isDigit.2]
      rfl
  refine (same _ 0 fun c member => ?_).trans Nat.ofDigitChars_ten_toDigits
  exact Nat.isDigit_of_mem_toDigits (by decide) (by decide) member

/-! ### Failures -/

/-- How a call can end other than by returning. -/
inductive Fault
  /-- `throw std::runtime_error(what)`. -/
  | runtimeError (what : Str)
  /-- `throw ParseError(what)`. -/
  | parseError (what : Str)
  /-- `throw std::out_of_range(what)`, from the standard library. -/
  | outOfRange (what : Str)
  /-- `throw std::invalid_argument(what)`, from the standard library. -/
  | invalidArgument (what : Str)
  /-- An access outside an array or vector: the call has no defined outcome. -/
  | undefinedBehaviour
  /-- A loop or recursion of the source that never ends. -/
  | diverges
  deriving DecidableEq, Repr

/-! ### Rows and tables -/

/-- `Row = std::unordered_map<std::string, std::string>`. -/
abbrev Row := Finmap fun _ : Str => Str

/-- The `id` column's name. -/
def idColumn : Str := str "id"

/-- The row's `id`, if it has that column. -/
def Row.id? (row : Row) : Option Str := row.lookup idColumn

/-- An iteration order for rows: a listing of each row's entries. The standard leaves the order of
an `unordered_map` open, so every result holds for every such listing. -/
structure RowOrder where
  entries : Row → List (Σ _ : Str, Str)
  listing : ∀ row, (entries row : Multiset (Σ _ : Str, Str)) = row.entries

/-- An entry, ordered by its column and then its value. -/
def entryKey (e : Σ _ : Str, Str) : Str ×ₗ Str := toLex (e.1, e.2)

theorem entryKey_injective : Function.Injective entryKey := by
  rintro ⟨col, val⟩ ⟨col', val'⟩ same
  cases same
  rfl

/-- The order of entries by their key. -/
def entryLe (e e' : Σ _ : Str, Str) : Prop := entryKey e ≤ entryKey e'

instance : DecidableRel entryLe :=
  fun e e' => inferInstanceAs (Decidable (entryKey e ≤ entryKey e'))

instance : Std.Total entryLe := ⟨fun e e' => le_total (entryKey e) (entryKey e')⟩

instance : IsTrans (Σ _ : Str, Str) entryLe := ⟨fun _ _ _ first second => le_trans first second⟩

instance : Std.Antisymm entryLe :=
  ⟨fun _ _ first second => entryKey_injective (le_antisymm first second)⟩

/-- One such order: by column. -/
instance : Inhabited RowOrder where
  default :=
    { entries := fun row =>
        Quot.liftOn row.entries (fun l => l.insertionSort entryLe) fun l l' same =>
          ((List.perm_insertionSort _ l).trans (same.trans
            (List.perm_insertionSort _ l').symm)).eq_of_pairwise'
            (List.pairwise_insertionSort _ l) (List.pairwise_insertionSort _ l')
      listing := fun row =>
        Quot.inductionOn row.entries fun l => Quot.sound (List.perm_insertionSort _ l) }

/-- `TableStorage = std::unordered_map<std::string, std::vector<Row>>`. -/
abbrev TableStorage := Finmap fun _ : Str => List Row

/-- `storage[table]` read: a table that is not there counts as empty. -/
def TableStorage.rows (storage : TableStorage) (table : Str) : List Row :=
  (storage.lookup table).getD []

/-- `storage[table] = rows`; the entry is created when it is not there. -/
def TableStorage.setRows (storage : TableStorage) (table : Str) (rows : List Row) : TableStorage :=
  storage.insert table rows

@[simp]
theorem TableStorage.rows_setRows_self (storage : TableStorage) (table : Str) (rows : List Row) :
    (storage.setRows table rows).rows table = rows := by
  unfold TableStorage.rows TableStorage.setRows
  rw [Finmap.lookup_insert, Option.getD_some]

theorem TableStorage.rows_setRows (storage : TableStorage) (table other : Str) (rows : List Row) :
    (storage.setRows table rows).rows other =
      if other = table then rows else storage.rows other := by
  by_cases same : other = table
  · rw [if_pos same, same, TableStorage.rows_setRows_self]
  · unfold TableStorage.rows TableStorage.setRows
    rw [if_neg same, Finmap.lookup_insert_of_ne _ same]

theorem TableStorage.rows_of_lookup {storage : TableStorage} {table : Str} {rows : List Row}
    (found : storage.lookup table = some rows) : storage.rows table = rows := by
  unfold TableStorage.rows
  rw [found, Option.getD_some]

theorem TableStorage.rows_of_absent {storage : TableStorage} {table : Str}
    (absent : storage.lookup table = none) : storage.rows table = [] := by
  unfold TableStorage.rows
  rw [absent, Option.getD_none]

end MyDb
