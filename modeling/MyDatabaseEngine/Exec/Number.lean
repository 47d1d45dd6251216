/-
**`std::stod`.**

The conversion the evaluator and the sort use to decide whether two values compare as numbers. It
skips leading whitespace, converts the longest numeric prefix of the C string (decimal or
hexadecimal floating point, `inf`, `nan`) to double precision, ignores what follows, and throws when
there is no prefix (`std::invalid_argument`) or when the value leaves the range of `double`
(`std::out_of_range`). Both exceptions are caught by the same `catch (...)` at every call site, so
`stod` returns `none` for either.
-/

import Mathlib.Data.List.TakeWhile
import MyDatabaseEngine.Basic
import MyDatabaseEngine.Lib.Binary64

namespace MyDb

/-- A `double`. Both zeros are `finite 0`: no comparison tells them apart. -/
inductive Double
  | nan
  | infinity (negative : Bool)
  | finite (value : ℚ)
  deriving DecidableEq, Repr

namespace Double

/-- `<` on doubles. -/
def lt : Double → Double → Bool
  | nan, _ => false
  | _, nan => false
  | infinity a, infinity b => a && !b
  | infinity a, finite _ => a
  | finite _, infinity b => !b
  | finite a, finite b => a < b

/-- `==` on doubles. -/
def eq : Double → Double → Bool
  | nan, _ => false
  | _, nan => false
  | a, b => a = b

/-- `<=` on doubles. -/
def le (a b : Double) : Bool := lt a b || eq a b

end Double

/-- The value of a digit in bases up to sixteen. -/
def digitValue (c : Byte) : Nat :=
  if isDigit c then c.val - 48
  else if isUpper c then c.val - 55
  else c.val - 87

/-- `std::isxdigit`. -/
def isHexDigit (c : Byte) : Bool :=
  isDigit c || (chr 'a' ≤ c && c ≤ chr 'f') || (chr 'A' ≤ c && c ≤ chr 'F')

/-- The number a digit string denotes. -/
def digitsValue (base : Nat) (digits : Str) : Nat :=
  digits.foldl (fun value c => value * base + digitValue c) 0

/-- Whether the text starts with the (upper-case) word, ignoring case. -/
def startsWithWord (word text : Str) : Bool := (text.take word.length).map toUpper = word

/-- An optional sign: whether it was `-`, and the rest. -/
def takeSign : Str → Bool × Str
  | [] => (false, [])
  | c :: rest =>
    if c = chr '-' then (true, rest) else if c = chr '+' then (false, rest) else (false, c :: rest)

/-- The exponent part `marker [sign] digits`; zero when it is not there or has no digits. -/
def takeExponent (marker : Byte) (text : Str) : Int :=
  match text with
  | [] => 0
  | c :: rest =>
    if toUpper c = marker then
      let (negative, after) := takeSign rest
      let digits := after.takeWhile isDigit
      if negative then -(digitsValue 10 digits : Int) else (digitsValue 10 digits : Int)
    else 0

/-- The fraction digits after a decimal point, and the rest. -/
def takeFraction (digit : Byte → Bool) (text : Str) : Str × Str :=
  match text with
  | [] => ([], [])
  | c :: rest => if c = chr '.' then rest.span digit else ([], c :: rest)

/-- A floating-point constant without its sign: digits with an optional point, then an optional
exponent. `none` when there is no digit. -/
def takeMantissa (base radix : Nat) (marker : Byte) (digit : Byte → Bool) (placeDigits : Nat)
    (text : Str) : Option ℚ :=
  let (whole, rest) := text.span digit
  let (fraction, rest) := takeFraction digit rest
  if whole ++ fraction = [] then none
  else
    some (digitsValue base (whole ++ fraction) *
      (radix : ℚ) ^ (takeExponent marker rest - (fraction.length * placeDigits : Nat)))

/-- The conversion of an unsigned prefix: exact, before rounding. -/
def unsignedPrefix (text : Str) : Option Double :=
  let hexadecimal :=
    if startsWithWord (str "0X") text then
      takeMantissa 16 2 (chr 'P') isHexDigit 4 (text.drop 2)
    else none
  match hexadecimal with
  | some value => some (.finite value)
  | none =>
    match takeMantissa 10 10 (chr 'E') isDigit 1 text with
    | some value => some (.finite value)
    | none =>
      if startsWithWord (str "INF") text then some (.infinity false)
      else if startsWithWord (str "NAN") text then some .nan
      else none

/-- `std::stod`; `none` is a thrown exception. -/
def stod (text : Str) : Option Double :=
  let (negative, rest) := takeSign ((text.takeWhile (· ≠ 0)).dropWhile isSpace)
  match unsignedPrefix rest with
  | none => none
  | some .nan => some .nan
  | some (.infinity _) => some (.infinity negative)
  | some (.finite value) =>
    let signed := if negative then -value else value
    if Binary64.inRange signed then some (.finite (Binary64.nearest signed)) else none

/-! ### Integers -/

/-- The integer a text denotes when all of it is an optional `-` followed by digits. -/
def integer? (text : Str) : Option Int :=
  match text with
  | [] => none
  | c :: rest =>
    if c = chr '-' then
      if rest ≠ [] ∧ rest.all isDigit then some (-(digitsValue 10 rest : Int)) else none
    else if (c :: rest).all isDigit then some (digitsValue 10 (c :: rest) : Int)
    else none

/-! ### Decimal numbers -/

/-- The number a text denotes when all of it is digits with an optional fraction. -/
def unsignedDecimal? (text : Str) : Option ℚ :=
  let whole := text.takeWhile isDigit
  match text.dropWhile isDigit with
  | [] => if whole = [] then none else some (digitsValue 10 whole)
  | point :: fraction =>
    if point = chr '.' ∧ whole ≠ [] ∧ fraction ≠ [] ∧ fraction.all isDigit then
      some (digitsValue 10 (whole ++ fraction) / 10 ^ fraction.length)
    else none

/-- The number a text denotes when all of it is an optional `-` and digits with an optional
fraction. -/
def decimal? (text : Str) : Option ℚ :=
  match text with
  | [] => none
  | c :: rest =>
    if c = chr '-' then (unsignedDecimal? rest).map fun q => -q else unsignedDecimal? (c :: rest)

section Integers

/-- What `stod` asks of a byte, for a digit. -/
theorem digit_facts : ∀ c : Byte, isDigit c = true →
    c ≠ 0 ∧ isSpace c = false ∧ c ≠ chr '-' ∧ c ≠ chr '+' ∧ toUpper c ≠ chr 'X' := by
  decide +kernel

theorem takeWhile_of_all {p : Byte → Bool} {text : Str} (all : text.all p = true) :
    text.takeWhile p = text :=
  List.takeWhile_eq_self_iff.mpr fun c member => List.all_eq_true.mp all c member

theorem span_of_all {p : Byte → Bool} {text : Str} (all : text.all p = true) :
    text.span p = (text, []) := by
  rw [List.span_eq_takeWhile_dropWhile, takeWhile_of_all all,
    List.dropWhile_eq_nil_iff.mpr fun c member => List.all_eq_true.mp all c member]

/-- A digit string is no hexadecimal constant. -/
theorem startsWith_hex_of_digits {digits : Str} (all : digits.all isDigit = true) :
    startsWithWord (str "0X") digits = false := by
  have word : str "0X" = [chr '0', chr 'X'] := by decide
  match digits with
  | [] => rfl
  | [c] => simp [startsWithWord, word]
  | c :: x :: rest =>
    have notX : toUpper x ≠ chr 'X' :=
      (digit_facts x (List.all_eq_true.mp all x (by simp))).2.2.2.2
    simp [startsWithWord, word, notX]

/-- **A digit string converts to its value.** -/
theorem unsignedPrefix_digits {digits : Str} (nonempty : digits ≠ [])
    (all : digits.all isDigit = true) :
    unsignedPrefix digits = some (.finite (digitsValue 10 digits)) := by
  have mantissa : takeMantissa 10 10 (chr 'E') isDigit 1 digits
      = some (digitsValue 10 digits : ℚ) := by
    unfold takeMantissa
    rw [span_of_all all]
    simp [takeFraction, takeExponent, nonempty]
  unfold unsignedPrefix
  rw [startsWith_hex_of_digits all, mantissa]
  rfl

/-- A signed digit string, up to the rounding. -/
theorem stod_signed_digits (negative : Bool) {digits : Str} (nonempty : digits ≠ [])
    (all : digits.all isDigit = true) {text : Str}
    (skip : takeSign ((text.takeWhile (· ≠ 0)).dropWhile isSpace) = (negative, digits)) {n : Int}
    (value : n = if negative then -(digitsValue 10 digits : Int)
      else (digitsValue 10 digits : Int)) :
    stod text = if Binary64.inRange n then some (.finite (Binary64.nearest n)) else none := by
  have signed : (if negative = true then -(digitsValue 10 digits : ℚ) else digitsValue 10 digits)
      = (n : ℚ) := by
    rw [value]
    cases negative <;> simp
  unfold stod
  simp only [skip, unsignedPrefix_digits nonempty all, signed]

/-- **`std::stod` of an integer** is the closest double. -/
theorem stod_integer {text : Str} {n : Int} (denotes : integer? text = some n) :
    stod text = if Binary64.inRange n then some (.finite (Binary64.nearest n)) else none := by
  unfold integer? at denotes
  cases text with
  | nil => cases denotes
  | cons c rest =>
    simp only at denotes
    split at denotes
    · rename_i minus
      subst minus
      split at denotes
      · rename_i digits
        obtain ⟨nonempty, all⟩ := digits
        have noNul : rest.takeWhile (· ≠ 0) = rest := by
          refine List.takeWhile_eq_self_iff.mpr fun x member => ?_
          simpa using (digit_facts x (List.all_eq_true.mp all x member)).1
        refine stod_signed_digits true nonempty all ?_ (Option.some.inj denotes).symm
        rw [List.takeWhile_cons_of_pos (by decide), noNul, List.dropWhile_cons_of_neg (by decide)]
        rfl
      · cases denotes
    · split at denotes
      · rename_i notMinus all
        have first := digit_facts c (List.all_eq_true.mp all c List.mem_cons_self)
        have noNul : (c :: rest).takeWhile (· ≠ 0) = c :: rest := by
          refine List.takeWhile_eq_self_iff.mpr fun x member => ?_
          simpa using (digit_facts x (List.all_eq_true.mp all x member)).1
        refine stod_signed_digits false (List.cons_ne_nil c rest) all ?_
          (Option.some.inj denotes).symm
        rw [noNul, List.dropWhile_cons_of_neg (by simp [first.2.1])]
        simp [takeSign, notMinus, first.2.2.2.1]
      · cases denotes

end Integers

end MyDb
