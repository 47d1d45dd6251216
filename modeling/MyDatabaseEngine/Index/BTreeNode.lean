/-
**B-tree nodes** (`include/btree.h`, and their text format in `src/btree.cpp`).

A node is a record of fixed-size arrays. An access outside an array is undefined behaviour, also in
the loops that copy, print or read a number of elements. The key count is a signed integer, and a
page may hold a negative one; every loop over the keys then ends at once.

`serialize` prints a node into the data area of a page, over what was there; `deserialize` reads the
data area as a C string through an `istringstream`, token by token.
-/

import MyDatabaseEngine.Storage.Page

namespace MyDb

/-- `BTreeNode::ORDER`. -/
def btreeOrder : Nat := 4

structure BTreeNode where
  isLeaf : Bool := true
  keyCount : Int := 0
  keys : Vector Str (btreeOrder + 1) := .replicate _ []
  children : Vector Nat (btreeOrder + 2) := .replicate _ 0
  values : Vector Str (btreeOrder + 1) := .replicate _ []
  nextLeaf : Nat := invalidPageId

/-! ### Array accesses -/

section Arrays

variable {α : Type} {n : Nat}

/-- `array[i]`. -/
def arrayGet (array : Vector α n) (i : Nat) : Except Fault α :=
  if inside : i < n then .ok array[i] else .error .undefinedBehaviour

/-- `array[i] = value`. -/
def arraySet (array : Vector α n) (i : Nat) (value : α) : Except Fault (Vector α n) :=
  if inside : i < n then .ok (array.set i value) else .error .undefinedBehaviour

/-- `array[0]` to `array[count - 1]`, one after the other. -/
def arrayTake (array : Vector α n) (count : Nat) : Except Fault (List α) :=
  if count ≤ n then .ok (array.toList.take count) else .error .undefinedBehaviour

/-- An array of which the first elements have been assigned. -/
def arrayOf (n : Nat) (rest : α) (values : List α) : Vector α n :=
  Vector.ofFn fun i => values.getD i rest

end Arrays

/-! ### Reading from an `istringstream` -/

/-- `std::istringstream`: the characters not read yet, and `failbit`. -/
structure IStringStream where
  rest : Str
  fail : Bool := false

namespace IStringStream

/-- `ss >> word`, for a string that holds `old`. -/
def word (old : Str) (ss : IStringStream) : Str × IStringStream :=
  if ss.fail then (old, ss)
  else match ss.rest.dropWhile isSpace with
    | [] => (old, { rest := [], fail := true })
    | rest => (rest.takeWhile fun c => !isSpace c, { rest := rest.dropWhile fun c => !isSpace c })

/-- The value of decimal digits. -/
def decimal (digits : Str) : Nat :=
  digits.foldl (fun value c => 10 * value + (c.val - (chr '0').val)) 0

/-- A sign, if there is one, and digits: whether the sign is a minus, the value of the digits,
unless there are none, and what is behind them. -/
def numeral (text : Str) : Bool × Option Nat × Str :=
  let negative := text.head? = some (chr '-')
  let text := if negative ∨ text.head? = some (chr '+') then text.tail else text
  let digits := text.takeWhile isDigit
  (negative, if digits = [] then none else some (decimal digits), text.dropWhile isDigit)

/-- `ss >> number`, for an unsigned type with values up to `max` in a variable that holds `old`. A
minus in front of the digits is taken modulo `max + 1`. -/
def number (max old : Nat) (ss : IStringStream) : Nat × IStringStream :=
  if ss.fail then (old, ss)
  else match ss.rest.dropWhile isSpace with
    | [] => (old, { rest := [], fail := true })
    | text =>
      match numeral text with
      | (_, none, rest) => (0, { rest, fail := true })
      | (negative, some value, rest) =>
        if value ≤ max then (if negative then (max + 1 - value) % (max + 1) else value, { rest })
        else (max, { rest, fail := true })

/-- `ss >> number`, for an `int` that holds `old`. -/
def int (old : Int) (ss : IStringStream) : Int × IStringStream :=
  if ss.fail then (old, ss)
  else match ss.rest.dropWhile isSpace with
    | [] => (old, { rest := [], fail := true })
    | text =>
      match numeral text with
      | (_, none, rest) => (0, { rest, fail := true })
      | (true, some value, rest) =>
        if value ≤ 2 ^ 31 then (-value, { rest }) else (-2 ^ 31, { rest, fail := true })
      | (false, some value, rest) =>
        if value ≤ 2 ^ 31 - 1 then (value, { rest }) else (2 ^ 31 - 1, { rest, fail := true })

/-- `count` strings one after the other, each into an empty one. -/
def words : Nat → IStringStream → List Str × IStringStream
  | 0, ss => ([], ss)
  | count + 1, ss =>
    let (word, ss) := ss.word []
    let (rest, ss) := words count ss
    (word :: rest, ss)

/-- `count` numbers one after the other, each into a zero. -/
def numbers (max : Nat) : Nat → IStringStream → List Nat × IStringStream
  | 0, ss => ([], ss)
  | count + 1, ss =>
    let (number, ss) := ss.number max 0
    let (rest, ss) := numbers max count ss
    (number :: rest, ss)

end IStringStream

namespace BTreeNode

/-! ### The text format -/

/-- `ss << s << "\n"`. -/
def line (s : Str) : Str := s ++ [chr '\n']

/-- `ss << n`, for an `int`. -/
def intText (n : Int) : Str := if n < 0 then chr '-' :: toString10 n.natAbs else toString10 n.natAbs

/-- The text `serialize` builds. -/
def text (node : BTreeNode) : Except Fault Str := do
  let header := line (str (if node.isLeaf then "L" else "I")) ++ line (intText node.keyCount)
  let keys ← arrayTake node.keys node.keyCount.toNat
  if !node.isLeaf then
    let children ← arrayTake node.children (node.keyCount + 1).toNat
    return header ++ keys.flatMap line ++ children.flatMap fun child => line (toString10 child)
  else
    let values ← arrayTake node.values node.keyCount.toNat
    return header ++ keys.flatMap line ++ values.flatMap line ++ line (toString10 node.nextLeaf)

/-- `serialize`. -/
def serialize (node : BTreeNode) (page : Page) : Except Fault Page := do
  return page.overwriteData (← node.text)

/-- The C string at the start of a page's data area; without a NUL it is read past the page. -/
def cString (data : Str) : Except Fault Str :=
  if 0 ∈ data then .ok (data.takeWhile fun c => c ≠ 0) else .error .undefinedBehaviour

/-- `deserialize`. -/
def deserialize (page : Page) : Except Fault BTreeNode := do
  let ss : IStringStream := { rest := ← cString page.data }
  let (type, ss) := ss.word []
  let isLeaf : Bool := type = str "L"
  let (keyCount, ss) := ss.int 0
  if keyCount > btreeOrder + 1 then throw .undefinedBehaviour
  let (keys, ss) := ss.words keyCount.toNat
  let keys := arrayOf _ [] keys
  if !isLeaf then
    let (children, _) := ss.numbers (2 ^ 32 - 1) (keyCount + 1).toNat
    return { isLeaf, keyCount, keys, children := arrayOf _ 0 children }
  else
    let (values, ss) := ss.words keyCount.toNat
    let (nextLeaf, _) := ss.number (2 ^ 32 - 1) invalidPageId
    return { isLeaf, keyCount, keys, values := arrayOf _ [] values, nextLeaf }

end BTreeNode

end MyDb
