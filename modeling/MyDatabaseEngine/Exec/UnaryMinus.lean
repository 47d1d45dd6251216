/-
**The unary minus.**

The parser reads `-n` as an operator's node over the literal `n`. None of the three functions that
evaluate expressions has a case for it: as a value it is the empty text. So an INSERT and an UPDATE
never store the number, and a comparison is one with the empty text, which sorts before every
number. `unaryMinus_iff` says when that gives the verdict of the number.

The condition is on the other side of the comparison (`RightAgrees`, `LeftAgrees`): what it holds in
a row must compare with the empty text as it does with the number. `std::stod` does not accept the
empty text, so both texts are compared as texts, and the lemmas work out the six operators.
-/

import MyDatabaseEngine.Exec.AssignmentOrder
import MyDatabaseEngine.Exec.InsertPairing
import MyDatabaseEngine.Sql.Accepted

namespace MyDb

open Sql

/-- `-n`, as the parser reads it. -/
def minus (kind : LiteralKind) (n : Str) : Expr := .unary (str "-") (.literal kind n)

/-- The value in the column is the number. -/
def HoldsNumber (row : Row) (column : Str) (q : ℚ) : Prop :=
  (row.lookup column).bind decimal? = some q

/-- The six comparisons. -/
def comparisonOperators : List Str := [str "=", str "!=", str "<", str ">", str "<=", str ">="]

/-- The WHERE of a statement. -/
def Statement.where? : Statement → Option Expr
  | .select stmt => stmt.where?
  | .update stmt => stmt.where?
  | .delete stmt => stmt.where?
  | .insert _ => none
  | .createTable _ => none
  | .dropTable _ => none

/-- An expression and those below it. -/
def subexpressions : Expr → List Expr
  | .literal kind value => [.literal kind value]
  | .columnRef table column => [.columnRef table column]
  | .binary op left right => .binary op left right :: (subexpressions left ++ subexpressions right)
  | .unary op operand => .unary op operand :: subexpressions operand

/-! ### Values -/

section Values

/-- The value of `-n` is the empty text, for an assignment and for a comparison. -/
theorem resolveExpr_minus (kind : LiteralKind) (n : Str) (row : Row) :
    resolveExpr (minus kind n) row = [] := rfl

/-- The empty text is no number. -/
theorem not_holdsNumber {row : Row} {column : Str} (empty : row.lookup column = some []) (q : ℚ) :
    ¬ HoldsNumber row column q := by
  unfold HoldsNumber
  rw [empty]
  intro bad
  cases bad

theorem unsignedDecimal?_digits {digits : Str} (well : IsDigits digits) :
    unsignedDecimal? digits = some (digitsValue 10 digits : ℚ) := by
  unfold unsignedDecimal?
  rw [List.takeWhile_eq_self_iff.mpr well.2, List.dropWhile_eq_nil_iff.mpr well.2]
  exact if_neg well.1

theorem unsignedDecimal?_fraction {digits decimals : Str} (well : IsDigits digits)
    (well' : IsDigits decimals) :
    unsignedDecimal? (digits ++ chr '.' :: decimals) =
      some (digitsValue 10 (digits ++ decimals) / 10 ^ decimals.length : ℚ) := by
  have point : isDigit (chr '.') = false := by decide
  unfold unsignedDecimal?
  rw [List.takeWhile_append_of_pos well.2, List.dropWhile_append_of_pos well.2,
    List.takeWhile_cons_of_neg (by simp [point]), List.dropWhile_cons_of_neg (by simp [point]),
    List.append_nil]
  exact if_pos ⟨rfl, well.1, well'.1, List.all_eq_true.mpr well'.2⟩

/-- **A number's literal denotes a number.** -/
theorem exists_decimal {kind : LiteralKind} {n : Str} (number : kind = .integer ∨ kind = .float)
    (well : WellFormedLiteral kind n) : ∃ q, decimal? n = some q := by
  have noSign : ∀ {digits : Str}, IsDigits digits → ∀ text : Str,
      decimal? (digits ++ text) = unsignedDecimal? (digits ++ text) := by
    intro digits isDigits text
    obtain ⟨first, rest, rfl⟩ := List.exists_cons_of_ne_nil isDigits.1
    exact if_neg (digit_facts first (isDigits.2 first List.mem_cons_self)).2.2.1
  rcases number with rfl | rfl
  · have whole := noSign well []
    rw [List.append_nil, unsignedDecimal?_digits well] at whole
    exact ⟨_, whole⟩
  · obtain ⟨digits, decimals, rfl, isDigits, isDecimals⟩ := well
    exact ⟨_, (noSign isDigits _).trans (unsignedDecimal?_fraction isDigits isDecimals)⟩

/-- What is below a well-formed expression is well formed. -/
theorem wellFormed_of_mem {e part : Expr} (well : WellFormedExpr e)
    (member : part ∈ subexpressions e) :
    WellFormedExpr part := by
  induction e with
  | literal | columnRef => exact List.mem_singleton.mp member ▸ well
  | binary op left right ihLeft ihRight =>
    rcases List.mem_cons.mp member with rfl | member
    · exact well
    · exact (List.mem_append.mp member).elim (ihLeft well.2.1) (ihRight well.2.2)
  | unary op operand ih =>
    rcases List.mem_cons.mp member with rfl | member
    · exact well
    · exact ih well.2 member

end Values

/-! ### Stored values -/

section Stored

/-- A column of an assigned row, in a column that no later assignment is to. -/
theorem lookup_applyAssignments_last {assignments : List (Str × Expr)} {k : Nat} {column : Str}
    {value : Expr} (isAssigned : assignments[k]? = some (column, value))
    (last : column ∉ (assignments.drop (k + 1)).map Prod.fst) (row : Row) :
    (applyAssignments assignments row).lookup column =
      some (resolveExpr value (applyAssignments (assignments.take k) row)) := by
  obtain ⟨inside, here⟩ := List.getElem?_eq_some_iff.mp isAssigned
  have split : assignments = assignments.take k ++ (column, value) :: assignments.drop (k + 1) := by
    rw [← here, ← List.drop_eq_getElem_cons inside, List.take_append_drop]
  have turns : applyAssignments assignments row = applyAssignments (assignments.drop (k + 1))
      ((applyAssignments (assignments.take k) row).insert column
        (resolveExpr value (applyAssignments (assignments.take k) row))) := by
    conv_lhs => rw [split]
    unfold applyAssignments
    rw [List.foldl_append, List.foldl_cons]
  rw [turns, lookup_applyAssignments last, Finmap.lookup_insert]

end Stored

/-! ### Comparisons -/

section Comparisons

/-- **When a comparison of an integer with `-n` comes out right**, though it compares with the empty
text: on the right of the column the empty text is below every number. -/
def RightAgrees (op : Str) (i q : ℚ) : Prop :=
  (op ∈ [str "=", str "!="] → i ≠ q) ∧ (op ∈ [str "<", str ">="] → q ≤ i) ∧
    (op ∈ [str ">", str "<="] → q < i)

/-- The same with `-n` on the left of the column. -/
def LeftAgrees (op : Str) (q i : ℚ) : Prop :=
  (op ∈ [str "=", str "!="] → q ≠ i) ∧ (op ∈ [str "<", str ">="] → q < i) ∧
    (op ∈ [str ">", str "<="] → q ≤ i)

theorem stod_nil : stod [] = none := by decide

/-- A value with an integer in it is not empty. -/
theorem ne_nil_of_integer {value : Str} {i : Int} (denotes : integer? value = some i) :
    value ≠ [] := by
  rintro rfl
  cases denotes

/-- The empty text is below every other. -/
theorem nil_lt {value : Str} (some : value ≠ []) : ([] : Str) < value := by
  obtain ⟨c, rest, rfl⟩ := List.exists_cons_of_ne_nil some
  exact List.nil_lt_cons c rest

theorem compareText_nil_right_iff {value op : Str} (some : value ≠ [])
    (is : op ∈ comparisonOperators) (i q : ℚ) :
    compareText value op [] = compareNumbers (.finite i) op (.finite q) ↔ RightAgrees op i q := by
  have below := nil_lt some
  have notAbove : ¬ value < [] := not_lt_of_gt below
  have notLe : ¬ value ≤ [] := not_le_of_gt below
  have le : [] ≤ value := le_of_lt below
  simp only [comparisonOperators, List.mem_cons, List.not_mem_nil, or_false] at is
  rcases is with rfl | rfl | rfl | rfl | rfl | rfl
  all_goals
    simp +decide [compareText, compareNumbers, RightAgrees, Double.eq, Double.lt, Double.le,
      some, below, notAbove, notLe, le]
  · exact ⟨fun neither => lt_of_le_of_ne neither.1 (Ne.symm neither.2),
      fun above => ⟨above.le, above.ne'⟩⟩
  · exact le_iff_lt_or_eq.symm

theorem compareText_nil_left_iff {value op : Str} (some : value ≠ [])
    (is : op ∈ comparisonOperators) (i q : ℚ) :
    compareText [] op value = compareNumbers (.finite q) op (.finite i) ↔ LeftAgrees op q i := by
  have below := nil_lt some
  have notAbove : ¬ value < [] := not_lt_of_gt below
  have notLe : ¬ value ≤ [] := not_le_of_gt below
  have le : [] ≤ value := le_of_lt below
  simp only [comparisonOperators, List.mem_cons, List.not_mem_nil, or_false] at is
  rcases is with rfl | rfl | rfl | rfl | rfl | rfl
  all_goals
    simp +decide [compareText, compareNumbers, LeftAgrees, Double.eq, Double.lt, Double.le,
      Ne.symm some, below,
      notAbove, notLe, le]
  · exact le_iff_lt_or_eq.symm
  · exact ⟨fun both => lt_of_le_of_ne both.1 (Ne.symm both.2), fun below => ⟨below.le, below.ne'⟩⟩

end Comparisons

/-! ### Statements -/

section Statements

/-- **An INSERT never stores `-n`.** -/
def InsertStoresNoMinus (stmt : InsertStatement) (kind : LiteralKind) (n : Str) : Prop :=
  ∀ k column, stmt.columns[k]? = some column → column ∉ stmt.columns.drop (k + 1) →
    stmt.values[k]? = some (minus kind n) → ∀ storage txn storage' txn',
    executeInsert stmt storage txn = .ok (storage', txn') →
    ∃ row q, storage'.rows stmt.table = storage.rows stmt.table ++ [row] ∧ decimal? n = some q ∧
      ¬ HoldsNumber row column (-q)

/-- **An UPDATE never stores `-n`.** -/
def UpdateStoresNoMinus (stmt : UpdateStatement) (kind : LiteralKind) (n : Str) : Prop :=
  ∀ k column, stmt.assignments[k]? = some (column, minus kind n) →
    column ∉ (stmt.assignments.drop (k + 1)).map Prod.fst → ∀ storage txn storage',
    updatedStorage stmt storage txn = .ok storage' →
    ∀ (i : Nat) row, (storage.rows stmt.table)[i]? = some row →
      matchesWhere stmt.where? row = true →
    ∃ row' q, (storage'.rows stmt.table)[i]? = some row' ∧ decimal? n = some q ∧
      ¬ HoldsNumber row' column (-q)

/-- **When a comparison with `-n` in a WHERE is decided as one with the number.** -/
def ComparesMinusIff (predicate : Expr) (kind : LiteralKind) (n : Str) : Prop :=
  ∀ op ∈ comparisonOperators, ∀ table column row value i,
    row.lookup column = some value → integer? value = some i →
    (.binary op (.columnRef table column) (minus kind n) ∈ subexpressions predicate →
      ∃ q, decimal? n = some q ∧
        (evaluateExpr (.binary op (.columnRef table column) (minus kind n)) row =
          compareNumbers (.finite i) op (.finite (-q)) ↔ RightAgrees op i (-q))) ∧
    (.binary op (minus kind n) (.columnRef table column) ∈ subexpressions predicate →
      ∃ q, decimal? n = some q ∧
        (evaluateExpr (.binary op (minus kind n) (.columnRef table column)) row =
          compareNumbers (.finite (-q)) op (.finite i) ↔ LeftAgrees op (-q) i))

variable {kind : LiteralKind} {n : Str}

theorem insertStoresNoMinus (number : kind = .integer ∨ kind = .float) {stmt : InsertStatement}
    (well : WellFormed (.insert stmt)) : InsertStoresNoMinus stmt kind n := by
  intro k column isColumn last isValue storage txn storage' txn' done
  obtain ⟨q, denotes⟩ := exists_decimal number
    (well.2.2.2 (minus kind n) (List.mem_of_getElem? isValue)).2
  unfold executeInsert at done
  cases found : storage.lookup stmt.table with
  | none =>
    rw [found] at done
    cases done
  | some rows =>
    rw [found] at done
    cases built : buildRow stmt.columns stmt.values ∅ with
    | error fault =>
      rw [built] at done
      cases done
    | ok row =>
      rw [built] at done
      cases done
      refine ⟨row, q, ?_, denotes, not_holdsNumber (lookup_buildRow built isColumn last isValue) _⟩
      rw [TableStorage.rows_setRows_self, TableStorage.rows_of_lookup found]

theorem updateStoresNoMinus (number : kind = .integer ∨ kind = .float) {stmt : UpdateStatement}
    (well : WellFormed (.update stmt)) : UpdateStoresNoMinus stmt kind n := by
  intro k column isAssigned last storage txn storage' done i row here hit
  obtain ⟨q, denotes⟩ := exists_decimal number
    (well.2.1.2 (column, minus kind n) (List.mem_of_getElem? isAssigned)).2.2
  cases found : storage.lookup stmt.table with
  | none =>
    rw [TableStorage.rows_of_absent found] at here
    cases here
  | some rows =>
    rw [updatedStorage_eq found] at done
    cases done
    rw [TableStorage.rows_of_lookup found] at here
    refine ⟨updatedRow stmt row, q, ?_, denotes, not_holdsNumber ?_ _⟩
    · rw [TableStorage.rows_setRows_self, List.getElem?_map, here]
      rfl
    · rw [updatedRow, if_pos hit]
      exact lookup_applyAssignments_last isAssigned last row

theorem comparesMinusIff (number : kind = .integer ∨ kind = .float) {predicate : Expr}
    (well : WellFormedExpr predicate) : ComparesMinusIff predicate kind n := by
  intro op is table column row value i found denotes
  have noAnd : op ≠ str "AND" := fun same => absurd (same ▸ is) (by decide)
  have noOr : op ≠ str "OR" := fun same => absurd (same ▸ is) (by decide)
  have some := ne_nil_of_integer denotes
  have column? : resolveExpr (.columnRef table column) row = value := by
    rw [resolveExpr, found, Option.getD_some]
  constructor
  · intro member
    obtain ⟨q, isNumber⟩ := exists_decimal number (wellFormed_of_mem well member).2.2.2
    refine ⟨q, isNumber, ?_⟩
    rw [evaluateExpr, if_neg noAnd, if_neg noOr, column?, resolveExpr_minus,
      compareValues_text (.inr stod_nil)]
    exact compareText_nil_right_iff some is i (-q)
  · intro member
    obtain ⟨q, isNumber⟩ := exists_decimal number (wellFormed_of_mem well member).2.1.2
    refine ⟨q, isNumber, ?_⟩
    rw [evaluateExpr, if_neg noAnd, if_neg noOr, column?, resolveExpr_minus,
      compareValues_text (.inl stod_nil)]
    exact compareText_nil_left_iff some is i (-q)

theorem wellFormedWhere_of_wellFormed {stmt : Statement} (well : WellFormed stmt) :
    WellFormedWhere stmt.where? := by
  cases stmt with
  | select stmt => exact well.2.2.1
  | update stmt => exact well.2.2
  | delete stmt => exact well.2
  | insert | createTable | dropTable => exact fun e member => absurd member (Option.not_mem_none e)

/-- **What a minus in front of a number does**, in every text the parser accepts: an INSERT and an
UPDATE never store the negated number, and a comparison with an integer in a column has the verdict
of the negated number exactly when the empty text has it. -/
theorem unaryMinus_iff {sql : Str} {stmt : Statement} (parsed : parseSQL sql = .ok stmt)
    (number : kind = .integer ∨ kind = .float) (n : Str) :
    (∀ insert, stmt = .insert insert → InsertStoresNoMinus insert kind n) ∧
      (∀ update, stmt = .update update → UpdateStoresNoMinus update kind n) ∧
      ∀ predicate ∈ stmt.where?, ComparesMinusIff predicate kind n := by
  have well := parseSQL_wellFormed parsed
  refine ⟨?_, ?_, fun predicate member =>
    comparesMinusIff number (wellFormedWhere_of_wellFormed well predicate member)⟩
  · rintro insert rfl
    exact insertStoresNoMinus number well
  · rintro update rfl
    exact updateStoresNoMinus number well

/-- `DELETE FROM users WHERE age < -5`. -/
def deleteBelow : DeleteStatement where
  table := str "users"
  where? := some (.binary (str "<") (.columnRef [] (str "age")) (minus .integer (str "5")))

theorem unaryMinus_iff_below : ∃ q, decimal? (str "5") = some q ∧
    (evaluateExpr (.binary (str "<") (.columnRef [] (str "age")) (minus .integer (str "5")))
      (personRow "1" "-7") = compareNumbers (.finite (-7 : ℤ)) (str "<") (.finite (-q)) ↔
        RightAgrees (str "<") (-7 : ℤ) (-q)) := by
  have parsed : parseSQL (str "DELETE FROM users WHERE age < -5") = .ok (.delete deleteBelow) := by
    decide +kernel
  exact ((unaryMinus_iff parsed (.inl rfl) (str "5")).2.2 _ rfl (str "<") (by decide) [] (str "age")
    (personRow "1" "-7") (str "-7") (-7) (by decide) (by decide)).1 List.mem_cons_self

/-- **The minus is lost** by an INSERT of `-5`, by an UPDATE to `-5`, and in `age < -5`. -/
theorem unaryMinus_lost :
    (¬ ∀ sql insert, parseSQL sql = .ok (.insert insert) → ∀ k column n q,
      insert.columns[k]? = some column → column ∉ insert.columns.drop (k + 1) →
      insert.values[k]? = some (minus .integer n) → decimal? n = some q →
      ∀ storage txn storage' txn', executeInsert insert storage txn = .ok (storage', txn') →
      ∃ row, storage'.rows insert.table = storage.rows insert.table ++ [row] ∧
        HoldsNumber row column (-q)) ∧
    (¬ ∀ sql update, parseSQL sql = .ok (.update update) → ∀ k column n q,
      update.assignments[k]? = some (column, minus .integer n) →
      column ∉ (update.assignments.drop (k + 1)).map Prod.fst → decimal? n = some q →
      ∀ storage txn storage', updatedStorage update storage txn = .ok storage' →
      ∀ (i : Nat) row, (storage.rows update.table)[i]? = some row →
      matchesWhere update.where? row = true →
      ∃ row', (storage'.rows update.table)[i]? = some row' ∧ HoldsNumber row' column (-q)) ∧
    ¬ ∀ sql stmt, parseSQL sql = .ok stmt → ∀ predicate ∈ stmt.where?, ∀ op ∈ comparisonOperators,
      ∀ table column n q row value i, row.lookup column = some value → integer? value = some i →
      .binary op (.columnRef table column) (minus .integer n) ∈ subexpressions predicate →
      decimal? n = some q →
      evaluateExpr (.binary op (.columnRef table column) (minus .integer n)) row =
        compareNumbers (.finite i) op (.finite (-q)) := by
  have five : decimal? (str "5") = some 5 := by decide
  refine ⟨fun claim => ?_, fun claim => ?_, fun claim => ?_⟩
  · have parsed : parseSQL (str "INSERT INTO users (age) VALUES (-5)") =
        .ok (.insert ⟨str "users", [str "age"], [minus .integer (str "5")]⟩) := by decide +kernel
    obtain ⟨row, same, holds⟩ := claim _ _ parsed 0 (str "age") (str "5") 5 rfl (by decide) rfl five
      (usersStorage []) none _ _ rfl
    obtain ⟨row', q, same', denotes, lost⟩ :=
      insertStoresNoMinus (.inl rfl) (parseSQL_wellFormed parsed)
      0 (str "age") rfl (by decide) rfl (usersStorage []) none _ _ rfl
    obtain rfl := Option.some.inj (five.symm.trans denotes)
    obtain rfl := List.singleton_injective (List.append_cancel_left (same.symm.trans same'))
    exact lost holds
  · have parsed : parseSQL (str "UPDATE users SET age = -5") =
        .ok (.update ⟨str "users", [(str "age", minus .integer (str "5"))], none⟩) := by
          decide +kernel
    obtain ⟨row, here, holds⟩ := claim _ _ parsed 0 (str "age") (str "5") 5 rfl (by decide) five
      (usersStorage [personRow "1" "30"]) none _ rfl 0 _ rfl rfl
    obtain ⟨row', q, here', denotes, lost⟩ :=
      updateStoresNoMinus (.inl rfl) (parseSQL_wellFormed parsed)
      0 (str "age") rfl (by decide) (usersStorage [personRow "1" "30"]) none _ rfl 0 _ rfl rfl
    obtain rfl := Option.some.inj (five.symm.trans denotes)
    obtain rfl := Option.some.inj (here.symm.trans here')
    exact lost holds
  · have parsed : parseSQL (str "DELETE FROM users WHERE age < -5") =
        .ok (.delete deleteBelow) := by
      decide +kernel
    exact absurd (claim _ _ parsed _ rfl (str "<") (by decide) [] (str "age") (str "5") 5
      (personRow "1" "-7") (str "-7") (-7) (by decide) (by decide) List.mem_cons_self five)
      (by decide +kernel)

end Statements

end MyDb
