/-
**Values compared as numbers or as text.**

WHERE and ORDER BY decide pair by pair: as numbers when `std::stod` converts both values, and
`std::stod` converts any text that begins with a number. So an equality holds between texts that
only begin alike (`compareValues_equality_iff`), and the comparator of a sort mixes two orders that
do not fit together: with any ORDER BY clause it is no strict weak order (`rowLess_strictWeak_iff`),
though it is one on rows whose columns hold numbers only or no number at all
(`rowLess_strictWeakOn`).
-/

import MyDatabaseEngine.Exec.Select
import Mathlib.Order.WithBot

namespace MyDb

/-! ### Equality in a WHERE -/

section Equality

/-- `nan` is equal to nothing, itself included. -/
theorem Double.eq_self_iff (d : Double) : d.eq d = true ↔ d ≠ .nan := by
  cases d <;> simp [Double.eq]

theorem compareNumbers_notEqual (x y : Double) :
    compareNumbers x (str "!=") y = !compareNumbers x (str "=") y := rfl

theorem compareText_notEqual (a b : Str) :
    compareText a (str "!=") b = !compareText a (str "=") b := by
  simp +decide [compareText]

/-- **`!=` is the negation of `=`**, as numbers and as text. -/
theorem compareValues_notEqual (a b : Str) :
    compareValues a (str "!=") b = !compareValues a (str "=") b := by
  cases first : stod a with
  | none =>
    rw [compareValues_text (.inl first), compareValues_text (.inl first)]
    exact compareText_notEqual a b
  | some x =>
    cases second : stod b with
    | none =>
      rw [compareValues_text (.inr second), compareValues_text (.inr second)]
      exact compareText_notEqual a b
    | some y =>
      rw [compareValues_numbers first second, compareValues_numbers first second]
      exact compareNumbers_notEqual x y

/-- **When `=` is equality of texts**: of equal texts unless they begin with `nan`, and of different
texts unless both begin with numbers that convert to equal doubles. -/
theorem compareValues_equality_iff (a b : Str) :
    ((compareValues a (str "=") b = true ↔ a = b) ∧
      compareValues a (str "!=") b = !compareValues a (str "=") b) ↔
    (a = b → stod a ≠ some .nan) ∧
      (a ≠ b → ∀ x y, stod a = some x → stod b = some y → x.eq y = false) := by
  rw [and_iff_left (compareValues_notEqual a b)]
  have text : compareText a (str "=") b = true ↔ a = b := by simp [compareText]
  have numbers : ∀ x y, stod a = some x → stod b = some y →
      compareValues a (str "=") b = x.eq y :=
    fun x y first second => compareValues_numbers first second (str "=")
  constructor
  · intro equality
    refine ⟨?_, fun different x y first second => ?_⟩
    · rintro rfl isNan
      have same := equality.mpr rfl
      rw [numbers _ _ isNan isNan] at same
      exact absurd same (by decide)
    · rw [← numbers x y first second, ← Bool.not_eq_true]
      exact fun equal => different (equality.mp equal)
  · rintro ⟨notNan, apart⟩
    cases first : stod a with
    | none => rwa [compareValues_text (.inl first)]
    | some x =>
      cases second : stod b with
      | none => rwa [compareValues_text (.inr second)]
      | some y =>
        rw [numbers x y first second]
        by_cases same : a = b
        · subst same
          obtain rfl := Option.some.inj (first.symm.trans second)
          exact iff_of_true ((Double.eq_self_iff x).mpr fun isNan => notNan rfl (isNan ▸ first)) rfl
        · refine iff_of_false ?_ same
          rw [apart same x y first second]
          exact Bool.false_ne_true

/-- **Equality on text matches a different text.** -/
theorem compareValues_matches_different :
    ¬ ∀ a b : Str, ¬ ((decimal? a).isSome ∧ (decimal? b).isSome) →
      (compareValues a (str "=") b = true ↔ a = b) ∧
        compareValues a (str "!=") b = !compareValues a (str "=") b := by
  intro claim
  have same := (claim (str "12abc") (str "12xyz") (by decide)).1.mp (by decide +kernel)
  exact absurd same (by decide)

end Equality

/-! ### The comparator of a sort -/

namespace Operator

/-- The value a sort finds in a column. -/
def sortValue (column : Str) (row : Row) : Str := (row.lookup column).getD []

/-- **All of a column are numbers, none of them `nan`, or none of it begins with a number.** -/
def UniformColumn (rows : List Row) (column : Str) : Prop :=
  (∀ row ∈ rows, ∃ x, stod (sortValue column row) = some x ∧ x ≠ .nan) ∨
    ∀ row ∈ rows, stod (sortValue column row) = none

section Comparator

/-- The doubles other than `nan` in their order. -/
def rank : Double → WithBot (WithTop ℚ)
  | .nan => ⊥
  | .infinity negative => if negative then ⊥ else (⊤ : WithTop ℚ)
  | .finite value => (value : WithTop ℚ)

theorem lt_iff_rank {x y : Double} (hx : x ≠ .nan) (hy : y ≠ .nan) :
    x.lt y = true ↔ rank x < rank y := by
  cases x with
  | nan => exact absurd rfl hx
  | infinity a =>
    cases y with
    | nan => exact absurd rfl hy
    | infinity b => cases a <;> cases b <;> simp [Double.lt, rank]
    | finite value => cases a <;> simp [Double.lt, rank]
  | finite value =>
    cases y with
    | nan => exact absurd rfl hy
    | infinity b =>
      cases b
      · exact iff_of_true rfl (WithBot.coe_lt_coe.mpr (WithTop.coe_lt_top value))
      · simp [Double.lt, rank]
    | finite value' => simp [Double.lt, rank]

/-- The comparison by one column. -/
def compareColumn (column : Str) (a b : Row) : Int :=
  compareOrder (sortValue column a) (sortValue column b)

theorem threeWayOn_uniform {rows : List Row} {column : Str} (uniform : UniformColumn rows column) :
    ThreeWayOn (compareColumn column) rows := by
  rcases uniform with numbers | text
  · refine .of_key (fun row => rank ((stod (sortValue column row)).getD .nan)) fun a ha b hb => ?_
    obtain ⟨x, isX, notNan⟩ := numbers a ha
    obtain ⟨y, isY, notNan'⟩ := numbers b hb
    unfold compareColumn compareOrder
    simp only [isX, isY, Option.getD_some, lt_iff_rank notNan notNan', lt_iff_rank notNan' notNan]
  · refine .of_key (sortValue column) fun a ha b hb => ?_
    unfold compareColumn compareOrder
    simp only [text a ha]
    by_cases below : sortValue column a < sortValue column b
    · simp only [if_pos below]
    · by_cases above : sortValue column b < sortValue column a <;>
        simp only [below, above, if_true, if_false]

/-- **Rows whose ORDER BY columns are uniform can be sorted.** By induction on the clauses: each
compares first, the others where it is level. -/
theorem rowLess_strictWeakOn {clauses : List OrderByClause} {rows : List Row}
    (uniform : ∀ clause ∈ clauses, UniformColumn rows clause.column) :
    StrictWeakOn (rowLess clauses) rows := by
  induction clauses with
  | nil => exact ⟨fun _ _ => rfl, fun _ _ _ _ _ _ less => absurd less (by simp [rowLess]),
      fun _ _ _ _ _ _ _ _ _ _ => ⟨rfl, rfl⟩⟩
  | cons clause rest ih =>
    have three := threeWayOn_uniform (uniform clause List.mem_cons_self)
    have others := ih fun other member => uniform other (List.mem_cons_of_mem clause member)
    have compares : ∀ a b : Row, rowLess (clause :: rest) a b =
        if compareColumn clause.column a b ≠ 0 then
          (if clause.ascending then decide (compareColumn clause.column a b < 0)
            else decide (compareColumn clause.column a b > 0))
        else rowLess rest a b := fun a b => by
      rw [rowLess]
      cases clause.ascending <;> rfl
    cases up : clause.ascending with
    | true =>
      refine three.lex others fun a ha b hb => ?_
      rw [compares, up]
      by_cases level : compareColumn clause.column a b = 0 <;> simp [level]
    | false =>
      refine three.neg.lex others fun a ha b hb => ?_
      rw [compares, up]
      by_cases level : compareColumn clause.column a b = 0 <;> simp [level]

/-- A row with one value. -/
def singleRow (column value : Str) : Row := (∅ : Row).insert column value

theorem rowLess_of_first {clause : OrderByClause} {rest : List OrderByClause}
    {a b : Str} {cmp : Int} (compared : compareOrder a b = cmp) (apart : cmp ≠ 0) :
    rowLess (clause :: rest) (singleRow clause.column a) (singleRow clause.column b) =
      if clause.ascending then decide (cmp < 0) else decide (cmp > 0) := by
  unfold singleRow
  rw [rowLess, Finmap.lookup_insert, Finmap.lookup_insert, Option.getD_some,
    Option.getD_some, compared,
    if_pos apart]

/-- **Only without clauses is the comparator of a sort a strict weak order on all rows.** Otherwise
three values in the first clause's column go round: `9` is below ` 10` as a number, ` 10` below `-`
and `-` below `9` as text. -/
theorem rowLess_strictWeak_iff (clauses : List OrderByClause) :
    (∀ rows : List Row, StrictWeakOn (rowLess clauses) rows) ↔ clauses = [] := by
  constructor
  · intro order
    cases clauses with
    | nil => rfl
    | cons clause rest =>
      have nineTen : compareOrder (str "9") (str " 10") = -1 := by decide +kernel
      have tenNine : compareOrder (str " 10") (str "9") = 1 := by decide +kernel
      have tenDash : compareOrder (str " 10") (str "-") = -1 := by decide +kernel
      have dashTen : compareOrder (str "-") (str " 10") = 1 := by decide +kernel
      have nineDash : compareOrder (str "9") (str "-") = 1 := by decide +kernel
      have dashNine : compareOrder (str "-") (str "9") = -1 := by decide +kernel
      have strict := order [singleRow clause.column (str "9"), singleRow clause.column (str " 10"),
        singleRow clause.column (str "-")]
      cases up : clause.ascending with
      | true =>
        have around := strict.trans (singleRow clause.column (str "9")) (by simp)
          (singleRow clause.column (str " 10")) (by simp)
          (singleRow clause.column (str "-")) (by simp)
          (by rw [rowLess_of_first nineTen (by decide), up]; rfl)
          (by rw [rowLess_of_first tenDash (by decide), up]; rfl)
        rw [rowLess_of_first nineDash (by decide), up] at around
        cases around
      | false =>
        have around := strict.trans (singleRow clause.column (str "-")) (by simp)
          (singleRow clause.column (str " 10")) (by simp)
          (singleRow clause.column (str "9")) (by simp)
          (by rw [rowLess_of_first dashTen (by decide), up]; rfl)
          (by rw [rowLess_of_first tenNine (by decide), up]; rfl)
        rw [rowLess_of_first dashNine (by decide), up] at around
        cases around
  · rintro rfl rows
    exact rowLess_strictWeakOn fun clause member => absurd member List.not_mem_nil

/-- **The comparator of `ORDER BY score` is no strict weak order** on the scores `9`, ` 10` and
`-`. -/
theorem rowLess_not_strictWeak :
    ¬ ∀ (clauses : List OrderByClause) (rows : List Row), StrictWeakOn (rowLess clauses) rows := by
  intro claim
  have strict := claim [{ column := str "score" }] [singleRow (str "score") (str "9"),
    singleRow (str "score") (str " 10"), singleRow (str "score") (str "-")]
  have around := strict.trans _ List.mem_cons_self _ (List.mem_cons_of_mem _ List.mem_cons_self) _
    (List.mem_cons_of_mem _ (List.mem_cons_of_mem _ List.mem_cons_self)) (by decide +kernel)
    (by decide +kernel)
  exact absurd around (by decide +kernel)

end Comparator

end Operator

end MyDb
