/-
**SELECT through the optimizer and the pipeline.**

The plan of a SELECT stacks its operators in one fixed order: scan, filter, projection, sort, limit.
The sort therefore sees rows already restricted to the selected columns, where an ORDER BY column
that is not selected counts as empty in every row, and it compares integers through `std::stod`, so
by their nearest doubles (`rowLess_project`). `select_sorted_by_visible`: the answer is that of SQL
with the clauses on columns that are not selected left out and with integers taken as doubles; where
no two different integers of a column are the same double, that is the order of the integers.
-/

import MyDatabaseEngine.Exec.Denotation
import Mathlib.Data.List.Permutation

namespace MyDb

/-- A SELECT run through `toLogical`, `toPhysical` and `execute`. -/
def runSelect (stdSort : StdSort Row) (storage : TableStorage) (stmt : SelectStatement) :
    Except Fault (List Row) := do
  let logical ← Optimizer.toLogical (.select stmt)
  Executor.execute stdSort storage none (Optimizer.toPhysical logical)

/-! ### The SQL answer -/

/-- The integer in a column; zero if there is none. -/
def columnInteger (column : Str) (row : Row) : Int := ((row.lookup column).bind integer?).getD 0

/-- A row's integers in the ORDER BY columns, negated where the order descends. -/
def orderKey (clauses : List OrderByClause) (row : Row) : List Int :=
  clauses.map fun clause =>
    let value := columnInteger clause.column row
    if clause.ascending then value else -value

/-- The same with each integer rounded to a `double`. -/
def doubleKey (clauses : List OrderByClause) (row : Row) : List ℚ :=
  clauses.map fun clause =>
    let value := Binary64.nearest (columnInteger clause.column row)
    if clause.ascending then value else -value

/-- The first LIMIT rows. -/
def takeLimit (limit : Option Int) (rows : List Row) : List Row :=
  match limit with
  | none => rows
  | some count => rows.take count.toNat

/-- **The answers with the rows ordered by a key**: sort the rows that satisfy WHERE, take the first
LIMIT of them and restrict each to the selected columns. -/
def AnswerSortedBy {κ : Type} [LE κ] (key : Row → κ) (stmt : SelectStatement)
    (rows answer : List Row) :
    Prop :=
  ∃ ordering : List Row, ordering.Perm (rows.filter (matchesWhere stmt.where?)) ∧
    ordering.Pairwise (fun a b => key a ≤ key b) ∧
    answer = (takeLimit stmt.limit ordering).map (Operator.project stmt.columns)

/-- **The answers SQL allows**, with these clauses as the ORDER BY. -/
def SqlAnswer (clauses : List OrderByClause) : SelectStatement → List Row → List Row → Prop :=
  AnswerSortedBy (orderKey clauses)

/-- The clauses whose column is selected. -/
def visibleClauses (columns : List Str) (clauses : List OrderByClause) : List OrderByClause :=
  clauses.filter fun clause => Operator.isStar columns ∨ clause.column ∈ columns

/-- Every row has in the column an integer within the range of `double`. -/
def IntegersInRange (rows : List Row) (column : Str) : Prop :=
  ∀ row ∈ rows, ∃ value n, row.lookup column = some value ∧ integer? value = some n ∧
    Binary64.inRange n

/-- No two different integers in the column round to the same `double`. -/
def ApartAsDoubles (rows : List Row) (column : Str) : Prop :=
  ∀ a ∈ rows, ∀ b ∈ rows, Binary64.nearest (columnInteger column a) =
    Binary64.nearest (columnInteger column b) →
    columnInteger column a = columnInteger column b

/-- Integers of up to 53 bits are in range and apart. -/
theorem integers_of_small {rows : List Row} {column : Str}
    (small : ∀ row ∈ rows, ∃ value n, row.lookup column = some value ∧ integer? value = some n ∧
      |n| ≤ 2 ^ 53) : IntegersInRange rows column ∧ ApartAsDoubles rows column := by
  refine ⟨fun row member => ?_, fun a memberA b memberB same => ?_⟩
  · obtain ⟨value, n, found, denotes, bound⟩ := small row member
    exact ⟨value, n, found, denotes, Binary64.inRange_intCast bound⟩
  · obtain ⟨va, m, foundA, denotesA, boundA⟩ := small a memberA
    obtain ⟨vb, n, foundB, denotesB, boundB⟩ := small b memberB
    have atA : columnInteger column a = m := by
      rw [columnInteger, foundA, Option.bind_some, denotesA]; rfl
    have atB : columnInteger column b = n := by
      rw [columnInteger, foundB, Option.bind_some, denotesB]; rfl
    rw [atA, atB, Binary64.nearest_intCast boundA, Binary64.nearest_intCast boundB] at same
    rw [atA, atB]
    exact_mod_cast same

/-! ### The comparator on restricted rows -/

section Comparator

theorem lookup_restrict (columns : List Str) (row : Row) (col : Str) :
    (Operator.restrict columns row).lookup col = if col ∈ columns then row.lookup col
      else none := by
  induction columns using List.reverseRecOn with
  | nil => rfl
  | append_singleton columns last ih =>
    have step : Operator.restrict (columns ++ [last]) row =
        (row.lookup last).elim (Operator.restrict columns row)
          ((Operator.restrict columns row).insert last) := by
      unfold Operator.restrict
      rw [List.foldl_append]
      cases found : row.lookup last <;> simp only [List.foldl_cons, List.foldl_nil, found,
        Option.elim]
    rw [step]
    by_cases same : col = last
    · subst same
      cases found : row.lookup col with
      | none => simp [ih, found]
      | some value => simp [Finmap.lookup_insert]
    · cases found : row.lookup last with
      | none => simp [ih, same]
      | some value => simp [Finmap.lookup_insert_of_ne _ same, ih, same]

/-- What the sort finds in a column of a row it is given. -/
theorem lookup_project (columns : List Str) (row : Row) (col : Str) :
    (Operator.project columns row).lookup col =
      if Operator.isStar columns ∨ col ∈ columns then row.lookup col else none := by
  unfold Operator.project
  by_cases star : Operator.isStar columns = true
  · rw [if_pos star, if_pos (Or.inl star)]
  · rw [if_neg star, lookup_restrict]
    simp only [star, Bool.false_eq_true, false_or]

theorem compareOrder_integer {a b : Str} {m n : Int} (denotesA : integer? a = some m)
    (denotesB : integer? b = some n) (rangeA : Binary64.inRange m) (rangeB : Binary64.inRange n) :
    Operator.compareOrder a b = if Binary64.nearest m < Binary64.nearest n then -1
      else if Binary64.nearest n < Binary64.nearest m then 1 else 0 := by
  unfold Operator.compareOrder
  rw [stod_integer denotesA, stod_integer denotesB, if_pos rangeA, if_pos rangeB]
  simp [Double.lt]

theorem compareOrder_empty : Operator.compareOrder [] [] = 0 := by decide

/-- **The comparator of the sort is the order of the visible clauses' keys**, in doubles. -/
theorem rowLess_project (columns : List Str) {clauses : List OrderByClause} {rows : List Row}
    {a b : Row} (ha : a ∈ rows) (hb : b ∈ rows)
    (integers : ∀ clause ∈ visibleClauses columns clauses, IntegersInRange rows clause.column) :
    Operator.rowLess clauses (Operator.project columns a) (Operator.project columns b) = true ↔
      doubleKey (visibleClauses columns clauses) a <
        doubleKey (visibleClauses columns clauses) b := by
  induction clauses with
  | nil => simp [Operator.rowLess, doubleKey, visibleClauses]
  | cons clause rest ih =>
    rw [Operator.rowLess, lookup_project, lookup_project]
    by_cases seen : Operator.isStar columns ∨ clause.column ∈ columns
    · have visible : visibleClauses columns (clause :: rest) =
          clause :: visibleClauses columns rest := List.filter_cons_of_pos (by simpa using seen)
      rw [visible] at integers ⊢
      obtain ⟨here, later⟩ := List.forall_mem_cons.mp integers
      obtain ⟨va, m, foundA, denotesA, rangeA⟩ := here a ha
      obtain ⟨vb, n, foundB, denotesB, rangeB⟩ := here b hb
      have tail := ih later
      rw [if_pos seen, if_pos seen, foundA, foundB, Option.getD_some, Option.getD_some,
        compareOrder_integer denotesA denotesB rangeA rangeB]
      rw [doubleKey, doubleKey, List.map_cons, List.map_cons, ← doubleKey, ← doubleKey]
      simp only [columnInteger, foundA, foundB, Option.bind_some, denotesA, denotesB,
        Option.getD_some, List.cons_lt_cons_iff]
      rcases lt_trichotomy (Binary64.nearest m) (Binary64.nearest n) with below | same | above
      · cases clause.ascending <;> simp [below, below.ne, below.not_gt]
      · simp [same, tail]
      · cases clause.ascending <;> simp [above, above.ne', above.not_gt]
    · have visible : visibleClauses columns (clause :: rest) = visibleClauses columns rest :=
        List.filter_cons_of_neg (by simpa using seen)
      rw [visible] at integers ⊢
      rw [if_neg seen, if_neg seen, Option.getD_none, compareOrder_empty]
      exact ih integers

/-- **Integers that are apart as doubles** are ordered as these. -/
theorem orderKey_le_of_doubleKey {clauses : List OrderByClause} {rows : List Row} {a b : Row}
    (ha : a ∈ rows) (hb : b ∈ rows) (apart : ∀ clause ∈ clauses, ApartAsDoubles rows clause.column)
    (le : doubleKey clauses a ≤ doubleKey clauses b) : orderKey clauses a ≤ orderKey clauses b := by
  refine not_lt.mp fun less => absurd le (not_le.mpr ?_)
  clear le
  induction clauses with
  | nil => exact absurd less (List.not_lt_nil _)
  | cons clause rest ih =>
    obtain ⟨here, later⟩ := List.forall_mem_cons.mp apart
    have mono : ∀ {x y : Row}, x ∈ rows → y ∈ rows →
        columnInteger clause.column x < columnInteger clause.column y →
        Binary64.nearest (columnInteger clause.column x) < Binary64.nearest
          (columnInteger clause.column y) := by
      intro x y hx hy below
      refine lt_of_le_of_ne (Binary64.nearest_mono (by exact_mod_cast below.le)) fun same => ?_
      exact below.ne (here x hx y hy same)
    rw [orderKey, orderKey, List.map_cons, List.map_cons, ← orderKey, ← orderKey,
      List.cons_lt_cons_iff] at less
    rw [doubleKey, doubleKey, List.map_cons, List.map_cons, ← doubleKey, ← doubleKey,
      List.cons_lt_cons_iff]
    rcases less with first | ⟨same, tail⟩
    · refine .inl ?_
      cases up : clause.ascending
      · simp only [up, Bool.false_eq_true, if_false] at first ⊢
        exact neg_lt_neg (mono ha hb (neg_lt_neg_iff.mp first))
      · simp only [up, if_true] at first ⊢
        exact mono hb ha first
    · refine .inr ⟨?_, ih later tail⟩
      cases up : clause.ascending
      · simp only [up, Bool.false_eq_true, if_false] at same ⊢
        rw [neg_inj.mp same]
      · simp only [up, if_true] at same ⊢
        rw [same]

end Comparator

/-! ### The answer -/

section Answer

/-- A permutation of restricted rows restricts a permutation of the rows. -/
theorem exists_ordering {f : Row → Row} {rows sorted : List Row} (same : sorted.Perm (rows.map f)) :
    ∃ ordering : List Row, ordering.Perm rows ∧ sorted = ordering.map f := by
  have pairs : List.Forall₂ (fun x y => x = f y) (rows.map f) rows :=
    List.forall₂_map_left_iff.mpr (List.forall₂_same.mpr fun _ _ => rfl)
  obtain ⟨ordering, restricts, perm⟩ := List.perm_comp_forall₂ same pairs
  refine ⟨ordering, perm, ?_⟩
  rw [← List.forall₂_map_right_iff, List.forall₂_eq_eq_eq] at restricts
  exact restricts

/-- The rows of a scan with a WHERE. -/
theorem denote_scanWhere (stdSort : StdSort Row) (storage : TableStorage) (table : Str)
    (where? : Option Expr) :
    denote stdSort storage (Optimizer.toPhysical (Optimizer.scanWhere table where?)) =
      (storage.rows table).filter (matchesWhere where?) := by
  unfold Optimizer.scanWhere
  cases where? with
  | none => exact (List.filter_true _).symm
  | some predicate => rfl

/-- The rows of a SELECT's plan. -/
theorem denote_buildSelect (stdSort : StdSort Row) (storage : TableStorage)
    (stmt : SelectStatement) :
    denote stdSort storage (Optimizer.toPhysical (Optimizer.buildSelect stmt)) =
      takeLimit stmt.limit
        (let projected := ((storage.rows stmt.table).filter (matchesWhere stmt.where?)).map
          (Operator.project stmt.columns)
        if stmt.orderBy.isEmpty then projected
        else stdSort.sort (Operator.rowLess stmt.orderBy) projected) := by
  unfold Optimizer.buildSelect takeLimit
  rw [← denote_scanWhere stdSort]
  cases stmt.limit <;> cases stmt.orderBy.isEmpty <;> rfl

theorem tables_buildSelect (stmt : SelectStatement) :
    (Optimizer.toPhysical (Optimizer.buildSelect stmt)).tables = [stmt.table] := by
  unfold Optimizer.buildSelect Optimizer.scanWhere
  cases stmt.limit <;> cases stmt.orderBy.isEmpty <;> cases stmt.where? <;> rfl

theorem runSelect_eq {storage : TableStorage} {stmt : SelectStatement} {rows : List Row}
    (stdSort : StdSort Row) (found : storage.lookup stmt.table = some rows) :
    runSelect stdSort storage stmt =
      .ok (denote stdSort storage (Optimizer.toPhysical (Optimizer.buildSelect stmt))) := by
  refine Operator.execute_denotes stdSort fun table member => ?_
  rw [tables_buildSelect, List.mem_singleton] at member
  rw [member, found]
  rfl

/-- The order of the rows before the limit: sorted by the visible clauses. -/
theorem exists_sorted_ordering (stdSort : StdSort Row) {stmt : SelectStatement} {rows : List Row}
    (integers : ∀ clause ∈ visibleClauses stmt.columns stmt.orderBy,
      IntegersInRange rows clause.column) :
    ∃ ordering : List Row, ordering.Perm rows ∧
      ordering.Pairwise (fun a b => doubleKey (visibleClauses stmt.columns stmt.orderBy) a ≤
        doubleKey (visibleClauses stmt.columns stmt.orderBy) b) ∧
      (if stmt.orderBy.isEmpty then rows.map (Operator.project stmt.columns)
        else stdSort.sort (Operator.rowLess stmt.orderBy)
          (rows.map (Operator.project stmt.columns))) =
          ordering.map (Operator.project stmt.columns) := by
  by_cases none : stmt.orderBy.isEmpty = true
  · refine ⟨rows, List.Perm.refl _, ?_, if_pos none⟩
    rw [List.isEmpty_iff.mp none]
    exact List.pairwise_of_forall fun a b => le_refl []
  · rw [if_neg none]
    have less : ∀ a ∈ rows, ∀ b ∈ rows, Operator.rowLess stmt.orderBy
        (Operator.project stmt.columns a) (Operator.project stmt.columns b) = true ↔
          doubleKey (visibleClauses stmt.columns stmt.orderBy) a <
            doubleKey (visibleClauses stmt.columns stmt.orderBy) b :=
      fun a ha b hb => rowLess_project stmt.columns ha hb integers
    obtain ⟨perm, sorted⟩ := stdSort.sorts _ _ (StrictWeakOn.of_key _ _ less)
    obtain ⟨ordering, permRows, same⟩ := exists_ordering perm
    rw [same, List.pairwise_map] at sorted
    refine ⟨ordering, permRows, sorted.imp_of_mem fun {a b} ha hb notAfter => ?_, same⟩
    rw [← not_lt, ← less b (permRows.mem_iff.mp hb) a (permRows.mem_iff.mp ha), notAfter]
    exact Bool.false_ne_true

/-- **What a SELECT returns**: the SQL answer with the ORDER BY clauses on columns that are not
selected left out and with integers compared as doubles; so the SQL answer for the other clauses
where the rows that satisfy WHERE have no two different integers in a column that are one
`double`. -/
theorem select_sorted_by_visible {storage : TableStorage} {stmt : SelectStatement} {rows : List Row}
    (stdSort : StdSort Row) (found : storage.lookup stmt.table = some rows)
    (integers : ∀ clause ∈ visibleClauses stmt.columns stmt.orderBy,
      IntegersInRange (rows.filter (matchesWhere stmt.where?)) clause.column) :
    ∃ answer, runSelect stdSort storage stmt = .ok answer ∧
      AnswerSortedBy (doubleKey (visibleClauses stmt.columns stmt.orderBy)) stmt rows answer ∧
      ((∀ clause ∈ visibleClauses stmt.columns stmt.orderBy,
          ApartAsDoubles (rows.filter (matchesWhere stmt.where?)) clause.column) →
        SqlAnswer (visibleClauses stmt.columns stmt.orderBy) stmt rows answer) := by
  obtain ⟨ordering, perm, sorted, same⟩ := exists_sorted_ordering stdSort integers
  refine ⟨(takeLimit stmt.limit ordering).map (Operator.project stmt.columns), ?_,
    ⟨ordering, perm, sorted, rfl⟩, fun apart => ⟨ordering, perm, ?_, rfl⟩⟩
  · rw [runSelect_eq stdSort found, denote_buildSelect, TableStorage.rows_of_lookup found]
    dsimp only
    rw [same]
    unfold takeLimit
    cases stmt.limit with
    | none => rfl
    | some count => exact congrArg _ List.map_take.symm
  · refine sorted.imp_of_mem fun {a b} ha hb => ?_
    exact orderKey_le_of_doubleKey (perm.mem_iff.mp ha) (perm.mem_iff.mp hb) apart

end Answer

/-! ### A clause on a column that is not selected -/

section Hidden

/-- A row with an `id` and an `age`. -/
def personRow (id age : String) : Row :=
  ((∅ : Row).insert idColumn (str id)).insert (str "age") (str age)

/-- A table `users`. -/
def usersStorage (rows : List Row) : TableStorage := (∅ : TableStorage).insert (str "users") rows

/-- `SELECT columns FROM users ORDER BY age`. -/
def selectByAge (columns : List Str) : SelectStatement where
  columns := columns
  table := str "users"
  where? := none
  orderBy := [{ column := str "age" }]
  limit := none

theorem integers_ages : ∀ clause ∈ (selectByAge [str "age"]).orderBy,
    IntegersInRange [personRow "1" "30", personRow "2" "20"] clause.column ∧
      ApartAsDoubles [personRow "1" "30", personRow "2" "20"] clause.column := by
  intro clause member
  obtain rfl := List.mem_singleton.mp member
  refine integers_of_small fun row inside => ?_
  rcases List.mem_cons.mp inside with rfl | inside
  · exact ⟨str "30", 30, by decide, by decide, by decide⟩
  · obtain rfl := List.mem_singleton.mp inside
    exact ⟨str "20", 20, by decide, by decide, by decide⟩

theorem select_sorted_by_visible_ages : ∃ answer,
    runSelect default (usersStorage [personRow "1" "30", personRow "2" "20"])
      (selectByAge [str "age"]) = .ok answer ∧
    SqlAnswer (selectByAge [str "age"]).orderBy (selectByAge [str "age"])
      [personRow "1" "30", personRow "2" "20"] answer := by
  obtain ⟨answer, ran, -, sql⟩ := @select_sorted_by_visible
    (usersStorage [personRow "1" "30", personRow "2" "20"]) (selectByAge [str "age"])
    [personRow "1" "30", personRow "2" "20"] default (by decide) fun clause member =>
      (integers_ages clause (List.mem_filter.mp member).1).1
  exact ⟨answer, ran, sql fun clause member =>
    (integers_ages clause (List.mem_filter.mp member).1).2⟩

/-- The only answer over two rows that come in the wrong order and stay apart when restricted. -/
theorem not_sqlAnswer_pair {columns : List Str} {a b : Row}
    (apart : Operator.project columns b ≠ Operator.project columns a)
    (swapped : ¬ orderKey (selectByAge columns).orderBy a ≤
      orderKey (selectByAge columns).orderBy b) :
    ¬ SqlAnswer (selectByAge columns).orderBy (selectByAge columns) [a, b]
      [Operator.project columns a, Operator.project columns b] := by
  rintro ⟨ordering, perm, sorted, same⟩
  have perm' : ordering.Perm [a, b] := perm
  rcases List.perm_pair.mp perm' with rfl | rfl
  · exact swapped ((List.pairwise_cons.mp sorted).1 b (List.mem_singleton_self b))
  · exact apart (List.cons.inj same).1.symm

/-- Two rows that the plan leaves in the wrong order. -/
theorem pair_not_sorted {columns : List Str} {a b : Row}
    (stays : denote default (usersStorage [a, b])
      (Optimizer.toPhysical (Optimizer.buildSelect (selectByAge columns))) =
        [Operator.project columns a, Operator.project columns b])
    (apart : Operator.project columns b ≠ Operator.project columns a)
    (swapped : ¬ orderKey (selectByAge columns).orderBy a ≤
      orderKey (selectByAge columns).orderBy b) :
    ¬ ∃ answer, runSelect default (usersStorage [a, b]) (selectByAge columns) = .ok answer ∧
      SqlAnswer (selectByAge columns).orderBy (selectByAge columns) [a, b] answer := by
  rintro ⟨answer, ran, sql⟩
  have found : (usersStorage [a, b]).lookup (str "users") = some [a, b] := Finmap.lookup_insert _
  cases (runSelect_eq default found).symm.trans ran
  rw [stays] at sql
  exact not_sqlAnswer_pair apart swapped sql

/-- The digits of `10 ^ 309`, which is out of the range of `double`. -/
def hugeInteger : Str := chr '1' :: List.replicate 309 (chr '0')

/-- A row with the first `id` and any `age`. -/
def agedRowOne (age : Str) : Row := ((∅ : Row).insert idColumn (str "1")).insert (str "age") age

/-- **A SELECT need not be sorted on the full rows**: not when the ORDER BY column is not selected,
not when it holds two integers that are one `double`, and not when it holds one that is out of
range. -/
theorem select_not_sorted :
    (¬ ∀ (stdSort : StdSort Row) (storage : TableStorage) (stmt : SelectStatement)
      (rows : List Row),
      storage.lookup stmt.table = some rows →
      (∀ clause ∈ stmt.orderBy, ∀ row ∈ rows, ∃ value n,
        row.lookup clause.column = some value ∧ integer? value = some n) →
      ∃ answer, runSelect stdSort storage stmt = .ok answer ∧
        SqlAnswer stmt.orderBy stmt rows answer) ∧
    (¬ ∀ (stdSort : StdSort Row) (storage : TableStorage) (stmt : SelectStatement)
      (rows : List Row),
      storage.lookup stmt.table = some rows → stmt.columns = [str "*"] →
      (∀ clause ∈ stmt.orderBy, IntegersInRange rows clause.column) →
      ∃ answer, runSelect stdSort storage stmt = .ok answer ∧
        SqlAnswer stmt.orderBy stmt rows answer) ∧
    ¬ ∀ (stdSort : StdSort Row) (storage : TableStorage) (stmt : SelectStatement) (rows : List Row),
      storage.lookup stmt.table = some rows → stmt.columns = [str "*"] →
      (∀ clause ∈ stmt.orderBy, (∀ row ∈ rows, ∃ value n,
        row.lookup clause.column = some value ∧ integer? value = some n) ∧
          ApartAsDoubles rows clause.column) →
      ∃ answer, runSelect stdSort storage stmt = .ok answer ∧
        SqlAnswer stmt.orderBy stmt rows answer := by
  refine ⟨fun claim => ?_, fun claim => ?_, fun claim => ?_⟩
  · refine @pair_not_sorted [idColumn] (personRow "1" "30") (personRow "2" "20")
      (by decide) (by decide)
      (by decide) (claim default _ _ _ (Finmap.lookup_insert _) fun clause member => ?_)
    obtain rfl := List.mem_singleton.mp member
    refine List.forall_mem_cons.mpr ⟨?_, List.forall_mem_singleton.mpr ?_⟩
    · exact ⟨str "30", 30, by decide, by decide⟩
    · exact ⟨str "20", 20, by decide, by decide⟩
  · refine @pair_not_sorted [str "*"] (personRow "1" "9007199254740993")
      (personRow "2" "9007199254740992")
      (by decide +kernel) (by decide) (by decide)
      (claim default _ _ _ (Finmap.lookup_insert _) rfl fun clause member => ?_)
    obtain rfl := List.mem_singleton.mp member
    refine List.forall_mem_cons.mpr ⟨?_, List.forall_mem_singleton.mpr ?_⟩
    · exact ⟨str "9007199254740993", 9007199254740993, by decide, by decide, by decide +kernel⟩
    · exact ⟨str "9007199254740992", 9007199254740992, by decide, by decide, by decide +kernel⟩
  · -- on a variable, since the elaborator would run through the digits
    obtain ⟨huge, isHuge⟩ : ∃ huge, huge = hugeInteger := ⟨_, rfl⟩
    have stays : denote default (usersStorage [agedRowOne huge, personRow "2" "2"])
        (Optimizer.toPhysical (Optimizer.buildSelect (selectByAge [str "*"]))) =
          [Operator.project [str "*"] (agedRowOne huge),
            Operator.project [str "*"] (personRow "2" "2")] := by
      rw [isHuge]
      decide +kernel
    have differ : Operator.project [str "*"] (personRow "2" "2") ≠
        Operator.project [str "*"] (agedRowOne huge) := by
      rw [isHuge]
      decide +kernel
    have swapped : ¬ orderKey (selectByAge [str "*"]).orderBy (agedRowOne huge) ≤
        orderKey (selectByAge [str "*"]).orderBy (personRow "2" "2") := by
      rw [isHuge]
      decide +kernel
    have denotes : integer? (huge) = some (10 ^ 309) := by
      rw [isHuge]
      decide +kernel
    have apart : ApartAsDoubles [agedRowOne huge, personRow "2" "2"] (str "age") := by
      rw [isHuge]
      unfold ApartAsDoubles
      decide +kernel
    refine pair_not_sorted stays differ swapped
      (claim default _ _ _ (Finmap.lookup_insert _) rfl fun clause member => ?_)
    obtain rfl := List.mem_singleton.mp member
    refine ⟨List.forall_mem_cons.mpr ⟨?_, List.forall_mem_singleton.mpr ?_⟩, apart⟩
    · exact ⟨huge, 10 ^ 309, Finmap.lookup_insert _, denotes⟩
    · exact ⟨str "2", 2, by decide, by decide⟩

end Hidden

end MyDb
