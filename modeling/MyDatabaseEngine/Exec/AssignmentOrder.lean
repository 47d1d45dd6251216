/-
**The order of a SET list.**

SQL evaluates every right-hand side of a SET list on the row as it was. The executor assigns one
column after the other to the row itself and reads later right-hand sides from what is there by
then, so an assignment from a column that another one is to may read the new value.
`update_order_iff`: the order of the assignments does not matter, and they act as SQL has it,
exactly when no such column changes.

The columns assigned are assumed distinct, as SQL has it. `ReadsUnchanged` is a condition on a row:
every assignment from a column that is assigned, by another item, gives that column the value it
has. `update_order_matters` swaps two columns, and both end up with one value.
-/

import MyDatabaseEngine.Exec.WritePlans

namespace MyDb

/-- The assignments done at once: every right-hand side is resolved on the row as it was. -/
def assignTogether (assignments : List (Str × Expr)) (row : Row) : Row :=
  assignments.foldl (fun new assignment => new.insert assignment.1 (resolveExpr assignment.2 row))
    row

/-- **In this row, a column that one assignment is to and another one reads keeps its value.** -/
def ReadsUnchanged (assignments : List (Str × Expr)) (row : Row) : Prop :=
  ∀ a ∈ assignments, ∀ b ∈ assignments, a ≠ b → ∀ table, b.2 = .columnRef table a.1 →
    resolveExpr a.2 row = (row.lookup a.1).getD []

/-- The storage an UPDATE leaves. -/
def updatedStorage (stmt : UpdateStatement) (storage : TableStorage) (txn : Option Transaction) :
    Except Fault TableStorage :=
  Prod.fst <$> executeUpdate stmt storage txn

/-! ### One row -/

section OneRow

variable {assignments : List (Str × Expr)} {row : Row}

/-- A right-hand side that is not the column written to. -/
theorem resolveExpr_insert {e : Expr} {column : Str} (other : ∀ table, e ≠ .columnRef table column)
    (value : Str) : resolveExpr e (row.insert column value) = resolveExpr e row := by
  cases e with
  | columnRef table name =>
    have different : name ≠ column := fun same => other table (same ▸ rfl)
    rw [resolveExpr, resolveExpr, Finmap.lookup_insert_of_ne _ different]
  | literal | binary | unary => rfl

theorem apart_of_nodup {a b : Str × Expr} (distinct : (assignments.map Prod.fst).Nodup)
    (ha : a ∈ assignments) (hb : b ∈ assignments) (different : a ≠ b) : a.1 ≠ b.1 :=
  fun same => different (List.inj_on_of_nodup_map distinct ha hb same)

/-- Done at once, assignments to different columns come in any order. -/
theorem assignTogether_perm {reordered : List (Str × Expr)}
    (distinct : (assignments.map Prod.fst).Nodup) (perm : reordered.Perm assignments) :
    assignTogether reordered row = assignTogether assignments row := by
  refine (perm.symm.foldl_eq' (fun a ha b hb new => ?_) row).symm
  by_cases same : a = b
  · rw [same]
  · exact Finmap.insert_insert_of_ne _ (apart_of_nodup distinct ha hb same)

/-- **Where no column that is read changes, doing the assignments in turn does them at once.** By
induction on the assignments to come: each still resolves to what it does on the row as it was. -/
theorem applyAssignments_eq_together (distinct : (assignments.map Prod.fst).Nodup)
    (unchanged : ReadsUnchanged assignments row) :
    applyAssignments assignments row = assignTogether assignments row := by
  have turns : ∀ (rest : List (Str × Expr)) (new : Row), (rest.map Prod.fst).Nodup →
      ReadsUnchanged rest row → (∀ b ∈ rest, resolveExpr b.2 new = resolveExpr b.2 row) →
      rest.foldl (fun new b => new.insert b.1 (resolveExpr b.2 new)) new =
        rest.foldl (fun new b => new.insert b.1 (resolveExpr b.2 row)) new := by
    intro rest
    induction rest with
    | nil => exact fun _ _ _ _ => rfl
    | cons a rest ih =>
      intro new distinct unchanged resolves
      obtain ⟨fresh, distinctRest⟩ := List.nodup_cons.mp distinct
      rw [List.foldl_cons, List.foldl_cons, resolves a List.mem_cons_self]
      refine ih _ distinctRest (fun x hx y hy =>
        unchanged x (List.mem_cons_of_mem a hx) y (List.mem_cons_of_mem a hy)) fun b hb => ?_
      by_cases reads : ∃ table, b.2 = .columnRef table a.1
      · obtain ⟨table, reads⟩ := reads
        have different : a ≠ b := fun same => fresh (same ▸ List.mem_map_of_mem hb)
        have value :=
          unchanged a List.mem_cons_self b (List.mem_cons_of_mem a hb) different table reads
        rw [reads, resolveExpr, resolveExpr, Finmap.lookup_insert, Option.getD_some, value]
      · rw [resolveExpr_insert (fun table same => reads ⟨table, same⟩),
          resolves b (List.mem_cons_of_mem a hb)]
  exact turns assignments row distinct unchanged fun _ _ => rfl

theorem ReadsUnchanged.perm {reordered : List (Str × Expr)}
    (unchanged : ReadsUnchanged assignments row) (perm : reordered.Perm assignments) :
    ReadsUnchanged reordered row :=
  fun a ha b hb => unchanged a (perm.mem_iff.mp ha) b (perm.mem_iff.mp hb)

/-- **If the order does not matter, no column that is read changes**: the one that reads would get
the new value after the one that writes, and the old value before it. -/
theorem readsUnchanged_of_orders (distinct : (assignments.map Prod.fst).Nodup)
    (orders : ∀ reordered, reordered.Perm assignments →
      applyAssignments reordered row = applyAssignments assignments row) :
    ReadsUnchanged assignments row := by
  intro a ha b hb different table reads
  have columns := apart_of_nodup distinct ha hb different
  -- the other assignments, behind these two
  obtain ⟨others, perm⟩ : ∃ others, assignments.Perm (a :: b :: others) :=
    ⟨(assignments.erase a).erase b, (List.perm_cons_erase ha).trans
      ((List.perm_cons_erase ((List.mem_erase_of_ne (Ne.symm different)).mpr hb)).cons a)⟩
  have distinct' : ((a :: b :: others).map Prod.fst).Nodup :=
    (perm.map Prod.fst).nodup_iff.mp distinct
  simp only [List.map_cons, List.nodup_cons, List.mem_cons, not_or] at distinct'
  obtain ⟨-, keeps, -⟩ := distinct'
  have keepsBoth : b.1 ∉ (a :: others).map Prod.fst := by
    rw [List.map_cons, List.mem_cons, not_or]
    exact ⟨Ne.symm columns, keeps⟩
  have after : (applyAssignments (a :: b :: others) row).lookup b.1 =
      some (resolveExpr a.2 row) := by
    show (applyAssignments others _).lookup b.1 = _
    rw [lookup_applyAssignments keeps, Finmap.lookup_insert, reads, resolveExpr,
      Finmap.lookup_insert]
    rfl
  have before : (applyAssignments (b :: a :: others) row).lookup b.1 =
      some ((row.lookup a.1).getD []) := by
    show (applyAssignments (a :: others) _).lookup b.1 = _
    rw [lookup_applyAssignments keepsBoth, Finmap.lookup_insert, reads, resolveExpr]
  have same : applyAssignments (a :: b :: others) row = applyAssignments (b :: a :: others) row :=
    (orders _ perm.symm).trans (orders _ ((List.Perm.swap a b others).trans perm.symm)).symm
  rw [same, before] at after
  exact (Option.some.inj after).symm

end OneRow

/-! ### The table -/

section Table

variable {storage : TableStorage} {stmt : UpdateStatement} {rows : List Row}

/-- The loop over the table, whatever transaction it logs to. -/
theorem updateRows_fst (stmt : UpdateStatement) (rows : List Row) (txn : Option Transaction) :
    (updateRows stmt rows txn).1 = rows.map (updatedRow stmt) := by
  induction rows generalizing txn with
  | nil => rfl
  | cons row rest ih =>
    rw [updateRows, List.map_cons, updatedRow]
    split <;> dsimp only <;> rw [ih]

theorem updatedStorage_eq (found : storage.lookup stmt.table = some rows)
    (txn : Option Transaction) :
    updatedStorage stmt storage txn =
      .ok (storage.setRows stmt.table (rows.map (updatedRow stmt))) := by
  unfold updatedStorage executeUpdate
  simp only [found, ← updateRows_fst stmt rows txn]
  rfl

/-- Two SET lists leave the same table exactly when they do the same to the rows that match. -/
theorem updatedStorage_eq_iff {assignments : List (Str × Expr)}
    (found : storage.lookup stmt.table = some rows) (txn : Option Transaction) :
    updatedStorage { stmt with assignments } storage txn = updatedStorage stmt storage txn ↔
      ∀ row ∈ rows, matchesWhere stmt.where? row = true →
        applyAssignments assignments row = applyAssignments stmt.assignments row := by
  rw [updatedStorage_eq found, @updatedStorage_eq storage { stmt with assignments } rows found]
  constructor
  · intro same row member hit
    have tables := congrArg (Finmap.lookup stmt.table) (Except.ok.inj same)
    unfold TableStorage.setRows at tables
    rw [Finmap.lookup_insert, Finmap.lookup_insert] at tables
    have rowsSame := List.map_inj_left.mp (Option.some.inj tables) row member
    unfold updatedRow at rowsSame
    rwa [if_pos hit, if_pos hit] at rowsSame
  · intro same
    refine congrArg (fun rows => Except.ok (storage.setRows stmt.table rows))
      (List.map_congr_left fun row member => ?_)
    unfold updatedRow
    dsimp only
    split
    · rename_i hit
      exact same row member hit
    · rfl

/-- **When the order of a SET list does not matter.** For an UPDATE with distinct target columns,
every order of its assignments leaves the same table, the one where they are done at once, if and
only if in every row that matches, a column that one assignment is to and another one reads keeps
its value. -/
theorem update_order_iff (found : storage.lookup stmt.table = some rows)
    (distinct : (stmt.assignments.map Prod.fst).Nodup) (txn : Option Transaction) :
    ((∀ assignments, assignments.Perm stmt.assignments →
        updatedStorage { stmt with assignments } storage txn = updatedStorage stmt storage txn) ∧
      updatedStorage stmt storage txn = .ok (storage.setRows stmt.table (rows.map fun row =>
        if matchesWhere stmt.where? row then assignTogether stmt.assignments row else row))) ↔
    ∀ row ∈ rows, matchesWhere stmt.where? row = true → ReadsUnchanged stmt.assignments row := by
  constructor
  · rintro ⟨orders, -⟩ row member hit
    exact readsUnchanged_of_orders distinct fun reordered perm =>
      (updatedStorage_eq_iff found txn).mp (orders reordered perm) row member hit
  · intro unchanged
    refine ⟨fun assignments perm =>
      (updatedStorage_eq_iff found txn).mpr fun row member hit => ?_, ?_⟩
    · have reads := unchanged row member hit
      have distinct' := (perm.map Prod.fst).nodup_iff.mpr distinct
      rw [applyAssignments_eq_together distinct reads,
        applyAssignments_eq_together distinct' (reads.perm perm), assignTogether_perm distinct perm]
    · rw [updatedStorage_eq found]
      refine congrArg (fun rows => Except.ok (storage.setRows stmt.table rows))
        (List.map_congr_left fun row member => ?_)
      unfold updatedRow
      split
      · rename_i hit
        exact applyAssignments_eq_together distinct (unchanged row member hit)
      · rfl

/-- `UPDATE users SET id = age, age = id`. -/
def swapColumns : UpdateStatement where
  table := str "users"
  assignments := [(str "id", .columnRef [] (str "age")), (str "age", .columnRef [] (str "id"))]
  where? := none

theorem update_order_iff_equal :
    ((∀ assignments, assignments.Perm swapColumns.assignments →
        updatedStorage { swapColumns with assignments } (usersStorage [personRow "7" "7"]) none =
          updatedStorage swapColumns (usersStorage [personRow "7" "7"]) none) ∧
      updatedStorage swapColumns (usersStorage [personRow "7" "7"]) none =
        .ok ((usersStorage [personRow "7" "7"]).setRows (str "users")
          ([personRow "7" "7"].map fun row =>
          if matchesWhere none row then assignTogether swapColumns.assignments row else row))) ↔
    ∀ row ∈ [personRow "7" "7"], matchesWhere none row = true →
      ReadsUnchanged swapColumns.assignments row :=
  @update_order_iff _ swapColumns _ (by decide) (by decide) none

/-- **Swapping two columns copies one over the other**, which one depends on the order. -/
theorem update_order_matters :
    ¬ ∀ (storage : TableStorage) (stmt : UpdateStatement) (rows : List Row)
      (txn : Option Transaction),
      storage.lookup stmt.table = some rows → (stmt.assignments.map Prod.fst).Nodup →
      (∀ assignments, assignments.Perm stmt.assignments →
        updatedStorage { stmt with assignments } storage txn = updatedStorage stmt storage txn) ∧
      updatedStorage stmt storage txn = .ok (storage.setRows stmt.table (rows.map fun row =>
        if matchesWhere stmt.where? row then assignTogether stmt.assignments row else row)) := by
  intro claim
  have found : (usersStorage [personRow "1" "30"]).lookup (str "users") =
      some [personRow "1" "30"] := by
    decide
  obtain ⟨orders, -⟩ := claim _ swapColumns _ none found (by decide)
  have same := (updatedStorage_eq_iff found none).mp
    (orders swapColumns.assignments.reverse (List.reverse_perm _)) _ (List.mem_singleton_self _) rfl
  exact absurd same (by decide)

end Table

end MyDb
