/-
**A LIMIT stops the scan.**

The operators of a SELECT without ORDER BY pull one row at a time through projection and filter, and
the limit stops pulling when it has handed out enough. So a row of the table is read only while rows
are still missing: the scan's cursor never passes the last row that is needed. When too few rows
match, it comes to the end of the table, having read every row once.

`HasRead` is the invariant: the rows in front of the cursor have been read once each, in order, and
in front of each of them fewer than the count match. The filter's loop moves the cursor to the row
behind the next match (`HasRead.pullUntil`), and is asked only while rows are missing (`Between`).
`limit_stops_scan` is the bound after any calls of `next`.
-/

import MyDatabaseEngine.Exec.Select

namespace MyDb

/-! ### The operators of the plan -/

/-- The scan of a SELECT, under a filter when there is a WHERE. -/
def scanOf (rows : List Row) : Option Expr → Operator
  | none => .seqScan rows
  | some predicate => .filter (.seqScan rows) predicate

/-- The cursor of that scan. -/
def scanCursor (rows : List Row) : (where? : Option Expr) → (scanOf rows where?).State → Nat
  | none, cursor => cursor
  | some _, cursor => cursor

/-- The operators of a SELECT with a limit and without ORDER BY. -/
def limitedSelect (rows : List Row) (where? : Option Expr) (columns : List Str) (count : Int) :
    Operator :=
  .limit (.projection (scanOf rows where?) columns) count

/-- The scan's cursor in a state of these operators. -/
def cursorOf {rows : List Row} {where? : Option Expr} {columns : List Str} {count : Int}
    (s : (limitedSelect rows where? columns count).State) : Nat := scanCursor rows where? s.1

/-- **They are what `build` makes of the optimizer's plan.** -/
theorem build_limitedSelect (stdSort : StdSort Row) {storage : TableStorage}
    {stmt : SelectStatement} {rows : List Row} {count : Int}
    (found : storage.lookup stmt.table = some rows) (noOrder : stmt.orderBy = [])
    (limited : stmt.limit = some count) :
    Executor.build stdSort storage none (Optimizer.toPhysical (Optimizer.buildSelect stmt)) =
      .ok (limitedSelect rows stmt.where? stmt.columns count) := by
  have scan : Executor.build stdSort storage none
      (Optimizer.toPhysical (Optimizer.scanWhere stmt.table stmt.where?)) =
        .ok (scanOf rows stmt.where?) := by
    have table : Executor.build stdSort storage none (.seqScan stmt.table) =
        .ok (.seqScan rows) := by
      unfold Executor.build
      rw [found]
    cases stmt.where? with
    | none => exact table
    | some predicate =>
      show Executor.build stdSort storage none (.seqScan stmt.table) >>= _ = _
      rw [table]
      rfl
  unfold Optimizer.buildSelect
  rw [noOrder, limited]
  show (Executor.build stdSort storage none
    (Optimizer.toPhysical (Optimizer.scanWhere stmt.table stmt.where?)) >>= _) >>= _ = _
  rw [scan]
  rfl

/-! ### How far the scan is read -/

section Scan

variable {rows : List Row} {accept : Row → Bool}

theorem seqScan_end {cursor : Nat} (beyond : rows.length ≤ cursor) :
    (Operator.seqScan rows).next cursor = (none, cursor) := by
  dsimp only [Operator.seqScan]
  rw [List.getElem?_eq_none beyond]

theorem seqScan_row {front back : List Row} {row : Row} (split : rows = front ++ row :: back) :
    (Operator.seqScan rows).next front.length = (some row, front.length + 1) := by
  dsimp only [Operator.seqScan]
  rw [split, List.getElem?_append_right (Nat.le_refl _), Nat.sub_self]
  rfl

/-- **Rows that are not accepted are skipped** by the calls of one `pullUntil`. -/
theorem pullUntil_skips {front skipped back : List Row} (split : rows = front ++ (skipped ++ back))
    (none : ∀ row ∈ skipped, accept row = false) :
    (Operator.seqScan rows).pullUntil accept front.length =
        (Operator.seqScan rows).pullUntil accept (front ++ skipped).length ∧
      (Operator.seqScan rows).Pulls front.length skipped (front ++ skipped).length := by
  induction skipped generalizing front with
  | nil =>
    rw [List.append_nil]
    exact ⟨rfl, .refl _⟩
  | cons row skipped hypothesis =>
    rw [List.forall_mem_cons] at none
    have next := @seqScan_row rows front (skipped ++ back) row split
    have split' : rows = (front ++ [row]) ++ (skipped ++ back) := by
      rw [split, List.append_assoc]
      rfl
    obtain ⟨same, pulls⟩ := hypothesis split' none.2
    rw [List.length_append, List.length_singleton] at same pulls
    rw [List.append_assoc] at same pulls
    refine ⟨?_, .more next pulls⟩
    rw [PullIterator.pullUntil_of_some next, none.1]
    exact same

/-- Either no row is accepted, or there is a first one. -/
theorem first_accepted (accept : Row → Bool) (later : List Row) :
    (∀ row ∈ later, accept row = false) ∨ ∃ skipped row back, later = skipped ++ row :: back ∧
      (∀ row ∈ skipped, accept row = false) ∧ accept row = true := by
  induction later with
  | nil => exact .inl fun row member => absurd member List.not_mem_nil
  | cons row later hypothesis =>
    cases accepted : accept row with
    | true =>
      exact .inr ⟨[], row, later, rfl, fun row member => absurd member List.not_mem_nil, accepted⟩
    | false =>
      rcases hypothesis with none | ⟨skipped, other, back, rfl, none, is⟩
      · exact .inl (List.forall_mem_cons.mpr ⟨accepted, none⟩)
      · exact .inr ⟨row :: skipped, other, back, rfl, List.forall_mem_cons.mpr ⟨accepted, none⟩, is⟩

/-- **The rows that have been read**: a front of the table, each by one call of the scan, and each
while fewer rows than the limit had been accepted. -/
structure HasRead (rows : List Row) (accept : Row → Bool) (count : Int) (front : List Row) :
    Prop where
  table : front <+: rows
  pulls : (Operator.seqScan rows).Pulls (Operator.seqScan rows).start front front.length
  needed : ∀ before row, before ++ [row] <+: front → (before.countP accept : Int) < count

theorem hasRead_nil (rows : List Row) (accept : Row → Bool) (count : Int) :
    HasRead rows accept count [] where
  table := List.nil_prefix
  pulls := .refl _
  needed before row is :=
    absurd (List.prefix_nil.mp is) (List.append_ne_nil_of_right_ne_nil before (by simp))

theorem countP_none {skipped : List Row} (none : ∀ row ∈ skipped, accept row = false) :
    skipped.countP accept = 0 :=
  List.countP_eq_zero.mpr fun row member => Bool.eq_false_iff.mp (none row member)

/-- **One call of the filter** reads on while rows are missing: up to the first accepted row, or to
the end of the table. -/
theorem HasRead.pullUntil {front : List Row} {count : Int} (read : HasRead rows accept count front)
    (missing : (front.countP accept : Int) < count) :
    ∃ read', HasRead rows accept count (front ++ read') ∧
      (Operator.seqScan rows).Pulls front.length read' (front ++ read').length ∧
      (((Operator.seqScan rows).pullUntil accept front.length = (none, (front ++ read').length) ∧
          front ++ read' = rows ∧ (front ++ read').countP accept = front.countP accept) ∨
        ∃ row, (Operator.seqScan rows).pullUntil accept front.length =
          (some row, (front ++ read').length) ∧
          (front ++ read').countP accept = front.countP accept + 1) := by
  obtain ⟨later, split⟩ := read.table
  -- what is read without being accepted leaves the count as it is
  have few : ∀ {skipped before : List Row}, (∀ row ∈ skipped, accept row = false) →
      before <+: front ++ skipped → (before.countP accept : Int) < count := by
    intro skipped before none short
    have less := short.sublist.countP_le (p := accept)
    rw [List.countP_append, countP_none none] at less
    omega
  rcases first_accepted accept later with none | ⟨skipped, row, back, rfl, none, accepted⟩
  · obtain ⟨same, pulls⟩ :=
      @pullUntil_skips rows accept front later [] (by rw [List.append_nil, split]) none
    refine ⟨later, ⟨⟨[], by rw [List.append_nil, split]⟩, read.pulls.trans pulls, ?_⟩, pulls,
      .inl ⟨?_, split, ?_⟩⟩
    · exact fun before row short => few none ((List.prefix_append before [row]).trans short)
    · rw [same]
      exact PullIterator.pullUntil_of_none (seqScan_end (by rw [split]))
    · rw [List.countP_append, countP_none none, Nat.add_zero]
  · obtain ⟨same, skips⟩ := @pullUntil_skips rows accept front skipped (row :: back) split.symm none
    have next := @seqScan_row rows (front ++ skipped) back row (by rw [← split, List.append_assoc])
    have grown : (front ++ (skipped ++ [row])).length = (front ++ skipped).length + 1 := by
      rw [← List.append_assoc]
      exact List.length_append
    have pulls : (Operator.seqScan rows).Pulls front.length (skipped ++ [row])
        (front ++ (skipped ++ [row])).length := by
      rw [grown]
      exact skips.trans (.more next (.refl _))
    refine ⟨skipped ++ [row], ⟨⟨back, ?_⟩, read.pulls.trans pulls, ?_⟩, pulls, .inr ⟨row, ?_, ?_⟩⟩
    · rw [← split, List.append_assoc, List.append_assoc]
      rfl
    · intro before other short
      rw [← List.append_assoc] at short
      rcases List.prefix_concat_iff.mp short with whole | short
      · obtain ⟨rfl, -⟩ := List.append_inj' whole rfl
        exact few none (List.prefix_refl _)
      · exact few none ((List.prefix_append before [other]).trans short)
    · rw [same, PullIterator.pullUntil_of_some next, if_pos accepted, grown]
      rfl
    · rw [List.countP_append, List.countP_append, countP_none none, List.countP_singleton,
        if_pos accepted,
        Nat.zero_add]

end Scan

/-! ### The whole pipeline -/

section Combinators

variable {child : Operator} {columns : List Str} {count seen : Int} {s s' : child.State}

theorem projection_end (next : child.next s = (none, s')) :
    (Operator.projection child columns).next s = (none, s') := by
  dsimp only [Operator.projection]
  rw [next]

theorem projection_row {row : Row} (next : child.next s = (some row, s')) :
    (Operator.projection child columns).next s = (some (Operator.project columns row), s') := by
  dsimp only [Operator.projection]
  rw [next]

/-- A limit that has handed out enough does not call its child. -/
theorem limit_enough (enough : count ≤ seen) :
    (Operator.limit child count).next (s, seen) = (none, (s, seen)) := by
  dsimp only [Operator.limit]
  rw [if_pos enough]

theorem limit_end (missing : ¬ count ≤ seen) (next : child.next s = (none, s')) :
    (Operator.limit child count).next (s, seen) = (none, (s', seen)) := by
  dsimp only [Operator.limit]
  rw [if_neg missing, next]

theorem limit_row {row : Row} (missing : ¬ count ≤ seen) (next : child.next s = (some row, s')) :
    (Operator.limit child count).next (s, seen) = (some row, (s', seen + 1)) := by
  dsimp only [Operator.limit]
  rw [if_neg missing, next]

end Combinators

section Pipeline

variable {rows : List Row} {where? : Option Expr} {columns : List Str} {count : Int}

/-- The scan of a SELECT reads on to the next row its WHERE takes. -/
theorem scanOf_next (s : (scanOf rows where?).State) :
    ((scanOf rows where?).next s).1 =
        ((Operator.seqScan rows).pullUntil (matchesWhere where?) (scanCursor rows where? s)).1 ∧
      scanCursor rows where? ((scanOf rows where?).next s).2 =
        ((Operator.seqScan rows).pullUntil (matchesWhere where?) (scanCursor rows where? s)).2 := by
  cases where? with
  | none =>
    have all : (Operator.seqScan rows).pullUntil (matchesWhere none) s =
        (Operator.seqScan rows).next s :=
      PullIterator.pullUntil_all s
    show ((Operator.seqScan rows).next s).1 =
      ((Operator.seqScan rows).pullUntil (matchesWhere none) s).1 ∧
      ((Operator.seqScan rows).next s).2 =
        ((Operator.seqScan rows).pullUntil (matchesWhere none) s).2
    rw [all]
    exact ⟨rfl, rfl⟩
  | some predicate => exact ⟨rfl, rfl⟩

/-- What holds between two calls: the limit has counted the accepted rows that were read. -/
def Between (s : (limitedSelect rows where? columns count).State) : Prop :=
  ∃ front, HasRead rows (matchesWhere where?) count front ∧ cursorOf s = front.length ∧
    s.2 = front.countP (matchesWhere where?)

/-- **One call of the pipeline** is calls of the scan. When it hands out nothing though rows are
missing, the table is at its end. -/
theorem between_next (s : (limitedSelect rows where? columns count).State) (between : Between s) :
    Between ((limitedSelect rows where? columns count).next s).2 ∧
      (∃ read, (Operator.seqScan rows).Pulls (cursorOf s) read
        (cursorOf ((limitedSelect rows where? columns count).next s).2)) ∧
      (((limitedSelect rows where? columns count).next s).1 = none → s.2 < count →
        cursorOf ((limitedSelect rows where? columns count).next s).2 = rows.length) := by
  obtain ⟨scan, seen⟩ := s
  obtain ⟨front, read, cursor, counted⟩ := between
  change scanCursor rows where? scan = _ at cursor
  change seen = _ at counted
  by_cases enough : count ≤ seen
  · rw [show (limitedSelect rows where? columns count).next (scan, seen) =
      _ from limit_enough enough]
    exact ⟨⟨front, read, cursor, counted⟩, ⟨[], .refl _⟩,
      fun _ missing => absurd missing (Int.not_lt.mpr enough)⟩
  obtain ⟨value, moved⟩ := scanOf_next scan
  rw [cursor] at value moved
  obtain ⟨later, read', pulls, ends | ⟨row, pulled, more⟩⟩ := read.pullUntil (by omega)
  · obtain ⟨pulled, whole, same⟩ := ends
    rw [pulled] at value moved
    change _ = (front ++ later).length at moved
    rw [← cursor, ← moved] at pulls
    have next : (scanOf rows where?).next scan = (none, ((scanOf rows where?).next scan).2) :=
      Prod.ext value rfl
    rw [show (limitedSelect rows where? columns count).next (scan, seen) = _ from
      limit_end enough (projection_end next)]
    refine ⟨⟨front ++ later, read', moved, ?_⟩, ⟨later, pulls⟩,
      fun _ _ => moved.trans (congrArg _ whole)⟩
    rw [same]
    exact counted
  · rw [pulled] at value moved
    change _ = (front ++ later).length at moved
    rw [← cursor, ← moved] at pulls
    have next : (scanOf rows where?).next scan = (some row, ((scanOf rows where?).next scan).2) :=
      Prod.ext value rfl
    rw [show (limitedSelect rows where? columns count).next (scan, seen) = _ from
      limit_row enough (projection_row next)]
    refine ⟨⟨front ++ later, read', moved, ?_⟩, ⟨later, pulls⟩,
      fun none => absurd none (Option.some_ne_none _)⟩
    show seen + 1 = _
    rw [more, counted, Nat.cast_succ]

/-- What was read is behind no front that holds enough accepted rows. -/
theorem HasRead.length_le {accept : Row → Bool} {front upto : List Row}
    (read : HasRead rows accept count front) (is_front : upto <+: rows)
    (enough : count ≤ upto.countP accept) : front.length ≤ upto.length := by
  by_contra! longer
  obtain ⟨later, rfl⟩ := List.prefix_of_prefix_length_le is_front read.table (Nat.le_of_lt longer)
  rw [List.length_append] at longer
  cases later with
  | nil => exact absurd longer (Nat.lt_irrefl _)
  | cons row later =>
    have few := read.needed upto row ⟨later, by rw [List.append_assoc]; rfl⟩
    omega

/-- The state in which the first row is asked for. -/
theorem between_reset : Between (limitedSelect rows where? columns count).opened := by
  refine ⟨[], hasRead_nil rows _ count, ?_, rfl⟩
  cases where? with
  | none => rfl
  | some predicate => rfl

/-- Between two calls of an executed plan. -/
theorem between_pulls {values : List Row} {s : (limitedSelect rows where? columns count).State}
    (pulls : (limitedSelect rows where? columns count).Pulls
      (limitedSelect rows where? columns count).opened values s) : Between s :=
  pulls.invariant (fun s between => (between_next s between).1) between_reset

/-- When too few rows match, the last call comes to the end of the table. -/
theorem drain_reads_all (few : (rows.countP (matchesWhere where?) : Int) < count) :
    HasRead rows (matchesWhere where?) count rows ∧
      cursorOf ((limitedSelect rows where? columns count).drain
        (limitedSelect rows where? columns count).opened).2 = rows.length := by
  obtain ⟨s, pulls, last⟩ :=
    PullIterator.drain_pulls (limitedSelect rows where? columns count).opened
  have between := between_pulls pulls
  obtain ⟨⟨read, is_read, cursor, -⟩, -, ends⟩ := between_next s between
  obtain ⟨front, is_front, -, counted⟩ := between
  rw [last] at cursor ends
  have whole := ends rfl (by
    have less := is_front.table.sublist.countP_le (p := matchesWhere where?)
    omega)
  obtain rfl := is_read.table.eq_of_length (cursor.symm.trans whole)
  exact ⟨is_read, whole⟩

/-- **A LIMIT stops the scan.** The rows that were read, however often the operators of the plan
have been called, are a front of the table, each by one call of the scan; a further call reads on
behind them. The cursor is behind no front of the table that holds `count` matching rows; so nothing
is read when `count ≤ 0`. When fewer match, executing the plan reads all of the table. -/
theorem limit_stops_scan (stdSort : StdSort Row) {storage : TableStorage} {stmt : SelectStatement}
    {rows : List Row} {count : Int} (found : storage.lookup stmt.table = some rows)
    (noOrder : stmt.orderBy = []) (limited : stmt.limit = some count) :
    Executor.build stdSort storage none (Optimizer.toPhysical (Optimizer.buildSelect stmt)) =
        .ok (limitedSelect rows stmt.where? stmt.columns count) ∧
      (∀ values s, (limitedSelect rows stmt.where? stmt.columns count).Pulls
          (limitedSelect rows stmt.where? stmt.columns count).opened values s →
        (∃ read, HasRead rows (matchesWhere stmt.where?) count read ∧ cursorOf s = read.length) ∧
          (∃ later, (Operator.seqScan rows).Pulls (cursorOf s) later
            (cursorOf ((limitedSelect rows stmt.where? stmt.columns count).next s).2)) ∧
          (∀ upto, upto <+: rows → count ≤ upto.countP (matchesWhere stmt.where?) →
            cursorOf s ≤ upto.length) ∧
          (count ≤ 0 → cursorOf s = 0)) ∧
      ((rows.countP (matchesWhere stmt.where?) : Int) < count →
        HasRead rows (matchesWhere stmt.where?) count rows ∧
          cursorOf ((limitedSelect rows stmt.where? stmt.columns count).drain
            (limitedSelect rows stmt.where? stmt.columns count).opened).2 = rows.length) := by
  refine ⟨build_limitedSelect stdSort found noOrder limited, fun values s pulls => ?_,
    fun few => ?_⟩
  · have between := between_pulls pulls
    have reads_on := (between_next s between).2.1
    obtain ⟨read, is_read, cursor, -⟩ := between
    have stops : ∀ upto, upto <+: rows → count ≤ upto.countP (matchesWhere stmt.where?) →
        cursorOf s ≤ upto.length :=
          fun upto is_front enough => cursor ▸ is_read.length_le is_front enough
    refine ⟨⟨read, is_read, cursor⟩, reads_on, stops, fun nothing => ?_⟩
    exact Nat.le_zero.mp (stops [] List.nil_prefix nothing)
  · exact drain_reads_all few

/-- `SELECT id FROM users LIMIT 1`. -/
def selectFirst : SelectStatement where
  columns := [idColumn]
  table := str "users"
  where? := none
  orderBy := []
  limit := some 1

/-- Of two users, one is read. -/
theorem limit_stops_scan_first :
    cursorOf ((limitedSelect [personRow "1" "30", personRow "2" "20"] none [idColumn] 1).drain
      (limitedSelect [personRow "1" "30", personRow "2" "20"] none [idColumn] 1).opened).2 ≤ 1 := by
  obtain ⟨-, reads, -⟩ := @limit_stops_scan default
    (usersStorage [personRow "1" "30", personRow "2" "20"]) selectFirst
    [personRow "1" "30", personRow "2" "20"] 1 (by decide) rfl rfl
  obtain ⟨s, pulls, last⟩ := PullIterator.drain_pulls
    (limitedSelect [personRow "1" "30", personRow "2" "20"] none [idColumn] 1).opened
  have stops := (reads _ _ (pulls.trans (.done last (.refl _)))).2.2.1
  exact stops [personRow "1" "30"] ⟨[personRow "2" "20"], rfl⟩ (by decide)

end Pipeline

end MyDb
