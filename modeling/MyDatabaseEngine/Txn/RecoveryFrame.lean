/-
**What recovery leaves alone.**

A row is *unnamed* when no data record on its table has its id as key; a row without an `id` is.
Each data record makes recovery take one step on its table (`TableStep`): it appends a row, it
removes the rows with its key, or it searches the row with its key through `row["id"]` and
overwrites it. `rows_recoverFrom`: recovery does to a table the steps of its records, in the order
in which the two loops come to them.

Only the search can change an unnamed row: it gives an `id` to every row without one that it passes,
and if its key is the empty text it overwrites the first of them. A search that finds its row in
front of the first row without an `id` does neither. Which ids are there is told by the log: steps
remove ids, and a search puts the id of its image in the place of its key (`FindsFrom`); where each
image has the key of its record, only removals count (`Finds`). `recover_frame_iff` follows:
searches that find their rows in front leave all unnamed rows alone (`sublist_steps`), and a search
that does not leaves one row without an `id` less (`countP_steps_lt`), unless some image is equal to
such a row.
-/

import MyDatabaseEngine.Txn.Calls
import MyDatabaseEngine.Txn.Replay

namespace MyDb

/-- A row that no data record on its table names: it has no `id`, or one that is no record's key. -/
def Unnamed (records : List LogRecord) (table : Str) (row : Row) : Prop :=
  ∀ rec ∈ records, rec.IsData → rec.table = table → row.id? ≠ some rec.key

instance (records : List LogRecord) (table : Str) : DecidablePred (Unnamed records table) :=
  fun row => inferInstanceAs
    (Decidable (∀ rec ∈ records, rec.IsData → rec.table = table → row.id? ≠ some rec.key))

/-- **Recovery leaves the unnamed rows as they are**, in their order. -/
def LeavesUnnamed (records : List LogRecord) (storage : TableStorage) : Prop :=
  ∀ table, ((storage.rows table).filter fun row => Unnamed records table row).Sublist
    ((recoverFrom records storage).rows table)

/-! ### The steps of recovery on a table -/

/-- **What a data record makes recovery do with the rows of its table.** -/
inductive TableStep where
  /-- Append the row, unless one with the key is there. -/
  | insert (key : Str) (new : Row)
  /-- Remove the rows with the key. -/
  | remove (key : Str)
  /-- Overwrite the first row with the key; the redo loop appends the image if there is none. -/
  | search (key : Str) (image : Row) (appends : Bool)

namespace TableStep

/-- The key of the record. -/
def key : TableStep → Str
  | .insert key _ | .remove key | .search key _ _ => key

/-- The row that the step may write. -/
def image? : TableStep → Option Row
  | .insert _ new => some new
  | .remove _ => none
  | .search _ image _ => some image

/-- The key that the step searches through `row["id"]`. -/
def searched? : TableStep → Option Str
  | .search key _ _ => some key
  | _ => none

/-- The step on the rows of its table. -/
def run : TableStep → List Row → List Row
  | .insert key new, rows => if rows.any (hasKey key) then rows else rows ++ [new]
  | .remove key, rows => removeKey key rows
  | .search key image appends, rows =>
    (overwriteFirst key image rows).1 ++
      if (overwriteFirst key image rows).2 || !appends then [] else [image]

end TableStep

/-- Steps one after the other. -/
def runSteps (steps : List TableStep) (rows : List Row) : List Row :=
  steps.foldl (fun rows step => step.run rows) rows

/-- The step of the redo loop. -/
def LogRecord.redoStep? (rec : LogRecord) : Option TableStep :=
  match rec.type with
  | .insert => some (.insert rec.key (deserializeRow rec.newValue))
  | .update => some (.search rec.key (deserializeRow rec.newValue) true)
  | .delete => some (.remove rec.key)
  | _ => none

/-- The step of the undo loop. -/
def LogRecord.undoStep? (rec : LogRecord) : Option TableStep :=
  match rec.type with
  | .insert => some (.remove rec.key)
  | .update | .delete => some (.search rec.key (deserializeRow rec.oldValue) false)
  | _ => none

/-- **The steps of recovery on a table**: those of the committed transactions' records in log order,
then those of the others' records in reverse. -/
def tableSteps (records : List LogRecord) (table : Str) : List TableStep :=
  (records.filter fun rec => rec.txnId ∈ committedIds records ∧ rec.table = table).filterMap
      LogRecord.redoStep? ++
    (records.reverse.filter fun rec => rec.txnId ∉ committedIds records ∧
      rec.table = table).filterMap
      LogRecord.undoStep?

section Steps

variable {records : List LogRecord} {table : Str} {storage : TableStorage}

theorem rows_redoRecord (rec : LogRecord) (storage : TableStorage) (table : Str) :
    (redoRecord rec storage).rows table =
      if rec.table = table then rec.redoStep?.elim (storage.rows table) (·.run (storage.rows table))
      else storage.rows table := by
  cases type : rec.type with
  | insert =>
    simp only [redoRecord, LogRecord.redoStep?, type, TableStorage.rows_setRows,
      eq_comm (a := table)]
    split
    · rename_i same
      rw [same]
      rfl
    · rfl
  | update =>
    simp only [redoRecord, LogRecord.redoStep?, type, TableStorage.rows_setRows,
      eq_comm (a := table)]
    split
    · rename_i same
      rw [same, Option.elim_some, TableStep.run]
      cases (overwriteFirst rec.key (deserializeRow rec.newValue) (storage.rows table)).2
      · rfl
      · exact (List.append_nil _).symm
    · rfl
  | delete =>
    simp only [redoRecord, LogRecord.redoStep?, type, TableStorage.rows_setRows,
      eq_comm (a := table)]
    split
    · rename_i same
      rw [same]
      rfl
    · rfl
  | begin | commit | abort | unnamed =>
    simp only [redoRecord, LogRecord.redoStep?, type, Option.elim_none, ite_self]

theorem rows_undoRecord (rec : LogRecord) (storage : TableStorage) (table : Str) :
    (undoRecord rec storage).rows table =
      if rec.table = table then rec.undoStep?.elim (storage.rows table) (·.run (storage.rows table))
      else storage.rows table := by
  cases type : rec.type with
  | insert =>
    simp only [undoRecord, LogRecord.undoStep?, type, TableStorage.rows_setRows,
      eq_comm (a := table)]
    split
    · rename_i same
      rw [same]
      rfl
    · rfl
  | update | delete =>
    simp only [undoRecord, LogRecord.undoStep?, type, TableStorage.rows_setRows,
      eq_comm (a := table)]
    split
    · rename_i same
      rw [same, Option.elim_some, TableStep.run, Bool.not_false, Bool.or_true, if_pos rfl,
        List.append_nil]
    · rfl
  | begin | commit | abort | unnamed =>
    simp only [undoRecord, LogRecord.undoStep?, type, Option.elim_none, ite_self]

/-- A loop over records that takes the steps of those on the table. -/
theorem rows_foldl {f : TableStorage → LogRecord → TableStorage} {p : LogRecord → Prop}
    [DecidablePred p] {step : LogRecord → Option TableStep}
    (takes : ∀ rec storage, (f storage rec).rows table =
      if p rec then (step rec).elim (storage.rows table) (·.run (storage.rows table))
      else storage.rows table) (log : List LogRecord) (storage : TableStorage) :
    (log.foldl f storage).rows table = runSteps ((log.filter p).filterMap step)
      (storage.rows table) := by
  induction log generalizing storage with
  | nil => rfl
  | cons rec log ih =>
    rw [List.foldl_cons, ih, takes]
    by_cases here : p rec
    · rw [if_pos here, List.filter_cons_of_pos (by simpa using here), List.filterMap_cons]
      cases step rec <;> rfl
    · rw [if_neg here, List.filter_cons_of_neg (by simpa using here)]

/-- **Recovery takes each table through its steps.** -/
theorem rows_recoverFrom (records : List LogRecord) (storage : TableStorage) (table : Str) :
    (recoverFrom records storage).rows table = runSteps (tableSteps records table)
      (storage.rows table) := by
  unfold recoverFrom
  dsimp only
  rw [List.foldr_eq_foldl_reverse,
    @rows_foldl table _ (fun rec => rec.txnId ∉ committedIds records ∧ rec.table = table) _
      LogRecord.undoStep?,
    @rows_foldl table _ (fun rec => rec.txnId ∈ committedIds records ∧ rec.table = table) _
      LogRecord.redoStep?]
  · exact (List.foldl_append ..).symm
  · intro rec storage
    by_cases committed : rec.txnId ∈ committedIds records
    · rw [if_pos committed, rows_redoRecord, if_congr (and_iff_right committed) rfl rfl]
    · rw [if_neg committed, if_neg fun both => committed both.1]
  · intro rec storage
    by_cases committed : rec.txnId ∈ committedIds records
    · rw [if_pos committed, if_neg fun both => both.1 committed]
    · rw [if_neg committed, rows_undoRecord, if_congr (and_iff_right committed) rfl rfl]

/-- The key of a step is that of a data record. -/
theorem Unnamed.key_ne {row : Row} (unnamed : Unnamed records table row) :
    ∀ step ∈ tableSteps records table, row.id? ≠ some step.key := by
  intro step member
  rcases List.mem_append.mp member with inside | inside
  · obtain ⟨rec, inLog, made⟩ := List.mem_filterMap.mp inside
    obtain ⟨inLog, onTable⟩ := List.mem_filter.mp inLog
    have same := (of_decide_eq_true onTable).2
    cases type : rec.type <;> rw [LogRecord.redoStep?, type] at made <;> cases made <;>
      exact unnamed rec inLog (LogRecord.isData_of_type (by simp [type])) same
  · obtain ⟨rec, inLog, made⟩ := List.mem_filterMap.mp inside
    obtain ⟨inLog, onTable⟩ := List.mem_filter.mp inLog
    have same := (of_decide_eq_true onTable).2
    cases type : rec.type <;> rw [LogRecord.undoStep?, type] at made <;> cases made <;>
      exact unnamed rec (List.mem_reverse.mp inLog) (LogRecord.isData_of_type (by simp [type])) same

end Steps

/-! ### The ids in front -/

/-- The ids of the rows in front of the first one without an `id`. -/
def leadingIds (rows : List Row) : List (Option Str) :=
  (rows.takeWhile fun row => row.id?.isSome).map Row.id?

/-- The search among ids: it gives the empty one to the rows without an id that it passes. -/
def searchIds (key : Str) (image : Option Str) : List (Option Str) → List (Option Str)
  | [] => []
  | id :: ids =>
    if id.getD [] = key then image :: ids else some (id.getD []) :: searchIds key image ids

/-- **Every search finds its key among the ids in front**, as the steps before it leave them. -/
def FindsFrom : List TableStep → List (Option Str) → Prop
  | [], _ => True
  | .insert _ _ :: steps, ids => FindsFrom steps ids
  | .remove key :: steps, ids => FindsFrom steps (ids.filter (· ≠ some key))
  | .search key image _ :: steps, ids =>
    (∃ id ∈ ids, id.getD [] = key) ∧ FindsFrom steps (searchIds key image.id? ids)

/-- The image of a search has the id that is searched. -/
def TableStep.KeepsId : TableStep → Prop
  | .search key image _ => image.id? = some key
  | _ => True

instance : DecidablePred TableStep.KeepsId
  | .search _ _ _ => inferInstanceAs (Decidable (_ = _))
  | .insert _ _ | .remove _ => isTrue trivial

/-- **Every search finds its row in front of the first row without an `id`.** If no search changes
an id: each searched key is among the ids in front, and no earlier step removes it. -/
def Finds (steps : List TableStep) (ids : List (Option Str)) : Prop :=
  if ∀ step ∈ steps, step.KeepsId then
    (∀ step ∈ steps, ∀ key, step.searched? = some key → some key ∈ ids) ∧
      steps.Pairwise fun earlier later => ∀ key, earlier = .remove key → later.searched? ≠ some key
  else FindsFrom steps ids

section Ids

variable {key : Str} {image : Row} {ids : List (Option Str)} {rows : List Row}

theorem searchIds_self (named : ∀ id ∈ ids, id.isSome) : searchIds key (some key) ids = ids := by
  induction ids with
  | nil => rfl
  | cons id ids ih =>
    obtain ⟨isSome, rest⟩ := List.forall_mem_cons.mp named
    obtain ⟨own, rfl⟩ := Option.isSome_iff_exists.mp isSome
    rw [searchIds, Option.getD_some]
    by_cases same : own = key
    · rw [if_pos same, same]
    · rw [if_neg same, ih rest]

theorem exists_getD_iff (named : ∀ id ∈ ids, id.isSome) :
    (∃ id ∈ ids, id.getD [] = key) ↔ some key ∈ ids := by
  constructor
  · rintro ⟨id, member, same⟩
    obtain ⟨own, rfl⟩ := Option.isSome_iff_exists.mp (named id member)
    exact same ▸ member
  · exact fun member => ⟨_, member, rfl⟩

theorem finds_iff {steps : List TableStep} (named : ∀ id ∈ ids, id.isSome) :
    Finds steps ids ↔ FindsFrom steps ids := by
  unfold Finds
  split
  · rename_i keeps
    induction steps generalizing ids with
    | nil => simp [FindsFrom]
    | cons step steps ih =>
      obtain ⟨keep, rest⟩ := List.forall_mem_cons.mp keeps
      rw [List.forall_mem_cons, List.pairwise_cons]
      cases step with
      | insert own new =>
        rw [FindsFrom, ← ih named rest]
        simp [TableStep.searched?]
      | remove own =>
        rw [FindsFrom, ← ih (fun id inside => named id (List.mem_filter.mp inside).1) rest]
        constructor
        · rintro ⟨⟨-, found⟩, apart, later⟩
          refine ⟨fun s inside k same => List.mem_filter.mpr ⟨found s inside k same, ?_⟩, later⟩
          refine decide_eq_true fun bad => apart s inside own rfl ?_
          rw [same, bad]
        · rintro ⟨found, later⟩
          refine ⟨⟨fun _ bad => absurd bad.symm (Option.some_ne_none _), fun s inside k same =>
            (List.mem_filter.mp (found s inside k same)).1⟩,
              fun s inside k removes same => ?_, later⟩
          obtain rfl := TableStep.remove.inj removes
          exact of_decide_eq_true (List.mem_filter.mp (found s inside own same)).2 rfl
      | search own image appends =>
        have same : image.id? = some own := keep
        rw [FindsFrom, same, searchIds_self named, exists_getD_iff named, ← ih named rest]
        simp [TableStep.searched?, and_assoc]
  · rfl

theorem getD_touchId (row : Row) : hasKey key (touchId row) = decide (row.id?.getD [] = key) := by
  unfold touchId hasKey
  cases found : row.id? with
  | none =>
    have empty : Row.id? (row.insert idColumn []) = some [] := Finmap.lookup_insert _
    rw [Option.getD_none]
    dsimp only
    rw [empty]
    simp
  | some id => simp [found]

/-- The search of rows, told by their ids. -/
theorem ids_overwriteFirst (key : Str) (image : Row) (rows : List Row) :
    (overwriteFirst key image rows).1.map Row.id? = searchIds key image.id? (rows.map Row.id?) := by
  induction rows with
  | nil => rfl
  | cons row rows ih =>
    rw [overwriteFirst, getD_touchId, List.map_cons, searchIds]
    by_cases here : row.id?.getD [] = key
    · rw [if_pos (decide_eq_true here), if_pos here, List.map_cons]
    · have touched : (touchId row).id? = some (row.id?.getD []) := by
        unfold touchId
        cases found : row.id? with
        | none => exact Finmap.lookup_insert _
        | some id => exact found
      rw [if_neg (by simpa using here), if_neg here, List.map_cons, ih, touched]

theorem ids_removeKey_map (key : Str) (rows : List Row) :
    (removeKey key rows).map Row.id? = (rows.map Row.id?).filter (· ≠ some key) := by
  unfold removeKey
  rw [List.filter_map]
  congr 2
  funext row
  simp [hasKey]

/-- A search that finds its row stops there. -/
theorem overwriteFirst_append_of_found (found : ∃ id ∈ rows.map Row.id?, id.getD [] = key)
    (rest : List Row) :
    overwriteFirst key image (rows ++ rest) =
      ((overwriteFirst key image rows).1 ++ rest, true) := by
  induction rows with
  | nil => simp at found
  | cons row rows ih =>
    rw [List.cons_append, overwriteFirst, overwriteFirst, getD_touchId]
    by_cases here : row.id?.getD [] = key
    · rw [if_pos (decide_eq_true here), if_pos (decide_eq_true here), List.cons_append]
    · obtain ⟨id, member, same⟩ := found
      have later := (List.mem_cons.mp member).resolve_left fun first => here (first ▸ same)
      rw [if_neg (by simpa using here), if_neg (by simpa using here), ih ⟨id, later, same⟩,
        List.cons_append]

end Ids

/-! ### The rows the steps leave alone -/

section Frame

variable {key : Str} {image : Row} {rows front rest keptFront keptRest : List Row}
  {step : TableStep} {steps : List TableStep}

/-- A search changes neither the row of another id nor the order of the rows. -/
theorem sublist_overwriteFirst {kept : List Row} (sub : kept.Sublist rows)
    (others : ∀ row ∈ kept, row.id?.isSome ∧ row.id? ≠ some key) :
    kept.Sublist (overwriteFirst key image rows).1 := by
  induction sub with
  | slnil => exact .slnil
  | @cons kept rows row sub ih =>
    rw [overwriteFirst]
    split
    · exact .cons _ sub
    · exact .cons _ (ih others)
  | @cons_cons kept rows row sub ih =>
    obtain ⟨⟨hasId, other⟩, rest⟩ := List.forall_mem_cons.mp others
    rw [overwriteFirst, touchId_of_id hasId, if_neg (by simpa [hasKey] using other)]
    exact .cons_cons _ (ih rest)

theorem sublist_removeKey {kept : List Row} (sub : kept.Sublist rows)
    (others : ∀ row ∈ kept, row.id? ≠ some key) : kept.Sublist (removeKey key rows) := by
  have stay : kept.filter (fun row => !hasKey key row) = kept :=
    List.filter_eq_self.mpr fun row inside => by simpa [hasKey] using others row inside
  rw [← stay]
  exact sub.filter _

/-- **Rows with ids of their own** are out of reach of every step. -/
theorem TableStep.sublist_run {kept : List Row} (sub : kept.Sublist rows)
    (named : ∀ row ∈ kept, row.id?.isSome) (others : ∀ row ∈ kept, row.id? ≠ some step.key) :
    kept.Sublist (step.run rows) := by
  cases step with
  | insert key new =>
    rw [TableStep.run]
    split
    · exact sub
    · exact sub.trans (List.sublist_append_left ..)
  | remove key => exact sublist_removeKey sub others
  | search key image appends =>
    refine .trans (sublist_overwriteFirst sub fun row inside => ?_) (List.sublist_append_left ..)
    exact ⟨named row inside, others row inside⟩

theorem sublist_steps_of_named {kept : List Row} (sub : kept.Sublist rows)
    (named : ∀ row ∈ kept, row.id?.isSome)
    (others : ∀ row ∈ kept, ∀ step ∈ steps, row.id? ≠ some step.key) :
    kept.Sublist (runSteps steps rows) := by
  induction steps generalizing rows with
  | nil => exact sub
  | cons step steps ih =>
    exact ih (step.sublist_run sub named fun row inside =>
      others row inside step List.mem_cons_self)
      fun row inside s member => others row inside s (List.mem_cons_of_mem _ member)

/-- **Steps whose searches find their rows in front** leave the rows behind it alone. -/
theorem sublist_steps (finds : FindsFrom steps (front.map Row.id?))
    (subFront : keptFront.Sublist front) (subRest : keptRest.Sublist rest)
    (named : ∀ row ∈ keptFront, row.id?.isSome)
    (othersFront : ∀ row ∈ keptFront, ∀ step ∈ steps, row.id? ≠ some step.key)
    (othersRest : ∀ row ∈ keptRest, ∀ step ∈ steps, row.id? ≠ some step.key) :
    (keptFront ++ keptRest).Sublist (runSteps steps (front ++ rest)) := by
  induction steps generalizing front rest with
  | nil => exact subFront.append subRest
  | cons step steps ih =>
    have nowFront := fun row inside => othersFront row inside step List.mem_cons_self
    have nowRest := fun row inside => othersRest row inside step List.mem_cons_self
    have thenFront :=
      fun row inside s member => othersFront row inside s (List.mem_cons_of_mem step member)
    have thenRest :=
      fun row inside s member => othersRest row inside s (List.mem_cons_of_mem step member)
    cases step with
    | insert key new =>
      change List.Sublist _ (runSteps steps (if (front ++ rest).any (hasKey key) then front ++ rest
        else front ++ rest ++ [new]))
      split
      · exact ih finds subFront subRest thenFront thenRest
      · rw [List.append_assoc]
        exact ih finds subFront (subRest.trans (List.sublist_append_left ..)) thenFront thenRest
    | remove key =>
      have split : removeKey key (front ++ rest) = removeKey key front ++ removeKey key rest :=
        List.filter_append ..
      change List.Sublist _ (runSteps steps (removeKey key (front ++ rest)))
      rw [split]
      refine ih ?_ (sublist_removeKey subFront nowFront)
        (sublist_removeKey subRest nowRest) thenFront
        thenRest
      rw [ids_removeKey_map]
      exact finds
    | search key image appends =>
      obtain ⟨found, later⟩ := finds
      have stops := @overwriteFirst_append_of_found key image _ found rest
      change List.Sublist _ (runSteps steps ((overwriteFirst key image (front ++ rest)).1 ++
        if (overwriteFirst key image (front ++ rest)).2 || !appends then [] else [image]))
      rw [stops, Bool.true_or, if_pos rfl, List.append_nil]
      refine ih ?_ (sublist_overwriteFirst subFront fun row inside =>
        ⟨named row inside, nowFront row inside⟩) subRest thenFront thenRest
      rw [ids_overwriteFirst]
      exact later

end Frame

/-! ### The rows a failing search changes -/

section Lost

variable {key : Str} {image : Row} {rows front rest bares : List Row} {step : TableStep}
  {steps : List TableStep}

theorem id_touchId (row : Row) : (touchId row).id?.isSome := by
  unfold touchId
  cases found : row.id? with
  | none => exact Option.isSome_of_eq_some (Finmap.lookup_insert _)
  | some id => exact Option.isSome_of_eq_some found

/-- A search, counted among rows without an id: it writes none of them back. -/
theorem countP_overwriteFirst_le (noId : ∀ row ∈ bares, row.id? = none) (notImage : image ∉ bares)
    (rows : List Row) :
    (overwriteFirst key image rows).1.countP (· ∈ bares) ≤ rows.countP (· ∈ bares) := by
  induction rows with
  | nil => exact le_rfl
  | cons row rows ih =>
    have touched : touchId row ∉ bares := fun inside =>
      Option.isSome_iff_ne_none.mp (id_touchId row) (noId _ inside)
    rw [overwriteFirst, List.countP_cons]
    split
    · rw [List.countP_cons_of_neg (by simpa using notImage)]
      exact Nat.le_add_right ..
    · rw [List.countP_cons_of_neg (by simpa using touched)]
      exact ih.trans (Nat.le_add_right ..)

/-- **A search that does not find its row in front** changes the first row without an id. -/
theorem countP_overwriteFirst_lt {row : Row} (noId : ∀ row ∈ bares, row.id? = none)
    (notImage : image ∉ bares) (bare : row ∈ bares) (missed : ∀ r ∈ front, r.id?.getD [] ≠ key)
    (rest : List Row) :
    (overwriteFirst key image (front ++ row :: rest)).1.countP (· ∈ bares) <
      (front ++ row :: rest).countP (· ∈ bares) := by
  induction front with
  | nil =>
    have touched : touchId row ∉ bares := fun inside =>
      Option.isSome_iff_ne_none.mp (id_touchId row) (noId _ inside)
    rw [List.nil_append, overwriteFirst, List.countP_cons_of_pos (by simpa using bare)]
    split
    · rw [List.countP_cons_of_neg (by simpa using notImage)]
      exact Nat.lt_succ_self _
    · rw [List.countP_cons_of_neg (by simpa using touched)]
      exact Nat.lt_succ_of_le (countP_overwriteFirst_le noId notImage rest)
  | cons first front ih =>
    obtain ⟨other, others⟩ := List.forall_mem_cons.mp missed
    have touched : touchId first ∉ bares := fun inside =>
      Option.isSome_iff_ne_none.mp (id_touchId first) (noId _ inside)
    rw [List.cons_append, overwriteFirst, getD_touchId, if_neg (by simpa using other),
      List.countP_cons_of_neg (by simpa using touched), List.countP_cons]
    exact (ih others).trans_le (Nat.le_add_right ..)

/-- No step writes back a row without an id that is not its image. -/
theorem TableStep.countP_run_le (noId : ∀ row ∈ bares, row.id? = none)
    (notImage : ∀ row ∈ bares, step.image? ≠ some row) (rows : List Row) :
    (step.run rows).countP (· ∈ bares) ≤ rows.countP (· ∈ bares) := by
  have apart : ∀ {image : Row}, step.image? = some image → ([image].countP (· ∈ bares)) = 0 := by
    intro image same
    refine List.countP_eq_zero.mpr fun row inside => ?_
    rw [List.mem_singleton.mp inside, decide_eq_true_eq]
    exact fun bare => notImage _ bare same
  cases step with
  | insert key new =>
    rw [TableStep.run]
    split
    · exact le_rfl
    · rw [List.countP_append, apart rfl, Nat.add_zero]
  | remove key => exact List.filter_sublist.countP_le
  | search key image appends =>
    have less := @countP_overwriteFirst_le key image _ noId (fun bare => notImage _ bare rfl) rows
    rw [TableStep.run, List.countP_append]
    split
    · exact less
    · rw [apart rfl]
      exact less

theorem countP_steps_le (noId : ∀ row ∈ bares, row.id? = none)
    (notImage : ∀ step ∈ steps, ∀ row ∈ bares, step.image? ≠ some row) (rows : List Row) :
    (runSteps steps rows).countP (· ∈ bares) ≤ rows.countP (· ∈ bares) := by
  induction steps generalizing rows with
  | nil => exact le_rfl
  | cons step steps ih =>
    obtain ⟨head, later⟩ := List.forall_mem_cons.mp notImage
    exact (ih later _).trans (step.countP_run_le noId head rows)

/-- **If a search does not find its row in front**, there is a row without an id less at the end. -/
theorem countP_steps_lt {row : Row} (noId : ∀ row ∈ bares, row.id? = none) (bare : row ∈ bares)
    (notImage : ∀ step ∈ steps, ∀ row ∈ bares, step.image? ≠ some row)
    (fails : ¬ FindsFrom steps (front.map Row.id?)) :
    (runSteps steps (front ++ row :: rest)).countP (· ∈ bares) <
      (front ++ row :: rest).countP (· ∈ bares) := by
  induction steps generalizing front rest with
  | nil => exact absurd trivial fails
  | cons step steps ih =>
    obtain ⟨head, later⟩ := List.forall_mem_cons.mp notImage
    have less := step.countP_run_le noId head (front ++ row :: rest)
    suffices inFront : ∀ front' rest', step.run (front ++ row :: rest) = front' ++ row :: rest' →
        ¬ FindsFrom steps (front'.map Row.id?) →
        (runSteps (step :: steps) (front ++ row :: rest)).countP (· ∈ bares) <
          (front ++ row :: rest).countP (· ∈ bares) by
      cases step with
      | insert key new =>
        by_cases present : (front ++ row :: rest).any (hasKey key) = true
        · exact inFront front rest (if_pos present) fails
        · refine inFront front (rest ++ [new]) ((if_neg present).trans ?_) fails
          rw [List.append_assoc, List.cons_append]
      | remove key =>
        refine inFront (removeKey key front) (removeKey key rest) ?_ ?_
        · have kept : hasKey key row = false := by simp [hasKey, noId row bare]
          rw [TableStep.run, removeKey, List.filter_append,
            List.filter_cons_of_pos (by simp [kept])]
          rfl
        · rwa [ids_removeKey_map]
      | search key image appends =>
        by_cases found : ∃ id ∈ front.map Row.id?, id.getD [] = key
        · refine inFront (overwriteFirst key image front).1 rest ?_ fun finds => fails ⟨found, ?_⟩
          · rw [TableStep.run, overwriteFirst_append_of_found found, Bool.true_or, if_pos rfl,
              List.append_nil]
          · rwa [ids_overwriteFirst] at finds
        · have missed : ∀ r ∈ front, r.id?.getD [] ≠ key := fun r inside same =>
            found ⟨_, List.mem_map_of_mem inside, same⟩
          have lost := countP_overwriteFirst_lt noId (fun bare => head _ bare rfl) bare missed rest
          refine (countP_steps_le noId later _).trans_lt (lt_of_le_of_lt ?_ lost)
          dsimp only
          rw [TableStep.run, List.countP_append]
          split
          · exact le_rfl
          · refine (Nat.add_eq_left.mpr (List.countP_eq_zero.mpr fun r inside => ?_)).le
            rw [List.mem_singleton.mp inside, decide_eq_true_eq]
            exact fun bare => head _ bare rfl
    intro front' rest' ran fails'
    have step' : runSteps (step :: steps) (front ++ row :: rest) =
        runSteps steps (front' ++ row :: rest') := congrArg (runSteps steps) ran
    rw [ran] at less
    rw [step']
    exact (ih later fails').trans_le less

end Lost

/-! ### Recovery -/

section Recovery

variable {records : List LogRecord} {storage : TableStorage} {table : Str} {rows : List Row}

/-- The rows in front of the first one without an `id`, and the others. -/
theorem split_leading (rows : List Row) : ∃ front rest, rows = front ++ rest ∧
    front.map Row.id? = leadingIds rows ∧ (∀ row ∈ front, row.id?.isSome) ∧
    ((∃ row ∈ rows, row.id? = none) → ∃ row rest', rest = row :: rest' ∧ row.id? = none) := by
  refine ⟨rows.takeWhile fun row => row.id?.isSome, rows.dropWhile fun row => row.id?.isSome,
    List.takeWhile_append_dropWhile.symm, rfl, fun row inside => ?_, ?_⟩
  · exact List.mem_takeWhile_imp (p := fun row : Row => row.id?.isSome) inside
  rintro ⟨row, inside, noId⟩
  cases left : rows.dropWhile fun row => row.id?.isSome with
  | nil =>
    have all := List.dropWhile_eq_nil_iff.mp left row inside
    exact absurd noId (Option.isSome_iff_ne_none.mp all)
  | cons first rest =>
    have stops := List.head_dropWhile_not (fun row : Row => row.id?.isSome)
      (l := rows) (by rw [left]; exact List.cons_ne_nil _ _)
    simp only [left, List.head_cons] at stops
    exact ⟨first, rest, rfl, Option.isNone_iff_eq_none.mp (by simpa using stops)⟩

/-- The searches find their rows: one table. -/
theorem leaves_of_finds (finds : (∃ row ∈ storage.rows table, row.id? = none) →
      Finds (tableSteps records table) (leadingIds (storage.rows table))) :
    ((storage.rows table).filter fun row => Unnamed records table row).Sublist
      ((recoverFrom records storage).rows table) := by
  have unnamed : ∀ {rows : List Row}, ∀ row ∈ rows.filter (fun row => Unnamed records table row),
      ∀ step ∈ tableSteps records table, row.id? ≠ some step.key := fun row inside =>
    (of_decide_eq_true (List.mem_filter.mp inside).2 : Unnamed records table row).key_ne
  obtain ⟨front, rest, parts, ids, named, -⟩ := split_leading (storage.rows table)
  rw [rows_recoverFrom]
  by_cases bare : ∃ row ∈ storage.rows table, row.id? = none
  · have found := finds bare
    rw [← ids, finds_iff (List.forall_mem_map.mpr named)] at found
    rw [parts, List.filter_append]
    exact sublist_steps found List.filter_sublist List.filter_sublist
      (fun row inside => named row (List.mem_filter.mp inside).1) unnamed unnamed
  · refine sublist_steps_of_named List.filter_sublist (fun row inside => ?_) unnamed
    exact Option.isSome_iff_ne_none.mpr fun noId => bare ⟨row, (List.mem_filter.mp inside).1, noId⟩

/-- The unnamed rows are left alone: one table. -/
theorem finds_of_leaves
    (leaves : ((storage.rows table).filter fun row => Unnamed records table row).Sublist
      ((recoverFrom records storage).rows table))
    (bare : ∃ row ∈ storage.rows table, row.id? = none)
    (notImage : ∀ step ∈ tableSteps records table, ∀ row ∈ storage.rows table, row.id? = none →
      step.image? ≠ some row) :
    Finds (tableSteps records table) (leadingIds (storage.rows table)) := by
  obtain ⟨front, rest, parts, ids, named, split⟩ := split_leading (storage.rows table)
  obtain ⟨row, rest, rfl, noId⟩ := split bare
  let bares := (storage.rows table).filter fun row => row.id?.isNone
  have isBare : ∀ r, r ∈ bares ↔ r ∈ storage.rows table ∧ r.id? = none := fun r => by
    rw [List.mem_filter, Option.isNone_iff_eq_none]
  have inside : row ∈ storage.rows table := parts ▸ List.mem_append_right _ List.mem_cons_self
  rw [← ids, finds_iff (List.forall_mem_map.mpr named)]
  by_contra fails
  have less := @countP_steps_lt _ rest _ _ _ (fun r inside => ((isBare r).mp inside).2)
    ((isBare row).mpr ⟨inside, noId⟩)
    (fun step member r inside => notImage step member r ((isBare r).mp inside).1
      ((isBare r).mp inside).2)
    fails
  rw [← parts, ← rows_recoverFrom] at less
  have kept := leaves.countP_le (p := fun r => decide (r ∈ bares))
  have all : ((storage.rows table).filter fun row => Unnamed records table row).countP (· ∈ bares) =
      (storage.rows table).countP (· ∈ bares) := by
    rw [List.countP_filter]
    refine List.countP_congr fun r _ => ?_
    rw [Bool.and_eq_true, decide_eq_true_eq, decide_eq_true_eq]
    refine and_iff_left_of_imp fun bare _ _ _ _ same => ?_
    exact Option.some_ne_none _ (same.symm.trans ((isBare r).mp bare).2)
  omega

/-- **When recovery leaves unnamed rows as they are**: when in each table that has rows without an
`id` every search finds its row in front of these; and only then, unless recovery writes a row that
is equal to one of them. -/
theorem recover_frame_iff (records : List LogRecord) (storage : TableStorage) :
    ((∀ table, (∃ row ∈ storage.rows table, row.id? = none) →
        Finds (tableSteps records table) (leadingIds (storage.rows table))) →
      LeavesUnnamed records storage) ∧
    (LeavesUnnamed records storage →
      ∀ table, (∃ row ∈ storage.rows table, row.id? = none) →
        Finds (tableSteps records table) (leadingIds (storage.rows table)) ∨
          ∃ step ∈ tableSteps records table, ∃ row ∈ storage.rows table,
            row.id? = none ∧ step.image? = some row) := by
  refine ⟨fun finds table => leaves_of_finds (finds table), fun leaves table bare => ?_⟩
  by_cases notImage : ∀ step ∈ tableSteps records table, ∀ row ∈ storage.rows table,
    row.id? = none →
      step.image? ≠ some row
  · exact .inl (finds_of_leaves (leaves table) bare notImage)
  · push Not at notImage
    exact .inr notImage

end Recovery

/-- A row with a `name` and no `id`. -/
def namedRow (name : Str) : Row := (∅ : Row).insert (str "name") name

/-- A table `users` with a row that has no `id`, and a row that has one. -/
def mixedStorage : TableStorage :=
  (∅ : TableStorage).insert (str "users") [namedRow (str "Ann"), idRow "1"]

/-- `UPDATE users SET name = 'Bob' WHERE id = '1'`. -/
def renameFirst : DmlStatement :=
  .update {
    table := str "users", assignments := [(str "name", .literal .string (str "Bob"))]
    where? := some (.binary (str "=") (.columnRef [] idColumn) (.literal .string (str "1"))) }

/-- **The search for an updated row gives an `id` to the row before it.** -/
theorem recover_touches_unnamed :
    ¬ ∀ (order : RowOrder) (s s' : Session) (wal : Wal) (calls : List SessionCall)
      (storage : TableStorage), s.manager = { wal := some wal } → wal.appended = [] →
      CallRun order s calls s' → LeavesUnnamed s'.manager.records storage := by
  intro claim
  have run : CallRun default ⟨freshSession.manager, mixedStorage⟩
      [.begin, .exec 1 renameFirst, .commit 1] _ :=
    .cons (.begin _) (.cons (.exec rfl) (.cons (.commit _ _) (.nil _)))
  have kept := claim default _ _ (Wal.openFile []) _ mixedStorage rfl rfl run (str "users")
  exact absurd (kept.subset (show namedRow (str "Ann") ∈ _ by decide +kernel)) (by decide +kernel)

end MyDb
