/-
**The build side of a join.**

A hash join hashes one side and reads the other, and where both sides of a pair have a column it
takes the probe side's value. `hashJoin_sides`: as long as the rows that meet agree on the columns
they share, either side may be built, the answer is the same up to order.

A join's rows are those of a nested loop over its sides, with the probe side outside. Loops may be
exchanged up to order (`nestedLoop_swap`); then the pairs are the same, and so are the rows made of
them, by agreement (`joinRows_comm`). The theorem holds from any state the two joins were left in:
opening them again reads both sides from the start.
-/

import MyDatabaseEngine.Exec.Denotation
import Mathlib.Data.Multiset.Bind

namespace MyDb.Operator

/-! ### Nested loops -/

section NestedLoops

variable {α β γ : Type*}

/-- What a pair of a nested loop gives: one result when the pair meets. -/
theorem map_filter_eq_bind (meets : β → Bool) (pair : β → γ) (rows : List β) :
    (((rows.filter meets).map pair : List γ) : Multiset γ) =
      (rows : Multiset β).bind fun b => if meets b then {pair b} else 0 := by
  induction rows with
  | nil => rfl
  | cons row rest hypothesis =>
    rw [← Multiset.cons_coe, Multiset.cons_bind, ← hypothesis, List.filter_cons]
    cases meets row <;> simp

/-- **Either loop may be the outer one.** -/
theorem nestedLoop_swap (meets : α → β → Bool) (pair : α → β → γ) (outer : List α)
    (inner : List β) :
    (outer.flatMap fun a => (inner.filter (meets a)).map (pair a)).Perm
      (inner.flatMap fun b => (outer.filter fun a => meets a b).map fun a => pair a b) := by
  rw [← Multiset.coe_eq_coe, ← Multiset.coe_bind, ← Multiset.coe_bind]
  simp only [map_filter_eq_bind]
  exact Multiset.bind_bind _ _

/-- A nested loop is given by the pairs that meet. -/
theorem nestedLoop_congr {meets : α → β → Bool} {pair pair' : α → β → γ} {outer : List α}
    {inner : List β}
    (same : ∀ a ∈ outer, ∀ b ∈ inner, meets a b = true → pair a b = pair' a b) :
    (outer.flatMap fun a => (inner.filter (meets a)).map (pair a)) =
      outer.flatMap fun a => (inner.filter (meets a)).map (pair' a) := by
  refine List.flatMap_congr fun a outside => List.map_congr_left fun b inside => ?_
  obtain ⟨inside, meeting⟩ := List.mem_filter.mp inside
  exact same a outside b inside meeting

end NestedLoops

/-! ### Rows that meet -/

section Rows

/-- Rows with one value in their join columns. -/
theorem joins_iff {buildKey probeKey : Str} {probeRow buildRow : Row} :
    joins buildKey probeKey probeRow buildRow = true ↔
      ∃ value, probeRow.lookup probeKey = some value ∧ buildRow.lookup buildKey = some value := by
  unfold joins
  cases probeRow.lookup probeKey <;> simp

theorem joins_comm (buildKey probeKey : Str) (probeRow buildRow : Row) :
    joins buildKey probeKey probeRow buildRow = joins probeKey buildKey buildRow probeRow := by
  rw [Bool.eq_iff_iff, joins_iff, joins_iff]
  simp only [and_comm]

/-- The rows hold the same in the columns both have. -/
def AgreeOnShared (a b : Row) : Prop :=
  ∀ column x y, a.lookup column = some x → b.lookup column = some y → x = y

/-- Then neither value is preferred. -/
theorem joinRows_comm {a b : Row} (agree : AgreeOnShared a b) : joinRows a b = joinRows b a := by
  refine Finmap.ext_lookup fun column => ?_
  unfold joinRows
  cases inA : a.lookup column with
  | none =>
    rw [Finmap.lookup_union_right (Finmap.lookup_eq_none.mp inA)]
    cases inB : b.lookup column with
    | none => rw [Finmap.lookup_union_right (Finmap.lookup_eq_none.mp inB), inA]
    | some y =>
      rw [Finmap.lookup_union_left (Finmap.lookup_isSome.mp (by rw [inB]; rfl)), inB]
  | some x =>
    rw [Finmap.lookup_union_left (Finmap.lookup_isSome.mp (by rw [inA]; rfl)), inA]
    cases inB : b.lookup column with
    | none => rw [Finmap.lookup_union_right (Finmap.lookup_eq_none.mp inB), inA]
    | some y =>
      rw [Finmap.lookup_union_left (Finmap.lookup_isSome.mp (by rw [inB]; rfl)), inB,
        agree column x y inA inB]

end Rows

/-! ### Either side may be built -/

section Sides

/-- A scan yields its rows, opened in whatever state. -/
theorem rest_reset_seqScan (rows : List Row) (s : (seqScan rows).State) :
    (seqScan rows).rest ((seqScan rows).reset s) = rows :=
  rest_seqScan rows 0

variable {leftKey rightKey : Str}

/-- **Joins of any two operators**, opened in whatever state they are left. -/
theorem rest_hashJoin_sides {left right : Operator} {s : JoinState left right}
    {s' : JoinState right left}
    (sameLeft : left.rest (left.reset s'.probe) = left.rest (left.reset s.build))
    (sameRight : right.rest (right.reset s'.build) = right.rest (right.reset s.probe))
    (agree : ∀ a ∈ left.rest (left.reset s.build), ∀ b ∈ right.rest (right.reset s.probe),
      ∀ value, a.lookup leftKey = some value → b.lookup rightKey = some value → AgreeOnShared a b) :
    ((hashJoin left right leftKey rightKey).rest
      ((hashJoin left right leftKey rightKey).reset s)).Perm
      ((hashJoin right left rightKey leftKey).rest
        ((hashJoin right left rightKey leftKey).reset s')) := by
  rw [rest_reset_hashJoin, rest_reset_hashJoin, sameLeft, sameRight]
  refine (nestedLoop_swap _ _ _ _).trans ?_
  simp only [joins_comm leftKey rightKey]
  refine List.Perm.of_eq (nestedLoop_congr fun a inLeft b inRight meeting => ?_)
  obtain ⟨value, hasLeft, hasRight⟩ := joins_iff.mp meeting
  exact (joinRows_comm (agree a inLeft b inRight value hasLeft hasRight)).symm

/-- **Lists of rows**: whichever list is built, and whatever was pulled from the joins before,
opening them yields the same rows, each as often. -/
theorem hashJoin_sides {leftRows rightRows : List Row}
    (agree : ∀ a ∈ leftRows, ∀ b ∈ rightRows, ∀ value, a.lookup leftKey = some value →
      b.lookup rightKey = some value → AgreeOnShared a b)
    (s : JoinState (seqScan leftRows) (seqScan rightRows))
    (s' : JoinState (seqScan rightRows) (seqScan leftRows)) :
    ((hashJoin (seqScan leftRows) (seqScan rightRows) leftKey rightKey).rest
      ((hashJoin (seqScan leftRows) (seqScan rightRows) leftKey rightKey).reset s)).Perm
    ((hashJoin (seqScan rightRows) (seqScan leftRows) rightKey leftKey).rest
      ((hashJoin (seqScan rightRows) (seqScan leftRows) rightKey leftKey).reset s')) := by
  refine rest_hashJoin_sides rfl rfl ?_
  rw [rest_reset_seqScan, rest_reset_seqScan]
  exact agree

/-- A user. -/
def joinUsers : List Row := [(∅ : Row).insert (str "id") (str "1")]

/-- Two orders of the user, and one without a user column. -/
def joinOrders : List Row :=
  [((∅ : Row).insert (str "user") (str "1")).insert (str "item") (str "pen"),
    ((∅ : Row).insert (str "user") (str "1")).insert (str "item") (str "ink"),
    (∅ : Row).insert (str "item") (str "nib")]

theorem hashJoin_sides_orders :
    let build := hashJoin (seqScan joinUsers) (seqScan joinOrders) (str "id") (str "user")
    let swapped := hashJoin (seqScan joinOrders) (seqScan joinUsers) (str "user") (str "id")
    (build.rest (build.reset build.start)).Perm (swapped.rest (swapped.reset swapped.start)) :=
  hashJoin_sides (fun a inUsers b inOrders _ _ _ column x y hasA hasB => by
    obtain rfl := List.mem_singleton.mp inUsers
    by_cases id : column = str "id"
    · subst id
      have noId : ∀ order ∈ joinOrders, order.lookup (str "id") = none := by decide
      rw [noId b inOrders] at hasB
      cases hasB
    · rw [Finmap.lookup_insert_of_ne _ id] at hasA
      cases hasA) _ _

end Sides

end MyDb.Operator
