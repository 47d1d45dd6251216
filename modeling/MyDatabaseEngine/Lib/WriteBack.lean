/-
**A memory whose cells are written back later, and that may crash.**

What a cell holds reaches stable storage some time after it is written, and the cells go there one
by one in any order. So after a crash each cell holds something it held before, though not from
before it was last settled. `WriteBack` is that memory: `now` is what the cells hold, `since` what
each of them may come back with. Which values may be written over which is a parameter, `Writes`.

* `mem_since`: what a cell may come back with is what it held at some moment since it was last
  settled.
* `Step.always`: what is true of a cell when it is settled, and stays true of it when it is written,
  no crash takes back.
-/

import Mathlib.Data.Set.Insert
import Mathlib.Logic.Function.Basic

/-- **The memory**: what the cells hold, and what they may hold after a crash. -/
structure WriteBack (ι σ : Type) where
  now : ι → σ
  since : ι → Set σ

namespace WriteBack

variable {ι σ : Type}

/-- What happens to a memory. -/
inductive Op (ι σ : Type)
  | write (cell : ι) (value : σ)
  /-- What these cells hold is in stable storage. -/
  | settle (cells : Set ι)
  | crash

/-- A memory whose cells are all settled. -/
def idle (now : ι → σ) : WriteBack ι σ := ⟨now, fun cell => {now cell}⟩

def settle (cells : Set ι) (m : WriteBack ι σ) : WriteBack ι σ where
  now := m.now
  since := fun cell => {value | value = m.now cell ∨ cell ∉ cells ∧ value ∈ m.since cell}

/-- What the cells hold is among what they may come back with. -/
def Sound (m : WriteBack ι σ) : Prop := ∀ cell, m.now cell ∈ m.since cell

theorem sound_idle (now : ι → σ) : (idle now).Sound := fun _ => rfl

/-- **What the cell holds has the property, and so has what it may come back with.** -/
structure Always (cell : ι) (P : σ → Prop) (m : WriteBack ι σ) : Prop where
  now : P (m.now cell)
  since : ∀ back ∈ m.since cell, P back

/-- Once the cell is settled, the property need only hold of it now. -/
theorem always_settle {m : WriteBack ι σ} {cell : ι} {cells : Set ι} {P : σ → Prop}
    (holds : P (m.now cell)) (among : cell ∈ cells) : (m.settle cells).Always cell P := by
  refine ⟨holds, ?_⟩
  rintro back (rfl | ⟨apart, -⟩)
  · exact holds
  · exact absurd among apart

variable [DecidableEq ι]

def write (cell : ι) (value : σ) (m : WriteBack ι σ) : WriteBack ι σ where
  now := Function.update m.now cell value
  since := Function.update m.since cell (Insert.insert value (m.since cell))

section Write

variable {m : WriteBack ι σ} {cell other : ι} {value : σ}

theorem now_write_self : (m.write cell value).now cell = value := Function.update_self ..

theorem since_write_self : (m.write cell value).since cell = Insert.insert value (m.since cell) :=
  Function.update_self ..

theorem now_write_of_ne (apart : other ≠ cell) : (m.write cell value).now other = m.now other :=
  Function.update_of_ne apart ..

theorem since_write_of_ne (apart : other ≠ cell) :
    (m.write cell value).since other = m.since other :=
  Function.update_of_ne apart ..

end Write

/-- **A step.** After a crash each cell holds what it may come back with. -/
inductive Step (Writes : ι → σ → σ → Prop) (m : WriteBack ι σ) : Op ι σ → WriteBack ι σ → Prop
  | write {cell : ι} {value : σ} :
      Writes cell (m.now cell) value → Step Writes m (.write cell value) (m.write cell value)
  | settle {cells : Set ι} : Step Writes m (.settle cells) (m.settle cells)
  | crash {now : ι → σ} : (∀ cell, now cell ∈ m.since cell) → Step Writes m .crash (idle now)

/-- **A run.** -/
inductive Run (Writes : ι → σ → σ → Prop) (m : WriteBack ι σ) : List (Op ι σ) → WriteBack ι σ → Prop
  | nil : Run Writes m [] m
  | concat {ops : List (Op ι σ)} {op : Op ι σ} {m' m'' : WriteBack ι σ} :
      Run Writes m ops m' → Step Writes m' op m'' → Run Writes m (ops ++ [op]) m''

variable {Writes : ι → σ → σ → Prop} {m m' m'' : WriteBack ι σ} {ops ops' : List (Op ι σ)}
  {op : Op ι σ} {cell other : ι} {value : σ}

theorem Run.append (run : Run Writes m ops m') (next : Run Writes m' ops' m'') :
    Run Writes m (ops ++ ops') m'' := by
  induction next with
  | nil =>
    rw [List.append_nil]
    exact run
  | concat _ step ih =>
    rw [← List.append_assoc]
    exact ih.concat step

theorem Run.eq_of_nil (run : Run Writes m [] m') : m' = m := by
  generalize none : [] = ops at run
  cases run with
  | nil => rfl
  | concat => exact absurd none.symm (List.append_ne_nil_of_right_ne_nil _ (List.cons_ne_nil _ _))

theorem Run.step_of_singleton (run : Run Writes m [op] m') : Step Writes m op m' := by
  generalize one : [op] = ops at run
  cases run with
  | nil => exact nomatch one
  | concat run step =>
    obtain ⟨rfl, same⟩ := List.append_inj' ((List.nil_append [op]).trans one) rfl
    rw [List.head_eq_of_cons_eq same, ← run.eq_of_nil]
    exact step

theorem Step.sound (step : Step Writes m op m') (sound : m.Sound) : m'.Sound := by
  cases step with
  | @write written value _ =>
    intro cell
    by_cases same : cell = written
    · subst same
      rw [now_write_self, since_write_self]
      exact Set.mem_insert _ _
    · rw [now_write_of_ne same, since_write_of_ne same]
      exact sound cell
  | settle => exact fun cell => .inl rfl
  | crash => exact sound_idle _

theorem Run.sound (run : Run Writes m ops m') (sound : m.Sound) : m'.Sound := by
  induction run with
  | nil => exact sound
  | concat _ step ih => exact step.sound ih

/-- A write adds what it writes to what a cell may come back with. -/
theorem mem_since_write {back : σ} (member : back ∈ (m.write cell value).since other) :
    back ∈ m.since other ∨ back = (m.write cell value).now other := by
  by_cases same : other = cell
  · subst same
    rw [since_write_self] at member
    rw [now_write_self]
    exact (Set.mem_insert_iff.mp member).symm
  · rw [since_write_of_ne same] at member
    exact .inl member

/-! ### Where it comes from -/

/-- The operation leaves it open what the cell comes back with. -/
def Op.Spares (cell : ι) : Op ι σ → Prop
  | .write _ _ => True
  | .settle cells => cell ∉ cells
  | .crash => False

/-- **A moment of a run** since which the cell was not settled, and what it held then. -/
def Held (Writes : ι → σ → σ → Prop) (m : WriteBack ι σ) (ops : List (Op ι σ)) (m' : WriteBack ι σ)
    (cell : ι) (value : σ) : Prop :=
  ∃ before after moment, ops = before ++ after ∧ Run Writes m before moment ∧
    Run Writes moment after m' ∧
    moment.now cell = value ∧ ∀ op ∈ after, op.Spares cell

theorem Run.held_now (run : Run Writes m ops m') : Held Writes m ops m' cell (m'.now cell) :=
  ⟨ops, [], m', (List.append_nil ops).symm, run, .nil, rfl, nofun⟩

theorem Held.concat (held : Held Writes m ops m' cell value) (step : Step Writes m' op m'')
    (spares : op.Spares cell) : Held Writes m (ops ++ [op]) m'' cell value := by
  obtain ⟨before, after, moment, rfl, first, next, same, spared⟩ := held
  refine ⟨before, after ++ [op], moment, List.append_assoc .., first, next.concat step, same, ?_⟩
  intro other member
  rcases List.mem_append.mp member with member | member
  · exact spared other member
  · rw [List.mem_singleton.mp member]
    exact spares

/-- **What a cell may come back with it held at some moment** since it was last settled. -/
theorem Run.mem_since (run : Run Writes m ops m') (settled : ∀ cell, m.since cell = {m.now cell})
    (member : value ∈ m'.since cell) : Held Writes m ops m' cell value := by
  induction run generalizing cell value with
  | nil =>
    rw [settled] at member
    rw [Set.mem_singleton_iff.mp member]
    exact Run.held_now .nil
  | @concat ops op m' m'' run step ih =>
    cases step with
    | @write written new allowed =>
      have whole := run.concat (.write allowed)
      by_cases same : cell = written
      · subst same
        rw [since_write_self] at member
        rcases Set.mem_insert_iff.mp member with rfl | member
        · have now := @held_now _ _ _ _ _ _ _ cell whole
          rwa [now_write_self] at now
        · exact (ih member).concat (.write allowed) trivial
      · rw [since_write_of_ne same] at member
        exact (ih member).concat (.write allowed) trivial
    | @settle cells =>
      rcases member with rfl | ⟨apart, member⟩
      · exact @held_now _ _ _ _ _ _ _ cell (run.concat .settle)
      · exact (ih member).concat .settle apart
    | crash back =>
      rw [Set.mem_singleton_iff.mp member]
      exact @held_now _ _ _ _ _ _ _ cell (run.concat (.crash back))

/-! ### What stays true of a cell -/

/-- **A property that writing keeps survives crashes.** -/
theorem Step.always {P : σ → Prop} (step : Step Writes m op m')
    (keeps : ∀ value, op = .write cell value → P (m.now cell) → P value)
    (always : m.Always cell P) :
    m'.Always cell P := by
  cases step with
  | @write written new allowed =>
    by_cases same : cell = written
    · subst same
      have holds := keeps new rfl always.now
      constructor
      · rw [now_write_self]
        exact holds
      · intro back member
        rw [since_write_self] at member
        rcases Set.mem_insert_iff.mp member with rfl | member
        · exact holds
        · exact always.since back member
    · constructor
      · rw [now_write_of_ne same]
        exact always.now
      · intro back member
        rw [since_write_of_ne same] at member
        exact always.since back member
  | settle =>
    refine ⟨always.now, ?_⟩
    rintro back (rfl | ⟨-, member⟩)
    · exact always.now
    · exact always.since back member
  | crash back =>
    have now := always.since _ (back cell)
    refine ⟨now, fun value' member => ?_⟩
    rw [Set.mem_singleton_iff.mp member]
    exact now

end WriteBack
