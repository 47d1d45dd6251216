/-
**Strict two-phase locking.**

Transactions work on one store of resources. Each takes locks, shared (`holds`) or exclusive (`owns`
too), never on a resource another owns, and gives them all back only when it closes; an operation
reads only what its transaction holds and writes only what it owns (`System.Within`).

`Step.consistent`: at every point of such a run the closed transactions, run one after the other in
the order they closed, do exactly what they did, and leave every resource that nobody owns as it is
now; and every open transaction could have done what it did so far right after them. A condition on
the single resources that holds throughout the run holds throughout the serial run as well.
-/

import Mathlib.Data.Set.Basic
import Mathlib.Logic.Function.Basic

namespace StrictLocking

variable {Txn Res Val Own Store Op : Type*}

/-- What the transactions work on: what the store has in a resource, what an operation does to its
transaction's own state and to the store, what a resource may hold, and the own state each starts
with. -/
structure System (Res Val Own Store Op : Type*) where
  look : Store → Res → Val
  effect : Op → Own → Store → Own → Store → Prop
  valid : Val → Prop
  fresh : Own

/-! ### Operations and their footprints -/

section Footprints

variable (sys : System Res Val Own Store Op)

/-- The stores agree on the resources. -/
def System.AgreeOn (resources : Set Res) (store store' : Store) : Prop :=
  ∀ r ∈ resources, sys.look store r = sys.look store' r

/-- Every resource holds what it may. -/
def System.Valid (store : Store) : Prop := ∀ r, sys.valid (sys.look store r)

/-- **The footprint of an operation**: it changes nothing but what it writes, and on a store that
agrees on what it reads it does the same. -/
structure System.Within (reads writes : Set Res) (op : Op) (own : Own) : Prop where
  frame : ∀ {store store' own'}, sys.effect op own store own' store' →
    ∀ r ∉ writes, sys.look store' r = sys.look store r
  agrees : ∀ {store store₁ store' own'}, sys.effect op own store own' store' →
    sys.AgreeOn reads store store₁ →
      ∃ store₁', sys.effect op own store₁ own' store₁' ∧ sys.AgreeOn reads store' store₁'

/-- **Operations of one transaction**, the last one last, each within the footprint and to a valid
store. -/
inductive Runs (reads writes : Set Res) (own : Own) (store : Store) : List Op → Own → Store → Prop
  | nil : Runs reads writes own store [] own store
  | concat {ops : List Op} {op : Op} {own' own'' : Own} {store' store'' : Store} :
      Runs reads writes own store ops own' store' → sys.Within reads writes op own' →
      sys.effect op own' store' own'' store'' → sys.Valid store'' →
      Runs reads writes own store (ops ++ [op]) own'' store''

variable {sys} {reads writes reads' writes' : Set Res} {op : Op} {own own' : Own}
  {store store' store₁ : Store} {ops : List Op}

theorem runs_nil (run : Runs sys reads writes own store [] own' store') :
    own' = own ∧ store' = store := by
  generalize isNil : ([] : List Op) = ops at run
  cases run with
  | nil => exact ⟨rfl, rfl⟩
  | concat _ _ _ _ => exact absurd isNil.symm (List.append_ne_nil_of_right_ne_nil _ (by simp))

/-- The last operation of a run. -/
theorem runs_concat {own'' : Own} {store'' : Store}
    (run : Runs sys reads writes own store (ops ++ [op]) own'' store'') :
    ∃ own' store', Runs sys reads writes own store ops own' store' ∧
      sys.effect op own' store' own'' store'' ∧ sys.Valid store'' := by
  generalize split : ops ++ [op] = all at run
  cases run with
  | nil => exact absurd split (List.append_ne_nil_of_right_ne_nil _ (by simp))
  | concat run _ done valid =>
    obtain ⟨rfl, last⟩ := List.append_inj' split rfl
    cases last
    exact ⟨_, _, run, done, valid⟩

theorem System.AgreeOn.symm (agree : sys.AgreeOn reads store store') :
    sys.AgreeOn reads store' store :=
  fun r member => (agree r member).symm

theorem System.AgreeOn.trans {store'' : Store} (agree : sys.AgreeOn reads store store')
    (agree' : sys.AgreeOn reads store' store'') : sys.AgreeOn reads store store'' :=
  fun r member => (agree r member).trans (agree' r member)

/-- A footprint may be widened. -/
theorem System.Within.mono (within : sys.Within reads writes op own) (more : reads ⊆ reads')
    (more' : writes ⊆ writes') (owned : writes ⊆ reads) : sys.Within reads' writes' op own where
  frame done r outside := within.frame done r fun inside => outside (more' inside)
  agrees := by
    intro store store₁ store' own' done agree
    obtain ⟨store₁', done₁, agree'⟩ := within.agrees done fun r member => agree r (more member)
    refine ⟨store₁', done₁, fun r member => ?_⟩
    by_cases inside : r ∈ reads
    · exact agree' r inside
    · have unwritten : r ∉ writes := fun written => inside (owned written)
      rw [within.frame done r unwritten, within.frame done₁ r unwritten]
      exact agree r member

theorem Runs.mono (run : Runs sys reads writes own store ops own' store') (more : reads ⊆ reads')
    (more' : writes ⊆ writes') (owned : writes ⊆ reads) :
    Runs sys reads' writes' own store ops own' store' := by
  induction run with
  | nil => exact .nil
  | concat _ within done valid ih => exact .concat ih (within.mono more more' owned) done valid

/-- **A run changes nothing but what it writes.** -/
theorem Runs.frame (run : Runs sys reads writes own store ops own' store') :
    ∀ r ∉ writes, sys.look store' r = sys.look store r := by
  induction run with
  | nil => exact fun _ _ => rfl
  | concat _ within done _ ih =>
    intro r outside
    rw [within.frame done r outside]
    exact ih r outside

/-- A store is valid that agrees with a valid one on some resources and with another on the
others. -/
theorem System.Valid.of_agree (valid : sys.Valid store) (valid₁ : sys.Valid store₁)
    (agree : sys.AgreeOn reads store store')
    (frame : ∀ r ∉ reads, sys.look store' r = sys.look store₁ r) : sys.Valid store' := by
  intro r
  by_cases inside : r ∈ reads
  · rw [← agree r inside]
    exact valid r
  · rw [frame r inside]
    exact valid₁ r

/-- **A run does the same on a valid store that agrees on what it reads.** -/
theorem Runs.agrees (run : Runs sys reads writes own store ops own' store') (owned : writes ⊆ reads)
    (agree : sys.AgreeOn reads store store₁) (valid₁ : sys.Valid store₁) :
    ∃ store₁', Runs sys reads writes own store₁ ops own' store₁' ∧
      sys.AgreeOn reads store' store₁' := by
  induction run with
  | nil => exact ⟨store₁, .nil, agree⟩
  | concat _ within done valid ih =>
    obtain ⟨store₁', run₁, agree'⟩ := ih
    obtain ⟨store₁'', done₁, agree''⟩ := within.agrees done agree'
    refine ⟨store₁'', .concat run₁ within done₁ (valid.of_agree valid₁ agree'' fun r outside => ?_),
      agree''⟩
    have unwritten : r ∉ writes := fun written => outside (owned written)
    exact (within.frame done₁ r unwritten).trans (run₁.frame r unwritten)

end Footprints

/-! ### Locked runs -/

section Steps

/-- What one transaction has: its own state, what it ran so far, and its locks. -/
structure Part (Res Own Op : Type*) where
  own : Own
  script : List Op
  holds : Set Res
  owns : Set Res

/-- A transaction that has run nothing and has no lock. -/
def Part.idle (fresh : Own) : Part Res Own Op := ⟨fresh, [], ∅, ∅⟩

/-- The store, what each open transaction has, and what each closed one ran and ended with, in the
order they closed. -/
structure State (Txn Res Own Store Op : Type*) where
  store : Store
  part : Txn → Part Res Own Op
  closed : List (List Op × Own)

variable [DecidableEq Txn]

/-- The transaction has this now. -/
def State.put (s : State Txn Res Own Store Op) (t : Txn) (part : Part Res Own Op) :
    State Txn Res Own Store Op where
  store := s.store
  part := Function.update s.part t part
  closed := s.closed

variable (sys : System Res Val Own Store Op)

/-- **One step of one transaction**: a shared lock, an exclusive lock, an operation, or its end. -/
inductive Step (s : State Txn Res Own Store Op) : State Txn Res Own Store Op → Prop
  | share (t : Txn) (granted : Set Res) :
      (∀ u ≠ t, ∀ r ∈ granted, r ∉ (s.part u).owns) →
      Step s (s.put t { s.part t with holds := (s.part t).holds ∪ granted })
  | acquire (t : Txn) (granted : Set Res) :
      (∀ u ≠ t, ∀ r ∈ granted, r ∉ (s.part u).holds) →
      Step s (s.put t { s.part t with
        holds := (s.part t).holds ∪ granted, owns := (s.part t).owns ∪ granted })
  | work (t : Txn) {op : Op} {own' : Own} {store' : Store} :
      sys.Within (s.part t).holds (s.part t).owns op (s.part t).own →
      sys.effect op (s.part t).own s.store own' store' → sys.Valid store' →
      Step s ({ s with store := store' }.put t
        { s.part t with own := own', script := (s.part t).script ++ [op] })
  | close (t : Txn) :
      Step s ({ s with closed := s.closed ++ [((s.part t).script, (s.part t).own)] }.put t
        (.idle sys.fresh))

/-- **Transactions one after the other**, each from the fresh state, with what it ran and ended
with. -/
inductive Serial (start : Store) : List (List Op × Own) → Store → Prop
  | nil : Serial start [] start
  | concat {closed : List (List Op × Own)} {reads writes : Set Res} {script : List Op} {own : Own}
      {store store' : Store} :
      Serial start closed store → Runs sys reads writes sys.fresh store script own store' →
      Serial start (closed ++ [(script, own)]) store'

variable {sys} {start store : Store}

theorem serial_nil (serial : Serial sys start [] store) : store = start := by
  generalize isNil : ([] : List (List Op × Own)) = closed at serial
  cases serial with
  | nil => rfl
  | concat _ _ => exact absurd isNil.symm (List.append_ne_nil_of_right_ne_nil _ (by simp))

/-- The last transaction of a serial run. -/
theorem serial_concat {closed : List (List Op × Own)} {script : List Op} {own : Own}
    (serial : Serial sys start (closed ++ [(script, own)]) store) :
    ∃ reads writes store', Serial sys start closed store' ∧
      Runs sys reads writes sys.fresh store' script own store := by
  generalize split : closed ++ [(script, own)] = all at serial
  cases serial with
  | nil => exact absurd split (List.append_ne_nil_of_right_ne_nil _ (by simp))
  | concat serial run =>
    obtain ⟨rfl, last⟩ := List.append_inj' split rfl
    cases last
    exact ⟨_, _, _, serial, run⟩

end Steps

/-! ### Serializability -/

section Consistency

variable {sys : System Res Val Own Store Op} {s s' : State Txn Res Own Store Op}

/-- **Locks keep apart**: a lock owned is held, and what one transaction owns no other holds. -/
structure Apart (part : Txn → Part Res Own Op) : Prop where
  owned : ∀ t, (part t).owns ⊆ (part t).holds
  unshared : ∀ t u, t ≠ u → ∀ r ∈ (part t).owns, r ∉ (part u).holds

/-- What the transaction ran it could have run on the second store, with the same in the resources
it holds. -/
def Replays (sys : System Res Val Own Store Op) (store serial : Store) (part : Part Res Own Op) :
    Prop :=
  ∃ store', Runs sys part.holds part.owns sys.fresh serial part.script part.own store' ∧
    sys.AgreeOn part.holds store' store

/-- **The run so far against the store the closed transactions leave**: what nobody owns is the
same, and each open transaction could have run there. -/
structure Settled (sys : System Res Val Own Store Op) (s : State Txn Res Own Store Op)
    (serial : Store) :
    Prop where
  free : ∀ r, (∀ t, r ∉ (s.part t).owns) → sys.look s.store r = sys.look serial r
  replays : ∀ t, Replays sys s.store serial (s.part t)

/-- **The run so far is serializable.** -/
structure Consistent (sys : System Res Val Own Store Op) (start : Store)
    (s : State Txn Res Own Store Op) : Prop where
  apart : Apart s.part
  valid : sys.Valid s.store
  serial : ∃ store, sys.Valid store ∧ Serial sys start s.closed store ∧ Settled sys s store

theorem consistent_idle {start : Store} (valid : sys.Valid start) :
    Consistent sys start (⟨start, fun _ => .idle sys.fresh, []⟩ : State Txn Res Own Store Op) where
  apart := ⟨fun _ => subset_rfl, fun _ _ _ r _ => Set.notMem_empty r⟩
  valid := valid
  serial := ⟨start, valid, .nil, fun _ _ => rfl, fun _ => ⟨start, .nil, fun _ _ => rfl⟩⟩

variable [DecidableEq Txn]

/-- Locks keep apart when the changed ones are apart from the others'. -/
theorem Apart.update {part : Txn → Part Res Own Op} (apart : Apart part) {t : Txn}
    {changed : Part Res Own Op} (owned : changed.owns ⊆ changed.holds)
    (clear : ∀ u ≠ t, (∀ r ∈ changed.owns, r ∉ (part u).holds) ∧
      ∀ r ∈ (part u).owns, r ∉ changed.holds) :
    Apart (Function.update part t changed) := by
  constructor
  · intro u
    by_cases same : u = t
    · rw [same, Function.update_self]
      exact owned
    · rw [Function.update_of_ne same]
      exact apart.owned u
  · intro u v different
    by_cases same : u = t
    · have other : v ≠ t := fun same' => different (same.trans same'.symm)
      rw [same, Function.update_self, Function.update_of_ne other]
      exact (clear v other).1
    · rw [Function.update_of_ne same]
      by_cases same' : v = t
      · rw [same', Function.update_self]
        exact (clear u same).2
      · rw [Function.update_of_ne same']
        exact apart.unshared u v different

theorem Step.apart (step : Step sys s s') (apart : Apart s.part) : Apart s'.part := by
  cases step with
  | share t granted clear =>
    refine apart.update ((apart.owned t).trans Set.subset_union_left) fun u other => ⟨?_, ?_⟩
    · exact apart.unshared t u other.symm
    · intro r owned held
      rcases held with held | new
      · exact apart.unshared u t other r owned held
      · exact clear u other r new owned
  | acquire t granted clear =>
    refine apart.update (Set.union_subset_union_left _ (apart.owned t)) fun u other => ⟨?_, ?_⟩
    · intro r owned
      rcases owned with owned | new
      · exact apart.unshared t u other.symm r owned
      · exact clear u other r new
    · intro r owned held
      rcases held with held | new
      · exact apart.unshared u t other r owned held
      · exact clear u other r new (apart.owned u owned)
  | work t _ _ _ =>
    exact apart.update (apart.owned t) fun u other =>
      ⟨apart.unshared t u other.symm, apart.unshared u t other⟩
  | close t =>
    exact apart.update subset_rfl fun u _ =>
      ⟨fun r owned => absurd owned (Set.notMem_empty r), fun r _ => Set.notMem_empty r⟩

/-- One transaction has changed. -/
theorem Settled.put {serial : Store} {t : Txn} {part : Part Res Own Op}
    (free : ∀ r, r ∉ part.owns → (∀ u ≠ t, r ∉ (s.part u).owns) →
      sys.look s.store r = sys.look serial r)
    (own : Replays sys s.store serial part)
    (others : ∀ u ≠ t, Replays sys s.store serial (s.part u)) :
    Settled sys (s.put t part) serial := by
  constructor
  · intro r unowned
    refine free r ?_ fun u other => ?_
    · have atT := unowned t
      dsimp only [State.put] at atT
      rwa [Function.update_self] at atT
    · have atU := unowned u
      dsimp only [State.put] at atU
      rwa [Function.update_of_ne other] at atU
  · intro u
    dsimp only [State.put]
    by_cases same : u = t
    · rw [same, Function.update_self]
      exact own
    · rw [Function.update_of_ne same]
      exact others u same

omit [DecidableEq Txn] in
theorem unowned_of_others {r : Res} {t : Txn} (own : r ∉ (s.part t).owns)
    (others : ∀ u ≠ t, r ∉ (s.part u).owns) (u : Txn) : r ∉ (s.part u).owns := by
  by_cases same : u = t
  · rw [same]
    exact own
  · exact others u same

omit [DecidableEq Txn] in
/-- What a transaction finds in a resource it has just locked is what the closed ones leave. -/
theorem Settled.replays_locked {serial : Store} (settled : Settled sys s serial)
    (apart : Apart s.part) {t : Txn} {granted owns : Set Res}
    (clear : ∀ u ≠ t, ∀ r ∈ granted, r ∉ (s.part u).owns) (more : (s.part t).owns ⊆ owns) :
    Replays sys s.store serial { s.part t with holds := (s.part t).holds ∪ granted, owns } := by
  obtain ⟨store', run, agree⟩ := settled.replays t
  refine ⟨store', run.mono Set.subset_union_left more (apart.owned t), fun r member => ?_⟩
  by_cases held : r ∈ (s.part t).holds
  · exact agree r held
  · have own : r ∉ (s.part t).owns := fun owned => held (apart.owned t owned)
    have others : ∀ u ≠ t, r ∉ (s.part u).owns := fun u other owned =>
      clear u other r (member.resolve_left held) owned
    rw [run.frame r own, settled.free r (unowned_of_others own others)]

omit [DecidableEq Txn] in
/-- Where a transaction's run on the serial store ends, every resource holds what it may. -/
theorem Apart.valid_reached (apart : Apart s.part) {t : Txn} {store serial reached : Store}
    (valid : sys.Valid store) (validSerial : sys.Valid serial)
    {own : Own} (run : Runs sys (s.part t).holds (s.part t).owns own serial (s.part t).script
      (s.part t).own reached)
    (agree : sys.AgreeOn (s.part t).holds reached store) : sys.Valid reached :=
  valid.of_agree validSerial agree.symm fun r outside =>
    run.frame r fun owned => outside (apart.owned t owned)

/-- **A step keeps the run serializable.** -/
theorem Step.consistent {start : Store} (step : Step sys s s')
    (consistent : Consistent sys start s) :
    Consistent sys start s' := by
  obtain ⟨apart, valid, store, validStore, serial, settled⟩ := consistent
  have apart' := step.apart apart
  cases step with
  | share t granted clear =>
    refine ⟨apart', valid, store, validStore, serial,
      .put (fun r own others => settled.free r (unowned_of_others own others)) ?_
        fun u _ => settled.replays u⟩
    exact settled.replays_locked apart clear subset_rfl
  | acquire t granted clear =>
    refine ⟨apart', valid, store, validStore, serial, .put (fun r own others => settled.free r
      (unowned_of_others (fun owned => own (Set.mem_union_left _ owned)) others)) ?_
        fun u _ => settled.replays u⟩
    exact settled.replays_locked apart (fun u other r new owned =>
      clear u other r new (apart.owned u owned)) Set.subset_union_left
  | @work t op own' store' within done valid' =>
    refine ⟨apart', valid', store, validStore, serial, .put (fun r own others => ?_) ?_
      fun u other => ?_⟩
    · exact (within.frame done r own).trans (settled.free r (unowned_of_others own others))
    · obtain ⟨reached, run, agree⟩ := settled.replays t
      obtain ⟨reached', done', agree'⟩ := within.agrees done agree.symm
      have validReached : sys.Valid reached' := valid'.of_agree validStore agree' fun r outside =>
        have unowned : r ∉ (s.part t).owns := fun owned => outside (apart.owned t owned)
        (within.frame done' r unowned).trans (run.frame r unowned)
      exact ⟨reached', run.concat within done' validReached, agree'.symm⟩
    · -- what `u` holds, `t` does not own
      obtain ⟨reached, run, agree⟩ := settled.replays u
      refine ⟨reached, run, agree.trans fun r held => (within.frame done r fun owned => ?_).symm⟩
      exact apart.unshared t u other.symm r owned held
  | close t =>
    obtain ⟨reached, run, agree⟩ := settled.replays t
    have validReached := apart.valid_reached valid validStore run agree
    refine ⟨apart', valid, reached, validReached, serial.concat run,
      .put (fun r _ others => ?_) ?_ fun u other => ?_⟩
    · by_cases owned : r ∈ (s.part t).owns
      · exact (agree r (apart.owned t owned)).symm
      · rw [run.frame r owned]
        exact settled.free r (unowned_of_others owned others)
    · exact ⟨reached, .nil, fun r held => absurd held (Set.notMem_empty r)⟩
    · -- the transaction that closes changed nothing `u` holds
      obtain ⟨reached', run', agree'⟩ := settled.replays u
      have untouched : sys.AgreeOn (s.part u).holds store reached := fun r held =>
        (run.frame r fun owned => apart.unshared t u other.symm r owned held).symm
      obtain ⟨reached'', run'', agree''⟩ := run'.agrees (apart.owned u) untouched validReached
      exact ⟨reached'', run'', agree''.symm.trans agree'⟩

end Consistency

end StrictLocking
