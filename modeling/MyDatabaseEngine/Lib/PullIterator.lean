/-
**Pull iterators.**

An iterator with a state: `reset` prepares it, `next` hands out one value or says that there is none
left. Every iterator carries a bound on the values it can still hand out (`bound`), which each value
lowers; so the loops that pull until something happens end. `drain` pulls everything, and `rest` is
the list it gets: the one function of the state that agrees with `next` (`rest_unique`).

To show what an iterator yields it is enough to give such a function. `pullUntil` is the loop of an
operator that skips values; what it skips and finds are the next values of `rest`. `Pulls` counts
the calls of `next`, and an invariant of the calls is one of a pipeline's run.
-/

import Mathlib.Data.List.Basic

/-- **An iterator that runs dry.** -/
structure PullIterator (ρ : Type) where
  State : Type
  /-- The state after construction. -/
  start : State
  reset : State → State
  next : State → Option ρ × State
  bound : State → Nat
  decreases : ∀ s value s', next s = (some value, s') → bound s' < bound s

namespace PullIterator

variable {ρ : Type} (it : PullIterator ρ)

/-- The state from which values are pulled. -/
def opened : it.State := it.reset it.start

/-- Pull until there is no value left: the values, and the state after the last call. -/
def drain (s : it.State) : List ρ × it.State :=
  match _found : it.next s with
  | (none, s') => ([], s')
  | (some value, s') =>
    let (values, last) := drain s'
    (value :: values, last)
termination_by it.bound s
decreasing_by exact it.decreases _ _ _ _found

/-- Pull until a value that `accept` takes. -/
def pullUntil (accept : ρ → Bool) (s : it.State) : Option ρ × it.State :=
  match _found : it.next s with
  | (none, s') => (none, s')
  | (some value, s') => if accept value then (some value, s') else pullUntil accept s'
termination_by it.bound s
decreasing_by exact it.decreases _ _ _ _found

/-- The values still to come. -/
def rest (s : it.State) : List ρ := (it.drain s).1

variable {it}

theorem rest_of_none {s s' : it.State} (done : it.next s = (none, s')) : it.rest s = [] := by
  unfold rest
  rw [drain]
  split
  · rfl
  · rename_i found
    rw [done] at found
    cases found

theorem rest_of_some {s s' : it.State} {value : ρ} (found : it.next s = (some value, s')) :
    it.rest s = value :: it.rest s' := by
  unfold rest
  rw [drain]
  split
  · rename_i done
    rw [done] at found
    cases found
  · rename_i found'
    rw [found'] at found
    cases found
    rfl

/-- **Induction on the values still to come.** -/
theorem rest_induction {P : it.State → Prop}
    (done : ∀ s s', it.next s = (none, s') → P s)
    (more : ∀ s value s', it.next s = (some value, s') → P s' → P s) (s : it.State) : P s := by
  induction bound : it.bound s using Nat.strongRecOn generalizing s with
  | ind n ih =>
    rcases found : it.next s with ⟨value?, s'⟩
    cases value? with
    | none => exact done s s' found
    | some value =>
      exact more s value s' found (ih _ (bound ▸ it.decreases s value s' found) s' rfl)

/-- **What an iterator yields is determined by `next`.** -/
theorem rest_unique (it : PullIterator ρ) (denotes : it.State → List ρ)
    (done : ∀ s s', it.next s = (none, s') → denotes s = [])
    (more : ∀ s value s', it.next s = (some value, s') → denotes s = value :: denotes s')
    (s : it.State) : it.rest s = denotes s := by
  induction s using rest_induction with
  | done s s' none => rw [rest_of_none none, done s s' none]
  | more s value s' found ih => rw [rest_of_some found, more s value s' found, ih]

theorem pullUntil_of_none {accept : ρ → Bool} {s s' : it.State} (done : it.next s = (none, s')) :
    it.pullUntil accept s = (none, s') := by
  rw [pullUntil]
  split
  · rename_i done'
    rw [done'] at done
    cases done
    rfl
  · rename_i found
    rw [done] at found
    cases found

theorem pullUntil_of_some {accept : ρ → Bool} {s s' : it.State} {value : ρ}
    (found : it.next s = (some value, s')) :
    it.pullUntil accept s = if accept value then (some value, s') else it.pullUntil accept s' := by
  rw [pullUntil]
  split
  · rename_i done
    rw [done] at found
    cases found
  · rename_i found'
    rw [found'] at found
    cases found
    rfl

/-- A value taken off by `pullUntil` is the first of the accepted values still to come. -/
theorem filter_rest_pullUntil (accept : ρ → Bool) (s : it.State) :
    (it.rest s).filter accept =
      match it.pullUntil accept s with
      | (none, _) => []
      | (some value, s') => value :: (it.rest s').filter accept := by
  induction s using rest_induction with
  | done s s' done => rw [rest_of_none done, pullUntil_of_none done, List.filter_nil]
  | more s value s' found ih =>
    rw [rest_of_some found, pullUntil_of_some found]
    by_cases accepted : accept value = true
    · rw [List.filter_cons_of_pos accepted, if_pos accepted]
    · rw [List.filter_cons_of_neg accepted, if_neg accepted]
      exact ih

/-- `pullUntil` lowers the bound when it finds something. -/
theorem bound_pullUntil {accept : ρ → Bool} {s s' : it.State} {value : ρ}
    (found : it.pullUntil accept s = (some value, s')) : it.bound s' < it.bound s := by
  induction s using rest_induction with
  | done s s₁ done =>
    rw [pullUntil_of_none done] at found
    cases found
  | more s value₁ s₁ next ih =>
    have lower := it.decreases s value₁ s₁ next
    rw [pullUntil_of_some next] at found
    split at found
    · cases found
      exact lower
    · exact Nat.lt_trans (ih found) lower

/-! ### Calls of `next` -/

section Calls

/-- **Calls of `next`, one behind the other**, and the values they hand out. -/
inductive Pulls (it : PullIterator ρ) : it.State → List ρ → it.State → Prop
  | refl (s : it.State) : Pulls it s [] s
  | done {s s' s'' : it.State} {values : List ρ} : it.next s = (none, s') → Pulls it s' values s'' →
      Pulls it s values s''
  | more {s s' s'' : it.State} {value : ρ} {values : List ρ} : it.next s = (some value, s') →
      Pulls it s' values s'' → Pulls it s (value :: values) s''

theorem Pulls.trans {s s' s'' : it.State} {values values' : List ρ} (first : it.Pulls s values s')
    (then' : it.Pulls s' values' s'') : it.Pulls s (values ++ values') s'' := by
  induction first with
  | refl s => exact then'
  | done none _ hypothesis => exact .done none (hypothesis then')
  | more found _ hypothesis => exact .more found (hypothesis then')

/-- Draining is calls of `next`, up to the first that hands out nothing. -/
theorem drain_pulls (s : it.State) :
    ∃ s', it.Pulls s (it.rest s) s' ∧ it.next s' = (none, (it.drain s).2) := by
  induction s using rest_induction with
  | done s s' none =>
    refine ⟨s, ?_, ?_⟩
    · rw [rest_of_none none]
      exact .refl s
    · rw [drain]
      split
      · rename_i none'
        exact none'
      · rename_i found
        rw [none] at found
        cases found
  | more s value s' found hypothesis =>
    obtain ⟨s'', pulls, last⟩ := hypothesis
    refine ⟨s'', ?_, ?_⟩
    · rw [rest_of_some found]
      exact .more found pulls
    · rw [drain]
      split
      · rename_i none
        rw [found] at none
        cases none
      · rename_i found'
        rw [found] at found'
        cases found'
        exact last

/-- **What calls of `next` keep**, all of them keep. -/
theorem Pulls.invariant {P : it.State → Prop} (step : ∀ s, P s → P (it.next s).2) {s s' : it.State}
    {values : List ρ} (pulls : it.Pulls s values s') (start : P s) : P s' := by
  induction pulls with
  | refl s => exact start
  | @done s s' _ _ none _ hypothesis =>
    refine hypothesis ?_
    rw [show s' = (it.next s).2 from (congrArg Prod.snd none).symm]
    exact step s start
  | @more s s' _ _ _ found _ hypothesis =>
    refine hypothesis ?_
    rw [show s' = (it.next s).2 from (congrArg Prod.snd found).symm]
    exact step s start

/-- Pulling until every value is taken is one call. -/
theorem pullUntil_all (s : it.State) : it.pullUntil (fun _ => true) s = it.next s := by
  rcases found : it.next s with ⟨value?, s'⟩
  cases value? with
  | none => exact pullUntil_of_none found
  | some value =>
    rw [pullUntil_of_some found]
    rfl

end Calls

end PullIterator
