/-
**How a stateful call ends.**

A call of `EStateM ε σ` changes its state whether it returns or throws. `Ends call s returns throws`
says what holds of the value and state it returns, and of the exception and state it throws. The
rules below take a call apart at its sequencing; a call with a specification is used through
`Ends.bind`.

* `Ends.mono`, `Ends.and`: weaker conclusions, and two at once.
* `Ends.exists_ok`, `Ends.not_of_throws`: a call that cannot throw returns.
* `Keeps inv throws call`: the call keeps an invariant from every state that has it; the rules for
  sequences, loops and reads of the state are the same.
* `onPart` runs a call on a part of a larger state.
-/

import Mathlib.Logic.Basic

namespace Outcome

universe u

variable {ε σ τ α γ : Type u}

/-- **What holds when the call has ended.** -/
def Ends (call : EStateM ε σ α) (s : σ) (returns : α → σ → Prop) (throws : ε → σ → Prop) : Prop :=
  match call s with
  | .ok value s' => returns value s'
  | .error fault s' => throws fault s'

variable {call : EStateM ε σ α} {s : σ} {returns returns' : α → σ → Prop}
  {throws throws' : ε → σ → Prop}

theorem ends_of_eq_ok {value : α} {s' : σ} (ran : call s = .ok value s')
    (holds : returns value s') :
    Ends call s returns throws := by
  unfold Ends
  rw [ran]
  exact holds

theorem ends_of_eq_error {fault : ε} {s' : σ} (ran : call s = .error fault s')
    (holds : throws fault s') : Ends call s returns throws := by
  unfold Ends
  rw [ran]
  exact holds

theorem Ends.of_ok (ends : Ends call s returns throws) {value : α} {s' : σ}
    (ran : call s = .ok value s') : returns value s' := by
  unfold Ends at ends
  rw [ran] at ends
  exact ends

theorem Ends.of_error (ends : Ends call s returns throws) {fault : ε} {s' : σ}
    (ran : call s = .error fault s') : throws fault s' := by
  unfold Ends at ends
  rw [ran] at ends
  exact ends

/-- **Consequence.** -/
theorem Ends.mono (ends : Ends call s returns throws)
    (weaker : ∀ value s', returns value s' → returns' value s')
    (weaker' : ∀ fault s', throws fault s' → throws' fault s') : Ends call s returns' throws' := by
  unfold Ends at ends ⊢
  split at ends
  · exact weaker _ _ ends
  · exact weaker' _ _ ends

/-- **Sequencing.** -/
theorem Ends.bind {next : α → EStateM ε σ γ} {returns : α → σ → Prop} {returns' : γ → σ → Prop}
    (first : Ends call s returns throws)
    (then' : ∀ value s', returns value s' → Ends (next value) s' returns' throws) :
    Ends (call >>= next) s returns' throws := by
  unfold Ends at first
  split at first
  · rename_i value s' ran
    have after := then' value s' first
    unfold Ends at after ⊢
    show match EStateM.bind call next s with | .ok value s' => _ | .error fault s' => _
    simpa only [EStateM.bind, ran] using after
  · rename_i fault s' ran
    unfold Ends
    show match EStateM.bind call next s with | .ok value s' => _ | .error fault s' => _
    simpa only [EStateM.bind, ran] using first

theorem ends_bind_of_ok {next : α → EStateM ε σ γ} {returns : γ → σ → Prop} {value : α} {s' : σ}
    (ran : call s = .ok value s') :
    Ends (call >>= next) s returns throws ↔ Ends (next value) s' returns throws := by
  unfold Ends
  show (match EStateM.bind call next s with | .ok value s' => _ | .error fault s' => _) ↔ _
  simp only [EStateM.bind, ran]

/-- A sequence that returns has returned from its first call. -/
theorem exists_of_bind_eq_ok {next : α → EStateM ε σ γ} {value : γ} {s' : σ}
    (ran : (call >>= next) s = .ok value s') :
    ∃ first between, call s = .ok first between ∧ next first between = .ok value s' := by
  change EStateM.bind call next s = _ at ran
  unfold EStateM.bind at ran
  split at ran
  · exact ⟨_, _, ‹_›, ran⟩
  · cases ran

instance [∀ value s, Decidable (returns value s)] [∀ fault s, Decidable (throws fault s)] :
    Decidable (Ends call s returns throws) :=
  match ran : call s with
  | .ok value s' =>
    decidable_of_iff (returns value s') ⟨ends_of_eq_ok ran, fun ends => ends.of_ok ran⟩
  | .error fault s' =>
    decidable_of_iff (throws fault s') ⟨ends_of_eq_error ran, fun ends => ends.of_error ran⟩

/-- Two specifications of one call. -/
theorem Ends.and (ends : Ends call s returns throws) (ends' : Ends call s returns' throws') :
    Ends call s (fun value s' => returns value s' ∧ returns' value s')
      (fun fault s' => throws fault s' ∧ throws' fault s') := by
  cases ran : call s with
  | ok value s' => exact ends_of_eq_ok ran ⟨ends.of_ok ran, ends'.of_ok ran⟩
  | error fault s' => exact ends_of_eq_error ran ⟨ends.of_error ran, ends'.of_error ran⟩

/-- What cannot happen when the call returns, cannot be proved of one that throws. -/
theorem Ends.not_of_throws (ends : Ends call s (fun _ _ => False) throws) :
    ¬ Ends call s returns (fun _ _ => False) := by
  intro returned
  cases ran : call s with
  | ok value s' => exact ends.of_ok ran
  | error fault s' => exact returned.of_error ran

/-- A call that cannot throw needs no word on what it throws. -/
theorem Ends.exists_ok (ends : Ends call s returns fun _ _ => False) :
    ∃ value s', call s = .ok value s' ∧ returns value s' := by
  unfold Ends at ends
  split at ends
  · rename_i value s' ran
    exact ⟨value, s', ran, ends⟩
  · exact ends.elim

@[simp]
theorem ends_pure {value : α} :
    Ends (pure value : EStateM ε σ α) s returns throws ↔ returns value s := Iff.rfl

@[simp]
theorem ends_modify {change : σ → σ} {returns : PUnit → σ → Prop} :
    Ends (modify change : EStateM ε σ PUnit) s returns throws ↔ returns ⟨⟩ (change s) := Iff.rfl

@[simp]
theorem ends_get_bind {next : σ → EStateM ε σ γ} {returns : γ → σ → Prop} :
    Ends (get >>= next : EStateM ε σ γ) s returns throws ↔ Ends (next s) s returns throws := Iff.rfl

@[simp]
theorem ends_pure_bind {value : α} {next : α → EStateM ε σ γ} {returns : γ → σ → Prop} :
    Ends (pure value >>= next : EStateM ε σ γ) s returns throws ↔
      Ends (next value) s returns throws := Iff.rfl

@[simp]
theorem ends_modify_bind {change : σ → σ} {next : PUnit → EStateM ε σ γ} {returns : γ → σ → Prop} :
    Ends (modify change >>= next : EStateM ε σ γ) s returns throws ↔
      Ends (next ⟨⟩) (change s) returns throws := Iff.rfl

/-- What a call returns. -/
def returned : EStateM.Result ε σ α → Option α
  | .ok value _ => some value
  | .error _ _ => none

section Keeps

/-- **The call keeps `inv`**: from a state with `inv` it returns in one, or it throws as it may. -/
def Keeps (inv : σ → Prop) (throws : ε → σ → Prop) (call : EStateM ε σ α) : Prop :=
  ∀ s, inv s → Ends call s (fun _ => inv) throws

variable {inv : σ → Prop}

theorem keeps_pure (value : α) : Keeps inv throws (pure value : EStateM ε σ α) :=
  fun _ holds => holds

theorem keeps_throw {fault : ε} (may : ∀ s, inv s → throws fault s) :
    Keeps inv throws (throw fault : EStateM ε σ α) := may

/-- **One call after the other.** -/
theorem Keeps.bind {next : α → EStateM ε σ γ} (first : Keeps inv throws call)
    (then' : ∀ value, Keeps inv throws (next value)) : Keeps inv throws (call >>= next) :=
  fun s holds => (first s holds).bind fun value s' holds' => then' value s' holds'

theorem keeps_get_bind {next : σ → EStateM ε σ γ} (then' : ∀ s, Keeps inv throws (next s)) :
    Keeps inv throws (get >>= next) := fun s holds => ends_get_bind.mpr (then' s s holds)

end Keeps

section Loop

/-- The state a call leaves, whether it returned or threw. -/
def after : EStateM.Result ε σ α → σ
  | .ok _ s => s
  | .error _ s => s

/-- A loop of state changes. -/
theorem forM_modify (change : τ → σ → σ) (l : List τ) (s : σ) :
    (l.forM fun t => (modify (change t) : EStateM ε σ PUnit)) s =
      .ok ⟨⟩ (l.foldl (fun s t => change t s) s) := by
  induction l generalizing s with
  | nil => rfl
  | cons t rest ih => exact ih (change t s)

end Loop

section Part

variable (part : σ → τ) (put : σ → τ → σ)

/-- A call on a part of the state. -/
def onPart (call : EStateM ε τ α) : EStateM ε σ α := fun s =>
  match call (part s) with
  | .ok value rest => .ok value (put s rest)
  | .error fault rest => .error fault (put s rest)

/-- **A call on a part ends as it does alone.** -/
theorem Ends.onPart {call : EStateM ε τ α} {returns : α → τ → Prop} {throws : ε → τ → Prop}
    {returns' : α → σ → Prop} {throws' : ε → σ → Prop} (ends : Ends call (part s) returns throws)
    (whole : ∀ value rest, returns value rest → returns' value (put s rest))
    (whole' : ∀ fault rest, throws fault rest → throws' fault (put s rest)) :
    Ends (Outcome.onPart part put call) s returns' throws' := by
  unfold Ends at ends
  unfold Ends Outcome.onPart
  split at ends
  · exact whole _ _ ends
  · exact whole' _ _ ends

end Part

end Outcome
