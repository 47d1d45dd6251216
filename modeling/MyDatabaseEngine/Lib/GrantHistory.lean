/-
**Grants and releases.**

Locks are granted one at a time and released by holder, all of a holder's at once. A lock is
`Outstanding` in a history when it was granted there and its holder released nothing since. A
history is `Disciplined` when no lock was granted while one in conflict with it, of another holder,
was outstanding; `Disciplined.safe`: then outstanding locks of different holders never conflict.

Locks, holders and the conflict relation are parameters; the relation has to be symmetric. The
induction is on the history, grown at its end: a grant adds one outstanding lock, which is free of
conflicts when it is granted, and a release takes a holder's away.
-/

import Mathlib.Data.List.Basic

namespace GrantHistory

variable {Lock Holder : Type*}

inductive Event (Lock Holder : Type*)
  | grant (lock : Lock)
  | release (holder : Holder)

section Outstanding

variable (holder : Lock → Holder)

/-- **Granted, and not released since.** -/
def Outstanding (history : List (Event Lock Holder)) (lock : Lock) : Prop :=
  ∃ before after, history = before ++ .grant lock :: after ∧ .release (holder lock) ∉ after

variable {holder} {history : List (Event Lock Holder)} {lock : Lock}

theorem not_outstanding_nil : ¬ Outstanding holder [] lock := by
  rintro ⟨before, after, split, -⟩
  exact absurd split.symm (by simp)

/-- What one more event makes of the outstanding locks. -/
theorem outstanding_concat (event : Event Lock Holder) :
    Outstanding holder (history ++ [event]) lock ↔
      event = .grant lock ∨ Outstanding holder history lock ∧ event ≠ .release (holder lock) := by
  constructor
  · rintro ⟨before, after, split, unreleased⟩
    rcases List.eq_nil_or_concat after with rfl | ⟨earlier, last, rfl⟩
    · exact Or.inl (List.head_eq_of_cons_eq (List.append_inj_right' split rfl))
    · rw [List.concat_eq_append] at split unreleased
      have ends : history ++ [event] = (before ++ .grant lock :: earlier) ++ [last] := by
        rw [split, List.append_assoc, List.cons_append]
      obtain ⟨rfl, same⟩ := List.append_inj' ends rfl
      cases same
      rw [List.mem_append, not_or, List.mem_singleton] at unreleased
      exact Or.inr ⟨⟨before, earlier, rfl, unreleased.1⟩, Ne.symm unreleased.2⟩
  · rintro (rfl | ⟨⟨before, after, rfl, unreleased⟩, other⟩)
    · exact ⟨history, [], rfl, List.not_mem_nil⟩
    · refine ⟨before, after ++ [event], by simp, ?_⟩
      rw [List.mem_append, not_or, List.mem_singleton]
      exact ⟨unreleased, Ne.symm other⟩

theorem outstanding_grant (granted : Lock) :
    Outstanding holder (history ++ [.grant granted]) lock ↔
      Outstanding holder history lock ∨ lock = granted := by
  rw [outstanding_concat, Event.grant.injEq, or_comm, eq_comm]
  simp

theorem outstanding_release (releaser : Holder) :
    Outstanding holder (history ++ [.release releaser]) lock ↔
      Outstanding holder history lock ∧ holder lock ≠ releaser := by
  rw [outstanding_concat]
  simp [eq_comm]

end Outstanding

section Discipline

variable (holder : Lock → Holder) (conflict : Lock → Lock → Prop)

/-- No outstanding lock of another holder conflicts with the lock. -/
def Free (history : List (Event Lock Holder)) (lock : Lock) : Prop :=
  ∀ other, Outstanding holder history other → holder other ≠ holder lock → ¬ conflict other lock

/-- **A lock is granted only when it is free.** -/
inductive Disciplined : List (Event Lock Holder) → Prop
  | nil : Disciplined []
  | grant {history : List (Event Lock Holder)} {lock : Lock} :
      Disciplined history → Free holder conflict history lock →
        Disciplined (history ++ [.grant lock])
  | release {history : List (Event Lock Holder)} (releaser : Holder) :
      Disciplined history → Disciplined (history ++ [.release releaser])

variable {holder conflict} {history : List (Event Lock Holder)}

/-- **Outstanding locks of different holders do not conflict.** -/
theorem Disciplined.safe (symmetric : ∀ {lock lock'}, conflict lock lock' → conflict lock' lock)
    (disciplined : Disciplined holder conflict history) {lock lock' : Lock}
    (held : Outstanding holder history lock) (held' : Outstanding holder history lock')
    (different : holder lock ≠ holder lock') : ¬ conflict lock lock' := by
  induction disciplined with
  | nil => exact absurd held not_outstanding_nil
  | grant _ free ih =>
    rw [outstanding_grant] at held held'
    rcases held with held | rfl <;> rcases held' with held' | rfl
    · exact ih held held'
    · exact free lock held different
    · exact fun clash => free lock' held' (Ne.symm different) (symmetric clash)
    · exact absurd rfl different
  | release releaser _ ih =>
    rw [outstanding_release] at held held'
    exact ih held.1 held'.1

end Discipline

end GrantHistory
