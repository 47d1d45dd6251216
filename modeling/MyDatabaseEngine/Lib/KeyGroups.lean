/-
**Entries that share a key.**

Where keys may repeat, a list of entries is, up to order, the groups of entries with each key
(`perm_iff_group`). The operations of `KeyedList` change one group: erasing empties it, overwriting
changes its first entry, appending adds one at its end. On a group a history of changes is replayed
and reverted as on a single record, with the further entries carried along: replaying does one of
two things (`Effect`), and replaying and then reverting a second time changes nothing more
(`undoGroup_redoGroup_twice`).
-/

import MyDatabaseEngine.Lib.KeyedList
import MyDatabaseEngine.Lib.VersionHistory
import Mathlib.Data.List.Induction

namespace KeyedList

variable {ρ κ : Type*} [DecidableEq κ] {key : ρ → Option κ}

/-- The entries with a key, in order. -/
def group (key : ρ → Option κ) (l : List ρ) (k : κ) : List ρ := l.filter fun r => key r = some k

section Groups

variable {l l' : List ρ} {k k' : κ} {new : ρ}

theorem group_append (l l' : List ρ) (k : κ) :
    group key (l ++ l') k = group key l k ++ group key l' k :=
  List.filter_append ..

theorem group_cons (r : ρ) (l : List ρ) (k : κ) :
    group key (r :: l) k = if key r = some k then r :: group key l k else group key l k := by
  unfold group
  by_cases same : key r = some k
  · rw [List.filter_cons_of_pos (by simpa using same), if_pos same]
  · rw [List.filter_cons_of_neg (by simp [same]), if_neg same]

theorem lookup_eq_head? (l : List ρ) (k : κ) : lookup key l k = (group key l k).head? := by
  induction l with
  | nil => rfl
  | cons r rest ih =>
    rw [lookup_cons, group_cons, ih]
    split <;> rfl

/-- **Lists whose entries all have keys hold the same entries when every group does.** -/
theorem perm_iff_group (keyed : ∀ r ∈ l, (key r).isSome) (keyed' : ∀ r ∈ l', (key r).isSome) :
    l.Perm l' ↔ ∀ k, (group key l k).Perm (group key l' k) := by
  classical
  constructor
  · exact fun same k => same.filter _
  · intro same
    refine List.perm_iff_count.mpr fun r => ?_
    cases own : key r with
    | none =>
      have absent : ∀ {l : List ρ}, (∀ s ∈ l, (key s).isSome) → l.count r = 0 := fun all =>
        List.count_eq_zero.mpr fun member => by simpa [own] using all r member
      rw [absent keyed, absent keyed']
    | some k =>
      have counted := (same k).count_eq r
      unfold group at counted
      rwa [List.count_filter (by simpa using own),
        List.count_filter (by simpa using own)] at counted

theorem group_erase (l : List ρ) (k k' : κ) :
    group key (erase key l k) k' = if k' = k then [] else group key l k' := by
  unfold group erase
  rw [List.filter_filter]
  by_cases same : k' = k
  · rw [if_pos same, List.filter_eq_nil_iff]
    intro r _ both
    simp [same] at both
  · rw [if_neg same]
    refine List.filter_congr fun r _ => ?_
    by_cases own : key r = some k'
    · simp [own, same]
    · simp [own]

/-- Overwrite the first entry, if there is one. -/
def setFirst (new : ρ) : List ρ → List ρ
  | [] => []
  | _ :: rest => new :: rest

theorem group_replace (hasKey : key new = some k) (l : List ρ) (k' : κ) :
    group key (replace key k new l) k' =
      if k' = k then setFirst new (group key l k) else group key l k' := by
  induction l with
  | nil => simp [replace, group, setFirst]
  | cons r rest ih =>
    rw [replace]
    by_cases own : key r = some k
    · rw [if_pos own, group_cons, group_cons, group_cons, hasKey, own]
      by_cases same : k' = k
      · simp [same, setFirst]
      · simp [same, Ne.symm same]
    · rw [if_neg own, group_cons, group_cons, group_cons, ih, if_neg own]
      by_cases same : k' = k
      · simp [same, own]
      · simp [same]

theorem group_concat (hasKey : key new = some k) (l : List ρ) (k' : κ) :
    group key (l ++ [new]) k' = if k' = k then group key l k ++ [new] else group key l k' := by
  rw [group_append, group_cons, hasKey]
  by_cases same : k' = k
  · simp [same, group]
  · simp [Ne.symm same, same, group]

end Groups

end KeyedList

namespace VersionHistory

open KeyedList (setFirst)

variable {ρ : Type*}

/-- Replaying a write on the entries with its key: an insert only where there is none, an update of
the first. -/
def Change.redoGroup : Change ρ → List ρ → List ρ
  | insert new, [] => [new]
  | insert _, entries => entries
  | update _ new, [] => [new]
  | update _ new, _ :: rest => new :: rest
  | delete _, _ => []

/-- Reverting a write on the entries with its key. -/
def Change.undoGroup : Change ρ → List ρ → List ρ
  | insert _, _ => []
  | update old _, entries => setFirst old entries
  | delete old, entries => setFirst old entries

def redoGroup (changes : List (Change ρ)) (entries : List ρ) : List ρ :=
  changes.foldl (fun entries change => change.redoGroup entries) entries

def undoGroup (changes : List (Change ρ)) (entries : List ρ) : List ρ :=
  changes.foldr Change.undoGroup entries

section Replay

/-- **What replaying a history does to a group**: after a delete, always the same entry or none;
before one, the first entry is overwritten with `first?`, or `absent?` put where there is none. -/
inductive Effect (ρ : Type*)
  | const (held? : Option ρ)
  | keep (absent? first? : Option ρ)

namespace Effect

def run : Effect ρ → List ρ → List ρ
  | const held?, _ => held?.toList
  | keep absent? _, [] => absent?.toList
  | keep _ first?, first :: rest => first?.getD first :: rest

/-- What overwrites the first entry is also what is put where there is none. -/
def Coherent : Effect ρ → Prop
  | const _ => True
  | keep absent? first? => first? = none ∨ absent? = first?

end Effect

theorem exists_effect (changes : List (Change ρ)) :
    ∃ effect : Effect ρ, effect.Coherent ∧ ∀ entries, redoGroup changes entries =
      effect.run entries := by
  induction changes using List.reverseRecOn with
  | nil =>
    refine ⟨.keep none none, Or.inl rfl, fun entries => ?_⟩
    cases entries <;> rfl
  | append_singleton changes change ih =>
    obtain ⟨effect, coherent, runs⟩ := ih
    have next : ∀ entries, redoGroup (changes ++ [change]) entries =
        change.redoGroup (effect.run entries) := by
      intro entries
      rw [← runs, redoGroup, List.foldl_append]
      rfl
    cases change with
    | insert new =>
      cases effect with
      | const held? =>
        refine ⟨.const (held?.or (some new)), trivial, fun entries => ?_⟩
        rw [next]
        cases held? <;> rfl
      | keep absent? first? =>
        refine ⟨.keep (absent?.or (some new)) first?, ?_, fun entries => ?_⟩
        · rcases coherent with none | same
          · exact Or.inl none
          · cases first? with
            | none => exact Or.inl rfl
            | some first => exact Or.inr (by rw [same, Option.some_or])
        · rw [next]
          cases entries with
          | nil => cases absent? <;> rfl
          | cons first rest => rfl
    | update old new =>
      cases effect with
      | const held? =>
        refine ⟨.const (some new), trivial, fun entries => ?_⟩
        rw [next]
        cases held? <;> rfl
      | keep absent? first? =>
        refine ⟨.keep (some new) (some new), Or.inr rfl, fun entries => ?_⟩
        rw [next]
        cases entries with
        | nil => cases absent? <;> rfl
        | cons first rest => rfl
    | delete old => exact ⟨.const none, trivial, fun entries => by rw [next]; rfl⟩

/-- Reverting a history empties the group, or overwrites its first entry if it reverts anything. -/
theorem undoGroup_cases (changes : List (Change ρ)) :
    (∀ entries, undoGroup changes entries = []) ∨
      ∃ first? : Option ρ, ∀ entries, undoGroup changes entries =
        match entries with
        | [] => []
        | first :: rest => first?.getD first :: rest := by
  induction changes with
  | nil =>
    refine Or.inr ⟨none, fun entries => ?_⟩
    cases entries <;> rfl
  | cons change changes ih =>
    have restored : ∀ old, change.undoGroup = setFirst old →
        (∀ entries, undoGroup (change :: changes) entries = []) ∨
          ∃ first? : Option ρ, ∀ entries, undoGroup (change :: changes) entries =
            match entries with
            | [] => []
            | first :: rest => first?.getD first :: rest := by
      intro old reverts
      have next : ∀ entries, undoGroup (change :: changes) entries =
          setFirst old (undoGroup changes entries) := fun entries => by
        rw [undoGroup, List.foldr_cons, reverts]
        rfl
      rcases ih with gone | ⟨first?, overwrites⟩
      · exact Or.inl fun entries => by rw [next, gone]; rfl
      · refine Or.inr ⟨some old, fun entries => ?_⟩
        rw [next, overwrites]
        cases entries <;> rfl
    cases change with
    | insert new => exact Or.inl fun entries => rfl
    | update old new => exact restored old rfl
    | delete old => exact restored old rfl

/-- **Replaying and reverting once more changes nothing.** -/
theorem undoGroup_redoGroup_twice (done undone : List (Change ρ)) (entries : List ρ) :
    undoGroup undone (redoGroup done (undoGroup undone (redoGroup done entries))) =
      undoGroup undone (redoGroup done entries) := by
  obtain ⟨effect, coherent, runs⟩ := exists_effect done
  rcases undoGroup_cases undone with gone | ⟨restored?, reverts⟩
  · rw [gone, gone]
  · simp only [runs, reverts]
    cases effect with
    | const held? => rfl
    | keep absent? first? =>
      have settled : ∀ first : ρ,
        restored?.getD (first?.getD (restored?.getD (first?.getD first))) =
          restored?.getD (first?.getD first) := by
        intro first
        cases restored? <;> cases first? <;> rfl
      cases entries with
      | cons first rest => simp only [Effect.run, settled]
      | nil =>
        cases absent? with
        | none => rfl
        | some entry =>
          have same : first?.getD entry = entry := by
            rcases coherent with none | same
            · rw [none, Option.getD_none]
            · rw [← same, Option.getD_some]
          have settled := settled entry
          rw [same] at settled
          simp only [Effect.run, Option.toList_some, settled]

end Replay

end VersionHistory
