/-
**Lists whose entries are addressed by a key.**

A list of entries, each with an optional key (`key : ρ → Option κ`). `Keyed key l` says that every
entry has a key and that no two entries share one; then the list is, up to order, the partial
function `lookup key l` (`perm_iff_lookup`). The operations

* `erase` — drop every entry with the key,
* `replace` — overwrite the first entry with the key,
* appending one entry, also where the key is absent (`insertAbsent`) or else overwriting (`upsert`)

keep `Keyed` and act on `lookup` as the update of that function at one point. `upsertAll_perm_iff`
tells when upserting changed entries one by one amounts to changing the list.
-/

import Mathlib.Data.List.Nodup
import Mathlib.Data.List.Perm.Basic
import Mathlib.Tactic.Tauto

set_option linter.unusedSectionVars false

namespace KeyedList

variable {ρ κ : Type*} [DecidableEq κ] {key : ρ → Option κ}

/-- **Every entry has a key, and keys are not repeated.** -/
structure Keyed (key : ρ → Option κ) (l : List ρ) : Prop where
  isSome : ∀ r ∈ l, (key r).isSome
  nodup : (l.map key).Nodup

/-- The first entry with the key. -/
def lookup (key : ρ → Option κ) (l : List ρ) (k : κ) : Option ρ :=
  l.find? fun r => key r = some k

/-- Drop every entry with the key. -/
def erase (key : ρ → Option κ) (l : List ρ) (k : κ) : List ρ :=
  l.filter fun r => key r ≠ some k

/-- Overwrite the first entry with the key. -/
def replace (key : ρ → Option κ) (k : κ) (new : ρ) : List ρ → List ρ
  | [] => []
  | r :: rest => if key r = some k then new :: rest else r :: replace key k new rest

instance (key : ρ → Option κ) (l : List ρ) : Decidable (Keyed key l) :=
  decidable_of_iff ((∀ r ∈ l, (key r).isSome) ∧ (l.map key).Nodup)
    ⟨fun both => ⟨both.1, both.2⟩, fun keyed => ⟨keyed.isSome, keyed.nodup⟩⟩

section Lookup

@[simp]
theorem lookup_nil (k : κ) : lookup key ([] : List ρ) k = none := rfl

theorem lookup_cons (r : ρ) (l : List ρ) (k : κ) :
    lookup key (r :: l) k = if key r = some k then some r else lookup key l k := by
  unfold lookup
  by_cases same : key r = some k
  · simp [same]
  · simp [same]

theorem lookup_append (l l' : List ρ) (k : κ) :
    lookup key (l ++ l') k = (lookup key l k).or (lookup key l' k) := by
  unfold lookup
  exact List.find?_append

theorem lookup_eq_none_iff {l : List ρ} {k : κ} :
    lookup key l k = none ↔ ∀ r ∈ l, key r ≠ some k := by
  unfold lookup
  simp

theorem mem_of_lookup {l : List ρ} {k : κ} {r : ρ} (found : lookup key l k = some r) : r ∈ l :=
  List.mem_of_find?_eq_some found

theorem key_of_lookup {l : List ρ} {k : κ} {r : ρ} (found : lookup key l k = some r) :
    key r = some k := by
  simpa using List.find?_some found

end Lookup

namespace Keyed

theorem nil : Keyed key ([] : List ρ) := ⟨by simp, by simp⟩

theorem cons_iff {r : ρ} {l : List ρ} :
    Keyed key (r :: l) ↔ (∃ k, key r = some k ∧ lookup key l k = none) ∧ Keyed key l := by
  constructor
  · intro keyed
    obtain ⟨k, hasKey⟩ := Option.isSome_iff_exists.mp (keyed.isSome r List.mem_cons_self)
    have nodup := keyed.nodup
    rw [List.map_cons, List.nodup_cons] at nodup
    refine ⟨⟨k, hasKey, ?_⟩, fun s member => keyed.isSome s (List.mem_cons_of_mem _ member),
      nodup.2⟩
    rw [lookup_eq_none_iff]
    intro s member same
    exact nodup.1 (List.mem_map.mpr ⟨s, member, by rw [same, hasKey]⟩)
  · rintro ⟨⟨k, hasKey, fresh⟩, rest⟩
    rw [lookup_eq_none_iff] at fresh
    refine ⟨fun s member => ?_, ?_⟩
    · rcases List.mem_cons.mp member with rfl | member
      · rw [hasKey]
        rfl
      · exact rest.isSome s member
    · rw [List.map_cons, List.nodup_cons]
      refine ⟨fun member => ?_, rest.nodup⟩
      obtain ⟨s, inside, same⟩ := List.mem_map.mp member
      exact fresh s inside (by rw [same, hasKey])

theorem sublist {l l' : List ρ} (keyed : Keyed key l) (sub : l'.Sublist l) : Keyed key l' :=
  ⟨fun r member => keyed.isSome r (sub.subset member), keyed.nodup.sublist (sub.map key)⟩

theorem perm {l l' : List ρ} (keyed : Keyed key l) (same : l.Perm l') : Keyed key l' :=
  ⟨fun r member => keyed.isSome r (same.mem_iff.mpr member),
    (same.map key).nodup_iff.mp keyed.nodup⟩

/-- In a keyed list an entry is the one its key finds. -/
theorem lookup_eq_some_iff {l : List ρ} (keyed : Keyed key l) {k : κ} {r : ρ} :
    lookup key l k = some r ↔ r ∈ l ∧ key r = some k := by
  constructor
  · exact fun found => ⟨mem_of_lookup found, key_of_lookup found⟩
  · rintro ⟨member, hasKey⟩
    cases found : lookup key l k with
    | none => exact absurd hasKey (lookup_eq_none_iff.mp found r member)
    | some s =>
      have same : s = r := List.inj_on_of_nodup_map keyed.nodup (mem_of_lookup found) member
        (by rw [key_of_lookup found, hasKey])
      rw [same]

/-- **A keyed list is its lookup function**, up to order. -/
theorem perm_iff_lookup {l l' : List ρ} (keyed : Keyed key l) (keyed' : Keyed key l') :
    l.Perm l' ↔ ∀ k, lookup key l k = lookup key l' k := by
  constructor
  · intro same k
    ext r
    rw [keyed.lookup_eq_some_iff, keyed'.lookup_eq_some_iff, same.mem_iff]
  · intro same
    refine (List.perm_ext_iff_of_nodup keyed.nodup.of_map keyed'.nodup.of_map).mpr fun r => ?_
    have half : ∀ {a b : List ρ}, Keyed key a → Keyed key b →
        (∀ k, lookup key a k = lookup key b k) → r ∈ a → r ∈ b := by
      intro a b keyedA keyedB agree member
      obtain ⟨k, hasKey⟩ := Option.isSome_iff_exists.mp (keyedA.isSome r member)
      have found := keyedA.lookup_eq_some_iff.mpr ⟨member, hasKey⟩
      rw [agree] at found
      exact mem_of_lookup found
    exact ⟨half keyed keyed' same, half keyed' keyed fun k => (same k).symm⟩

end Keyed

section Operations

theorem keyed_erase {l : List ρ} (keyed : Keyed key l) (k : κ) : Keyed key (erase key l k) :=
  keyed.sublist List.filter_sublist

theorem lookup_erase (l : List ρ) (k k' : κ) :
    lookup key (erase key l k) k' = if k' = k then none else lookup key l k' := by
  induction l with
  | nil => simp [erase]
  | cons r rest ih =>
    unfold erase at ih ⊢
    by_cases same : key r = some k
    · rw [List.filter_cons_of_neg (by simp [same]), ih, lookup_cons, same]
      by_cases equal : k' = k
      · simp [equal]
      · simp [equal, Ne.symm equal]
    · rw [List.filter_cons_of_pos (by simp [same]), lookup_cons, lookup_cons, ih]
      by_cases equal : k' = k
      · subst equal
        simp [same]
      · simp [equal]

theorem keyed_concat {l : List ρ} {r : ρ} {k : κ} (keyed : Keyed key l) (hasKey : key r = some k)
    (fresh : lookup key l k = none) : Keyed key (l ++ [r]) :=
  (Keyed.cons_iff.mpr ⟨⟨k, hasKey, fresh⟩, keyed⟩).perm (List.perm_append_singleton r l).symm

theorem lookup_concat (l : List ρ) {r : ρ} {k : κ} (hasKey : key r = some k) (k' : κ) :
    lookup key (l ++ [r]) k' = (lookup key l k').or (if k' = k then some r else none) := by
  rw [lookup_append, lookup_cons, lookup_nil, hasKey]
  simp only [Option.some.injEq, eq_comm]

/-- The key of a keyed list's last entry is not the key of an earlier one. -/
theorem fresh_of_keyed_concat {l : List ρ} {r : ρ} {k : κ} (keyed : Keyed key (l ++ [r]))
    (hasKey : key r = some k) : lookup key l k = none := by
  obtain ⟨⟨k', hasKey', fresh⟩, _⟩ :=
    Keyed.cons_iff.mp (keyed.perm (List.perm_append_singleton r l))
  rw [hasKey] at hasKey'
  cases hasKey'
  exact fresh

theorem lookup_replace (l : List ρ) {new : ρ} {k : κ} (hasKey : key new = some k) (k' : κ) :
    lookup key (replace key k new l) k' =
      if k' = k then (lookup key l k).map fun _ => new else lookup key l k' := by
  induction l with
  | nil => simp [replace]
  | cons r rest ih =>
    unfold replace
    by_cases same : key r = some k
    · rw [if_pos same, lookup_cons, lookup_cons, lookup_cons, hasKey, same]
      by_cases equal : k' = k
      · simp [equal]
      · simp [equal, Ne.symm equal]
    · rw [if_neg same, lookup_cons, lookup_cons, lookup_cons, ih]
      by_cases equal : k' = k
      · subst equal
        simp [same]
      · simp [equal]

theorem replace_of_lookup_none {l : List ρ} {new : ρ} {k : κ} (absent : lookup key l k = none) :
    replace key k new l = l := by
  induction l with
  | nil => rfl
  | cons r rest ih =>
    rw [lookup_cons] at absent
    split at absent
    · cases absent
    · rename_i different
      rw [replace, if_neg different, ih absent]

theorem map_key_replace (l : List ρ) {new : ρ} {k : κ} (hasKey : key new = some k) :
    (replace key k new l).map key = l.map key := by
  induction l with
  | nil => rfl
  | cons r rest ih =>
    unfold replace
    by_cases same : key r = some k
    · rw [if_pos same, List.map_cons, List.map_cons, hasKey, same]
    · rw [if_neg same, List.map_cons, List.map_cons, ih]

theorem mem_replace {l : List ρ} {new r : ρ} {k : κ} (member : r ∈ replace key k new l) :
    r = new ∨ r ∈ l := by
  induction l with
  | nil => exact Or.inr member
  | cons s rest ih =>
    unfold replace at member
    split at member
    · rcases List.mem_cons.mp member with same | member
      · exact Or.inl same
      · exact Or.inr (List.mem_cons_of_mem _ member)
    · rcases List.mem_cons.mp member with same | member
      · exact Or.inr (same ▸ List.mem_cons_self)
      · exact (ih member).imp_right (List.mem_cons_of_mem _)

/-- **What is overwritten is gone**: any other entry left has another key. -/
theorem Keyed.mem_replace {l : List ρ} (keyed : Keyed key l) {new r : ρ} {k : κ}
    (member : r ∈ replace key k new l) : r = new ∨ r ∈ l ∧ key r ≠ some k := by
  induction l with
  | nil => exact absurd member List.not_mem_nil
  | cons s rest ih =>
    obtain ⟨⟨k', hasKey, fresh⟩, keyedRest⟩ := Keyed.cons_iff.mp keyed
    unfold replace at member
    split at member
    · rename_i same
      rcases List.mem_cons.mp member with isNew | later
      · exact .inl isNew
      · cases hasKey.symm.trans same
        exact .inr ⟨List.mem_cons_of_mem _ later, lookup_eq_none_iff.mp fresh r later⟩
    · rename_i other
      rcases List.mem_cons.mp member with rfl | later
      · exact .inr ⟨List.mem_cons_self, other⟩
      · exact (ih keyedRest later).imp_right fun both => ⟨List.mem_cons_of_mem _ both.1, both.2⟩

theorem keyed_replace {l : List ρ} {new : ρ} {k : κ} (keyed : Keyed key l)
    (hasKey : key new = some k) : Keyed key (replace key k new l) := by
  refine ⟨fun r member => ?_, ?_⟩
  · rcases mem_replace member with rfl | member
    · rw [hasKey]
      rfl
    · exact keyed.isSome r member
  · rw [map_key_replace l hasKey]
    exact keyed.nodup

/-- Append the entry unless one with the key is there. -/
def insertAbsent (key : ρ → Option κ) (k : κ) (new : ρ) (l : List ρ) : List ρ :=
  if (lookup key l k).isSome then l else l ++ [new]

/-- Overwrite the entry with the key, or append it. -/
def upsert (key : ρ → Option κ) (k : κ) (new : ρ) (l : List ρ) : List ρ :=
  if (lookup key l k).isSome then replace key k new l else l ++ [new]

theorem keyed_insertAbsent {l : List ρ} {new : ρ} {k : κ} (keyed : Keyed key l)
    (hasKey : key new = some k) : Keyed key (insertAbsent key k new l) := by
  unfold insertAbsent
  split
  · exact keyed
  · rename_i absent
    exact keyed_concat keyed hasKey (by simpa using absent)

theorem lookup_insertAbsent (l : List ρ) {new : ρ} {k : κ} (hasKey : key new = some k) (k' : κ) :
    lookup key (insertAbsent key k new l) k' =
      if k' = k then (lookup key l k).or (some new) else lookup key l k' := by
  unfold insertAbsent
  by_cases same : k' = k
  · subst same
    rw [if_pos rfl]
    cases found : lookup key l k' with
    | none => rw [if_neg (by simp), lookup_concat l hasKey, found, if_pos rfl]
    | some r => rw [Option.isSome_some, if_pos rfl, found, Option.some_or]
  · rw [if_neg same]
    split
    · rfl
    · rw [lookup_concat l hasKey, if_neg same, Option.or_none]

theorem keyed_upsert {l : List ρ} {new : ρ} {k : κ} (keyed : Keyed key l)
    (hasKey : key new = some k) : Keyed key (upsert key k new l) := by
  unfold upsert
  split
  · exact keyed_replace keyed hasKey
  · rename_i absent
    exact keyed_concat keyed hasKey (by simpa using absent)

theorem Keyed.mem_upsert {l : List ρ} (keyed : Keyed key l) {new r : ρ} {k : κ}
    (member : r ∈ upsert key k new l) : r = new ∨ r ∈ l ∧ key r ≠ some k := by
  unfold upsert at member
  split at member
  · exact keyed.mem_replace member
  · rename_i absent
    rcases List.mem_append.mp member with old | last
    · exact .inr ⟨old, lookup_eq_none_iff.mp (by simpa using absent) r old⟩
    · exact .inl (List.mem_singleton.mp last)

theorem lookup_upsert (l : List ρ) {new : ρ} {k : κ} (hasKey : key new = some k) (k' : κ) :
    lookup key (upsert key k new l) k' = if k' = k then some new else lookup key l k' := by
  unfold upsert
  cases found : lookup key l k with
  | none =>
    rw [if_neg (by simp), lookup_concat l hasKey]
    by_cases same : k' = k
    · rw [if_pos same, if_pos same, same, found, Option.none_or]
    · rw [if_neg same, if_neg same, Option.or_none]
  | some r =>
    rw [Option.isSome_some, if_pos rfl, lookup_replace l hasKey, found]
    rfl

/-- Mapping the entries without touching their keys. -/
theorem lookup_map {f : ρ → ρ} (keepsKey : ∀ r, key (f r) = key r) (l : List ρ) (k : κ) :
    lookup key (l.map f) k = (lookup key l k).map f := by
  induction l with
  | nil => rfl
  | cons r rest ih =>
    rw [List.map_cons, lookup_cons, lookup_cons, keepsKey, ih]
    split <;> rfl

/-- Keeping some of the entries of a keyed list. -/
theorem lookup_filter {l : List ρ} (keyed : Keyed key l) (p : ρ → Bool) (k : κ) :
    lookup key (l.filter p) k = (lookup key l k).filter p := by
  ext r
  rw [(keyed.sublist List.filter_sublist).lookup_eq_some_iff, Option.filter_eq_some_iff,
    keyed.lookup_eq_some_iff, List.mem_filter]
  tauto

end Operations

/-! ### In place

The operations as equations of lists, order included. -/

section InPlace

variable {l before rest : List ρ} {r new new' old : ρ} {k k' : κ}

theorem upsert_of_lookup (found : lookup key l k = some r) :
    upsert key k new l = replace key k new l := by
  unfold upsert
  rw [found, Option.isSome_some, if_pos rfl]

theorem upsert_of_lookup_none (absent : lookup key l k = none) :
    upsert key k new l = l ++ [new] := by
  unfold upsert
  rw [absent, Option.isSome_none, if_neg Bool.false_ne_true]

theorem erase_of_lookup_none (absent : lookup key l k = none) : erase key l k = l :=
  List.filter_eq_self.mpr fun r member => decide_eq_true (lookup_eq_none_iff.mp absent r member)

theorem erase_append (l l' : List ρ) (k : κ) :
    erase key (l ++ l') k = erase key l k ++ erase key l' k := List.filter_append ..

theorem erase_singleton_of_ne (different : key new ≠ some k) : erase key [new] k = [new] :=
  List.filter_eq_self.mpr fun r member => by
    rw [List.mem_singleton.mp member]
    exact decide_eq_true different

theorem replace_append_of_lookup_none (absent : lookup key l k = none) (l' : List ρ) :
    replace key k new (l ++ l') = l ++ replace key k new l' := by
  induction l with
  | nil => rfl
  | cons r rest ih =>
    rw [lookup_cons] at absent
    split at absent
    · cases absent
    · rename_i different
      rw [List.cons_append, replace, if_neg different, ih absent, List.cons_append]

theorem replace_concat_of_ne (different : key new' ≠ some k) (l : List ρ) :
    replace key k new (l ++ [new']) = replace key k new l ++ [new'] := by
  induction l with
  | nil => exact if_neg different
  | cons r rest ih =>
    rw [List.cons_append, replace, replace, ih]
    split <;> rfl

/-- **Overwriting reaches the entry with the key**, wherever it stands. -/
theorem replace_at (absent : lookup key before k = none) (hasKey : key r = some k) :
    replace key k new (before ++ r :: rest) = before ++ new :: rest := by
  rw [replace_append_of_lookup_none absent, replace, if_pos hasKey]

/-- **Erasing takes the entry with the key out.** -/
theorem erase_at (absent : lookup key before k = none) (absent' : lookup key rest k = none)
    (hasKey : key r = some k) : erase key (before ++ r :: rest) k = before ++ rest := by
  have gone : erase key (r :: rest) k = erase key rest k :=
    List.filter_cons_of_neg (by simp [hasKey])
  rw [erase_append, gone, erase_of_lookup_none absent, erase_of_lookup_none absent']

theorem erase_concat_self (absent : lookup key l k = none) (hasKey : key new = some k) :
    erase key (l ++ [new]) k = l := by
  have taken := erase_at absent (lookup_nil k) hasKey
  rwa [List.append_nil] at taken

/-- **Overwriting back.** -/
theorem replace_replace (found : lookup key l k = some old) (hasKey : key new = some k) :
    replace key k old (replace key k new l) = l := by
  induction l with
  | nil => rfl
  | cons r rest ih =>
    rw [lookup_cons] at found
    split at found
    · rename_i same
      cases found
      rw [replace, if_pos same, replace, if_pos hasKey]
    · rename_i different
      rw [replace, if_neg different, replace, if_neg different, ih found]

/-- In a keyed list the key of an entry stands nowhere else. -/
theorem Keyed.apart (keyed : Keyed key (before ++ r :: rest)) (hasKey : key r = some k) :
    lookup key before k = none ∧ lookup key rest k = none := by
  obtain ⟨⟨k', hasKey', fresh⟩, _⟩ := Keyed.cons_iff.mp (keyed.perm List.perm_middle)
  cases hasKey.symm.trans hasKey'
  rw [lookup_append] at fresh
  exact Option.or_eq_none_iff.mp fresh

/-! At two keys the operations commute. -/

theorem erase_erase_comm (l : List ρ) (k k' : κ) :
    erase key (erase key l k) k' = erase key (erase key l k') k := List.filter_comm ..

theorem erase_replace_comm (different : k ≠ k') (hasKey : key new = some k) (l : List ρ) :
    erase key (replace key k new l) k' = replace key k new (erase key l k') := by
  have other : some k ≠ some k' := fun same => different (Option.some.inj same)
  induction l with
  | nil => rfl
  | cons r rest ih =>
    unfold erase at ih ⊢
    by_cases same : key r = some k
    · rw [replace, if_pos same, List.filter_cons_of_pos (by simp [hasKey, different]),
        List.filter_cons_of_pos (by simp [same, different]), replace, if_pos same]
    · by_cases gone : key r = some k'
      · rw [replace, if_neg same, List.filter_cons_of_neg (by simp [gone]), ih,
          List.filter_cons_of_neg (by simp [gone])]
      · rw [replace, if_neg same, List.filter_cons_of_pos (by simp [gone]), ih,
          List.filter_cons_of_pos (by simp [gone]), replace, if_neg same]

theorem replace_replace_comm (different : k ≠ k') (hasKey : key new = some k)
    (hasKey' : key new' = some k') (l : List ρ) :
    replace key k new (replace key k' new' l) = replace key k' new' (replace key k new l) := by
  have other : ¬ some k = some k' := fun same => different (Option.some.inj same)
  induction l with
  | nil => rfl
  | cons r rest ih =>
    by_cases same : key r = some k
    · rw [replace, if_neg (same ▸ other), replace, if_pos same, replace, if_pos same, replace,
        if_neg (hasKey ▸ other)]
    · by_cases same' : key r = some k'
      · rw [replace, if_pos same', replace, if_neg (hasKey' ▸ Ne.symm other), replace, if_neg same,
          replace, if_pos same']
      · rw [replace, if_neg same', replace, if_neg same, replace, if_neg same, replace,
          if_neg same', ih]

theorem erase_upsert_comm (different : k ≠ k') (hasKey' : key new' = some k') (l : List ρ) :
    erase key (upsert key k' new' l) k = upsert key k' new' (erase key l k) := by
  have present : lookup key (erase key l k) k' = lookup key l k' := by
    rw [lookup_erase, if_neg (Ne.symm different)]
  have other : key new' ≠ some k :=
    fun same => different (Option.some.inj (same.symm.trans hasKey'))
  cases found : lookup key l k' with
  | none =>
    rw [upsert_of_lookup_none found, upsert_of_lookup_none (present.trans found), erase_append,
      erase_singleton_of_ne other]
  | some r =>
    rw [upsert_of_lookup found, upsert_of_lookup (present.trans found),
      erase_replace_comm (Ne.symm different) hasKey']

theorem replace_upsert_comm (different : k ≠ k') (hasKey : key new = some k)
    (hasKey' : key new' = some k') (l : List ρ) :
    replace key k new (upsert key k' new' l) = upsert key k' new' (replace key k new l) := by
  have present : lookup key (replace key k new l) k' = lookup key l k' := by
    rw [lookup_replace l hasKey, if_neg (Ne.symm different)]
  have other : key new' ≠ some k :=
    fun same => different (Option.some.inj (same.symm.trans hasKey'))
  cases found : lookup key l k' with
  | none =>
    rw [upsert_of_lookup_none found, upsert_of_lookup_none (present.trans found),
      replace_concat_of_ne other]
  | some r =>
    rw [upsert_of_lookup found, upsert_of_lookup (present.trans found),
      replace_replace_comm different hasKey hasKey']

end InPlace

/-! ### Many entries at once

A list some of whose entries change, keys included, against the same changes made by upserting each
new entry under its own key. -/

section UpsertAll

variable {l news : List ρ} {change : ρ → ρ} {hit : ρ → Bool}

/-- Upsert entries one after the other, each under its own key. -/
def upsertAll (key : ρ → Option κ) (news l : List ρ) : List ρ :=
  news.foldl (fun l new => (key new).elim l fun k => upsert key k new l) l

theorem upsertAll_cons {new : ρ} {k : κ} (hasKey : key new = some k) (news l : List ρ) :
    upsertAll key (new :: news) l = upsertAll key news (upsert key k new l) := by
  unfold upsertAll
  rw [List.foldl_cons, hasKey, Option.elim_some]

theorem keyed_upsertAll (keyedNews : Keyed key news) (keyed : Keyed key l) :
    Keyed key (upsertAll key news l) := by
  induction news generalizing l with
  | nil => exact keyed
  | cons new news ih =>
    obtain ⟨⟨k, hasKey, -⟩, rest⟩ := Keyed.cons_iff.mp keyedNews
    rw [upsertAll_cons hasKey]
    exact ih rest (keyed_upsert keyed hasKey)

theorem lookup_upsertAll (keyedNews : Keyed key news) (l : List ρ) (k : κ) :
    lookup key (upsertAll key news l) k = (lookup key news k).or (lookup key l k) := by
  induction news generalizing l with
  | nil => rfl
  | cons new news ih =>
    obtain ⟨⟨k', hasKey, fresh⟩, rest⟩ := Keyed.cons_iff.mp keyedNews
    rw [upsertAll_cons hasKey, ih rest, lookup_upsert l hasKey, lookup_cons, hasKey]
    by_cases same : k = k'
    · rw [if_pos same, if_pos (congrArg some same.symm), same, fresh, Option.none_or,
        Option.some_or]
    · rw [if_neg same, if_neg fun equal => same (Option.some.inj equal).symm]

/-- The changed entries and those that stay. -/
theorem map_ite_perm (change : ρ → ρ) (hit : ρ → Bool) (l : List ρ) :
    (l.map fun r => if hit r then change r else r).Perm
      ((l.filter hit).map change ++ l.filter fun r => !hit r) := by
  have parts := (List.filter_append_perm hit l).symm.map fun r => if hit r then change r else r
  have changed : (l.filter hit).map (fun r => if hit r then change r else r) =
      (l.filter hit).map change :=
    List.map_congr_left fun r member => if_pos (List.mem_filter.mp member).2
  have stay : (l.filter fun r => !hit r).map (fun r => if hit r then change r else r) =
      l.filter fun r => !hit r := by
    refine (List.map_congr_left fun r member => if_neg ?_).trans (List.map_id _)
    simpa using (List.mem_filter.mp member).2
  rwa [List.map_append, changed, stay] at parts

/-- **When upserting the changed entries changes the list**: when every key that is given up is
given to another changed entry. -/
theorem upsertAll_perm_iff (keyed : Keyed key l)
    (keyed' : Keyed key (l.map fun r => if hit r then change r else r)) :
    (upsertAll key ((l.filter hit).map change) l).Perm
      (l.map fun r => if hit r then change r else r) ↔
      ∀ r ∈ l, hit r = true → ∃ r' ∈ l, hit r' = true ∧ key (change r') = key r := by
  have parts := map_ite_perm change hit l
  have keyedNews : Keyed key ((l.filter hit).map change) :=
    (keyed'.perm parts).sublist (List.sublist_append_left ..)
  have changed : ∀ k, lookup key (l.map fun r => if hit r then change r else r) k =
      (lookup key ((l.filter hit).map change) k).or ((lookup key l k).filter fun r => !hit r) := by
    intro k
    rw [(keyed'.perm_iff_lookup (keyed'.perm parts)).mp parts, lookup_append, lookup_filter keyed]
  rw [(keyed_upsertAll keyedNews keyed).perm_iff_lookup keyed']
  simp only [lookup_upsertAll keyedNews, changed]
  constructor
  · intro same r member isHit
    obtain ⟨k, hasKey⟩ := Option.isSome_iff_exists.mp (keyed.isSome r member)
    have atKey := same k
    rw [keyed.lookup_eq_some_iff.mpr ⟨member, hasKey⟩] at atKey
    cases given : lookup key ((l.filter hit).map change) k with
    | none =>
      rw [given, Option.none_or, Option.none_or, Option.filter_some, isHit] at atKey
      exact absurd atKey (Option.some_ne_none r)
    | some new =>
      obtain ⟨r', inside, rfl⟩ := List.mem_map.mp (mem_of_lookup given)
      obtain ⟨member', isHit'⟩ := List.mem_filter.mp inside
      exact ⟨r', member', isHit', (key_of_lookup given).trans hasKey.symm⟩
  · intro taken k
    cases given : lookup key ((l.filter hit).map change) k with
    | some new => rw [Option.some_or, Option.some_or]
    | none =>
      rw [Option.none_or, Option.none_or]
      cases found : lookup key l k with
      | none => rfl
      | some r =>
        refine (Option.filter_eq_some_iff.mpr ⟨rfl, ?_⟩).symm
        rw [Bool.not_eq_true']
        refine Bool.eq_false_iff.mpr fun isHit => ?_
        obtain ⟨r', member', isHit', same⟩ := taken r (mem_of_lookup found) isHit
        refine lookup_eq_none_iff.mp given (change r') ?_ (same.trans (key_of_lookup found))
        exact List.mem_map_of_mem (List.mem_filter.mpr ⟨member', isHit'⟩)

end UpsertAll

end KeyedList
