/-
**A cache with pins that drops the least recently used key.**

`LruCache κ` has a capacity, the cached keys with the most recently used one in front, and a number
of pins for each key. A key with a pin is not dropped.

`Sound used cache` ties a cache to the history of its uses, the last one in front: no key twice, no
more than the capacity, and the keys in the order of their last use. Every operation keeps it
(`sound_load`, `Sound.touch`, `Sound.makeRoom`); `makeRoom_eq_none` and `dropped_of_makeRoom` say
when no room can be made and which key goes.
-/

import Mathlib.Data.List.Perm.Basic
import Mathlib.Logic.Function.Basic

set_option linter.unusedSectionVars false

structure LruCache (κ : Type*) where
  capacity : Nat
  recent : List κ
  pins : κ → Nat

namespace LruCache

variable {κ : Type*} [DecidableEq κ]

/-- A use of a cached key. -/
def touch (key : κ) (cache : LruCache κ) : LruCache κ :=
  { cache with recent := key :: cache.recent.erase key }

/-- One more pin. -/
def pin (key : κ) (cache : LruCache κ) : LruCache κ :=
  { cache with pins := Function.update cache.pins key (cache.pins key + 1) }

/-- One pin less, if there is one. -/
def unpin (key : κ) (cache : LruCache κ) : LruCache κ :=
  { cache with pins := Function.update cache.pins key (cache.pins key - 1) }

/-- A key that was not cached comes in, with a pin. -/
def load (key : κ) (cache : LruCache κ) : LruCache κ :=
  { cache with recent := key :: cache.recent, pins := Function.update cache.pins key 1 }

/-- A key goes. -/
def drop (key : κ) (cache : LruCache κ) : LruCache κ :=
  { cache with recent := cache.recent.erase key }

/-- **The key to be dropped**: of those without a pin, the least recently used. -/
def victim? (cache : LruCache κ) : Option κ :=
  cache.recent.reverse.find? fun key => cache.pins key = 0

/-- Room for another key; none when the cache is full of pinned ones. -/
def makeRoom (cache : LruCache κ) : Option (LruCache κ) :=
  if cache.capacity ≤ cache.recent.length then cache.victim?.map cache.drop else some cache

/-- How a request ends. -/
inductive Reply
  | served
  | missing
  | full
  deriving DecidableEq

/-- **A request for a key**, which is there to be loaded or not. -/
def fetch (there : Bool) (key : κ) (cache : LruCache κ) : Reply × LruCache κ :=
  if key ∈ cache.recent then (.served, (cache.touch key).pin key)
  else match cache.makeRoom with
    | none => (.full, cache)
    | some roomy => if there then (.served, roomy.load key) else (.missing, roomy)

/-- No key without a pin, and no room. -/
def Full (cache : LruCache κ) : Prop :=
  cache.capacity ≤ cache.recent.length ∧ ∀ key ∈ cache.recent, 0 < cache.pins key

/-- `key` was used after `other` was used last. -/
def UsedAfter (used : List κ) (key other : κ) : Prop := used.idxOf key < used.idxOf other

/-- **The cache agrees with its history.** -/
structure Sound (used : List κ) (cache : LruCache κ) : Prop where
  once : cache.recent.Nodup
  bounded : cache.recent.length ≤ cache.capacity
  ordered : cache.recent.Pairwise (UsedAfter used)
  known : ∀ key ∈ cache.recent, key ∈ used

variable {cache roomy : LruCache κ} {used : List κ} {key other : κ}

/-! ### Room -/

/-- The key to be dropped splits the cached ones: all used less recently are pinned. -/
theorem victim_eq_some (victim : cache.victim? = some key) :
    cache.pins key = 0 ∧ ∃ after before, cache.recent = after ++ key :: before ∧
      ∀ other ∈ before, 0 < cache.pins other := by
  unfold victim? at victim
  rw [List.find?_eq_some_iff_append] at victim
  obtain ⟨unpinned, before, after, split, pinned⟩ := victim
  refine ⟨of_decide_eq_true unpinned, after.reverse, before.reverse, ?_, fun other member => ?_⟩
  · rw [← List.reverse_inj, split]
    simp only [List.reverse_append, List.reverse_cons, List.reverse_reverse, List.append_assoc,
      List.singleton_append]
  · have notFree := pinned other (List.mem_reverse.mp member)
    rw [Bool.not_eq_true', decide_eq_false_iff_not] at notFree
    exact Nat.pos_of_ne_zero notFree

theorem victim_eq_none : cache.victim? = none ↔ ∀ key ∈ cache.recent, 0 < cache.pins key := by
  unfold victim?
  simp only [List.find?_eq_none, List.mem_reverse, decide_eq_true_eq, Nat.pos_iff_ne_zero, ne_eq]

/-- **When no room can be made.** -/
theorem makeRoom_eq_none : cache.makeRoom = none ↔ cache.Full := by
  unfold makeRoom Full
  split
  · rename_i atCapacity
    rw [Option.map_eq_none_iff, victim_eq_none]
    exact (and_iff_right atCapacity).symm
  · rename_i room
    exact ⟨nofun, fun full => (room full.1).elim⟩

/-- Room is made by dropping one key, or none. -/
theorem makeRoom_cases (made : cache.makeRoom = some roomy) :
    (roomy = cache ∧ cache.recent.length < cache.capacity) ∨
      ∃ key, cache.victim? = some key ∧ roomy = cache.drop key := by
  unfold makeRoom at made
  split at made
  · obtain ⟨key, victim, rfl⟩ := Option.map_eq_some_iff.mp made
    exact .inr ⟨key, victim, rfl⟩
  · rename_i room
    exact .inl ⟨(Option.some.inj made).symm, Nat.not_le.mp room⟩

theorem makeRoom_pins (made : cache.makeRoom = some roomy) :
    roomy.pins = cache.pins ∧ roomy.capacity = cache.capacity := by
  rcases makeRoom_cases made with ⟨rfl, -⟩ | ⟨key, -, rfl⟩ <;> exact ⟨rfl, rfl⟩

theorem makeRoom_sublist (made : cache.makeRoom = some roomy) :
    roomy.recent.Sublist cache.recent := by
  rcases makeRoom_cases made with ⟨rfl, -⟩ | ⟨key, -, rfl⟩
  · exact List.Sublist.refl _
  · exact List.erase_sublist

/-! ### What the operations keep -/

theorem usedAfter_cons (used : List κ) (apart : other ≠ key) :
    UsedAfter (key :: used) key other := by
  unfold UsedAfter
  rw [List.idxOf_cons_self, List.idxOf_cons_ne used apart.symm]
  exact Nat.succ_pos _

/-- A use of another key changes nothing between two keys. -/
theorem UsedAfter.cons {first : κ} (after : UsedAfter used first other) (apart : first ≠ key)
    (apart' : other ≠ key) : UsedAfter (key :: used) first other := by
  unfold UsedAfter at *
  rw [List.idxOf_cons_ne used apart.symm, List.idxOf_cons_ne used apart'.symm]
  exact Nat.succ_lt_succ after

/-- The keys in order, and the one that is used now in front of them. -/
theorem ordered_cons {recent : List κ} (ordered : recent.Pairwise (UsedAfter used))
    (absent : key ∉ recent) : (key :: recent).Pairwise (UsedAfter (key :: used)) := by
  have apart : ∀ other ∈ recent, other ≠ key := fun other member same => absent (same ▸ member)
  refine List.pairwise_cons.mpr ⟨fun other member => usedAfter_cons used (apart other member), ?_⟩
  refine ordered.imp_of_mem fun first second after => ?_
  exact after.cons (apart _ first) (apart _ second)

theorem sound_nil (capacity : Nat) (pins : κ → Nat) :
    Sound [] ({ capacity, recent := [], pins } : LruCache κ) :=
  ⟨List.nodup_nil, Nat.zero_le _, List.Pairwise.nil, nofun⟩

theorem Sound.sublist (sound : Sound used cache) {recent : List κ}
    (sub : recent.Sublist cache.recent) : Sound used { cache with recent } where
  once := sub.nodup sound.once
  bounded := Nat.le_trans sub.length_le sound.bounded
  ordered := sound.ordered.sublist sub
  known := fun key member => sound.known key (sub.subset member)

theorem Sound.congr_pins (sound : Sound used cache) (pins : κ → Nat) :
    Sound used { cache with pins } := ⟨sound.once, sound.bounded, sound.ordered, sound.known⟩

/-- **A cached key is used.** -/
theorem Sound.touch (sound : Sound used cache) (cached : key ∈ cache.recent) :
    Sound (key :: used) (cache.touch key) where
  once := List.nodup_cons.mpr ⟨sound.once.not_mem_erase, sound.once.erase key⟩
  bounded := by
    show (key :: cache.recent.erase key).length ≤ cache.capacity
    rw [List.length_cons, List.length_erase_of_mem cached]
    have some := List.length_pos_of_mem cached
    have bounded := sound.bounded
    omega
  ordered := ordered_cons (sound.ordered.sublist List.erase_sublist) sound.once.not_mem_erase
  known := by
    intro other member
    rcases List.mem_cons.mp member with rfl | member
    · exact List.mem_cons_self
    · exact List.mem_cons_of_mem _ (sound.known other (List.mem_of_mem_erase member))

/-- **Room is made**, and there is room. -/
theorem Sound.makeRoom (sound : Sound used cache) (made : cache.makeRoom = some roomy) :
    Sound used roomy ∧ (0 < cache.capacity → roomy.recent.length < roomy.capacity) := by
  rcases makeRoom_cases made with ⟨rfl, room⟩ | ⟨key, victim, rfl⟩
  · exact ⟨sound, fun _ => room⟩
  · refine ⟨sound.sublist List.erase_sublist, fun _ => ?_⟩
    obtain ⟨-, after, before, split, -⟩ := victim_eq_some victim
    have cached : key ∈ cache.recent := split ▸ List.mem_append_right _ List.mem_cons_self
    show (cache.recent.erase key).length < cache.capacity
    rw [List.length_erase_of_mem cached]
    have some := List.length_pos_of_mem cached
    have bounded := sound.bounded
    omega

/-- **A key comes in where there is room.** -/
theorem sound_load (sound : Sound used cache) (room : cache.recent.length < cache.capacity)
    (absent : key ∉ cache.recent) : Sound (key :: used) (cache.load key) where
  once := List.nodup_cons.mpr ⟨absent, sound.once⟩
  bounded := room
  ordered := ordered_cons sound.ordered absent
  known := by
    intro other member
    rcases List.mem_cons.mp member with rfl | member
    · exact List.mem_cons_self
    · exact List.mem_cons_of_mem _ (sound.known other member)

/-- A cache of no capacity makes no room: it is empty, so full. -/
theorem Sound.capacity_pos (sound : Sound used cache) (made : cache.makeRoom = some roomy) :
    0 < cache.capacity := by
  by_contra none
  have zero : cache.capacity = 0 := Nat.eq_zero_of_not_pos none
  have empty : cache.recent = [] :=
    List.length_eq_zero_iff.mp (Nat.eq_zero_of_le_zero (zero ▸ sound.bounded))
  have full : cache.Full := ⟨zero ▸ Nat.zero_le _, by rw [empty]; exact nofun⟩
  exact nomatch (makeRoom_eq_none.mpr full).symm.trans made

theorem fetch_of_full {there : Bool} (absent : key ∉ cache.recent) (full : cache.makeRoom = none) :
    cache.fetch there key = (.full, cache) := by
  unfold fetch
  rw [if_neg absent, full]

theorem fetch_of_room {there : Bool} (absent : key ∉ cache.recent)
    (made : cache.makeRoom = some roomy) :
    cache.fetch there key = if there then (.served, roomy.load key) else (.missing, roomy) := by
  unfold fetch
  rw [if_neg absent, made]

/-- **A request keeps a sound cache sound**; it is a use when it is served. -/
theorem Sound.fetch (sound : Sound used cache) (there : Bool) (key : κ) :
    Sound (if (cache.fetch there key).1 = .served then key :: used else used)
      (cache.fetch there key).2 := by
  by_cases cached : key ∈ cache.recent
  · have same : cache.fetch there key = (.served, (cache.touch key).pin key) := if_pos cached
    rw [same]
    exact (sound.touch cached).congr_pins _
  · cases made : cache.makeRoom with
    | none =>
      rw [fetch_of_full cached made]
      exact sound
    | some roomy =>
      obtain ⟨sound', room⟩ := sound.makeRoom made
      rw [fetch_of_room cached made]
      cases there with
      | false => exact sound'
      | true =>
        refine sound_load sound' (room (sound.capacity_pos made)) fun member => ?_
        exact cached ((makeRoom_sublist made).subset member)

theorem capacity_fetch (there : Bool) (key : κ) :
    (cache.fetch there key).2.capacity = cache.capacity := by
  by_cases cached : key ∈ cache.recent
  · have same : cache.fetch there key = (.served, (cache.touch key).pin key) := if_pos cached
    rw [same]
    rfl
  · cases made : cache.makeRoom with
    | none => rw [fetch_of_full cached made]
    | some roomy =>
      rw [fetch_of_room cached made, ← (makeRoom_pins made).2]
      cases there <;> rfl

/-- **When a request finds the cache full.** -/
theorem fetch_full_iff (there : Bool) (absent : key ∉ cache.recent) :
    (cache.fetch there key).1 = .full ↔ cache.Full := by
  rw [← makeRoom_eq_none]
  cases made : cache.makeRoom with
  | none => exact iff_of_true (congrArg Prod.fst (fetch_of_full absent made)) rfl
  | some roomy =>
    rw [fetch_of_room absent made]
    cases there <;> exact ⟨nofun, nofun⟩

/-- A cache without pins is not full. -/
theorem not_full_of_unpinned (room : 0 < cache.capacity) (unpinned : ∀ key, cache.pins key = 0) :
    ¬ cache.Full := by
  rintro ⟨atCapacity, pinned⟩
  obtain ⟨key, cached⟩ := List.exists_mem_of_length_pos (Nat.lt_of_lt_of_le room atCapacity)
  exact absurd (unpinned key) (Nat.ne_of_gt (pinned key cached))

/-- **A request that is served** pins the key once more. -/
theorem pins_of_served {there : Bool} {cache' : LruCache κ} (unpinned : cache.pins key = 0)
    (ran : cache.fetch there key = (.served, cache')) :
    cache'.pins = Function.update cache.pins key 1 := by
  by_cases cached : key ∈ cache.recent
  · have same : cache.fetch there key = (.served, (cache.touch key).pin key) := if_pos cached
    rw [← (Prod.mk.inj (same.symm.trans ran)).2]
    show Function.update cache.pins key (cache.pins key + 1) = _
    rw [unpinned]
  · cases made : cache.makeRoom with
    | none => exact nomatch (fetch_of_full cached made).symm.trans ran
    | some roomy =>
      rw [fetch_of_room cached made] at ran
      cases there with
      | false => exact nomatch ran
      | true =>
        rw [← (Prod.mk.inj ran).2, ← (makeRoom_pins made).1]
        rfl

/-- A request for a key that is not there pins nothing. -/
theorem pins_of_missing {cache' : LruCache κ} (ran : cache.fetch false key = (.missing, cache')) :
    cache'.pins = cache.pins := by
  by_cases cached : key ∈ cache.recent
  · have same : cache.fetch false key = (.served, (cache.touch key).pin key) := if_pos cached
    exact nomatch same.symm.trans ran
  · cases made : cache.makeRoom with
    | none => exact nomatch (fetch_of_full cached made).symm.trans ran
    | some roomy =>
      rw [fetch_of_room cached made] at ran
      rw [← (Prod.mk.inj ran).2]
      exact (makeRoom_pins made).1

/-- **A key that room was made of**: it has no pin, and the others without one were used after
it. -/
theorem dropped_of_makeRoom (sound : Sound used cache) (made : cache.makeRoom = some roomy)
    (cached : key ∈ cache.recent) (gone : key ∉ roomy.recent) :
    cache.pins key = 0 ∧ ∀ other ∈ cache.recent, other ≠ key → cache.pins other = 0 →
      UsedAfter used other key := by
  rcases makeRoom_cases made with ⟨rfl, -⟩ | ⟨victim, found, rfl⟩
  · exact (gone cached).elim
  have same : key = victim := by
    by_contra apart
    exact gone ((List.mem_erase_of_ne apart).mpr cached)
  subst same
  obtain ⟨unpinned, after, before, split, pinned⟩ := victim_eq_some found
  refine ⟨unpinned, fun other member apart free => ?_⟩
  have ordered := sound.ordered
  rw [split] at member ordered
  rcases List.mem_append.mp member with member | member
  · exact (List.pairwise_append.mp ordered).2.2 other member key List.mem_cons_self
  · rcases List.mem_cons.mp member with same | member
    · exact (apart same).elim
    · exact absurd free (Nat.pos_iff_ne_zero.mp (pinned other member))

/-- **A key that a request dropped.** -/
theorem dropped_of_fetch (sound : Sound used cache) {there : Bool} {requested : κ}
    (cached : key ∈ cache.recent) (gone : key ∉ (cache.fetch there requested).2.recent) :
    cache.pins key = 0 ∧ ∀ other ∈ cache.recent, other ≠ key → cache.pins other = 0 →
      UsedAfter used other key := by
  by_cases hit : requested ∈ cache.recent
  · have same : cache.fetch there requested = (.served, (cache.touch requested).pin requested) :=
      if_pos hit
    rw [same] at gone
    refine (gone ?_).elim
    show key ∈ requested :: cache.recent.erase requested
    by_cases same : key = requested
    · exact same ▸ List.mem_cons_self
    · exact List.mem_cons_of_mem _ ((List.mem_erase_of_ne same).mpr cached)
  · cases made : cache.makeRoom with
    | none =>
      rw [fetch_of_full hit made] at gone
      exact (gone cached).elim
    | some roomy =>
      rw [fetch_of_room hit made] at gone
      refine dropped_of_makeRoom sound made cached fun member => gone ?_
      cases there with
      | false => exact member
      | true => exact List.mem_cons_of_mem _ member

end LruCache
