/-
**How much of a B+-tree is read.**

A search reads the pages of one path (`seekPath`), a scan also the leaves up to the first key that
is too large (`walked`). A path is as long as the tree is high, and a tree is no higher than the
logarithm of the number of its entries (`Index.Bushy.height_le`). Of the leaves of a scan all but
two are full of what it looks for (`length_walked`).

`Layout.within` asks of some pages what a layout asks, and nothing of the others.
-/

import Mathlib.Algebra.Group.Nat.Defs
import Mathlib.Data.Nat.Log
import MyDatabaseEngine.Lib.TreeLayout

set_option linter.unusedSectionVars false

namespace BPlusTree

variable {κ ν : Type} [LinearOrder κ] {order : Nat}

/-! ### Paths -/

section Paths

/-- The pages from the root to the leaf where a search ends. -/
def seekPath (key : κ) : {h : Nat} → Tree κ ν h → List Nat
  | 0, t => [t.1]
  | _ + 1, t => t.1 :: seekPath key (childFor key t.2.1 t.2.2)

theorem length_seekPath (key : κ) {h : Nat} (t : Tree κ ν h) : (seekPath key t).length = h + 1 := by
  induction h with
  | zero => rfl
  | succ h ih => exact congrArg Nat.succ (ih _)

theorem seekPath_sublist (key : κ) {h : Nat} (t : Tree κ ν h) :
    (seekPath key t).Sublist t.pages := by
  induction h with
  | zero => exact List.Sublist.refl _
  | succ h ih => exact ((ih _).trans (childFor_sublist Tree.pages)).cons_cons t.1

theorem seek_mem_seekPath (key : κ) {h : Nat} (t : Tree κ ν h) :
    (seek key t).1 ∈ seekPath key t := by
  induction h with
  | zero => exact List.mem_singleton_self _
  | succ h ih => exact List.mem_cons_of_mem _ (ih _)

end Paths

/-! ### The height -/

section Height

/-- Children with so many entries each. -/
theorem le_length_across {h m : Nat} {rest : List (κ × Tree κ ν h)} :
    ∀ {first : Tree κ ν h}, m ≤ first.entries.length →
      (∀ child ∈ rest, m ≤ child.2.entries.length) →
      (rest.length + 1) * m ≤ (across Tree.entries (first, rest)).length := by
  induction rest with
  | nil =>
    intro first enough _
    rw [across_nil, List.length_nil, Nat.zero_add, Nat.one_mul]
    exact enough
  | cons c rest ih =>
    intro first enough all
    obtain ⟨s, child⟩ := c
    obtain ⟨enough', others⟩ := List.forall_mem_cons.mp all
    have behind : (rest.length + 1) * m ≤ (across Tree.entries (child, rest)).length :=
      ih enough' others
    rw [across_cons, List.length_append, List.length_cons, Nat.succ_mul]
    omega

/-- **A node has exponentially many entries below it.** -/
theorem le_length_entries {h : Nat} : ∀ {t : Tree κ ν (h + 1)} {least : Nat}, Shaped order t least →
    (least + 1) * ((order / 2 + 1) ^ h * (order / 2)) ≤ t.entries.length := by
  induction h with
  | zero =>
    intro t least shaped
    obtain ⟨many, -, first, rest⟩ := shaped
    rw [Tree.entries_node, pow_zero, Nat.one_mul]
    refine (Nat.mul_le_mul_right _ (Nat.succ_le_succ many)).trans (le_length_across ?_ ?_)
    · rw [Tree.entries_leaf]
      exact first.1
    · intro child member
      rw [Tree.entries_leaf]
      exact (rest child member).1.1
  | succ h ih =>
    intro t least shaped
    obtain ⟨many, -, first, rest⟩ := shaped
    rw [Tree.entries_node, pow_succ', Nat.mul_assoc (order / 2 + 1)]
    exact (Nat.mul_le_mul_right _ (Nat.succ_le_succ many)).trans
      (le_length_across (ih first) fun child member => ih (rest child member).1)

namespace Index

/-- **The root branches**, unless it is a leaf. -/
def Bushy (order : Nat) (x : Index κ ν) : Prop := x.height = 0 ∨ Shaped order x.root 1

theorem Bushy.insert (two : 2 ≤ order) {x : Index κ ν} (bushy : x.Bushy order) (ok : x.Ok order)
    (entry : κ × ν) : (x.insert order entry).Bushy order := by
  have shaped :=
    fun least holds => (@insert_spec _ _ _ order entry.1 entry.2 _ two x.root least x.fresh
    holds ok.sorted).2
  have whole := shaped 0 ok.shaped
  unfold Index.insert
  rcases outcome : BPlusTree.insert order entry.1 entry.2 x.root x.fresh with
    ⟨⟨t⟩ | ⟨left, key, right⟩, fresh⟩
  · refine bushy.imp id fun branching => ?_
    have branches := shaped 1 branching
    rw [outcome] at branches
    exact branches
  · rw [outcome] at whole
    refine .inr ⟨Nat.le_refl 1, ?_, whole⟩
    show 1 ≤ order
    omega

theorem Bushy.insertAll (two : 2 ≤ order) {entries : List (κ × ν)} :
    ∀ {x : Index κ ν}, x.Bushy order → x.Ok order → (x.insertAll order entries).Bushy order := by
  induction entries with
  | nil => exact fun bushy _ => bushy
  | cons entry entries ih =>
    exact fun bushy ok => ih (bushy.insert two ok entry) (ok.insert two entry).1

/-- **A tree is no higher than the logarithm of its size.** -/
theorem Bushy.height_le (two : 2 ≤ order) {x : Index κ ν} (bushy : x.Bushy order) :
    x.height ≤ Nat.log (order / 2 + 1) x.root.entries.length := by
  obtain ⟨height, root, fresh⟩ := x
  cases height with
  | zero => exact Nat.zero_le _
  | succ h =>
    have branching : Shaped order root 1 := bushy.resolve_left (Nat.succ_ne_zero h)
    refine Nat.le_log_of_pow_le (by omega) (Nat.le_trans ?_ (le_length_entries branching))
    have twice : order / 2 + 1 ≤ 2 * (order / 2) := by omega
    calc (order / 2 + 1) ^ (h + 1) = (order / 2 + 1) ^ h * (order / 2 + 1) := pow_succ _ _
      _ ≤ (order / 2 + 1) ^ h * (2 * (order / 2)) := Nat.mul_le_mul_left _ twice
      _ = (1 + 1) * ((order / 2 + 1) ^ h * (order / 2)) := Nat.mul_left_comm _ _ _

end Index

end Height

/-! ### Scans -/

section Scans

/-- The leaves up to the first with a key that is too large. -/
def walked (toKey : κ) : List (Nat × List (κ × ν)) → List (Nat × List (κ × ν))
  | [] => []
  | leaf :: rest => if ∃ e ∈ leaf.2, toKey < e.1 then [leaf] else leaf :: walked toKey rest

theorem walked_sublist (toKey : κ) (leaves : List (Nat × List (κ × ν))) :
    (walked toKey leaves).Sublist leaves := by
  induction leaves with
  | nil => exact List.Sublist.refl _
  | cons leaf rest ih =>
    rw [walked]
    split
    · exact (List.nil_sublist rest).cons_cons leaf
    · exact ih.cons_cons leaf

theorem length_walked_cons (toKey : κ) (leaf : Nat × List (κ × ν))
    (rest : List (Nat × List (κ × ν))) :
    (walked toKey (leaf :: rest)).length ≤ (walked toKey rest).length + 1 := by
  rw [walked]
  split
  · exact Nat.le_add_left 1 _
  · exact Nat.le_refl _

/-- Behind the leaf where a scan begins, all leaves but the last are full of what it looks for. -/
theorem length_walked_behind {least : Nat} (fromKey toKey : κ) {leaves : List (Nat × List (κ × ν))}
    (full : ∀ leaf ∈ leaves, least ≤ leaf.2.length)
    (behind : ∀ leaf ∈ leaves, ∀ e ∈ leaf.2, fromKey < e.1) :
    ((walked toKey leaves).length - 1) * least ≤
      ((leaves.flatMap Prod.snd).filter fun e => fromKey ≤ e.1 ∧ e.1 ≤ toKey).length := by
  induction leaves with
  | nil => exact (Nat.zero_mul least).trans_le (Nat.zero_le _)
  | cons leaf rest ih =>
    obtain ⟨many, full'⟩ := List.forall_mem_cons.mp full
    obtain ⟨large, behind'⟩ := List.forall_mem_cons.mp behind
    have later := ih full' behind'
    rw [walked, List.flatMap_cons, List.filter_append, List.length_append]
    split
    · exact (Nat.zero_mul least).trans_le (Nat.zero_le _)
    · rename_i goesOn
      have all : leaf.2.filter (fun e => decide (fromKey ≤ e.1 ∧ e.1 ≤ toKey)) = leaf.2 := by
        refine List.filter_eq_self.mpr fun e member => decide_eq_true ⟨(large e member).le, ?_⟩
        exact not_lt.mp fun past => goesOn ⟨e, member, past⟩
      rw [all, List.length_cons, Nat.add_sub_cancel]
      have oneLeaf : (walked toKey rest).length * least ≤
          ((walked toKey rest).length - 1 + 1) * least := Nat.mul_le_mul_right least (by omega)
      rw [Nat.succ_mul] at oneLeaf
      omega

/-- **All leaves of a scan but two are full of what it looks for.** -/
theorem length_walked {least : Nat} (fromKey toKey : κ) {first : Nat × List (κ × ν)}
    {after : List (Nat × List (κ × ν))} (full : ∀ leaf ∈ after, least ≤ leaf.2.length)
    (behind : ∀ leaf ∈ after, ∀ e ∈ leaf.2, fromKey < e.1) :
    ((walked toKey (first :: after)).length - 2) * least ≤
      (((first :: after).flatMap Prod.snd).filter fun e => fromKey ≤ e.1 ∧ e.1 ≤ toKey).length := by
  have one := length_walked_cons toKey first after
  have later := length_walked_behind fromKey toKey full behind
  rw [List.flatMap_cons, List.filter_append, List.length_append]
  calc ((walked toKey (first :: after)).length - 2) * least
      ≤ ((walked toKey after).length - 1) * least := Nat.mul_le_mul_right least (by omega)
    _ ≤ _ := later
    _ ≤ _ := Nat.le_add_left _ _

/-- Below an inner node all leaves have the entries they must have. -/
theorem Shaped.leaves_full {h : Nat} : ∀ {t : Tree κ ν (h + 1)} {least : Nat},
    Shaped order t least →
    ∀ leaf ∈ t.leaves, order / 2 ≤ leaf.2.length := by
  induction h with
  | zero =>
    intro t least shaped leaf member
    obtain ⟨-, -, first, rest⟩ := shaped
    rcases List.mem_append.mp member with member | member
    · rw [List.mem_singleton.mp member]
      exact first.1
    · obtain ⟨child, among, member⟩ := List.mem_flatMap.mp member
      rw [List.mem_singleton.mp member]
      exact (rest child among).1.1
  | succ h ih =>
    intro t least shaped leaf member
    obtain ⟨-, -, first, rest⟩ := shaped
    rcases List.mem_append.mp member with member | member
    · exact ih first leaf member
    · obtain ⟨child, among, member⟩ := List.mem_flatMap.mp member
      exact ih (rest child among).1 leaf member

/-- A leaf behind another one has the entries it must have. -/
theorem Shaped.leaves_full_behind {h : Nat} {t : Tree κ ν h} {least : Nat}
    (shaped : Shaped order t least) {before after : List (Nat × List (κ × ν))}
    {first : Nat × List (κ × ν)} (split : t.leaves = before ++ first :: after) :
    ∀ leaf ∈ after, order / 2 ≤ leaf.2.length := by
  cases h with
  | zero =>
    have one := congrArg List.length split
    rw [List.length_append, List.length_cons] at one
    have nothing : after.length = 0 := by
      change 1 = _ at one
      omega
    rw [List.length_eq_zero_iff.mp nothing]
    exact fun leaf member => absurd member List.not_mem_nil
  | succ h =>
    intro leaf member
    refine shaped.leaves_full leaf ?_
    rw [split]
    exact List.mem_append_right before (List.mem_cons_of_mem first member)

end Scans

/-! ### Some pages only -/

namespace Layout

/-- **The layout on some pages**; the others may hold anything. -/
def within (L : Layout κ ν) (pages : List Nat) : Layout κ ν where
  leafAt page entries next := page ∈ pages → L.leafAt page entries next
  nodeAt page keys ids := page ∈ pages → L.nodeAt page keys ids

theorem Holds.within {L L' : Layout κ ν} {pages : List Nat} {h : Nat} {t : Tree κ ν h} {next : Nat}
    (holds : L.Holds t next) (agree : ∀ page ∈ pages, Agree L L' page) :
    (L'.within pages).Holds t next :=
  holds.frame fun page _ =>
    ⟨fun entries next leaf inside => (agree page inside).leafAt entries next leaf,
      fun keys ids node inside => (agree page inside).nodeAt keys ids node⟩

end Layout

end BPlusTree
