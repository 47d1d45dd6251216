/-
**The row of leaves of a B+-tree.**

`Sought` says of a leaf's place in the row what a search knows when it ends there, and it says it of
one place only (`Sought.unique`). An insertion replaces one leaf by itself with the new entry, or by
its halves (`leaves_insert`). Hence where every search ends afterwards (`sought_insert`): in the
same leaf as before, unless that was the leaf of the new entry.

A key with entries in several leaves has them in front of the place where its search ends
(`holders_le_one_iff`).
-/

import MyDatabaseEngine.Lib.TreeLayout

set_option linter.unusedSectionVars false

namespace BPlusTree

variable {κ ν : Type} [LinearOrder κ] {key : κ} {leaf leaf' : Nat × List (κ × ν)}
  {before before' after after' : List (Nat × List (κ × ν))}

/-- What a search for the key knows of a place in the row. -/
structure EndsAt (key : κ) (before : List (Nat × List (κ × ν))) (leaf : Nat × List (κ × ν))
    (after : List (Nat × List (κ × ν))) : Prop where
  front : before = [] ∨ ∃ e rest, leaf.2 = e :: rest ∧ e.1 ≤ key
  back : ∀ other ∈ after, ∀ e ∈ other.2, key < e.1

/-- Behind the place where a search ends there is no other such place. -/
theorem EndsAt.not_behind (here : EndsAt key before leaf after) (member : leaf' ∈ after)
    (some : before' ≠ []) : ¬ EndsAt key before' leaf' after' := by
  intro there
  obtain ⟨e, rest, entries, le⟩ := there.front.resolve_left some
  exact absurd le (not_le.mpr (here.back leaf' member e (entries ▸ List.mem_cons_self)))

/-- **A search ends in one place only.** -/
theorem EndsAt.unique (here : EndsAt key before leaf after)
    (there : EndsAt key before' leaf' after')
    (same : before ++ leaf :: after = before' ++ leaf' :: after') :
    before = before' ∧ leaf = leaf' ∧ after = after' := by
  rcases List.append_eq_append_iff.mp same with ⟨gap, left, right⟩ | ⟨gap, left, right⟩
  · cases gap with
    | nil =>
      obtain ⟨rfl, rfl⟩ := List.cons.inj right
      exact ⟨(List.append_nil _).symm.trans left.symm, rfl, rfl⟩
    | cons first gap =>
      obtain ⟨rfl, rfl⟩ := List.cons.inj right
      refine (here.not_behind (List.mem_append_right _ List.mem_cons_self) ?_ there).elim
      exact left ▸ List.append_ne_nil_of_right_ne_nil _ (List.cons_ne_nil _ _)
  · cases gap with
    | nil =>
      obtain ⟨rfl, rfl⟩ := List.cons.inj right
      exact ⟨left.trans (List.append_nil _), rfl, rfl⟩
    | cons first gap =>
      obtain ⟨rfl, rfl⟩ := List.cons.inj right
      refine (there.not_behind (List.mem_append_right _ List.mem_cons_self) ?_ here).elim
      exact left ▸ List.append_ne_nil_of_right_ne_nil _ (List.cons_ne_nil _ _)

/-! ### Insertion -/

section Insertion

variable {order : Nat} {value : ν}

/-- Cutting a node leaves its leaves alone. -/
theorem leaves_cutNode {h : Nat} (page fresh : Nat) (row : Row κ ν h) :
    across Tree.leaves ((cutNode order page row fresh).1.row []) = across Tree.leaves row := by
  rcases cutNode_cases order page row fresh with
    ⟨-, same⟩ | ⟨left, s, child, right, -, split, -, same⟩
  · rw [same]
    exact across_nil _ _
  · obtain ⟨first, rest⟩ := row
    obtain rfl : rest = left ++ (s, child) :: right := split
    rw [same, across_append]
    exact congrArg _ (across_nil Tree.leaves (Tree.node fresh child right))

/-- Cutting a leaf loses no entry. -/
theorem entries_cutLeaf (order page : Nat) (entries : List (κ × ν)) (fresh : Nat) :
    (across Tree.leaves ((cutLeaf order page entries fresh).1.row [])).flatMap Prod.snd =
      entries := by
  rcases cutLeaf_cases order page entries fresh with
    ⟨-, same⟩ | ⟨left, e, right, -, split, -, same⟩
  · rw [same]
    simp [across, Outcome.row, Tree.leaves]
  · rw [same]
    simp [across, Outcome.row, Tree.leaves, split]

/-- **An insertion replaces the leaf that the key belongs to.** -/
theorem leaves_insert {h : Nat} (t : Tree κ ν h) (fresh : Nat) :
    ∃ before after, t.leaves = before ++ seek key t :: after ∧
      across Tree.leaves ((insert order key value t fresh).1.row []) = before ++
        across Tree.leaves
          ((cutLeaf order (seek key t).1 (put (key, value) (seek key t).2) fresh).1.row
          []) ++ after := by
  induction h with
  | zero => exact ⟨[], [], rfl, (List.append_nil _).symm⟩
  | succ h ih =>
    obtain ⟨page, first, rest⟩ := t
    have among : ∃ before after, across Tree.leaves (first, rest) =
          before ++ seek key (childFor key first rest) :: after ∧
        across Tree.leaves (insertAmong (insert order key value) key first rest fresh).1 =
          before ++ across Tree.leaves ((cutLeaf order (seek key (childFor key first rest)).1
            (put (key, value) (seek key (childFor key first rest)).2) fresh).1.row []) ++
              after := by
      induction rest generalizing first with
      | nil =>
        rw [across_nil]
        exact ih first
      | cons c rest more =>
        obtain ⟨s, child⟩ := c
        rw [across_cons]
        by_cases le : s ≤ key
        · obtain ⟨before, after, split, cut⟩ := more child
          rw [childFor_of_le le, insertAmong_of_le le]
          refine ⟨first.leaves ++ before, after, by rw [split, List.append_assoc], ?_⟩
          rw [List.append_assoc, List.append_assoc, ← List.append_assoc before, ← cut]
          rfl
        · obtain ⟨before, after, split, cut⟩ := ih first
          rw [childFor_of_not_le le, insertAmong_of_not_le le]
          refine ⟨before, after ++ across Tree.leaves (child, rest), ?_, ?_⟩
          · rw [split]
            simp only [List.append_assoc, List.cons_append]
          · rw [across_row, ← List.append_assoc, ← cut]
            rfl
    obtain ⟨before, after, split, cut⟩ := among
    exact ⟨before, after, split, by rw [insert_node, leaves_cutNode, cut]; rfl⟩

/-- The leaf where a search ends among the parts of a leaf with a new entry. -/
def partFor (key : κ) : Outcome κ (Tree κ ν 0) → Nat × List (κ × ν)
  | .whole leaf => leaf
  | .split left s right => if s ≤ key then right else left

/-- A new entry behind the first one leaves the first one in front. -/
theorem put_of_starts {key' : κ} {entries : List (κ × ν)}
    (starts : ∃ e rest, entries = e :: rest ∧ e.1 ≤ key')
    (starts' : ∃ e rest, entries = e :: rest ∧ e.1 ≤ key) :
    ∃ e rest, put (key', value) entries = e :: rest ∧ e.1 ≤ key := by
  obtain ⟨e, rest, rfl, le⟩ := starts
  obtain ⟨e', rest', same, le'⟩ := starts'
  obtain ⟨rfl, rfl⟩ := List.cons.inj same
  exact ⟨e, put (key', value) rest, by rw [put_cons, if_neg (not_lt.mpr le)], le'⟩

/-- **A search that ended in the leaf of the new entry** ends in one of its parts. -/
theorem EndsAt.of_part {key' : κ} (two : 2 ≤ order) (sorted : Sorted leaf.2) (fresh : Nat)
    (here : EndsAt key' before leaf after) (there : EndsAt key before leaf after) :
    ∃ before' after',
      before ++ across Tree.leaves
        ((cutLeaf order leaf.1 (put (key', value) leaf.2) fresh).1.row []) ++
          after =
        before' ++ partFor key (cutLeaf order leaf.1 (put (key', value) leaf.2) fresh).1 :: after' ∧
      EndsAt key before' (partFor key (cutLeaf order leaf.1 (put (key', value) leaf.2) fresh).1)
        after' := by
  have starts : before = [] ∨ ∃ e rest, put (key', value) leaf.2 = e :: rest ∧ e.1 ≤ key := by
    rcases here.front, there.front with ⟨first | first, first' | first'⟩
    · exact .inl first
    · exact .inl first
    · exact .inl first'
    · exact .inr (put_of_starts first first')
  have sorted' : Sorted (put (key', value) leaf.2) := sorted.put (key', value)
  rcases cutLeaf_cases order leaf.1 (put (key', value) leaf.2) fresh with
    ⟨-, same⟩ | ⟨left, e, right, many, split, half, same⟩
  · rw [same]
    exact ⟨before, after, by simp [across, Outcome.row, Tree.leaves, partFor], starts, there.back⟩
  · rw [same]
    rw [split] at starts sorted' half many
    obtain ⟨-, sortedRight, -⟩ := List.pairwise_append.mp sorted'
    unfold partFor
    by_cases le : e.1 ≤ key
    · simp only [le, if_true]
      refine ⟨before ++ [(leaf.1, left)], after, ?_, .inr ⟨e, right, rfl, le⟩, there.back⟩
      simp [across, Outcome.row, Tree.leaves]
    · simp only [le, if_false]
      refine ⟨before, (fresh, e :: right) :: after, ?_, starts.imp_right ?_, ?_⟩
      · simp [across, Outcome.row, Tree.leaves]
      · -- the left half is not empty, so it has the first entry
        rintro ⟨e', rest, first, le'⟩
        cases left with
        | nil =>
          simp only [List.nil_append, List.length_nil, List.length_cons] at half many
          omega
        | cons e'' left =>
          obtain ⟨rfl, -⟩ := List.cons.inj first
          exact ⟨_, left, rfl, le'⟩
      · intro other member e' among
        rcases List.mem_cons.mp member with rfl | member
        · rcases List.mem_cons.mp among with rfl | among
          · exact not_le.mp le
          · exact (not_le.mp le).trans_le ((List.pairwise_cons.mp sortedRight).1 e' among)
        · exact there.back other member e' among

/-- **A search that ended elsewhere** ends there again. -/
theorem EndsAt.of_other {key' : κ} {cut : List (Nat × List (κ × ν))}
    (here : EndsAt key' before leaf after) (there : EndsAt key before' leaf' after')
    (same : before ++ leaf :: after = before' ++ leaf' :: after') (apart : leaf'.1 ≠ leaf.1)
    (entries : (cut.flatMap Prod.snd).Perm ((key', value) :: leaf.2)) :
    ∃ before'' after'', before ++ cut ++ after = before'' ++ leaf' :: after'' ∧
      EndsAt key before'' leaf' after'' := by
  rcases List.append_eq_append_iff.mp same with ⟨gap, left, right⟩ | ⟨gap, left, right⟩
  · -- behind the leaf of the new entry
    cases gap with
    | nil => exact (apart (congrArg Prod.fst (List.cons.inj right).1.symm)).elim
    | cons first gap =>
      obtain ⟨rfl, rfl⟩ := List.cons.inj right
      refine ⟨before ++ cut ++ gap, after', by simp, .inr (there.front.resolve_left ?_), there.back⟩
      exact left ▸ List.append_ne_nil_of_right_ne_nil _ (List.cons_ne_nil _ _)
  · -- in front of it
    cases gap with
    | nil => exact (apart (congrArg Prod.fst (List.cons.inj right).1)).elim
    | cons first gap =>
      obtain ⟨rfl, rfl⟩ := List.cons.inj right
      refine ⟨before', gap ++ cut ++ after, by rw [left]; simp, there.front, ?_⟩
      have some : before ≠ [] := left ▸ List.append_ne_nil_of_right_ne_nil _ (List.cons_ne_nil _ _)
      obtain ⟨e, rest, starts, le⟩ := here.front.resolve_left some
      have inLeaf : ∀ e ∈ leaf.2, key < e.1 :=
        there.back leaf (List.mem_append_right _ List.mem_cons_self)
      have reached : key < key' := (inLeaf e (starts ▸ List.mem_cons_self)).trans_le le
      intro other member e among
      rcases List.mem_append.mp member with member | member
      · rcases List.mem_append.mp member with member | member
        · exact there.back other (List.mem_append_left _ member) e among
        · rcases List.mem_cons.mp (entries.mem_iff.mp (List.mem_flatMap.mpr ⟨other, member, among⟩))
            with rfl | among
          · exact reached
          · exact inLeaf e among
      · exact there.back other
          (List.mem_append_right _ (List.mem_cons_of_mem _ member)) e among

/-- The leaves of an index after an insertion are those of the outcome. -/
theorem leaves_indexInsert (x : Index κ ν) (entry : κ × ν) :
    (x.insert order entry).root.leaves =
      across Tree.leaves ((insert order entry.1 entry.2 x.root x.fresh).1.row []) := by
  unfold Index.insert
  rcases insert order entry.1 entry.2 x.root x.fresh with ⟨t | ⟨left, s, right⟩, fresh⟩
  · exact (across_nil _ _).symm
  · rfl

/-- In a row of leaves on pages of their own, a leaf has one place. -/
theorem place_unique (nodup : ((before ++ leaf :: after).map Prod.fst).Nodup)
    (same : before ++ leaf :: after = before' ++ leaf :: after') :
    before = before' ∧ after = after' := by
  obtain ⟨-, behind, apart⟩ := List.nodup_append'.mp (List.Nodup.of_map _ nodup)
  have front : leaf ∉ before := fun member => apart member List.mem_cons_self
  have back : leaf ∉ after := (List.nodup_cons.mp behind).1
  obtain ⟨sameFront, -, sameBack⟩ := (List.append_cons_inj_of_notMem front back).mp same
  exact ⟨sameFront, sameBack⟩

/-- Two searches that end on the same page end in the same leaf. -/
theorem seek_eq_of_page {x : Index κ ν} (ok : x.Ok order) (two : 2 ≤ order) {key key' : κ}
    (same : (seek key x.root).1 = (seek key' x.root).1) : seek key x.root = seek key' x.root := by
  have nodup : (x.root.leaves.map Prod.fst).Nodup := x.root.leaves_sublist.nodup ok.nodup
  have among : ∀ key, seek key x.root ∈ x.root.leaves := by
    intro key
    obtain ⟨before, after, split, -⟩ := seek_spec two key ok.shaped ok.sorted
    rw [split]
    exact List.mem_append_right _ List.mem_cons_self
  exact List.inj_on_of_nodup_map nodup (among key) (among key') same

/-- The entries of a leaf are in order. -/
theorem sorted_seek {x : Index κ ν} (ok : x.Ok order) (two : 2 ≤ order) (key : κ) :
    Sorted (seek key x.root).2 := by
  obtain ⟨before, after, split, -⟩ := seek_spec two key ok.shaped ok.sorted
  have sorted := ok.sorted
  unfold Tree.entries at sorted
  rw [split] at sorted
  refine sorted.sublist ?_
  rw [List.flatMap_append, List.flatMap_cons]
  exact (List.sublist_append_left _ _).trans (List.sublist_append_right _ _)

/-- **Where a search ends after an insertion.** -/
theorem seek_insert (two : 2 ≤ order) {x : Index κ ν} (ok : x.Ok order) (key key' : κ) (value : ν) :
    seek key (x.insert order (key', value)).root =
      if (seek key x.root).1 = (seek key' x.root).1 then
        partFor key (cutLeaf order (seek key' x.root).1 (put (key', value) (seek key' x.root).2)
          x.fresh).1
      else seek key x.root := by
  have nodup : (x.root.leaves.map Prod.fst).Nodup := x.root.leaves_sublist.nodup ok.nodup
  obtain ⟨before, after, split, cut⟩ :=
    @leaves_insert κ ν _ key' order value x.height x.root x.fresh
  obtain ⟨b, a, split', here⟩ := seek_spec two key' ok.shaped ok.sorted
  obtain ⟨rfl, rfl⟩ := place_unique (split' ▸ nodup) (split'.symm.trans split)
  obtain ⟨before', after', split'', there⟩ := seek_spec two key ok.shaped ok.sorted
  have here : EndsAt key' b (seek key' x.root) a := ⟨here.1, here.2⟩
  have there : EndsAt key before' (seek key x.root) after' := ⟨there.1, there.2⟩
  obtain ⟨ok', -⟩ := ok.insert two (key', value)
  obtain ⟨front, back, split₀, now⟩ := seek_spec two key ok'.shaped ok'.sorted
  rw [leaves_indexInsert, cut] at split₀
  have now : EndsAt key front _ back := ⟨now.1, now.2⟩
  by_cases same : (seek key x.root).1 = (seek key' x.root).1
  · rw [if_pos same]
    rw [seek_eq_of_page ok two same] at there split''
    obtain ⟨rfl, rfl⟩ := place_unique (split ▸ nodup) (split.symm.trans split'')
    obtain ⟨front', back', parts, part⟩ :=
      @EndsAt.of_part _ _ _ key _ _ _ order value key' two (sorted_seek ok two key')
        x.fresh here there
    exact (now.unique part (split₀.symm.trans parts)).2.1
  · rw [if_neg same]
    have entries := (entries_cutLeaf order (seek key' x.root).1
      (put (key', value) (seek key' x.root).2) x.fresh).symm ▸ put_perm (key', value) _
    obtain ⟨front', back', parts, place⟩ :=
      here.of_other there (split.symm.trans split'') same entries
    exact (now.unique place (split₀.symm.trans parts)).2.1

end Insertion

/-! ### Entries with one key -/

section Repeated

variable {order : Nat} {entries : List (κ × ν)} {entry : κ × ν}

/-- The entry with the key that a search finds. -/
def firstWith (key : κ) (entries : List (κ × ν)) : Option (κ × ν) :=
  entries.find? fun e => e.1 = key

theorem firstWith_eq_head (key : κ) (entries : List (κ × ν)) :
    firstWith key entries = (entries.filter fun e => e.1 = key).head? :=
  (List.head?_filter ..).symm

/-- **The new entry moves the old ones about**: the leaf is cut between entries with the key, and
the first one behind the cut has another value than the first one of all. -/
def Displaces (order : Nat) (key : κ) (entry : κ × ν) (entries : List (κ × ν)) : Prop :=
  order < entries.length + 1 ∧
    ∃ first e, firstWith key ((put entry entries).take ((entries.length + 1) / 2)) = some first ∧
      (put entry entries)[(entries.length + 1) / 2]? = some e ∧ e.1 = key ∧ e.2 ≠ first.2

theorem firstWith_put (sorted : Sorted entries) (apart : entry.1 ≠ key) :
    firstWith key (put entry entries) = firstWith key entries := by
  have none : [entry].filter (fun e => e.1 = key) = [] :=
    List.filter_cons_of_neg (by simpa using apart)
  rw [firstWith_eq_head, firstWith_eq_head, sorted.filter_put, none, List.append_nil]

/-- **What a search finds in its part of the leaf** is what it found in the leaf, unless the new
entry displaces it. -/
theorem firstWith_partFor (sorted : Sorted entries) (apart : entry.1 ≠ key) (page fresh : Nat) :
    (firstWith key (partFor key (cutLeaf order page (put entry entries) fresh).1).2).map Prod.snd =
        (firstWith key entries).map Prod.snd ↔
      ¬ Displaces order key entry entries := by
  have sorted' : Sorted (put entry entries) := sorted.put entry
  rw [← firstWith_put sorted apart]
  unfold Displaces
  rw [← length_put entry entries]
  generalize put entry entries = all at sorted' ⊢
  rcases cutLeaf_cases order page all fresh with
    ⟨few, same⟩ | ⟨left, e, right, many, split, half, same⟩
  · rw [same]
    exact iff_of_true rfl fun displaces => absurd displaces.1 (Nat.not_lt.mpr few)
  · rw [same, ← half, split, List.take_left, List.getElem?_append_right (Nat.le_refl _),
      Nat.sub_self]
    rw [split] at sorted' many
    obtain ⟨-, -, ordered⟩ := List.pairwise_append.mp sorted'
    have whole : firstWith key (left ++ e :: right) =
        (firstWith key left).or (firstWith key (e :: right)) := List.find?_append
    simp only [partFor, List.getElem?_cons_zero, Option.some.injEq, whole]
    by_cases le : e.1 ≤ key
    · rw [if_pos le]
      cases inLeft : firstWith key left with
      | none => simp
      | some first =>
        have isKey : first.1 = key := by simpa using List.find?_some inLeft
        have reached : e.1 = key :=
          le_antisymm le
            (isKey ▸ ordered first (List.mem_of_find?_eq_some inLeft) e List.mem_cons_self)
        have inRight : firstWith key (e :: right) = some e :=
          List.find?_cons_of_pos (by simpa using reached)
        simp only [inRight, Option.some_or, Option.map_some, Option.some.injEq]
        constructor
        · rintro same ⟨-, _, _, rfl, rfl, -, differs⟩
          exact differs same
        · intro stays
          by_contra differs
          exact stays ⟨many, first, e, rfl, rfl, reached, differs⟩
    · rw [if_neg le]
      have none : firstWith key (e :: right) = none := by
        refine List.find?_eq_none.mpr fun e' member => ?_
        have above : key < e'.1 := by
          rcases List.mem_cons.mp member with rfl | member
          · exact not_le.mp le
          · exact (not_le.mp le).trans_le
              ((List.pairwise_cons.mp (List.pairwise_append.mp sorted').2.1).1 e' member)
        simpa using above.ne'
      rw [none, Option.or_none]
      refine iff_of_true rfl ?_
      rintro ⟨-, _, _, -, rfl, isKey, -⟩
      exact le isKey.le

/-- **What a search finds after an insertion of another key.** -/
theorem found_insert_iff (two : 2 ≤ order) {x : Index κ ν} (ok : x.Ok order)
    (apart : entry.1 ≠ key) :
    (firstWith key (seek key (x.insert order entry).root).2).map Prod.snd =
        (firstWith key (seek key x.root).2).map Prod.snd ↔
      ¬ ((seek key x.root).1 = (seek entry.1 x.root).1 ∧
        Displaces order key entry (seek entry.1 x.root).2) := by
  rw [seek_insert two ok key entry.1 entry.2]
  by_cases same : (seek key x.root).1 = (seek entry.1 x.root).1
  · rw [if_pos same, seek_eq_of_page ok two same,
      firstWith_partFor (sorted_seek ok two entry.1) apart]
    simp only [true_and]
  · rw [if_neg same]
    exact iff_of_true rfl fun both => same both.1

/-- The leaves with an entry for the key. -/
def holders (key : κ) (leaves : List (Nat × List (κ × ν))) : List (Nat × List (κ × ν)) :=
  leaves.filter fun leaf => leaf.2.any fun e => e.1 = key

theorem mem_holders {leaves : List (Nat × List (κ × ν))} :
    leaf ∈ holders key leaves ↔ leaf ∈ leaves ∧ ∃ e ∈ leaf.2, e.1 = key := by
  unfold holders
  simp only [List.mem_filter, List.any_eq_true, decide_eq_true_eq]

/-- What a search passes over has no greater key. -/
theorem EndsAt.le_of_passed (here : EndsAt key before leaf after)
    (sorted : Sorted ((before ++ leaf :: after).flatMap Prod.snd)) :
    ∀ e ∈ before.flatMap Prod.snd, e.1 ≤ key := by
  intro e member
  obtain ⟨other, among, there⟩ := List.mem_flatMap.mp member
  obtain ⟨first, rest, starts, le⟩ := here.front.resolve_left (List.ne_nil_of_mem among)
  rw [List.flatMap_append] at sorted
  have inLeaf : first ∈ (leaf :: after).flatMap Prod.snd := by
    rw [List.flatMap_cons, starts]
    exact List.mem_append_left _ List.mem_cons_self
  exact ((List.pairwise_append.mp sorted).2.2 e member first inLeaf).trans le

/-- **A key lies in at most one leaf** when there are no entries with it in front of where its
search ends. -/
theorem holders_le_one_iff (here : EndsAt key before leaf after)
    (sorted : Sorted ((before ++ leaf :: after).flatMap Prod.snd)) :
    (holders key (before ++ leaf :: after)).length ≤ 1 ↔ ∀ e ∈ before.flatMap Prod.snd,
      e.1 ≠ key := by
  have none : holders key after = [] := by
    refine List.eq_nil_iff_forall_not_mem.mpr fun other member => ?_
    obtain ⟨among, e, there, isKey⟩ := mem_holders.mp member
    exact (here.back other among e there).ne' isKey
  have parts : holders key (before ++ leaf :: after) =
      holders key before ++ (holders key [leaf] ++ holders key after) := by
    unfold holders
    rw [← List.filter_append, ← List.filter_append]
    rfl
  rw [parts, none, List.append_nil, List.length_append]
  constructor
  · intro few e member isKey
    obtain ⟨other, among, there⟩ := List.mem_flatMap.mp member
    have inFront : 0 < (holders key before).length :=
      List.length_pos_of_mem (mem_holders.mpr ⟨among, e, there, isKey⟩)
    -- the leaf where the search ends starts with the key too
    obtain ⟨first, rest, starts, le⟩ := here.front.resolve_left (List.ne_nil_of_mem among)
    rw [List.flatMap_append] at sorted
    have inLeaf : first ∈ (leaf :: after).flatMap Prod.snd := by
      rw [List.flatMap_cons, starts]
      exact List.mem_append_left _ List.mem_cons_self
    have ge : key ≤ first.1 := isKey ▸ (List.pairwise_append.mp sorted).2.2 e member first inLeaf
    have holds : leaf ∈ holders key [leaf] :=
      mem_holders.mpr ⟨List.mem_singleton_self leaf, first, starts ▸ List.mem_cons_self,
        le_antisymm le ge⟩
    have more := List.length_pos_of_mem holds
    omega
  · intro absent
    have empty : holders key before = [] := by
      refine List.eq_nil_iff_forall_not_mem.mpr fun other member => ?_
      obtain ⟨among, e, there, isKey⟩ := mem_holders.mp member
      exact absent e (List.mem_flatMap.mpr ⟨other, among, there⟩) isKey
    rw [empty, List.length_nil, Nat.zero_add]
    exact List.length_filter_le _ [leaf]

end Repeated

end BPlusTree
