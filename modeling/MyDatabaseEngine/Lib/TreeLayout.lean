/-
**B+-trees laid out on pages.**

A `Layout` says what a page holds: a leaf with its entries and the page of the next leaf, or an
inner node with its keys and the pages of its children. `Holds t next` says that the pages of `t`
hold its nodes and that its rightmost leaf is chained to `next`.

* `Holds.frame`: only the tree's own pages matter.
* `rowHolds_insertAmong`: when a child of a row is replaced on its own pages and new ones, the row
  holds with the child replaced; `keys_insertAmong`, `ids_insertAmong`: what its parent's arrays
  become.
* `Holds.linked`: the leaves are chained from left to right.

`Index` is a tree with the next free page; `Index.Ok` is kept by `Index.insert` and hence by a run
of them.
-/

import MyDatabaseEngine.Lib.BPlusTree

set_option linter.unusedSectionVars false

namespace BPlusTree

variable {κ ν : Type} [LinearOrder κ]

/-- **What pages hold.** -/
structure Layout (κ ν : Type) where
  leafAt : Nat → List (κ × ν) → Nat → Prop
  nodeAt : Nat → List κ → List Nat → Prop

/-- A row's children hold, each with the next one's leftmost leaf behind its own. -/
def RowHolds {h : Nat} (holds : Tree κ ν h → Nat → Prop) :
    Tree κ ν h → List (κ × Tree κ ν h) → Nat → Prop
  | first, [], next => holds first next
  | first, (_, child) :: rest, next => holds first child.firstLeaf ∧ RowHolds holds child rest next

/-- The pages of a row's children. -/
def ids {h : Nat} (row : Row κ ν h) : List Nat := row.1.id :: row.2.map fun child => child.2.id

/-- The separators of a row. -/
def keys {h : Nat} (row : Row κ ν h) : List κ := row.2.map Prod.fst

namespace Layout

variable (L : Layout κ ν)

/-- **The pages of a tree hold its nodes**, and `next` follows its rightmost leaf. -/
def Holds : {h : Nat} → Tree κ ν h → Nat → Prop
  | 0, t, next => L.leafAt t.1 t.2 next
  | _ + 1, t, next =>
    L.nodeAt t.1 (keys t.2) (ids t.2) ∧ RowHolds (fun t next => Holds t next) t.2.1 t.2.2 next

/-- The children of a row hold. -/
def Row {h : Nat} (row : Row κ ν h) (next : Nat) : Prop := RowHolds L.Holds row.1 row.2 next

variable {L}

theorem row_cons {h : Nat} {first child : Tree κ ν h} {s : κ} {rest : List (κ × Tree κ ν h)}
    {next : Nat} : L.Row (first, (s, child) :: rest) next ↔
      L.Holds first child.firstLeaf ∧ L.Row (child, rest) next := Iff.rfl

theorem holds_node {h page : Nat} {first : Tree κ ν h} {rest : List (κ × Tree κ ν h)} {next : Nat} :
    L.Holds (.node page first rest) next ↔
      L.nodeAt page (keys (first, rest)) (ids (first, rest)) ∧ L.Row (first, rest) next := Iff.rfl

theorem row_append {h : Nat} {left : List (κ × Tree κ ν h)} {s : κ} {child : Tree κ ν h}
    {right : List (κ × Tree κ ν h)} {next : Nat} : ∀ {first : Tree κ ν h},
    L.Row (first, left ++ (s, child) :: right) next ↔
      L.Row (first, left) child.firstLeaf ∧ L.Row (child, right) next := by
  induction left with
  | nil => exact Iff.rfl
  | cons c left ih =>
    intro first
    rw [List.cons_append, row_cons, row_cons, ih, and_assoc]

/-- A page holds in one layout what it holds in another. -/
structure Agree (L L' : Layout κ ν) (page : Nat) : Prop where
  leafAt : ∀ entries next, L.leafAt page entries next → L'.leafAt page entries next
  nodeAt : ∀ keys ids, L.nodeAt page keys ids → L'.nodeAt page keys ids

variable {L' : Layout κ ν}

theorem Row.frame_of {h : Nat}
    (frame : ∀ (t : Tree κ ν h) (next : Nat), (∀ page ∈ t.pages, Agree L L' page) →
      L.Holds t next → L'.Holds t next) {rest : List (κ × Tree κ ν h)} {next : Nat} :
    ∀ {first : Tree κ ν h}, (∀ page ∈ across Tree.pages (first, rest), Agree L L' page) →
      L.Row (first, rest) next → L'.Row (first, rest) next := by
  induction rest with
  | nil =>
    intro first agree
    rw [across_nil] at agree
    exact frame first next agree
  | cons c rest ih =>
    obtain ⟨s, child⟩ := c
    intro first agree holds
    rw [across_cons] at agree
    exact ⟨frame first _ (fun page member => agree page (List.mem_append_left _ member)) holds.1,
      ih (fun page member => agree page (List.mem_append_right _ member)) holds.2⟩

/-- **Only the tree's own pages matter.** -/
theorem Holds.frame {h : Nat} {t : Tree κ ν h} {next : Nat} (holds : L.Holds t next)
    (agree : ∀ page ∈ t.pages, Agree L L' page) : L'.Holds t next := by
  induction h generalizing next with
  | zero => exact (agree t.1 List.mem_cons_self).leafAt _ _ holds
  | succ h ih =>
    refine ⟨(agree t.1 List.mem_cons_self).nodeAt _ _ holds.1, ?_⟩
    exact Row.frame_of (fun _ _ agree holds => ih holds agree)
      (fun page member => agree page (List.mem_cons_of_mem _ member)) holds.2

theorem Row.frame {h : Nat} {row : BPlusTree.Row κ ν h} {next : Nat} (holds : L.Row row next)
    (agree : ∀ page ∈ across Tree.pages row, Agree L L' page) : L'.Row row next :=
  Row.frame_of (fun _ _ agree holds => holds.frame agree) agree holds

/-- What a layout asks of a page, it asks of all pages of the tree. -/
theorem Holds.forall_pages {h : Nat} {t : Tree κ ν h} {next : Nat} {P : Nat → Prop}
    (holds : L.Holds t next) (leaf : ∀ page entries next, L.leafAt page entries next → P page)
    (node : ∀ page keys ids, L.nodeAt page keys ids → P page) : ∀ page ∈ t.pages, P page := by
  induction h generalizing next with
  | zero =>
    intro page member
    rw [List.mem_singleton.mp member]
    exact leaf _ _ _ holds
  | succ h ih =>
    obtain ⟨id, first, rest⟩ := t
    obtain ⟨here, row⟩ := holds_node.mp holds
    refine List.forall_mem_cons.mpr ⟨node _ _ _ here, ?_⟩
    show ∀ page ∈ across Tree.pages (first, rest), P page
    clear holds here
    induction rest generalizing first with
    | nil =>
      rw [across_nil]
      exact ih row
    | cons c rest more =>
      rw [across_cons]
      exact List.forall_mem_append.mpr ⟨ih row.1, more c.2 row.2⟩

/-- What two layouts say together. -/
def both (L L' : Layout κ ν) : Layout κ ν where
  leafAt page entries next := L.leafAt page entries next ∧ L'.leafAt page entries next
  nodeAt page keys ids := L.nodeAt page keys ids ∧ L'.nodeAt page keys ids

theorem Holds.both {h : Nat} {t : Tree κ ν h} {next : Nat} (holds : L.Holds t next)
    (holds' : L'.Holds t next) : (L.both L').Holds t next := by
  induction h generalizing next with
  | zero => exact ⟨holds, holds'⟩
  | succ h ih =>
    obtain ⟨page, first, rest⟩ := t
    obtain ⟨node, row⟩ := holds_node.mp holds
    obtain ⟨node', row'⟩ := holds_node.mp holds'
    refine holds_node.mpr ⟨⟨node, node'⟩, ?_⟩
    clear holds holds' node node'
    induction rest generalizing first with
    | nil => exact ih row row'
    | cons c rest more => exact ⟨ih row.1 row'.1, more c.2 row.2 row'.2⟩

/-- A layout that asks only for something of few entries, and of few separators as the keys of
such. -/
theorem holds_of_entries {h : Nat} {t : Tree κ ν h} {order least next : Nat} {P : κ × ν → Prop}
    (leaf : ∀ page entries next, entries.length ≤ order → (∀ e ∈ entries, P e) →
      L.leafAt page entries next)
    (node : ∀ page (row : List κ) children, row.length ≤ order → children.length = row.length + 1 →
      (∀ key ∈ row, ∃ e, P e ∧ e.1 = key) → L.nodeAt page row children)
    (shaped : Shaped order t least) (all : ∀ e ∈ t.entries, P e) : L.Holds t next := by
  induction h generalizing least next with
  | zero =>
    rw [Tree.entries_leaf] at all
    exact leaf _ _ _ shaped.2 all
  | succ h ih =>
    rw [Tree.entries_node] at all
    obtain ⟨page, first, rest⟩ := t
    have shapedRow : RowShaped order (first, rest) := shaped.2.2
    have allRow : ∀ e ∈ across Tree.entries (first, rest), P e := all
    have few : (keys (first, rest)).length ≤ order := by
      unfold keys
      rw [List.length_map]
      exact shaped.2.1
    have more : (ids (first, rest)).length = (keys (first, rest)).length + 1 := by
      simp only [ids, keys, List.length_cons, List.length_map]
    refine holds_node.mpr ⟨node _ _ _ few more ?_, ?_⟩
    · intro key member
      obtain ⟨child, among, rfl⟩ := List.mem_map.mp member
      obtain ⟨e, isHead, same⟩ := Option.map_eq_some_iff.mp (shapedRow.2 child among).2
      refine ⟨e, allRow e (List.mem_append_right _ (List.mem_flatMap.mpr ⟨child, among, ?_⟩)), same⟩
      exact List.mem_of_mem_head? isHead
    · clear shaped all few more
      induction rest generalizing first with
      | nil =>
        rw [across_nil] at allRow
        exact ih shapedRow.1 allRow
      | cons c rest more =>
        rw [across_cons] at allRow
        obtain ⟨shapedFirst, -, shapedRest⟩ := rowShaped_cons.mp shapedRow
        exact ⟨ih shapedFirst fun e member => allRow e (List.mem_append_left _ member),
          more c.2 shapedRest fun e member => allRow e (List.mem_append_right _ member)⟩

/-! ### One child of a row -/

/-- The leaf behind the child that a key belongs to. -/
def nextFor {h : Nat} (key : κ) : Tree κ ν h → List (κ × Tree κ ν h) → Nat → Nat
  | _, [], next => next
  | _, (s, child) :: rest, next => if s ≤ key then nextFor key child rest next else child.firstLeaf

section NextFor

variable {h : Nat} {key s : κ} {first child : Tree κ ν h} {rest : List (κ × Tree κ ν h)}
  {next : Nat}

theorem nextFor_of_le (le : s ≤ key) :
    nextFor key first ((s, child) :: rest) next = nextFor key child rest next := if_pos le

theorem nextFor_of_not_le (not_le : ¬ s ≤ key) :
    nextFor key first ((s, child) :: rest) next = child.firstLeaf := if_neg not_le

/-- The leaf behind a child is one of the row's, or the one behind the row. -/
theorem nextFor_mem (key : κ) (first : Tree κ ν h) (rest : List (κ × Tree κ ν h)) (next : Nat) :
    nextFor key first rest next = next ∨
      nextFor key first rest next ∈ across Tree.pages (first, rest) := by
  induction rest generalizing first with
  | nil => exact .inl rfl
  | cons c rest ih =>
    obtain ⟨s, child⟩ := c
    by_cases le : s ≤ key
    · rw [nextFor_of_le le]
      exact (ih child).imp_right (List.mem_append_right _)
    · rw [nextFor_of_not_le le]
      exact .inr (List.mem_append_right _ (List.mem_append_left _ child.firstLeaf_mem_pages))

end NextFor

theorem Row.childFor {h : Nat} (key : κ) {rest : List (κ × Tree κ ν h)} {next : Nat} :
    ∀ {first : Tree κ ν h}, L.Row (first, rest) next →
      L.Holds (childFor key first rest) (nextFor key first rest next) := by
  induction rest with
  | nil => exact fun holds => holds
  | cons c rest ih =>
    obtain ⟨s, child⟩ := c
    intro first holds
    by_cases le : s ≤ key
    · rw [childFor_of_le le, nextFor_of_le le]
      exact ih holds.2
    · rw [childFor_of_not_le le, nextFor_of_not_le le]
      exact holds.1

section Among

variable {h : Nat} {key : κ} {insertChild : Tree κ ν h → Nat → Outcome κ (Tree κ ν h) × Nat}

theorem row_row {outcome : Outcome κ (Tree κ ν h)} {s : κ} {child : Tree κ ν h}
    {rest : List (κ × Tree κ ν h)} {next : Nat} :
    L.Row (outcome.row ((s, child) :: rest)) next ↔
      L.Row (outcome.row []) child.firstLeaf ∧ L.Row (child, rest) next := by
  cases outcome with
  | whole t => exact Iff.rfl
  | split left key right => exact and_assoc.symm

/-- **A child replaced on its own pages and new ones.** -/
theorem rowHolds_insertAmong
    (kept : ∀ t fresh, ((insertChild t fresh).1.row []).1.firstLeaf = t.firstLeaf)
    {rest : List (κ × Tree κ ν h)} {next fresh : Nat} : ∀ {first : Tree κ ν h},
    L.Row (first, rest) next → (across Tree.pages (first, rest)).Nodup →
    (∀ page ∈ across Tree.pages (first, rest), page ∉ (BPlusTree.childFor key first rest).pages →
      Agree L L' page) →
    L'.Row ((insertChild (BPlusTree.childFor key first rest) fresh).1.row [])
      (nextFor key first rest next) →
    L'.Row (insertAmong insertChild key first rest fresh).1 next := by
  induction rest with
  | nil => exact fun _ _ _ replaced => replaced
  | cons c rest ih =>
    obtain ⟨s, child⟩ := c
    intro first holds nodup agree replaced
    rw [across_cons] at nodup agree
    obtain ⟨nodupFirst, nodupRest, apart⟩ := List.nodup_append'.mp nodup
    by_cases le : s ≤ key
    · rw [childFor_of_le le] at agree replaced
      rw [nextFor_of_le le] at replaced
      rw [insertAmong_of_le le]
      refine row_cons.mpr ⟨?_, ih holds.2 nodupRest (fun page member => agree page
        (List.mem_append_right _ member)) replaced⟩
      rw [firstLeaf_insertAmong kept]
      refine holds.1.frame fun page member => agree page (List.mem_append_left _ member) ?_
      exact fun inside => apart member (mem_across_of_childFor inside)
    · rw [childFor_of_not_le le] at agree replaced
      rw [nextFor_of_not_le le] at replaced
      rw [insertAmong_of_not_le le]
      have others : L.Row (child, rest) next := holds.2
      refine row_row.mpr ⟨replaced, others.frame fun page member => ?_⟩
      exact agree page (List.mem_append_right _ member) fun inside => apart inside member

/-- What holds of the row with the child replaced holds of what the child became. -/
theorem row_of_insertAmong {rest : List (κ × Tree κ ν h)} {next fresh : Nat} :
    ∀ {first : Tree κ ν h}, L.Row (insertAmong insertChild key first rest fresh).1 next →
      L.Row ((insertChild (BPlusTree.childFor key first rest) fresh).1.row [])
        (nextFor key first rest next) := by
  induction rest with
  | nil => exact fun holds => holds
  | cons c rest ih =>
    obtain ⟨s, child⟩ := c
    intro first holds
    by_cases le : s ≤ key
    · rw [insertAmong_of_le le, row_cons] at holds
      rw [childFor_of_le le, nextFor_of_le le]
      exact ih holds.2
    · rw [insertAmong_of_not_le le] at holds
      rw [childFor_of_not_le le, nextFor_of_not_le le]
      exact (row_row.mp holds).1

end Among

/-- What holds of a node that may have been cut holds of its row. -/
theorem row_of_cutNode {h order page fresh next : Nat} {row : BPlusTree.Row κ ν h}
    (holds : L.Row ((cutNode order page row fresh).1.row []) next) : L.Row row next := by
  rcases cutNode_cases order page row fresh with
    ⟨-, same⟩ | ⟨left, key, child, right, -, split, -, same⟩
  · rw [same] at holds
    exact (holds_node.mp holds).2
  · obtain ⟨first, rest⟩ := row
    simp only at split
    rw [same] at holds
    rw [split, row_append]
    exact ⟨(holds_node.mp holds.1).2, (holds_node.mp holds.2).2⟩

/-! ### The chain of leaves -/

/-- Leaves chained from left to right, and `next` behind the last. -/
def Linked (L : Layout κ ν) : List (Nat × List (κ × ν)) → Nat → Prop
  | [], _ => True
  | leaf :: rest, next =>
    L.leafAt leaf.1 leaf.2 ((rest.head?.map Prod.fst).getD next) ∧ Linked L rest next

theorem linked_cons {leaf : Nat × List (κ × ν)} {rest : List (Nat × List (κ × ν))} {next : Nat} :
    L.Linked (leaf :: rest) next ↔
      L.leafAt leaf.1 leaf.2 ((rest.head?.map Prod.fst).getD next) ∧ L.Linked rest next := Iff.rfl

theorem linked_append {front back : List (Nat × List (κ × ν))} {next : Nat} :
    L.Linked (front ++ back) next ↔
      L.Linked front ((back.head?.map Prod.fst).getD next) ∧ L.Linked back next := by
  induction front with
  | nil => exact ⟨fun linked => ⟨trivial, linked⟩, And.right⟩
  | cons leaf front ih =>
    rw [List.cons_append, linked_cons, linked_cons, ih, and_assoc]
    cases front <;> rfl

theorem Holds.linked {h : Nat} {t : Tree κ ν h} {next : Nat} (holds : L.Holds t next) :
    L.Linked t.leaves next := by
  induction h generalizing next with
  | zero => exact ⟨holds, trivial⟩
  | succ h ih =>
    obtain ⟨page, first, rest⟩ := t
    have row : L.Row (first, rest) next := holds.2
    show L.Linked (across Tree.leaves (first, rest)) next
    clear holds
    induction rest generalizing first with
    | nil =>
      rw [across_nil]
      exact ih row
    | cons c rest more =>
      obtain ⟨s, child⟩ := c
      rw [across_cons, linked_append]
      refine ⟨?_, more child row.2⟩
      have head : ((across Tree.leaves (child, rest)).head?.map Prod.fst).getD next =
          child.firstLeaf := by
        unfold across
        rw [List.head?_append_of_ne_nil _ child.leaves_ne_nil, Tree.head_leaves]
        rfl
      rw [head]
      exact ih row.1

end Layout

/-! ### The arrays of a node -/

/-- How many separators do not exceed the key: the place of the child it belongs to. -/
def slot (key : κ) (keys : List κ) : Nat := (keys.takeWhile (· ≤ key)).length

section Arrays

variable {h : Nat} {key : κ} {insertChild : Tree κ ν h → Nat → Outcome κ (Tree κ ν h) × Nat}

theorem slot_cons_of_le {s : κ} (le : s ≤ key) (keys : List κ) :
    slot key (s :: keys) = slot key keys + 1 := by
  unfold slot
  rw [List.takeWhile_cons_of_pos (by simpa using le)]
  rfl

theorem slot_cons_of_not_le {s : κ} (not_le : ¬ s ≤ key) (keys : List κ) :
    slot key (s :: keys) = 0 := by
  unfold slot
  rw [List.takeWhile_cons_of_neg (by simpa using not_le)]
  rfl

theorem slot_le_length (key : κ) (keys : List κ) : slot key keys ≤ keys.length :=
  (List.takeWhile_sublist _).length_le

theorem length_ids (row : Row κ ν h) : (ids row).length = (keys row).length + 1 := by
  simp only [ids, keys, List.length_cons, List.length_map]

theorem keys_append {first child : Tree κ ν h} {left right : List (κ × Tree κ ν h)} {s : κ} :
    keys (first, left ++ (s, child) :: right) = keys (first, left) ++ s :: keys (child, right) := by
  unfold keys
  rw [List.map_append, List.map_cons]

theorem ids_append {first child : Tree κ ν h} {left right : List (κ × Tree κ ν h)} {s : κ} :
    ids (first, left ++ (s, child) :: right) = ids (first, left) ++ ids (child, right) := by
  unfold ids
  rw [List.map_append, List.map_cons, List.cons_append]

/-- The children's pages are among those of the row. -/
theorem mem_across_of_mem_ids {row : Row κ ν h} {page : Nat} (member : page ∈ ids row) :
    page ∈ across Tree.pages row := by
  rcases List.mem_cons.mp member with rfl | member
  · exact List.mem_append_left _ row.1.id_mem_pages
  · obtain ⟨child, among, rfl⟩ := List.mem_map.mp member
    exact List.mem_append_right _ (List.mem_flatMap.mpr ⟨child, among, child.2.id_mem_pages⟩)

/-- The child a key belongs to stands in its slot. -/
theorem ids_slot (first : Tree κ ν h) (rest : List (κ × Tree κ ν h)) :
    (ids (first, rest))[slot key (keys (first, rest))]? = some (childFor key first rest).id := by
  induction rest generalizing first with
  | nil => rfl
  | cons c rest ih =>
    obtain ⟨s, child⟩ := c
    show (first.id :: ids (child, rest))[slot key (s :: keys (child, rest))]? = _
    by_cases le : s ≤ key
    · rw [slot_cons_of_le le, childFor_of_le le, List.getElem?_cons_succ]
      exact ih child
    · rw [slot_cons_of_not_le le, childFor_of_not_le le]
      rfl

/-- A child that stays whole leaves its parent's arrays alone. -/
theorem arrays_of_whole
    (kept : ∀ t fresh, ((insertChild t fresh).1.row []).1.id = t.id) {t : Tree κ ν h}
    {fresh fresh' : Nat} {rest : List (κ × Tree κ ν h)} : ∀ {first : Tree κ ν h},
    insertChild (childFor key first rest) fresh = (.whole t, fresh') →
      keys (insertAmong insertChild key first rest fresh).1 = keys (first, rest) ∧
        ids (insertAmong insertChild key first rest fresh).1 = ids (first, rest) := by
  induction rest with
  | nil =>
    intro first whole
    have same := kept first fresh
    rw [show insertChild first fresh = _ from whole] at same
    unfold insertAmong
    rw [show insertChild first fresh = _ from whole]
    exact ⟨rfl, congrArg (· :: []) same⟩
  | cons c rest ih =>
    obtain ⟨s, child⟩ := c
    intro first whole
    by_cases le : s ≤ key
    · rw [childFor_of_le le] at whole
      obtain ⟨sameKeys, sameIds⟩ := ih whole
      rw [insertAmong_of_le le]
      exact ⟨congrArg (s :: ·) sameKeys, congrArg (first.id :: ·) sameIds⟩
    · rw [childFor_of_not_le le] at whole
      have same := kept first fresh
      rw [whole] at same
      rw [insertAmong_of_not_le le, whole]
      exact ⟨rfl, congrArg (· :: ids (child, rest)) same⟩

/-- A child that is cut adds its separator and its new page behind its slot. -/
theorem arrays_of_split
    (kept : ∀ t fresh, ((insertChild t fresh).1.row []).1.id = t.id) {left right : Tree κ ν h}
    {sep : κ} {fresh fresh' : Nat} {rest : List (κ × Tree κ ν h)} : ∀ {first : Tree κ ν h},
    insertChild (childFor key first rest) fresh = (.split left sep right, fresh') →
      keys (insertAmong insertChild key first rest fresh).1 =
          (keys (first, rest)).take (slot key (keys (first, rest))) ++
            sep :: (keys (first, rest)).drop (slot key (keys (first, rest))) ∧
        ids (insertAmong insertChild key first rest fresh).1 =
          (ids (first, rest)).take (slot key (keys (first, rest)) + 1) ++
            right.id :: (ids (first, rest)).drop (slot key (keys (first, rest)) + 1) := by
  induction rest with
  | nil =>
    intro first split
    have same := kept first fresh
    rw [show insertChild first fresh = _ from split] at same
    unfold insertAmong
    rw [show insertChild first fresh = _ from split]
    exact ⟨rfl, congrArg (· :: [right.id]) same⟩
  | cons c rest ih =>
    obtain ⟨s, child⟩ := c
    intro first split
    have sep : keys (first, (s, child) :: rest) = s :: keys (child, rest) := rfl
    have id : ids (first, (s, child) :: rest) = first.id :: ids (child, rest) := rfl
    rw [sep, id]
    by_cases le : s ≤ key
    · rw [childFor_of_le le] at split
      obtain ⟨newKeys, newIds⟩ := ih split
      rw [insertAmong_of_le le, slot_cons_of_le le]
      simp only [List.take_succ_cons, List.drop_succ_cons, List.cons_append]
      exact ⟨congrArg (s :: ·) newKeys, congrArg (first.id :: ·) newIds⟩
    · rw [childFor_of_not_le le] at split
      have same := kept first fresh
      rw [split] at same
      rw [insertAmong_of_not_le le, split, slot_cons_of_not_le le]
      exact ⟨rfl, congrArg (· :: right.id :: ids (child, rest)) same⟩

end Arrays

/-! ### A tree and its next free page -/

structure Index (κ ν : Type) where
  height : Nat
  root : Tree κ ν height
  fresh : Nat

namespace Index

/-- An index on one empty leaf. -/
def empty (page : Nat) : Index κ ν := ⟨0, .leaf page [], page + 1⟩

/-- **Insertion**: a root that was cut gets a new root above its halves. -/
def insert (order : Nat) (x : Index κ ν) (entry : κ × ν) : Index κ ν :=
  match BPlusTree.insert order entry.1 entry.2 x.root x.fresh with
  | (.whole t, fresh) => ⟨x.height, t, fresh⟩
  | (.split left key right, fresh) => ⟨x.height + 1, .node fresh left [(key, right)], fresh + 1⟩

/-- Insertions one after the other. -/
def insertAll (order : Nat) (x : Index κ ν) (entries : List (κ × ν)) : Index κ ν :=
  entries.foldl (insert order) x

/-- **A well-formed index**: bounds and separators, sorted leaves, every page once and in use. -/
structure Ok (order : Nat) (x : Index κ ν) : Prop where
  shaped : Shaped order x.root 0
  sorted : Sorted x.root.entries
  nodup : x.root.pages.Nodup
  used : ∀ page ∈ x.root.pages, page < x.fresh

theorem ok_empty (order page : Nat) : (empty page : Index κ ν).Ok order where
  shaped := ⟨Nat.le_refl 0, Nat.zero_le order⟩
  sorted := List.Pairwise.nil
  nodup := List.nodup_singleton page
  used := by
    intro other member
    rw [List.mem_singleton.mp member]
    exact Nat.lt_succ_self page

/-- **Insertion uses the next free pages**, each once. -/
theorem pages_insert (order : Nat) (x : Index κ ν) (entry : κ × ν) :
    ∃ count, (x.insert order entry).fresh = x.fresh + count ∧
      (x.insert order entry).root.pages.Perm (x.root.pages ++ List.range' x.fresh count) := by
  obtain ⟨count, next, perm⟩ := @BPlusTree.pages_insert _ _ _ order entry.1 entry.2 _ x.root x.fresh
  unfold Index.insert
  rcases outcome : BPlusTree.insert order entry.1 entry.2 x.root x.fresh with
    ⟨⟨t⟩ | ⟨left, key, right⟩, fresh⟩
  · rw [outcome] at next perm
    exact ⟨count, next, (across_nil Tree.pages t) ▸ perm⟩
  · rw [outcome] at next perm
    have nextPage : fresh = x.fresh + count := next
    refine ⟨count + 1, congrArg Nat.succ nextPage, ?_⟩
    rw [List.range'_concat, ← List.append_assoc, Nat.one_mul, ← nextPage]
    exact (perm.cons fresh).trans (List.perm_append_singleton fresh _).symm

theorem le_fresh_insert (order : Nat) (x : Index κ ν) (entry : κ × ν) :
    x.fresh ≤ (x.insert order entry).fresh := by
  obtain ⟨count, next, -⟩ := pages_insert order x entry
  exact (Nat.le_add_right _ count).trans_eq next.symm

theorem le_fresh_insertAll (order : Nat) (entries : List (κ × ν)) :
    ∀ x : Index κ ν, x.fresh ≤ (x.insertAll order entries).fresh := by
  induction entries with
  | nil => exact fun _ => Nat.le_refl _
  | cons entry entries ih => exact fun x => (le_fresh_insert order x entry).trans (ih _)

/-- The pages after an insertion are those of before, and new ones. -/
theorem mem_pages_insert {order page : Nat} {x : Index κ ν} {entry : κ × ν}
    (member : page ∈ (x.insert order entry).root.pages) : page ∈ x.root.pages ∨ x.fresh ≤ page := by
  obtain ⟨count, -, perm⟩ := pages_insert order x entry
  exact (List.mem_append.mp (perm.mem_iff.mp member)).imp_right fun new =>
    (List.mem_range'_1.mp new).1

/-- **One insertion** keeps the index well-formed; its entries become those of a sorted
insertion. -/
theorem Ok.insert {order : Nat} (two : 2 ≤ order) {x : Index κ ν} (ok : x.Ok order)
    (entry : κ × ν) :
    (x.insert order entry).Ok order ∧
      (x.insert order entry).root.entries = put entry x.root.entries := by
  obtain ⟨count, next, perm⟩ := pages_insert order x entry
  have kept : Shaped order (x.insert order entry).root 0 ∧
      (x.insert order entry).root.entries = put entry x.root.entries := by
    obtain ⟨puts, shaped⟩ :=
      @insert_spec _ _ _ order entry.1 entry.2 _ two _ _ x.fresh ok.shaped ok.sorted
    unfold Index.insert
    rcases outcome : BPlusTree.insert order entry.1 entry.2 x.root x.fresh with
      ⟨⟨t⟩ | ⟨left, key, right⟩, fresh⟩
    · rw [outcome] at puts shaped
      exact ⟨shaped, (across_nil _ _).symm.trans puts⟩
    · rw [outcome] at puts shaped
      refine ⟨⟨Nat.zero_le _, ?_, shaped⟩, (Tree.entries_node _).trans puts⟩
      show 1 ≤ order
      omega
  refine ⟨⟨kept.1, ?_, perm.nodup_iff.mpr ?_, fun page member => ?_⟩, kept.2⟩
  · rw [kept.2]
    exact ok.sorted.put entry
  · refine List.nodup_append'.mpr ⟨ok.nodup, List.nodup_range', fun page member inside => ?_⟩
    have used := ok.used page member
    have new := (List.mem_range'_1.mp inside).1
    omega
  · rw [next]
    rcases List.mem_append.mp (perm.mem_iff.mp member) with member | member
    · exact Nat.lt_add_right count (ok.used page member)
    · exact (List.mem_range'_1.mp member).2

/-- **A run of insertions.** -/
theorem Ok.insertAll {order : Nat} (two : 2 ≤ order) {entries : List (κ × ν)} :
    ∀ {x : Index κ ν}, x.Ok order → (x.insertAll order entries).Ok order ∧
      (x.insertAll order entries).root.entries =
        entries.foldl (fun list entry => put entry list) x.root.entries := by
  induction entries with
  | nil => exact fun ok => ⟨ok, rfl⟩
  | cons entry entries ih =>
    intro x ok
    obtain ⟨ok', same⟩ := ok.insert two entry
    obtain ⟨ok'', same'⟩ := ih ok'
    exact ⟨ok'', by rw [List.foldl_cons, ← same]; exact same'⟩

end Index

/-- Entries put one after the other into a sorted list: a stable sort. -/
theorem foldl_put_spec {entries : List (κ × ν)} : ∀ {list : List (κ × ν)}, Sorted list →
    Sorted (entries.foldl (fun list entry => put entry list) list) ∧
      (entries.foldl (fun list entry => put entry list) list).Perm (list ++ entries) ∧
      ∀ key, (entries.foldl (fun list entry => put entry list) list).filter (fun e => e.1 = key) =
        (list ++ entries).filter fun e => e.1 = key := by
  induction entries with
  | nil =>
    intro list sorted
    rw [List.append_nil]
    exact ⟨sorted, List.Perm.refl _, fun _ => rfl⟩
  | cons entry entries ih =>
    intro list sorted
    obtain ⟨sorted', perm, stable⟩ := ih (sorted.put entry)
    refine ⟨sorted', perm.trans ?_, fun key => (stable key).trans ?_⟩
    · exact ((put_perm entry list).append_right entries).trans List.perm_middle.symm
    · rw [List.filter_append, sorted.filter_put, ← List.filter_append, ← List.filter_append,
        List.append_assoc]
      rfl

end BPlusTree
