/-
**B+-trees, as the values their pages stand for.**

`Tree κ ν h` is a B+-tree of height `h`: a leaf has a page id and its entries, an inner node a page
id and a row of children, the first one without a separator and the others behind theirs. All leaves
have one depth because the height is in the type. Keys may repeat; an entry goes behind the ones
with its key.

`insert` descends to a leaf and cuts every node that has outgrown `order` on the way back. A cut
node keeps its page id for the left half and takes the next free one for the right.

* `entries_insert`: the entries become those of a sorted insertion (`put`).
* `shaped_insert`: every node keeps between `order / 2` and `order` keys, and every separator stays
  the first key behind it.
* `pages_insert`: the pages are the old ones and the new ones, each once.
* `seek_spec`: where in the row of leaves a search ends.
-/

import Mathlib.Data.List.Sort
import Mathlib.Data.List.Nodup
import Mathlib.Order.Basic

set_option linter.unusedSectionVars false

namespace BPlusTree

variable {κ ν : Type} [LinearOrder κ]

/-! ### Sorted lists of entries -/

/-- Entries in the order of their keys. -/
def Sorted (entries : List (κ × ν)) : Prop := entries.Pairwise fun e e' => e.1 ≤ e'.1

/-- **Put an entry behind those whose keys do not exceed its own.** -/
def put (entry : κ × ν) (entries : List (κ × ν)) : List (κ × ν) :=
  entries.orderedInsert (fun e e' => e.1 < e'.1) entry

theorem put_cons (entry e : κ × ν) (entries : List (κ × ν)) :
    put entry (e :: entries) =
      if entry.1 < e.1 then entry :: e :: entries else e :: put entry entries := rfl

theorem put_perm (entry : κ × ν) (entries : List (κ × ν)) :
    (put entry entries).Perm (entry :: entries) := List.perm_orderedInsert _ _ _

@[simp]
theorem length_put (entry : κ × ν) (entries : List (κ × ν)) :
    (put entry entries).length = entries.length + 1 := (put_perm entry entries).length_eq

theorem put_append_of_le {entry : κ × ν} {front : List (κ × ν)} (le : ∀ e ∈ front, e.1 ≤ entry.1)
    (back : List (κ × ν)) : put entry (front ++ back) = front ++ put entry back := by
  induction front with
  | nil => rfl
  | cons e front ih =>
    rw [List.cons_append, put_cons, if_neg (not_lt.mpr (le e List.mem_cons_self)),
      ih fun e' member => le e' (List.mem_cons_of_mem _ member), List.cons_append]

theorem put_append_of_lt {entry : κ × ν} {back : List (κ × ν)}
    (lt : ∀ e, back.head? = some e → entry.1 < e.1) (front : List (κ × ν)) :
    put entry (front ++ back) = put entry front ++ back := by
  induction front with
  | nil =>
    cases back with
    | nil => rfl
    | cons e back =>
      rw [List.nil_append, put_cons, if_pos (lt e rfl)]
      rfl
  | cons e front ih =>
    rw [List.cons_append, put_cons, put_cons, ih]
    split <;> rfl

/-- An entry lands between those with smaller or equal keys and those with greater ones. -/
theorem put_between {entry : κ × ν} {front back : List (κ × ν)} (le : ∀ e ∈ front, e.1 ≤ entry.1)
    (lt : ∀ e ∈ back, entry.1 < e.1) : put entry (front ++ back) = front ++ entry :: back := by
  rw [put_append_of_le le]
  cases back with
  | nil => rfl
  | cons e back => rw [put_cons, if_pos (lt e List.mem_cons_self)]

theorem Sorted.put {entries : List (κ × ν)} (sorted : Sorted entries) (entry : κ × ν) :
    Sorted (put entry entries) := by
  induction entries with
  | nil => exact List.pairwise_singleton _ _
  | cons e entries ih =>
    obtain ⟨least, sorted⟩ := List.pairwise_cons.mp sorted
    rw [put_cons]
    by_cases before : entry.1 < e.1
    · rw [if_pos before]
      refine List.pairwise_cons.mpr ⟨fun e' member => ?_, List.pairwise_cons.mpr ⟨least, sorted⟩⟩
      rcases List.mem_cons.mp member with rfl | member
      · exact before.le
      · exact before.le.trans (least e' member)
    · rw [if_neg before]
      refine List.pairwise_cons.mpr ⟨fun e' member => ?_, ih sorted⟩
      rcases List.mem_cons.mp ((put_perm entry entries).mem_iff.mp member) with rfl | member
      · exact not_lt.mp before
      · exact least e' member

/-- **Insertion is stable**: among equal keys the new entry is the last. -/
theorem Sorted.filter_put {entries : List (κ × ν)} (sorted : Sorted entries) (entry : κ × ν)
    (key : κ) :
    (BPlusTree.put entry entries).filter (fun e => e.1 = key) =
      entries.filter (fun e => e.1 = key) ++ [entry].filter fun e => e.1 = key := by
  induction entries with
  | nil => rfl
  | cons e entries ih =>
    obtain ⟨least, sorted⟩ := List.pairwise_cons.mp sorted
    rw [put_cons]
    by_cases before : entry.1 < e.1
    · rw [if_pos before]
      by_cases same : entry.1 = key
      · have none : (e :: entries).filter (fun e => e.1 = key) = [] := by
          rw [List.filter_eq_nil_iff]
          intro e' member
          have above : entry.1 < e'.1 := by
            rcases List.mem_cons.mp member with rfl | member
            · exact before
            · exact before.trans_le (least e' member)
          simp only [decide_eq_true_eq]
          exact fun same' => above.ne (same.trans same'.symm)
        rw [List.filter_cons, none, List.nil_append]
        simp only [same, decide_true, if_true, List.filter_cons_of_pos, List.filter_nil]
      · simp only [List.filter_cons, same, decide_false, Bool.false_eq_true, if_false,
          List.filter_nil, List.append_nil]
    · rw [if_neg before, List.filter_cons, ih sorted, List.filter_cons (x := e)]
      split <;> rfl

/-! ### Trees -/

/-- **B+-trees of a height**: a leaf is its page id and entries, an inner node its page id, its
first child and the other children behind their separators. -/
def Tree (κ ν : Type) : Nat → Type
  | 0 => Nat × List (κ × ν)
  | h + 1 => Nat × Tree κ ν h × List (κ × Tree κ ν h)

/-- A leaf. -/
abbrev Tree.leaf (page : Nat) (entries : List (κ × ν)) : Tree κ ν 0 := (page, entries)

/-- An inner node. -/
abbrev Tree.node {h : Nat} (page : Nat) (first : Tree κ ν h) (rest : List (κ × Tree κ ν h)) :
    Tree κ ν (h + 1) := (page, first, rest)

/-- A row of children. -/
abbrev Row (κ ν : Type) (h : Nat) := Tree κ ν h × List (κ × Tree κ ν h)

/-- What the children of a row have, one after the other. -/
def across {h : Nat} {α : Type} (f : Tree κ ν h → List α) (row : Row κ ν h) : List α :=
  f row.1 ++ row.2.flatMap fun child => f child.2

theorem across_nil {h : Nat} {α : Type} (f : Tree κ ν h → List α) (first : Tree κ ν h) :
    across f (first, []) = f first := List.append_nil _

theorem across_cons {h : Nat} {α : Type} (f : Tree κ ν h → List α)
    (first child : Tree κ ν h) (s : κ) (rest : List (κ × Tree κ ν h)) :
    across f (first, (s, child) :: rest) = f first ++ across f (child, rest) := rfl

theorem across_append {h : Nat} {α : Type} (f : Tree κ ν h → List α) (first : Tree κ ν h)
    (left : List (κ × Tree κ ν h)) (s : κ) (child : Tree κ ν h) (right : List (κ × Tree κ ν h)) :
    across f (first, left ++ (s, child) :: right) = across f (first, left) ++
      across f (child, right) := by
  unfold across
  simp only [List.flatMap_append, List.flatMap_cons, List.append_assoc]

/-- What a child has, the row has. -/
theorem sublist_across {h : Nat} {α : Type} (f : Tree κ ν h → List α) (first : Tree κ ν h)
    {rest : List (κ × Tree κ ν h)} {child : κ × Tree κ ν h} (among : child ∈ rest) :
    (f child.2).Sublist (across f (first, rest)) := by
  unfold across
  rw [List.flatMap_def]
  refine List.Sublist.trans (List.sublist_flatten_of_mem ?_) (List.sublist_append_right _ _)
  exact List.mem_map_of_mem among

namespace Tree

/-- The page of the root. -/
def id : {h : Nat} → Tree κ ν h → Nat
  | 0, t => t.1
  | _ + 1, t => t.1

/-- The leaves from left to right. -/
def leaves : {h : Nat} → Tree κ ν h → List (Nat × List (κ × ν))
  | 0, t => [t]
  | _ + 1, t => across leaves t.2

/-- The page of the leftmost leaf. -/
def firstLeaf : {h : Nat} → Tree κ ν h → Nat
  | 0, t => t.1
  | _ + 1, t => firstLeaf t.2.1

/-- The pages of all nodes. -/
def pages : {h : Nat} → Tree κ ν h → List Nat
  | 0, t => [t.1]
  | _ + 1, t => t.1 :: across pages t.2

/-- The entries of all leaves. -/
def entries {h : Nat} (t : Tree κ ν h) : List (κ × ν) := t.leaves.flatMap Prod.snd

/-- The smallest key. -/
def firstKey {h : Nat} (t : Tree κ ν h) : Option κ := t.entries.head?.map Prod.fst

theorem entries_leaf (t : Tree κ ν 0) : t.entries = t.2 := List.append_nil _

theorem entries_node {h : Nat} (t : Tree κ ν (h + 1)) : t.entries = across entries t.2 := by
  show (across leaves t.2).flatMap Prod.snd = _
  unfold across
  rw [List.flatMap_append, List.flatMap_assoc]
  rfl

theorem leaves_ne_nil {h : Nat} (t : Tree κ ν h) : t.leaves ≠ [] := by
  induction h with
  | zero => exact List.cons_ne_nil _ _
  | succ h ih => exact fun empty => ih t.2.1 (List.append_eq_nil_iff.mp empty).1

theorem id_mem_pages {h : Nat} (t : Tree κ ν h) : t.id ∈ t.pages := by
  cases h <;> exact List.mem_cons_self

theorem head_leaves {h : Nat} (t : Tree κ ν h) :
    t.leaves.head?.map Prod.fst = some t.firstLeaf := by
  induction h with
  | zero => rfl
  | succ h ih =>
    show (across leaves t.2).head?.map Prod.fst = some (firstLeaf t.2.1)
    unfold across
    rw [List.head?_append_of_ne_nil _ (leaves_ne_nil _)]
    exact ih t.2.1

theorem firstLeaf_mem_pages {h : Nat} (t : Tree κ ν h) : t.firstLeaf ∈ t.pages := by
  induction h with
  | zero => exact List.mem_cons_self
  | succ h ih => exact List.mem_cons_of_mem _ (List.mem_append_left _ (ih t.2.1))

/-- The leaves are among the pages, in their order. -/
theorem leaves_sublist {h : Nat} (t : Tree κ ν h) : (t.leaves.map Prod.fst).Sublist t.pages := by
  induction h with
  | zero => exact List.Sublist.refl _
  | succ h ih =>
    refine List.Sublist.cons _ ?_
    obtain ⟨page, first, rest⟩ := t
    show ((across leaves (first, rest)).map Prod.fst).Sublist (across pages (first, rest))
    induction rest generalizing first with
    | nil =>
      rw [across_nil, across_nil]
      exact ih first
    | cons child rest more =>
      rw [across_cons, across_cons, List.map_append]
      exact (ih first).append (more child.2)

/-- A path from the root to a leaf is no longer than the number of pages. -/
theorem height_lt_pages {h : Nat} (t : Tree κ ν h) : h < t.pages.length := by
  induction h with
  | zero => exact Nat.one_pos
  | succ h ih =>
    show h + 1 < (across pages t.2).length + 1
    have below := ih t.2.1
    unfold across
    rw [List.length_append]
    omega

end Tree

/-! ### Insertion -/

/-- What a node has become: still one, or two with the key that separates them. -/
inductive Outcome (κ T : Type)
  | whole (t : T)
  | split (left : T) (key : κ) (right : T)

/-- A node's outcome in its place, before the children to its right. -/
def Outcome.row {T : Type} (outcome : Outcome κ T) (rest : List (κ × T)) : T × List (κ × T) :=
  match outcome with
  | .whole t => (t, rest)
  | .split left key right => (left, (key, right) :: rest)

/-- A leaf that has outgrown `order` is cut in the middle. -/
def cutLeaf (order page : Nat) (entries : List (κ × ν)) (fresh : Nat) :
    Outcome κ (Tree κ ν 0) × Nat :=
  if entries.length ≤ order then (.whole (.leaf page entries), fresh)
  else match entries.drop (entries.length / 2) with
    | [] => (.whole (.leaf page entries), fresh)
    | e :: right =>
      (.split (.leaf page (entries.take (entries.length / 2))) e.1 (.leaf fresh (e :: right)),
        fresh + 1)

/-- An inner node that has outgrown `order` is cut at the key in the middle, which goes up. -/
def cutNode {h : Nat} (order page : Nat) (row : Row κ ν h) (fresh : Nat) :
    Outcome κ (Tree κ ν (h + 1)) × Nat :=
  if row.2.length ≤ order then (.whole (.node page row.1 row.2), fresh)
  else match row.2.drop (row.2.length / 2) with
    | [] => (.whole (.node page row.1 row.2), fresh)
    | (key, child) :: right =>
      (.split (.node page row.1 (row.2.take (row.2.length / 2))) key (.node fresh child right),
        fresh + 1)

/-- The child of a row that a key belongs to. -/
def childFor {h : Nat} (key : κ) : Tree κ ν h → List (κ × Tree κ ν h) → Tree κ ν h
  | first, [] => first
  | first, (s, child) :: rest => if s ≤ key then childFor key child rest else first

/-- Insert into the child of a row that the key belongs to. -/
def insertAmong {h : Nat} (insertChild : Tree κ ν h → Nat → Outcome κ (Tree κ ν h) × Nat)
    (key : κ) : Tree κ ν h → List (κ × Tree κ ν h) → Nat → Row κ ν h × Nat
  | first, [], fresh =>
    let below := insertChild first fresh
    (below.1.row [], below.2)
  | first, (s, child) :: rest, fresh =>
    if s ≤ key then
      let below := insertAmong insertChild key child rest fresh
      ((first, (s, below.1.1) :: below.1.2), below.2)
    else
      let below := insertChild first fresh
      (below.1.row ((s, child) :: rest), below.2)

/-- **Insertion.** `fresh` is the next free page. -/
def insert (order : Nat) (key : κ) (value : ν) :
    {h : Nat} → Tree κ ν h → Nat → Outcome κ (Tree κ ν h) × Nat
  | 0, t, fresh => cutLeaf order t.1 (put (key, value) t.2) fresh
  | _ + 1, t, fresh =>
    let below := insertAmong (insert order key value) key t.2.1 t.2.2 fresh
    cutNode order t.1 below.1 below.2

theorem insert_node {h page fresh order : Nat} {key : κ} {value : ν} {first : Tree κ ν h}
    {rest : List (κ × Tree κ ν h)} :
    insert order key value (.node page first rest) fresh =
      cutNode order page (insertAmong (insert order key value) key first rest fresh).1
        (insertAmong (insert order key value) key first rest fresh).2 := rfl

section Among

variable {h : Nat} {key s : κ} {first child : Tree κ ν h} {rest : List (κ × Tree κ ν h)}
  {insertChild : Tree κ ν h → Nat → Outcome κ (Tree κ ν h) × Nat}

theorem childFor_of_le (le : s ≤ key) :
    childFor key first ((s, child) :: rest) = childFor key child rest := if_pos le

theorem childFor_of_not_le (not_le : ¬ s ≤ key) : childFor key first ((s, child) :: rest) = first :=
  if_neg not_le

theorem insertAmong_of_le (le : s ≤ key) (fresh : Nat) :
    insertAmong insertChild key first ((s, child) :: rest) fresh =
      ((first, (s, (insertAmong insertChild key child rest fresh).1.1) ::
        (insertAmong insertChild key child rest fresh).1.2),
        (insertAmong insertChild key child rest fresh).2) := by
  rw [insertAmong, if_pos le]

theorem insertAmong_of_not_le (not_le : ¬ s ≤ key) (fresh : Nat) :
    insertAmong insertChild key first ((s, child) :: rest) fresh =
      ((insertChild first fresh).1.row ((s, child) :: rest), (insertChild first fresh).2) := by
  rw [insertAmong, if_neg not_le]

/-- The next free page is the one behind those the child took. -/
theorem insertAmong_snd (first : Tree κ ν h) (rest : List (κ × Tree κ ν h)) (fresh : Nat) :
    (insertAmong insertChild key first rest fresh).2 =
      (insertChild (childFor key first rest) fresh).2 := by
  induction rest generalizing first with
  | nil => rfl
  | cons c rest ih =>
    obtain ⟨s, child⟩ := c
    by_cases le : s ≤ key
    · rw [insertAmong_of_le le, childFor_of_le le]
      exact ih child
    · rw [insertAmong_of_not_le le, childFor_of_not_le le]

theorem childFor_mem (key : κ) (first : Tree κ ν h) (rest : List (κ × Tree κ ν h)) :
    childFor key first rest = first ∨ ∃ child ∈ rest, childFor key first rest = child.2 := by
  induction rest generalizing first with
  | nil => exact .inl rfl
  | cons c rest ih =>
    obtain ⟨s, child⟩ := c
    by_cases le : s ≤ key
    · rw [childFor_of_le le]
      right
      rcases ih child with same | ⟨other, member, same⟩
      · exact ⟨_, List.mem_cons_self, same⟩
      · exact ⟨other, List.mem_cons_of_mem _ member, same⟩
    · exact .inl (childFor_of_not_le le)

theorem childFor_sublist {α : Type} (f : Tree κ ν h → List α) :
    (f (childFor key first rest)).Sublist (across f (first, rest)) := by
  rcases childFor_mem key first rest with same | ⟨child, among, same⟩
  · rw [same]
    exact List.sublist_append_left _ _
  · rw [same]
    exact sublist_across f first among

theorem mem_across_of_childFor {α : Type} {f : Tree κ ν h → List α} {x : α}
    (member : x ∈ f (childFor key first rest)) : x ∈ across f (first, rest) :=
  (childFor_sublist f).mem member

end Among

section Cuts

theorem cutLeaf_cases (order page : Nat) (entries : List (κ × ν)) (fresh : Nat) :
    (entries.length ≤ order ∧ cutLeaf order page entries fresh =
      (.whole (.leaf page entries), fresh)) ∨
    ∃ left e right, order < entries.length ∧ entries = left ++ e :: right ∧
      left.length = entries.length / 2 ∧
      cutLeaf order page entries fresh =
        (.split (.leaf page left) e.1 (.leaf fresh (e :: right)), fresh + 1) := by
  unfold cutLeaf
  by_cases small : entries.length ≤ order
  · exact .inl ⟨small, if_pos small⟩
  right
  rw [if_neg small]
  have half : entries.length / 2 < entries.length := by omega
  cases cut : entries.drop (entries.length / 2) with
  | nil => exact absurd (List.drop_eq_nil_iff.mp cut) (Nat.not_le.mpr half)
  | cons e right =>
    refine ⟨entries.take (entries.length / 2), e, right, Nat.not_le.mp small, ?_, ?_, rfl⟩
    · rw [← cut, List.take_append_drop]
    · rw [List.length_take, Nat.min_eq_left half.le]

theorem cutNode_cases {h : Nat} (order page : Nat) (row : Row κ ν h) (fresh : Nat) :
    (row.2.length ≤ order ∧
      cutNode order page row fresh = (.whole (.node page row.1 row.2), fresh)) ∨
    ∃ left key child right, order < row.2.length ∧ row.2 = left ++ (key, child) :: right ∧
      left.length = row.2.length / 2 ∧
      cutNode order page row fresh =
        (.split (.node page row.1 left) key (.node fresh child right), fresh + 1) := by
  unfold cutNode
  by_cases small : row.2.length ≤ order
  · exact .inl ⟨small, if_pos small⟩
  right
  rw [if_neg small]
  have half : row.2.length / 2 < row.2.length := by omega
  cases cut : row.2.drop (row.2.length / 2) with
  | nil => exact absurd (List.drop_eq_nil_iff.mp cut) (Nat.not_le.mpr half)
  | cons c right =>
    refine ⟨row.2.take (row.2.length / 2), c.1, c.2, right, Nat.not_le.mp small, ?_, ?_, rfl⟩
    · rw [← cut, List.take_append_drop]
    · rw [List.length_take, Nat.min_eq_left half.le]

end Cuts

/-! ### What insertion keeps -/

/-- **Every node keeps its bounds**: the root at least `least` keys, every other node `order / 2`,
none more than `order`; and every separator is the first key behind it. -/
def Shaped (order : Nat) : {h : Nat} → Tree κ ν h → Nat → Prop
  | 0, t, least => least ≤ t.2.length ∧ t.2.length ≤ order
  | _ + 1, t, least =>
    least ≤ t.2.2.length ∧ t.2.2.length ≤ order ∧ Shaped order t.2.1 (order / 2) ∧
      ∀ child ∈ t.2.2, Shaped order child.2 (order / 2) ∧ child.2.firstKey = some child.1

/-- The children of a row keep their bounds. -/
def RowShaped {h : Nat} (order : Nat) (row : Row κ ν h) : Prop :=
  Shaped order row.1 (order / 2) ∧
    ∀ child ∈ row.2, Shaped order child.2 (order / 2) ∧ child.2.firstKey = some child.1

/-- What a node of at least `least` keys may become. -/
def OutcomeShaped {h : Nat} (order least : Nat) : Outcome κ (Tree κ ν h) → Prop
  | .whole t => Shaped order t least
  | .split left key right => RowShaped order (left, [(key, right)])

variable {order : Nat}

theorem rowShaped_cons {h : Nat} {first child : Tree κ ν h} {s : κ} {rest : List (κ × Tree κ ν h)} :
    RowShaped order (first, (s, child) :: rest) ↔
      Shaped order first (order / 2) ∧ child.firstKey = some s ∧ RowShaped order (child, rest) := by
  unfold RowShaped
  simp only [List.forall_mem_cons]
  constructor
  · rintro ⟨shaped, ⟨shaped', key⟩, all⟩
    exact ⟨shaped, key, shaped', all⟩
  · rintro ⟨shaped, key, shaped', all⟩
    exact ⟨shaped, ⟨shaped', key⟩, all⟩

theorem RowShaped.childFor {h : Nat} {first : Tree κ ν h} {rest : List (κ × Tree κ ν h)}
    (shaped : RowShaped order (first, rest)) (key : κ) :
    Shaped order (childFor key first rest) (order / 2) := by
  rcases childFor_mem key first rest with same | ⟨child, among, same⟩
  · rw [same]
    exact shaped.1
  · rw [same]
    exact (shaped.2 child among).1

/-- A node with at least one key has entries. -/
theorem leaves_nonempty {h : Nat} {t : Tree κ ν h} {least : Nat} (two : 2 ≤ order)
    (shaped : Shaped order t least) (some : 0 < least) : ∀ leaf ∈ t.leaves, leaf.2 ≠ [] := by
  have half : 0 < order / 2 := by omega
  induction h generalizing least with
  | zero =>
    intro leaf member
    rw [List.mem_singleton.mp member]
    exact List.ne_nil_of_length_pos (Nat.lt_of_lt_of_le some shaped.1)
  | succ h ih =>
    intro leaf member
    rcases List.mem_append.mp member with member | member
    · exact ih shaped.2.2.1 half leaf member
    · obtain ⟨child, among, member⟩ := List.mem_flatMap.mp member
      exact ih (shaped.2.2.2 child among).1 half leaf member

theorem entries_ne_nil {h : Nat} {t : Tree κ ν h} {least : Nat} (two : 2 ≤ order)
    (shaped : Shaped order t least) (some : 0 < least) : t.entries ≠ [] := by
  obtain ⟨leaf, rest, split⟩ := List.exists_cons_of_ne_nil t.leaves_ne_nil
  have full := leaves_nonempty two shaped some leaf (split ▸ List.mem_cons_self)
  unfold Tree.entries
  rw [split, List.flatMap_cons]
  exact fun empty => full (List.append_eq_nil_iff.mp empty).1

/-- The keys left of a separator do not exceed it. -/
theorem le_separator {h : Nat} {child : Tree κ ν h} {front : List (κ × ν)} {s : κ}
    (key : child.firstKey = some s) {back : List (κ × ν)}
    (sorted : Sorted (front ++ (child.entries ++ back))) : ∀ e ∈ front, e.1 ≤ s := by
  intro e member
  obtain ⟨e', isHead, rfl⟩ := Option.map_eq_some_iff.mp key
  exact (List.pairwise_append.mp sorted).2.2 e member e'
    (List.mem_append_left _ (List.mem_of_mem_head? isHead))

theorem outcomeShaped_row {h : Nat} {outcome : Outcome κ (Tree κ ν h)}
    (shaped : OutcomeShaped order (order / 2) outcome) : RowShaped order (outcome.row []) := by
  cases outcome with
  | whole t => exact ⟨shaped, nofun⟩
  | split left key right => exact shaped

theorem rowShaped_row {h : Nat} {outcome : Outcome κ (Tree κ ν h)} {rest : List (κ × Tree κ ν h)}
    (shaped : RowShaped order (outcome.row []))
    (others : ∀ child ∈ rest, Shaped order child.2 (order / 2) ∧ child.2.firstKey = some child.1) :
    RowShaped order (outcome.row rest) := by
  cases outcome with
  | whole t => exact ⟨shaped.1, others⟩
  | split left key right =>
    exact ⟨shaped.1, List.forall_mem_cons.mpr ⟨shaped.2 _ List.mem_cons_self, others⟩⟩

theorem across_row {h : Nat} {α : Type} (f : Tree κ ν h → List α)
    (outcome : Outcome κ (Tree κ ν h)) (rest : List (κ × Tree κ ν h)) :
    across f (outcome.row rest) = across f (outcome.row []) ++ rest.flatMap fun child =>
      f child.2 := by
  cases outcome with
  | whole t =>
    show across f (t, rest) = across f (t, []) ++ _
    rw [across_nil]
    rfl
  | split left key right =>
    show across f (left, (key, right) :: rest) = across f (left, [(key, right)]) ++ _
    rw [across_cons, across_cons, across_nil, List.append_assoc]
    rfl

theorem row_fst {T : Type} (outcome : Outcome κ T) (rest : List (κ × T)) :
    (outcome.row rest).1 = (outcome.row []).1 := by
  cases outcome <;> rfl

/-- The first key of a row stays the first, unless a smaller one is inserted. -/
theorem firstKey_row {h : Nat} {t : Tree κ ν h} {entry : κ × ν} {row : Row κ ν h} {s : κ}
    (two : 2 ≤ order) (puts : across Tree.entries row = put entry t.entries)
    (shaped : RowShaped order row) (key : t.firstKey = some s) (le : s ≤ entry.1) :
    row.1.firstKey = some s := by
  obtain ⟨e, isHead, rfl⟩ := Option.map_eq_some_iff.mp key
  have full := entries_ne_nil two shaped.1 (by omega)
  obtain ⟨e', rest, split⟩ := List.exists_cons_of_ne_nil full
  obtain ⟨others, there⟩ : ∃ others, t.entries = e :: others := by
    cases entries : t.entries with
    | nil => simp [entries] at isHead
    | cons e'' others =>
      rw [entries] at isHead
      exact ⟨others, by rw [Option.some.inj isHead]⟩
  unfold across at puts
  rw [split, there, put_cons, if_neg (not_lt.mpr le)] at puts
  have same := (List.cons.inj puts).1
  unfold Tree.firstKey
  rw [split, same]
  rfl

section Insert

variable {key : κ} {value : ν}

/-- **Into one of the children**: the row's entries become those of a sorted insertion, its children
keep their bounds, and at most one child is added. -/
theorem insertAmong_spec {h : Nat} (two : 2 ≤ order)
    {insertChild : Tree κ ν h → Nat → Outcome κ (Tree κ ν h) × Nat}
    (inserts : ∀ t fresh, Shaped order t (order / 2) → Sorted t.entries →
      across Tree.entries ((insertChild t fresh).1.row []) = put (key, value) t.entries ∧
        RowShaped order ((insertChild t fresh).1.row []))
    {rest : List (κ × Tree κ ν h)} :
    ∀ {first : Tree κ ν h} (fresh : Nat), RowShaped order (first, rest) →
      Sorted (across Tree.entries (first, rest)) →
      across Tree.entries (insertAmong insertChild key first rest fresh).1 =
          put (key, value) (across Tree.entries (first, rest)) ∧
        RowShaped order (insertAmong insertChild key first rest fresh).1 ∧
        (rest.length ≤ (insertAmong insertChild key first rest fresh).1.2.length ∧
          (insertAmong insertChild key first rest fresh).1.2.length ≤ rest.length + 1) ∧
        ∀ s, first.firstKey = some s → s ≤ key →
          (insertAmong insertChild key first rest fresh).1.1.firstKey = some s := by
  induction rest with
  | nil =>
    intro first fresh shaped sorted
    rw [across_nil] at sorted ⊢
    obtain ⟨puts, shaped'⟩ := inserts first fresh shaped.1 sorted
    refine ⟨puts, shaped', ?_, fun s isFirst le => firstKey_row two puts shaped' isFirst le⟩
    show 0 ≤ ((insertChild first fresh).1.row []).2.length ∧
      ((insertChild first fresh).1.row []).2.length ≤ 1
    cases (insertChild first fresh).1 <;> exact ⟨Nat.zero_le _, by simp [Outcome.row]⟩
  | cons c rest ih =>
    obtain ⟨s, child⟩ := c
    intro first fresh shaped sorted
    obtain ⟨shapedFirst, isFirst, shapedRest⟩ := rowShaped_cons.mp shaped
    have left : ∀ e ∈ first.entries, e.1 ≤ s := le_separator isFirst sorted
    rw [across_cons] at sorted ⊢
    obtain ⟨sortedFirst, sortedRest, -⟩ := List.pairwise_append.mp sorted
    by_cases le : s ≤ key
    · obtain ⟨puts, shaped', ⟨more, fewer⟩, first'⟩ := ih fresh shapedRest sortedRest
      rw [insertAmong_of_le le]
      refine ⟨?_, rowShaped_cons.mpr ⟨shapedFirst, first' s isFirst le, shaped'⟩,
        ⟨Nat.succ_le_succ more, Nat.succ_le_succ fewer⟩, fun _ isFirst' _ => isFirst'⟩
      rw [put_append_of_le fun e member => (left e member).trans le, ← puts]
      rfl
    · obtain ⟨puts, shaped'⟩ := inserts first fresh shapedFirst sortedFirst
      rw [insertAmong_of_not_le le]
      refine ⟨?_, rowShaped_row shaped' shaped.2, ?_, ?_⟩
      · rw [across_row, puts]
        refine (put_append_of_lt ?_ _).symm
        intro e isHead
        obtain ⟨e', isHead', rfl⟩ := Option.map_eq_some_iff.mp isFirst
        have heads : (across Tree.entries (child, rest)).head? = some e' := by
          unfold across
          rw [List.head?_append, isHead']
          rfl
        have same := Option.some.inj (heads.symm.trans isHead)
        exact same ▸ not_le.mp le
      · cases (insertChild first fresh).1 <;> simp [Outcome.row]
      · intro s' isFirst' le'
        show ((insertChild first fresh).1.row ((s, child) :: rest)).1.firstKey = some s'
        rw [row_fst]
        exact firstKey_row two puts shaped' isFirst' le'

theorem cutLeaf_spec (two : 2 ≤ order) {page fresh : Nat} {entries : List (κ × ν)} {least : Nat}
    (atLeast : least ≤ entries.length) (atMost : entries.length ≤ order + 1) :
    across Tree.entries ((cutLeaf order page entries fresh).1.row []) = entries ∧
      OutcomeShaped order least (cutLeaf order page entries fresh).1 := by
  rcases cutLeaf_cases order page entries fresh with
    ⟨small, same⟩ | ⟨left, e, right, large, split, half, same⟩
  · rw [same]
    exact ⟨(across_nil _ _).trans (Tree.entries_leaf _), atLeast, small⟩
  · have total := congrArg List.length split
    rw [List.length_append, List.length_cons] at total
    rw [same]
    refine ⟨?_, ⟨?_, ?_⟩, ?_⟩
    · show across Tree.entries (Tree.leaf page left, [(e.1, .leaf fresh (e :: right))]) = entries
      rw [across_cons, across_nil, Tree.entries_leaf, Tree.entries_leaf, split]
    · show order / 2 ≤ left.length
      omega
    · show left.length ≤ order
      omega
    · intro child among
      rw [List.mem_singleton.mp among]
      refine ⟨⟨?_, ?_⟩, ?_⟩
      · show order / 2 ≤ (e :: right).length
        rw [List.length_cons]
        omega
      · show (e :: right).length ≤ order
        rw [List.length_cons]
        omega
      · unfold Tree.firstKey
        rw [Tree.entries_leaf]
        rfl

theorem cutNode_spec {h : Nat} (page fresh : Nat) {row : Row κ ν h} {least : Nat}
    (shaped : RowShaped order row) (atLeast : least ≤ row.2.length)
    (atMost : row.2.length ≤ order + 1) :
    across Tree.entries ((cutNode order page row fresh).1.row []) = across Tree.entries row ∧
      OutcomeShaped order least (cutNode order page row fresh).1 := by
  rcases cutNode_cases order page row fresh with
    ⟨small, same⟩ | ⟨left, key, child, right, large, split, half, same⟩
  · rw [same]
    exact ⟨(across_nil _ _).trans (Tree.entries_node _), atLeast, small, shaped⟩
  · obtain ⟨first, rest⟩ := row
    simp only at split half large atMost
    have total := congrArg List.length split
    rw [List.length_append, List.length_cons] at total
    rw [split] at shaped
    obtain ⟨shapedLeft, shapedChild, shapedRight⟩ :=
      List.forall_mem_append.mp shaped.2 |>.imp_right List.forall_mem_cons.mp
    rw [same]
    refine ⟨?_, ⟨?_, ?_, shaped.1, shapedLeft⟩, ?_⟩
    · show across Tree.entries (Tree.node page first left, [(key, .node fresh child right)]) = _
      rw [across_cons, across_nil, Tree.entries_node, Tree.entries_node, split, across_append]
    · show order / 2 ≤ left.length
      omega
    · show left.length ≤ order
      omega
    · intro node among
      rw [List.mem_singleton.mp among]
      refine ⟨⟨?_, ?_, shapedChild.1, shapedRight⟩, ?_⟩
      · show order / 2 ≤ right.length
        omega
      · show right.length ≤ order
        omega
      · obtain ⟨e, isHead, isKey⟩ := Option.map_eq_some_iff.mp shapedChild.2
        unfold Tree.firstKey
        rw [Tree.entries_node]
        unfold across
        rw [List.head?_append, isHead]
        exact congrArg some isKey

/-- **Insertion**: the entries become those of a sorted insertion, and every node keeps its
bounds. -/
theorem insert_spec {h : Nat} (two : 2 ≤ order) :
    ∀ {t : Tree κ ν h} {least : Nat} (fresh : Nat), Shaped order t least → Sorted t.entries →
      across Tree.entries ((insert order key value t fresh).1.row []) = put (key, value) t.entries ∧
        OutcomeShaped order least (insert order key value t fresh).1 := by
  induction h with
  | zero =>
    intro t least fresh shaped _
    rw [Tree.entries_leaf]
    have grown := length_put (key, value) t.2
    exact cutLeaf_spec two (by rw [grown]; exact Nat.le_succ_of_le shaped.1)
      (by rw [grown]; exact Nat.succ_le_succ shaped.2)
  | succ h ih =>
    intro t least fresh shaped sorted
    rw [Tree.entries_node] at sorted ⊢
    obtain ⟨puts, shaped', ⟨more, fewer⟩, -⟩ := insertAmong_spec two
      (fun t fresh shaped sorted => (ih fresh shaped sorted).imp_right outcomeShaped_row)
      fresh shaped.2.2 sorted
    obtain ⟨same, shaped''⟩ := cutNode_spec t.1
      (insertAmong (insert order key value) key t.2.1 t.2.2 fresh).2 shaped'
      (shaped.1.trans more) (fewer.trans (Nat.succ_le_succ shaped.2.1))
    exact ⟨same.trans puts, shaped''⟩

end Insert

section Pages

variable {key : κ} {value : ν}

/-- The pages of an outcome are those of the node and the newly used ones. -/
def PagesGrow {h : Nat} (t : Tree κ ν h) (fresh : Nat)
    (result : Outcome κ (Tree κ ν h) × Nat) : Prop :=
  ∃ count, result.2 = fresh + count ∧
    (across Tree.pages (result.1.row [])).Perm (t.pages ++ List.range' fresh count)

theorem cutLeaf_pages {page fresh : Nat} {entries : List (κ × ν)} :
    ∃ count, (cutLeaf order page entries fresh).2 = fresh + count ∧
      (across Tree.pages ((cutLeaf order page entries fresh).1.row [])).Perm
        (page :: List.range' fresh count) := by
  rcases cutLeaf_cases order page entries fresh with ⟨-, same⟩ | ⟨left, e, right, -, -, -, same⟩
  · rw [same]
    exact ⟨0, rfl, List.Perm.refl _⟩
  · rw [same]
    exact ⟨1, rfl, List.Perm.refl _⟩

theorem cutNode_pages {h : Nat} (page fresh : Nat) (row : Row κ ν h) :
    ∃ count, (cutNode order page row fresh).2 = fresh + count ∧
      (across Tree.pages ((cutNode order page row fresh).1.row [])).Perm
        (page :: across Tree.pages row ++ List.range' fresh count) := by
  rcases cutNode_cases order page row fresh with
    ⟨-, same⟩ | ⟨left, key, child, right, -, split, -, same⟩
  · rw [same]
    exact ⟨0, rfl, List.Perm.refl _⟩
  · obtain ⟨first, rest⟩ := row
    simp only at split
    rw [same, split]
    refine ⟨1, rfl, ?_⟩
    show (across Tree.pages (Tree.node page first left, [(key, .node fresh child right)])).Perm
      (page :: across Tree.pages (first, left ++ (key, child) :: right) ++ [fresh])
    rw [across_cons, across_nil, across_append]
    show (page :: across Tree.pages (first, left) ++ fresh :: across Tree.pages (child, right)).Perm
      _
    rw [List.perm_iff_count]
    intro other
    simp only [List.count_append, List.count_cons, List.count_nil]
    omega

theorem insertAmong_pages {h : Nat}
    {insertChild : Tree κ ν h → Nat → Outcome κ (Tree κ ν h) × Nat}
    (grows : ∀ t fresh, PagesGrow t fresh (insertChild t fresh)) (key : κ)
    (rest : List (κ × Tree κ ν h)) : ∀ (first : Tree κ ν h) (fresh : Nat), ∃ count,
      (insertAmong insertChild key first rest fresh).2 = fresh + count ∧
        (across Tree.pages (insertAmong insertChild key first rest fresh).1).Perm
          (across Tree.pages (first, rest) ++ List.range' fresh count) := by
  induction rest with
  | nil =>
    intro first fresh
    rw [across_nil]
    exact grows first fresh
  | cons c rest ih =>
    obtain ⟨s, child⟩ := c
    intro first fresh
    by_cases le : s ≤ key
    · obtain ⟨count, next, perm⟩ := ih child fresh
      rw [insertAmong_of_le le]
      refine ⟨count, next, ?_⟩
      rw [across_cons, across_cons, List.append_assoc]
      exact perm.append_left first.pages
    · obtain ⟨count, next, perm⟩ := grows first fresh
      rw [insertAmong_of_not_le le]
      refine ⟨count, next, ?_⟩
      show (across Tree.pages ((insertChild first fresh).1.row ((s, child) :: rest))).Perm _
      rw [across_row]
      refine (perm.append_right _).trans ?_
      rw [List.perm_iff_count]
      intro other
      unfold across
      simp only [List.count_append]
      omega

/-- **Insertion uses the next free pages**, each once. -/
theorem pages_insert {h : Nat} (t : Tree κ ν h) (fresh : Nat) :
    PagesGrow t fresh (insert order key value t fresh) := by
  induction h generalizing fresh with
  | zero => exact cutLeaf_pages
  | succ h ih =>
    obtain ⟨count, next, perm⟩ := insertAmong_pages ih key t.2.2 t.2.1 fresh
    obtain ⟨count', next', perm'⟩ := @cutNode_pages _ _ _ order _ t.1
      (insertAmong (insert order key value) key t.2.1 t.2.2 fresh).2
      (insertAmong (insert order key value) key t.2.1 t.2.2 fresh).1
    refine ⟨count + count', ?_, perm'.trans ?_⟩
    · rw [← Nat.add_assoc, ← next]
      exact next'
    · rw [next, ← List.range'_append_1, ← List.append_assoc]
      exact (perm.cons t.1).append_right _

/-- An insertion takes the pages that the insertion into the child takes. -/
theorem fresh_childFor_le {h : Nat} (page fresh : Nat) (first : Tree κ ν h)
    (rest : List (κ × Tree κ ν h)) :
    (insert order key value (childFor key first rest) fresh).2 ≤
      (insert order key value (.node page first rest) fresh).2 := by
  obtain ⟨count, next, -⟩ := @cutNode_pages _ _ _ order _ page
    (insertAmong (insert order key value) key first rest fresh).2
    (insertAmong (insert order key value) key first rest fresh).1
  rw [insert_node, next, insertAmong_snd]
  exact Nat.le_add_right _ count

/-- A node keeps its page. -/
theorem id_insert {h : Nat} (t : Tree κ ν h) (fresh : Nat) :
    ((insert order key value t fresh).1.row []).1.id = t.id := by
  cases h with
  | zero =>
    show ((cutLeaf order t.1 (put (key, value) t.2) fresh).1.row []).1.id = t.1
    rcases cutLeaf_cases order t.1 (put (key, value) t.2) fresh with
      ⟨-, same⟩ | ⟨_, _, _, -, -, -, same⟩ <;> rw [same] <;> rfl
  | succ h =>
    show ((cutNode order t.1 (insertAmong (insert order key value) key t.2.1 t.2.2 fresh).1
      (insertAmong (insert order key value) key t.2.1 t.2.2 fresh).2).1.row []).1.id = t.1
    rcases cutNode_cases order t.1 (insertAmong (insert order key value) key t.2.1 t.2.2 fresh).1
      (insertAmong (insert order key value) key t.2.1 t.2.2 fresh).2 with
      ⟨-, same⟩ | ⟨_, _, _, _, -, -, -, same⟩ <;> rw [same] <;> rfl

theorem firstLeaf_insertAmong {h : Nat}
    {insertChild : Tree κ ν h → Nat → Outcome κ (Tree κ ν h) × Nat}
    (kept : ∀ t fresh, ((insertChild t fresh).1.row []).1.firstLeaf = t.firstLeaf)
    (first : Tree κ ν h) (rest : List (κ × Tree κ ν h)) (fresh : Nat) :
    (insertAmong insertChild key first rest fresh).1.1.firstLeaf = first.firstLeaf := by
  cases rest with
  | nil => exact kept first fresh
  | cons c rest =>
    obtain ⟨s, child⟩ := c
    by_cases le : s ≤ key
    · rw [insertAmong_of_le le]
    · rw [insertAmong_of_not_le le, row_fst]
      exact kept first fresh

/-- The leftmost leaf keeps its page. -/
theorem firstLeaf_insert {h : Nat} (t : Tree κ ν h) (fresh : Nat) :
    ((insert order key value t fresh).1.row []).1.firstLeaf = t.firstLeaf := by
  induction h generalizing fresh with
  | zero => exact id_insert t fresh
  | succ h ih =>
    have first := @firstLeaf_insertAmong _ _ _ key _ _ ih t.2.1 t.2.2 fresh
    refine Eq.trans ?_ first
    show ((cutNode order t.1 (insertAmong (insert order key value) key t.2.1 t.2.2 fresh).1
      (insertAmong (insert order key value) key t.2.1 t.2.2 fresh).2).1.row []).1.firstLeaf = _
    rcases cutNode_cases order t.1 (insertAmong (insert order key value) key t.2.1 t.2.2 fresh).1
      (insertAmong (insert order key value) key t.2.1 t.2.2 fresh).2 with
      ⟨-, same⟩ | ⟨_, _, _, _, -, -, -, same⟩ <;> rw [same] <;> rfl

end Pages

/-! ### The invariant, node by node -/

/-- All keys of a subtree, those of its inner nodes included. -/
def Tree.allKeys : {h : Nat} → Tree κ ν h → List κ
  | 0, t => t.2.map Prod.fst
  | _ + 1, t => t.2.2.map Prod.fst ++ across Tree.allKeys t.2

/-- **Every node is well-formed**: the bounds on its number of keys, its keys in order, and each of
its separators between the keys to the left and to the right of it. -/
def WellFormed (order : Nat) : {h : Nat} → Tree κ ν h → Nat → Prop
  | 0, t, least => least ≤ t.2.length ∧ t.2.length ≤ order ∧ (t.2.map Prod.fst).Pairwise (· ≤ ·)
  | _ + 1, t, least =>
    least ≤ t.2.2.length ∧ t.2.2.length ≤ order ∧ (t.2.2.map Prod.fst).Pairwise (· ≤ ·) ∧
      (∀ left s child right, t.2.2 = left ++ (s, child) :: right →
        (∀ key ∈ across Tree.allKeys (t.2.1, left), key ≤ s) ∧
          ∀ key ∈ across Tree.allKeys (child, right), s ≤ key) ∧
      WellFormed order t.2.1 (order / 2) ∧
      ∀ child ∈ t.2.2, WellFormed order child.2 (order / 2)

section Invariant

variable {order : Nat}

theorem exists_of_mem_across {h : Nat} {α β : Type} {f : Tree κ ν h → List α}
    {g : Tree κ ν h → List β} (row : Row κ ν h) {R : α → β → Prop}
    (first : ∀ x ∈ f row.1, ∃ y ∈ g row.1, R x y)
    (others : ∀ child ∈ row.2, ∀ x ∈ f child.2, ∃ y ∈ g child.2, R x y) :
    ∀ x ∈ across f row, ∃ y ∈ across g row, R x y := by
  intro x member
  rcases List.mem_append.mp member with member | member
  · obtain ⟨y, there, related⟩ := first x member
    exact ⟨y, List.mem_append_left _ there, related⟩
  · obtain ⟨child, among, member⟩ := List.mem_flatMap.mp member
    obtain ⟨y, there, related⟩ := others child among x member
    exact ⟨y, List.mem_append_right _ (List.mem_flatMap.mpr ⟨child, among, there⟩), related⟩

/-- A separator is the key of an entry behind it. -/
theorem RowShaped.exists_entry {h : Nat} {row : Row κ ν h} (shaped : RowShaped order row) :
    ∀ child ∈ row.2, ∃ e ∈ child.2.entries, e.1 = child.1 := by
  intro child among
  obtain ⟨e, isHead, same⟩ := Option.map_eq_some_iff.mp (shaped.2 child among).2
  exact ⟨e, List.mem_of_mem_head? isHead, same⟩

/-- Every key of a subtree is the key of one of its entries. -/
theorem exists_entry_of_mem_allKeys {h : Nat} {t : Tree κ ν h} {least : Nat}
    (shaped : Shaped order t least) : ∀ key ∈ t.allKeys, ∃ e ∈ t.entries, e.1 = key := by
  induction h generalizing least with
  | zero =>
    intro key member
    rw [Tree.entries_leaf]
    exact List.mem_map.mp member
  | succ h ih =>
    have row : RowShaped order t.2 := shaped.2.2
    intro key member
    rw [Tree.entries_node]
    rcases List.mem_append.mp member with member | member
    · obtain ⟨child, among, rfl⟩ := List.mem_map.mp member
      obtain ⟨e, there, same⟩ := row.exists_entry child among
      exact ⟨e, List.mem_append_right _ (List.mem_flatMap.mpr ⟨child, among, there⟩), same⟩
    · exact exists_of_mem_across t.2 (R := fun key (e : κ × ν) => e.1 = key) (ih row.1)
        (fun child among => ih (row.2 child among).1) key member

/-- What comes before a separator in the sorted entries does not exceed it, what comes behind it
does not fall below it. -/
theorem separates {h : Nat} {first child : Tree κ ν h} {s : κ} {left right : List (κ × Tree κ ν h)}
    (shaped : RowShaped order (first, left ++ (s, child) :: right))
    (sorted : Sorted (across Tree.entries (first, left ++ (s, child) :: right))) :
    (∀ e ∈ across Tree.entries (first, left), e.1 ≤ s) ∧
      ∀ e ∈ across Tree.entries (child, right), s ≤ e.1 := by
  obtain ⟨e', isHead, rfl⟩ := Option.map_eq_some_iff.mp
    (shaped.2 (s, child) (List.mem_append_right _ List.mem_cons_self)).2
  rw [across_append] at sorted
  obtain ⟨-, sortedRight, before⟩ := List.pairwise_append.mp sorted
  have isFirst : (across Tree.entries (child, right)).head? = some e' := by
    unfold across
    rw [List.head?_append, isHead]
    rfl
  obtain ⟨others, split⟩ := List.head?_eq_some_iff.mp isFirst
  refine ⟨fun e member => before e member e' (split ▸ List.mem_cons_self), fun e member => ?_⟩
  rw [split] at sortedRight member
  rcases List.mem_cons.mp member with rfl | member
  · exact le_refl _
  · exact (List.pairwise_cons.mp sortedRight).1 e member

/-- The separators of a node are in order. -/
theorem separators_sorted {h : Nat} {rest : List (κ × Tree κ ν h)} : ∀ {first : Tree κ ν h},
    RowShaped order (first, rest) → Sorted (across Tree.entries (first, rest)) →
    (rest.map Prod.fst).Pairwise (· ≤ ·) := by
  induction rest with
  | nil => exact fun _ _ => List.Pairwise.nil
  | cons c rest ih =>
    obtain ⟨s, child⟩ := c
    intro first shaped sorted
    obtain ⟨-, -, shapedRest⟩ := rowShaped_cons.mp shaped
    have behind := (@separates κ ν _ order h first child s [] rest shaped sorted).2
    rw [across_cons] at sorted
    refine List.pairwise_cons.mpr ⟨fun key member => ?_,
      ih shapedRest (List.pairwise_append.mp sorted).2.1⟩
    obtain ⟨other, among, rfl⟩ := List.mem_map.mp member
    obtain ⟨e, there, same⟩ := shapedRest.exists_entry other among
    rw [← same]
    exact behind e (List.mem_append_right _ (List.mem_flatMap.mpr ⟨other, among, there⟩))

/-- **Every node of a shaped, sorted tree is well-formed.** -/
theorem wellFormed_of_shaped {h : Nat} {t : Tree κ ν h} {least : Nat}
    (shaped : Shaped order t least) (sorted : Sorted t.entries) : WellFormed order t least := by
  induction h generalizing least with
  | zero =>
    rw [Tree.entries_leaf] at sorted
    exact ⟨shaped.1, shaped.2, List.pairwise_map.mpr sorted⟩
  | succ h ih =>
    rw [Tree.entries_node] at sorted
    obtain ⟨page, first, rest⟩ := t
    have row : RowShaped order (first, rest) := shaped.2.2
    have sortedRow : Sorted (across Tree.entries (first, rest)) := sorted
    refine ⟨shaped.1, shaped.2.1, separators_sorted row sortedRow, ?_, ih row.1 ?_, ?_⟩
    · rintro left s child right split
      have same : rest = left ++ (s, child) :: right := split
      rw [same] at row sortedRow
      obtain ⟨before, behind⟩ := separates row sortedRow
      obtain ⟨shapedLeft, shapedChild, shapedRight⟩ :=
        List.forall_mem_append.mp row.2 |>.imp_right List.forall_mem_cons.mp
      constructor
      · intro key member
        obtain ⟨e, there, rfl⟩ := exists_of_mem_across (first, left)
          (R := fun key (e : κ × ν) => e.1 = key) (exists_entry_of_mem_allKeys row.1)
          (fun other among => exists_entry_of_mem_allKeys (shapedLeft other among).1) key member
        exact before e there
      · intro key member
        obtain ⟨e, there, rfl⟩ := exists_of_mem_across (child, right)
          (R := fun key (e : κ × ν) => e.1 = key) (exists_entry_of_mem_allKeys shapedChild.1)
          (fun other among => exists_entry_of_mem_allKeys (shapedRight other among).1) key member
        exact behind e there
    · exact sortedRow.sublist (List.sublist_append_left _ _)
    · exact fun child among =>
        ih (row.2 child among).1 (sortedRow.sublist (sublist_across Tree.entries first among))

end Invariant

/-! ### Searching -/

/-- The leaf where a search for a key ends. -/
def seek (key : κ) : {h : Nat} → Tree κ ν h → Nat × List (κ × ν)
  | 0, t => t
  | _ + 1, t => seek key (childFor key t.2.1 t.2.2)

/-- What a search knows of the leaf it ends in: there is something in front of it only if it starts
with a key that is not too large, and all keys behind it are too large. -/
def Sought (key : κ) (leaves : List (Nat × List (κ × ν))) (leaf : Nat × List (κ × ν)) : Prop :=
  ∃ before after, leaves = before ++ leaf :: after ∧
    (before = [] ∨ ∃ e rest, leaf.2 = e :: rest ∧ e.1 ≤ key) ∧
    ∀ other ∈ after, ∀ e ∈ other.2, key < e.1

/-- **Where a search ends.** -/
theorem seek_spec {h : Nat} {t : Tree κ ν h} {least : Nat} (two : 2 ≤ order) (key : κ)
    (shaped : Shaped order t least) (sorted : Sorted t.entries) :
    Sought key t.leaves (seek key t) := by
  have half : 0 < order / 2 := by omega
  induction h generalizing least with
  | zero => exact ⟨[], [], rfl, .inl rfl, nofun⟩
  | succ h ih =>
    rw [Tree.entries_node] at sorted
    obtain ⟨page, first, rest⟩ := t
    have rowShaped : RowShaped order (first, rest) := shaped.2.2
    show Sought key (across Tree.leaves (first, rest)) (seek key (childFor key first rest))
    clear shaped
    induction rest generalizing first with
    | nil =>
      rw [across_nil]
      rw [across_nil] at sorted
      exact ih rowShaped.1 sorted
    | cons c rest more =>
      obtain ⟨s, child⟩ := c
      obtain ⟨shapedFirst, isFirst, shapedRest⟩ := rowShaped_cons.mp rowShaped
      rw [across_cons] at sorted ⊢
      obtain ⟨sortedFirst, sortedRest, -⟩ := List.pairwise_append.mp sorted
      by_cases le : s ≤ key
      · rw [childFor_of_le le]
        obtain ⟨before, after, split, front, back⟩ := more child sortedRest shapedRest
        refine ⟨first.leaves ++ before, after, by rw [split, List.append_assoc], .inr ?_, back⟩
        rcases front with rfl | front
        · -- the leaf is the first one behind the separator, so it starts with it
          obtain ⟨e, isHead, rfl⟩ := Option.map_eq_some_iff.mp isFirst
          obtain ⟨leaf, others, leaves⟩ := List.exists_cons_of_ne_nil child.leaves_ne_nil
          have same : leaf = seek key (childFor key child rest) := by
            unfold across at split
            rw [leaves] at split
            exact (List.cons.inj split).1
          have full := leaves_nonempty two shapedRest.1 half leaf (leaves ▸ List.mem_cons_self)
          obtain ⟨e', rest', entries⟩ := List.exists_cons_of_ne_nil full
          unfold Tree.entries at isHead
          rw [leaves, List.flatMap_cons, entries] at isHead
          rw [← same]
          exact ⟨e', rest', entries, Option.some.inj isHead ▸ le⟩
        · exact front
      · rw [childFor_of_not_le le]
        obtain ⟨before, after, split, front, back⟩ := ih shapedFirst sortedFirst
        refine ⟨before, after ++ across Tree.leaves (child, rest), ?_, front, ?_⟩
        · rw [split]
          simp only [List.append_assoc, List.cons_append]
        · intro other member e among
          rcases List.mem_append.mp member with member | member
          · exact back other member e among
          · have there : e ∈ across Tree.entries (child, rest) := by
              have flat : across Tree.entries (child, rest) =
                  (across Tree.leaves (child, rest)).flatMap Prod.snd := (Tree.entries_node
                    (Tree.node page child rest)).symm
              rw [flat]
              exact List.mem_flatMap.mpr ⟨other, member, among⟩
            obtain ⟨e', isHead, rfl⟩ := Option.map_eq_some_iff.mp isFirst
            obtain ⟨others, split'⟩ : ∃ others, across Tree.entries (child, rest) =
                e' :: others := by
              unfold across
              cases entries : child.entries with
              | nil => simp [entries] at isHead
              | cons e'' more' =>
                rw [entries] at isHead
                exact ⟨_, by rw [Option.some.inj isHead]; rfl⟩
            rw [split'] at there sortedRest
            rcases List.mem_cons.mp there with rfl | there
            · exact not_le.mp le
            · exact (not_le.mp le).trans_le ((List.pairwise_cons.mp sortedRest).1 e there)

end BPlusTree
