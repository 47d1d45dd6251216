/-
**The loops on a node's arrays.**

What the loops of `btree.cpp` do to a node, in terms of the lists its arrays hold (`IsLeaf`,
`IsNode`). None of them leaves its array: at most `ORDER` keys come in, and the arrays have room for
one more.

* Looking for a place: `childIndex` finds `slot key keys`, `lookFor` the first entry with the key,
  `collect` the entries of the range up to the first key behind it.
* Making room: the loops that shift from the end keep the lists in front of the place and behind it.
* Halving: the right half is copied, the left one stays where it is under a smaller key count.

Each loop has a lemma with the list in front of its position and the list behind, by induction on
the latter; the lemma for the call starts it at the front or the end.
-/

import MyDatabaseEngine.Index.BTree
import MyDatabaseEngine.Index.NodeCodec
import MyDatabaseEngine.Lib.TreeLayout

namespace MyDb

open BPlusTree (put slot)

namespace BTreeNode

section Arrays

variable {α : Type} {n : Nat} {array : Vector α n}

theorem arrayGet_of_getElem? {i : Nat} {value : α} (there : array.toList[i]? = some value) :
    arrayGet array i = .ok value := by
  obtain ⟨inside, same⟩ := List.getElem?_eq_some_iff.mp there
  have bound : i < n := by rwa [Vector.length_toList] at inside
  unfold arrayGet
  rw [dif_pos bound, ← same, Vector.getElem_toList]

/-- An element of the list that the array starts with. -/
theorem arrayGet_of_isPrefix {values : List α} (pre : values <+: array.toList) {i : Nat} {value : α}
    (there : values[i]? = some value) : arrayGet array i = .ok value := by
  obtain ⟨rest, same⟩ := pre
  refine arrayGet_of_getElem? ?_
  rw [← same, List.getElem?_append_left (List.getElem?_eq_some_iff.mp there).1]
  exact there

theorem arrayGet_append {front back : List α} {x : α} (split : array.toList = front ++ x :: back) :
    arrayGet array front.length = .ok x := by
  refine arrayGet_of_getElem? ?_
  rw [split, List.getElem?_append_right (Nat.le_refl _), Nat.sub_self]
  rfl

/-- An assignment in the middle. -/
theorem arraySet_append {front back : List α} {x : α} (split : array.toList = front ++ x :: back)
    (value : α) : ∃ array', arraySet array front.length value = .ok array' ∧
      array'.toList = front ++ value :: back := by
  have total := congrArg List.length split
  rw [Vector.length_toList, List.length_append, List.length_cons] at total
  have bound : front.length < n := by omega
  refine ⟨array.set front.length value, ?_, ?_⟩
  · unfold arraySet
    rw [dif_pos bound]
  · rw [Vector.toList_set, split, List.set_append_right _ _ (Nat.le_refl _), Nat.sub_self]
    rfl

/-- An element of the mapped list that the array starts with. -/
theorem arrayGet_map {β : Type} {f : β → α} {front back : List β} {e : β}
    (pre : (front ++ e :: back).map f <+: array.toList) :
    arrayGet array front.length = .ok (f e) := by
  refine arrayGet_of_isPrefix pre ?_
  rw [List.getElem?_map, List.getElem?_append_right (Nat.le_refl _), Nat.sub_self]
  rfl

/-- An assignment behind the list that the array starts with. -/
theorem arraySet_push {values : List α} (pre : values <+: array.toList)
    (room : values.length < n) (value : α) :
    ∃ array', arraySet array values.length value = .ok array' ∧
      values ++ [value] <+: array'.toList := by
  obtain ⟨rest, same⟩ := pre
  cases rest with
  | nil =>
    have total := congrArg List.length same
    rw [List.append_nil, Vector.length_toList] at total
    omega
  | cons x rest =>
    obtain ⟨array', set, same'⟩ := arraySet_append same.symm value
    exact ⟨array', set, rest, by rw [same', List.append_assoc]; rfl⟩

/-- An array that has room behind a list has an element there. -/
theorem exists_behind {values : List α} (pre : values <+: array.toList) (room : values.length < n) :
    ∃ x rest, array.toList = values ++ x :: rest := by
  obtain ⟨rest, same⟩ := pre
  cases rest with
  | nil =>
    have total := congrArg List.length same
    rw [List.append_nil, Vector.length_toList] at total
    omega
  | cons x rest => exact ⟨x, rest, same.symm⟩

end Arrays

/-! ### Looking for a place -/

theorem childIndex_spec {node : BTreeNode} {key : Str} {back : List Str} :
    ∀ front : List Str, front ++ back <+: node.keys.toList →
      node.childIndex key back.length front.length = .ok (front.length + slot key back) := by
  induction back with
  | nil => exact fun _ _ => rfl
  | cons s back ih =>
    intro front pre
    have there : (front ++ s :: back)[front.length]? = some s := by
      rw [List.getElem?_append_right (Nat.le_refl _), Nat.sub_self]
      rfl
    have more := ih (front ++ [s]) (by rwa [List.append_assoc])
    rw [List.length_append, List.length_singleton] at more
    rw [List.length_cons, childIndex, arrayGet_of_isPrefix pre there]
    show (if s ≤ key then node.childIndex key back.length (front.length + 1) else _) = _
    by_cases le : s ≤ key
    · rw [if_pos le, more, BPlusTree.slot_cons_of_le le]
      exact congrArg Except.ok (by omega)
    · rw [if_neg le, BPlusTree.slot_cons_of_not_le le]
      rfl

/-- `childIndex` finds the slot of the key. -/
theorem IsNode.childIndex {node : BTreeNode} {keys : List Str} {children : List Nat}
    (is : node.IsNode keys children) (key : Str) :
    node.childIndex key node.keyCount.toNat 0 = .ok (slot key keys) := by
  have found := @childIndex_spec node key keys [] is.keys
  rw [is.toNat]
  simpa using found

theorem lookFor_spec {node : BTreeNode} {key : Str} {back : List (Str × Str)} :
    ∀ front : List (Str × Str), (front ++ back).map Prod.fst <+: node.keys.toList →
      (front ++ back).map Prod.snd <+: node.values.toList →
      node.lookFor key back.length front.length =
        .ok ((back.find? fun e => e.1 = key).map Prod.snd) := by
  induction back with
  | nil => exact fun _ _ _ => rfl
  | cons e back ih =>
    intro front keys values
    have more := ih (front ++ [e]) (by rwa [List.append_assoc]) (by rwa [List.append_assoc])
    rw [List.length_append, List.length_singleton] at more
    rw [List.length_cons, lookFor, arrayGet_map keys]
    show (if e.1 = key then (do return some (← arrayGet node.values front.length))
      else node.lookFor key back.length (front.length + 1)) = _
    by_cases same : e.1 = key
    · rw [if_pos same, arrayGet_map values, List.find?_cons_of_pos (by simpa using same)]
      rfl
    · rw [if_neg same, more, List.find?_cons_of_neg (by simpa using same)]

/-- The loop of `search` finds the first entry with the key. -/
theorem IsLeaf.lookFor {node : BTreeNode} {entries : List (Str × Str)} {next : Nat}
    (is : node.IsLeaf entries next) (key : Str) :
    node.lookFor key node.keyCount.toNat 0 =
      .ok ((entries.find? fun e => e.1 = key).map Prod.snd) := by
  rw [is.toNat]
  exact @lookFor_spec node key entries [] is.keys is.values

/-- What the inner loop of `rangeScan` does with the entries of a leaf. -/
def collected (fromKey toKey : Str) : List (Str × Str) → Bool × List (Str × Str)
  | [] => (false, [])
  | e :: rest =>
    if e.1 > toKey then (true, [])
    else if e.1 ≥ fromKey then
      ((collected fromKey toKey rest).1, e :: (collected fromKey toKey rest).2)
    else collected fromKey toKey rest

theorem collect_spec {node : BTreeNode} {fromKey toKey : Str} {back : List (Str × Str)} :
    ∀ front result : List (Str × Str), (front ++ back).map Prod.fst <+: node.keys.toList →
      (front ++ back).map Prod.snd <+: node.values.toList →
      node.collect fromKey toKey back.length front.length result =
        .ok ((collected fromKey toKey back).1, result ++ (collected fromKey toKey back).2) := by
  induction back with
  | nil =>
    intro front result _ _
    rw [collected, List.append_nil]
    rfl
  | cons e back ih =>
    intro front result keys values
    have more : ∀ result, node.collect fromKey toKey back.length (front.length + 1) result =
        .ok ((collected fromKey toKey back).1, result ++ (collected fromKey toKey back).2) := by
      intro result
      have more := ih (front ++ [e]) result (by rwa [List.append_assoc])
        (by rwa [List.append_assoc])
      rwa [List.length_append, List.length_singleton] at more
    rw [List.length_cons, collect, arrayGet_map keys, collected]
    simp only [bind, Except.bind]
    by_cases past : e.1 > toKey
    · rw [if_pos past, if_pos past, List.append_nil]
      rfl
    · rw [if_neg past, if_neg past]
      by_cases reached : e.1 ≥ fromKey
      · rw [if_pos reached, if_pos reached, arrayGet_map values]
        simp only
        rw [more, List.append_assoc]
        rfl
      · rw [if_neg reached, if_neg reached, more]

theorem IsLeaf.collect {node : BTreeNode} {entries : List (Str × Str)} {next : Nat}
    (is : node.IsLeaf entries next) (fromKey toKey : Str) (result : List (Str × Str)) :
    node.collect fromKey toKey node.keyCount.toNat 0 result =
      .ok ((collected fromKey toKey entries).1, result ++ (collected fromKey toKey entries).2) := by
  rw [is.toNat]
  exact @collect_spec node fromKey toKey entries [] result is.keys is.values

/-! ### Making room -/

/-- The loop of a leaf stops behind the entries that do not exceed the key, the others moved up. -/
theorem shiftEntries_spec {key : Str} (entries : List (Str × Str)) :
    ∀ {node : BTreeNode} {k v : Str} {ks vs : List Str},
      node.keys.toList = entries.map Prod.fst ++ k :: ks →
      node.values.toList = entries.map Prod.snd ++ v :: vs →
      ∃ front back k' v' keys values, entries = front ++ back ∧
        (∀ e, front.getLast? = some e → e.1 ≤ key) ∧ (∀ e ∈ back, key < e.1) ∧
        shiftEntries key entries.length node = .ok (front.length, { node with keys, values }) ∧
        keys.toList = front.map Prod.fst ++ k' :: (back.map Prod.fst ++ ks) ∧
        values.toList = front.map Prod.snd ++ v' :: (back.map Prod.snd ++ vs) := by
  induction entries using List.reverseRecOn with
  | nil =>
    intro node k v ks vs keys values
    exact ⟨[], [], k, v, node.keys, node.values, rfl, nofun, nofun, rfl, keys, values⟩
  | append_singleton entries e ih =>
    intro node k v ks vs keys values
    rw [List.map_append, List.append_assoc] at keys values
    have key' : arrayGet node.keys entries.length = .ok e.1 := by
      have got := arrayGet_append keys
      rwa [List.length_map] at got
    have value' : arrayGet node.values entries.length = .ok e.2 := by
      have got := arrayGet_append values
      rwa [List.length_map] at got
    rw [List.length_append, List.length_singleton, shiftEntries, key']
    show ∃ front back k' v' keys values, _ ∧ _ ∧ _ ∧ (if e.1 > key then _ else _) = _ ∧ _ ∧ _
    by_cases above : e.1 > key
    · rw [if_pos above, value']
      have keysSplit : node.keys.toList = (entries.map Prod.fst ++ [e.1]) ++ k :: ks := by
        rw [keys, List.append_assoc]
        rfl
      have valuesSplit : node.values.toList = (entries.map Prod.snd ++ [e.2]) ++ v :: vs := by
        rw [values, List.append_assoc]
        rfl
      obtain ⟨keys', setKeys, sameKeys⟩ := arraySet_append keysSplit e.1
      obtain ⟨values', setValues, sameValues⟩ := arraySet_append valuesSplit e.2
      rw [List.length_append, List.length_map, List.length_singleton] at setKeys setValues
      rw [List.append_assoc] at sameKeys sameValues
      obtain ⟨front, back, k', v', keys'', values'', split, last, all, shifted, sameKeys',
          sameValues'⟩ :=
        @ih { node with keys := keys', values := values' } _ _ _ _ sameKeys sameValues
      refine ⟨front, back ++ [e], k', v', keys'', values'', ?_, last, ?_, ?_, ?_, ?_⟩
      · rw [split, List.append_assoc]
      · intro e' member
        rcases List.mem_append.mp member with member | member
        · exact all e' member
        · rw [List.mem_singleton.mp member]
          exact above
      · simp only [bind, Except.bind, setKeys, setValues]
        exact shifted
      · rw [sameKeys', List.map_append, List.append_assoc]
        rfl
      · rw [sameValues', List.map_append, List.append_assoc]
        rfl
    · rw [if_neg above]
      refine ⟨entries ++ [e], [], k, v, node.keys, node.values, (List.append_nil _).symm,
        ?_, nofun, ?_,
        ?_, ?_⟩
      · intro e' last
        rw [List.getLast?_concat] at last
        exact Option.some.inj last ▸ not_lt.mp above
      · rw [List.length_append]
        rfl
      · rw [keys, List.map_append, List.append_assoc]
        rfl
      · rw [values, List.map_append, List.append_assoc]
        rfl

/-- In a sorted list, what does not exceed the key at the end does not exceed it before. -/
theorem le_of_getLast {entries : List (Str × Str)} {key : Str} (sorted : BPlusTree.Sorted entries)
    (last : ∀ e, entries.getLast? = some e → e.1 ≤ key) : ∀ e ∈ entries, e.1 ≤ key := by
  induction entries using List.reverseRecOn with
  | nil => exact nofun
  | append_singleton entries e _ =>
    have top := last e List.getLast?_concat
    intro e' member
    rcases List.mem_append.mp member with member | member
    · exact ((List.pairwise_append.mp sorted).2.2 e' member e List.mem_cons_self).trans top
    · exact List.mem_singleton.mp member ▸ top

/-- **An entry is put into a leaf.** -/
theorem IsLeaf.insertEntry {node : BTreeNode} {entries : List (Str × Str)} {next : Nat}
    (is : node.IsLeaf entries next) (room : entries.length ≤ btreeOrder)
    (sorted : BPlusTree.Sorted entries) (key value : Str) :
    ∃ node', node.insertEntry key value = .ok node' ∧
      node'.IsLeaf (put (key, value) entries) next := by
  obtain ⟨k, ks, keys⟩ :=
    exists_behind is.keys (by rw [List.length_map]; exact Nat.lt_succ_of_le room)
  obtain ⟨v, vs, values⟩ :=
    exists_behind is.values (by rw [List.length_map]; exact Nat.lt_succ_of_le room)
  obtain ⟨front, back, k', v', keys', values', split, last, all, shifted, sameKeys, sameValues⟩ :=
    @shiftEntries_spec key entries node k v ks vs keys values
  obtain ⟨keys'', setKeys, newKeys⟩ := arraySet_append sameKeys key
  obtain ⟨values'', setValues, newValues⟩ := arraySet_append sameValues value
  rw [List.length_map] at setKeys setValues
  refine ⟨{ node with keys := keys'', values := values'', keyCount := node.keyCount + 1 }, ?_, ?_⟩
  · unfold BTreeNode.insertEntry
    have some : ¬ node.keyCount < 0 := by
      rw [is.keyCount]
      omega
    rw [if_neg some, is.toNat, shifted]
    simp only [bind, Except.bind, setKeys, setValues]
    rfl
  · rw [split] at sorted
    have low := le_of_getLast (List.pairwise_append.mp sorted).1 last
    have placed : put (key, value) entries = front ++ (key, value) :: back := by
      rw [split]
      exact BPlusTree.put_between low all
    refine ⟨is.isLeaf, ?_, ?_, ?_, is.nextLeaf⟩
    · rw [BPlusTree.length_put, is.keyCount]
      rfl
    · refine ⟨ks, ?_⟩
      rw [placed, newKeys, List.map_append, List.append_assoc]
      rfl
    · refine ⟨vs, ?_⟩
      rw [placed, newValues, List.map_append, List.append_assoc]
      rfl

/-- The loop of an inner node moves the keys from a place on, and the children behind them. -/
theorem shiftChildren_spec {keysFront : List Str} {childrenFront : List Nat}
    (one : childrenFront.length = keysFront.length + 1) (keysBack : List Str) :
    ∀ {childrenBack : List Nat} {node : BTreeNode} {k : Str} {c : Nat} {ks : List Str}
      {cs : List Nat},
      childrenBack.length = keysBack.length →
      node.keys.toList = keysFront ++ (keysBack ++ k :: ks) →
      node.children.toList = childrenFront ++ (childrenBack ++ c :: cs) →
      ∃ k' c' keys children,
        shiftChildren keysFront.length keysBack.length node = .ok { node with keys, children } ∧
        keys.toList = keysFront ++ k' :: (keysBack ++ ks) ∧
        children.toList = childrenFront ++ c' :: (childrenBack ++ cs) := by
  induction keysBack using List.reverseRecOn with
  | nil =>
    intro childrenBack node k c ks cs length keys children
    rw [List.eq_nil_of_length_eq_zero length] at children ⊢
    exact ⟨k, c, node.keys, node.children, rfl, keys, children⟩
  | append_singleton keysBack s ih =>
    intro childrenBack node k c ks cs length keys children
    rw [List.length_append, List.length_singleton] at length
    rcases List.eq_nil_or_concat childrenBack with rfl | ⟨moved, d, rfl⟩
    · simp at length
    rw [List.concat_eq_append, List.length_append, List.length_singleton] at length
    have keysSplit : node.keys.toList = (keysFront ++ keysBack) ++ s :: k :: ks := by
      rw [keys]
      simp only [List.append_assoc, List.singleton_append]
    have childrenSplit : node.children.toList = (childrenFront ++ moved) ++ d :: c :: cs := by
      rw [children, List.concat_eq_append]
      simp only [List.append_assoc, List.singleton_append]
    have getKey := arrayGet_append keysSplit
    have getChild := arrayGet_append childrenSplit
    have keysSplit' : node.keys.toList = (keysFront ++ keysBack ++ [s]) ++ k :: ks := by
      rw [keysSplit]
      simp only [List.append_assoc, List.singleton_append]
    have childrenSplit' : node.children.toList = (childrenFront ++ moved ++ [d]) ++ c :: cs := by
      rw [childrenSplit]
      simp only [List.append_assoc, List.singleton_append]
    obtain ⟨keys', setKey, newKeys⟩ := arraySet_append keysSplit' s
    obtain ⟨children', setChild, newChildren⟩ := arraySet_append childrenSplit' d
    have place : (childrenFront ++ moved).length = keysFront.length + keysBack.length + 1 := by
      rw [List.length_append]
      omega
    rw [List.length_append, List.length_singleton, List.length_append] at setKey
    rw [List.length_append, List.length_singleton, place] at setChild
    rw [List.length_append] at getKey
    rw [place] at getChild
    obtain ⟨k', c', keys'', children'', shifted, sameKeys, sameChildren⟩ :=
      @ih moved { node with keys := keys', children := children' } s d (s :: ks)
        (d :: cs) (by omega)
        (by rw [newKeys]; simp only [List.append_assoc, List.singleton_append])
        (by rw [newChildren]; simp only [List.append_assoc, List.singleton_append])
    refine ⟨k', c', keys'', children'', ?_, ?_, ?_⟩
    · rw [List.length_append, List.length_singleton, shiftChildren]
      simp only [Nat.add_sub_cancel, getKey, bind, Except.bind, setKey, getChild, setChild]
      exact shifted
    · rw [sameKeys, List.append_assoc]
      rfl
    · rw [sameChildren, List.concat_eq_append, List.append_assoc]
      rfl

/-- **A key and the child behind it are put into an inner node.** -/
theorem IsNode.insertChild {node : BTreeNode} {keys : List Str} {children : List Nat}
    (is : node.IsNode keys children) (room : keys.length ≤ btreeOrder) {i : Nat}
    (inside : i ≤ keys.length) (key : Str) (newPage : Nat) :
    ∃ node', node.insertChild i key newPage = .ok node' ∧
      node'.IsNode (keys.take i ++ key :: keys.drop i)
        (children.take (i + 1) ++ newPage :: children.drop (i + 1)) := by
  obtain ⟨k, ks, keysThere⟩ := exists_behind is.keys (Nat.lt_succ_of_le room)
  obtain ⟨c, cs, childrenThere⟩ :=
    exists_behind is.children (by rw [is.length]; exact Nat.succ_lt_succ (Nat.lt_succ_of_le room))
  have frontLength : (keys.take i).length = i := by
    rw [List.length_take, Nat.min_eq_left inside]
  have backLength : (keys.drop i).length = keys.length - i := List.length_drop
  have length := is.length
  have childrenFront : (children.take (i + 1)).length = i + 1 := by
    rw [List.length_take, length]
    omega
  rw [← List.take_append_drop i keys, List.append_assoc] at keysThere
  rw [← List.take_append_drop (i + 1) children, List.append_assoc] at childrenThere
  obtain ⟨k', c', keys', children', shifted, sameKeys, sameChildren⟩ :=
    shiftChildren_spec (by rw [childrenFront, frontLength]) (keys.drop i)
      (by rw [List.length_drop, List.length_drop, length]; omega) keysThere childrenThere
  obtain ⟨keys'', setKeys, newKeys⟩ := arraySet_append sameKeys key
  obtain ⟨children'', setChildren, newChildren⟩ := arraySet_append sameChildren newPage
  rw [frontLength] at setKeys shifted
  rw [childrenFront] at setChildren
  rw [backLength] at shifted
  refine ⟨{ node with keys := keys'', children := children'', keyCount := node.keyCount + 1 }, ?_,
    is.isLeaf, ?_, ?_, ?_, ?_⟩
  · unfold BTreeNode.insertChild
    rw [is.keyCount, Int.toNat_sub, shifted]
    simp only [bind, Except.bind, setKeys, setChildren, is.keyCount]
    rfl
  · show node.keyCount + 1 = _
    rw [is.keyCount, List.length_append, List.length_cons, frontLength, backLength]
    push_cast
    omega
  · rw [List.length_append, List.length_append, List.length_cons, List.length_cons, frontLength,
      backLength, childrenFront, List.length_drop, length]
    omega
  · refine ⟨ks, ?_⟩
    rw [newKeys, List.append_assoc]
    rfl
  · refine ⟨cs, ?_⟩
    rw [newChildren, List.append_assoc]
    rfl

/-! ### Halving -/

theorem copyEntries_spec {node : BTreeNode} {front : List (Str × Str)} (back : List (Str × Str)) :
    ∀ {copied : List (Str × Str)} {right : BTreeNode},
      (front ++ copied ++ back).map Prod.fst <+: node.keys.toList →
      (front ++ copied ++ back).map Prod.snd <+: node.values.toList →
      copied.length + back.length ≤ btreeOrder + 1 →
      copied.map Prod.fst <+: right.keys.toList → copied.map Prod.snd <+: right.values.toList →
      ∃ keys values,
        copyEntries node front.length back.length copied.length right =
          .ok { right with keys, values } ∧
        (copied ++ back).map Prod.fst <+: keys.toList ∧
        (copied ++ back).map Prod.snd <+: values.toList := by
  induction back with
  | nil =>
    intro copied right _ _ _ keys values
    rw [List.append_nil]
    exact ⟨right.keys, right.values, rfl, keys, values⟩
  | cons e back ih =>
    intro copied right nodeKeys nodeValues room keys values
    rw [List.length_cons] at room
    have getKey := arrayGet_map nodeKeys
    have getValue := arrayGet_map nodeValues
    rw [List.length_append] at getKey getValue
    obtain ⟨keys', setKey, newKeys⟩ :=
      arraySet_push keys (by rw [List.length_map]; omega) e.1
    obtain ⟨values', setValue, newValues⟩ :=
      arraySet_push values (by rw [List.length_map]; omega) e.2
    rw [List.length_map] at setKey setValue
    have all : front ++ (copied ++ [e]) ++ back = front ++ copied ++ e :: back := by
      simp only [List.append_assoc, List.singleton_append]
    obtain ⟨keys'', values'', copying, sameKeys, sameValues⟩ :=
      @ih (copied ++ [e]) { right with keys := keys', values := values' }
        (by rw [all]; exact nodeKeys) (by rw [all]; exact nodeValues)
        (by rw [List.length_append, List.length_singleton]; omega)
        (by rw [List.map_append]; exact newKeys) (by rw [List.map_append]; exact newValues)
    rw [List.length_append, List.length_singleton] at copying
    rw [List.append_assoc] at sameKeys sameValues
    refine ⟨keys'', values'', ?_, sameKeys, sameValues⟩
    rw [List.length_cons, copyEntries]
    simp only [getKey, bind, Except.bind, setKey, getValue, setValue]
    exact copying

/-- **The right half of a leaf.** -/
theorem IsLeaf.copyEntries {node : BTreeNode} {left right : List (Str × Str)} {next : Nat}
    (is : node.IsLeaf (left ++ right) next) :
    ∃ half, node.copyEntries left.length right.length 0
        { isLeaf := true, keyCount := right.length } = .ok half ∧
      ∀ next', ({ half with nextLeaf := next' } : BTreeNode).IsLeaf right next' := by
  have few := is.few
  rw [List.length_append] at few
  obtain ⟨keys, values, copied, sameKeys, sameValues⟩ :=
    @copyEntries_spec node left right [] { isLeaf := true, keyCount := right.length }
      (by simpa using is.keys)
      (by simpa using is.values) (by rw [List.length_nil]; omega) List.nil_prefix List.nil_prefix
  exact ⟨_, copied, fun next' => ⟨rfl, rfl, sameKeys, sameValues, rfl⟩⟩

theorem copyChildren_spec {node : BTreeNode} {keysFront : List Str} {childrenFront : List Nat}
    {mid : Nat} (keysMid : keysFront.length = mid + 1)
    (childrenMid : childrenFront.length = mid + 1) (keysBack : List Str) :
    ∀ {childrenBack : List Nat} {keysCopied : List Str} {childrenCopied : List Nat}
      {right : BTreeNode},
      childrenBack.length = keysBack.length → childrenCopied.length = keysCopied.length + 1 →
      keysFront ++ keysCopied ++ keysBack <+: node.keys.toList →
      childrenFront ++ childrenCopied ++ childrenBack <+: node.children.toList →
      keysCopied.length + keysBack.length ≤ btreeOrder + 1 →
      keysCopied <+: right.keys.toList → childrenCopied <+: right.children.toList →
      ∃ keys children,
        copyChildren node mid keysBack.length keysCopied.length right =
          .ok { right with keys, children } ∧
        keysCopied ++ keysBack <+: keys.toList ∧
        childrenCopied ++ childrenBack <+: children.toList := by
  induction keysBack with
  | nil =>
    intro childrenBack keysCopied childrenCopied right length _ _ _ _ keys children
    rw [List.eq_nil_of_length_eq_zero length, List.append_nil, List.append_nil]
    exact ⟨right.keys, right.children, rfl, keys, children⟩
  | cons s keysBack ih =>
    intro childrenBack keysCopied childrenCopied right length one nodeKeys nodeChildren room keys
      children
    rw [List.length_cons] at length room
    obtain ⟨c, childrenBack, rfl⟩ := List.exists_cons_of_length_eq_add_one length
    rw [List.length_cons] at length
    have getKey := arrayGet_map (f := fun s => s) (by rw [List.map_id']; exact nodeKeys)
    have getChild := arrayGet_map (f := fun c => c) (by rw [List.map_id']; exact nodeChildren)
    rw [List.length_append, keysMid] at getKey
    rw [List.length_append, childrenMid, one] at getChild
    obtain ⟨keys', setKey, newKeys⟩ := arraySet_push keys (by omega) s
    obtain ⟨children', setChild, newChildren⟩ := arraySet_push children (by omega) c
    rw [one] at setChild
    obtain ⟨keys'', children'', copying, sameKeys, sameChildren⟩ :=
      @ih childrenBack (keysCopied ++ [s]) (childrenCopied ++ [c])
        { right with keys := keys', children := children' } (by omega)
        (by simp only [List.length_append, List.length_singleton]; omega)
        (by simpa only [List.append_assoc, List.singleton_append] using nodeKeys)
        (by simpa only [List.append_assoc, List.singleton_append] using nodeChildren)
        (by rw [List.length_append, List.length_singleton]; omega) newKeys newChildren
    rw [List.length_append, List.length_singleton] at copying
    rw [List.append_assoc] at sameKeys sameChildren
    refine ⟨keys'', children'', ?_, sameKeys, sameChildren⟩
    have place : mid + 2 + keysCopied.length = mid + 1 + (keysCopied.length + 1) := by omega
    rw [List.length_cons, copyChildren]
    simp only [place, getKey, bind, Except.bind, setKey, getChild, setChild]
    exact copying

/-- **The right half of an inner node.** -/
theorem IsNode.rightChildren {node : BTreeNode} {left right : List Str} {s : Str}
    {children childrenRight : List Nat} {c : Nat}
    (is : node.IsNode (left ++ s :: right) (children ++ c :: childrenRight))
    (half : children.length = left.length + 1) :
    arrayGet node.keys left.length = .ok s ∧
      ∃ half, node.rightChildren left.length = .ok half ∧
        half.IsNode right (c :: childrenRight) := by
  have few := is.few
  have length := is.length
  have keyCount := is.keyCount
  rw [List.length_append, List.length_cons] at few length keyCount
  rw [List.length_append, List.length_cons] at length
  refine ⟨arrayGet_map (f := fun s => s) (by rw [List.map_id']; exact is.keys), ?_⟩
  have getChild := arrayGet_map (f := fun c => c) (by rw [List.map_id']; exact is.children)
  rw [half] at getChild
  have rightCount : node.keyCount - left.length - 1 = right.length := by omega
  let start : BTreeNode := { isLeaf := false, keyCount := right.length }
  obtain ⟨first, setFirst, newFirst⟩ :=
    @arraySet_push _ _ start.children [] List.nil_prefix (Nat.succ_pos _) c
  obtain ⟨keys', children', copied, sameKeys, sameChildren⟩ :=
    @copyChildren_spec node (left ++ [s]) children left.length
      (by rw [List.length_append]; rfl) half
      right childrenRight [] [c] { start with children := first } (by omega) rfl
      (by simpa only [List.append_assoc, List.append_nil, List.singleton_append] using is.keys)
      (by simpa only [List.append_assoc, List.singleton_append] using is.children)
      (by rw [List.length_nil]; omega) List.nil_prefix newFirst
  refine ⟨{ start with keys := keys', children := children' }, ?_, rfl, rfl, ?_, sameKeys,
    sameChildren⟩
  · unfold BTreeNode.rightChildren
    simp only [is.isLeaf, rightCount, getChild, bind, Except.bind]
    rw [show arraySet start.children 0 c = _ from setFirst]
    exact copied
  · show (c :: childrenRight).length = right.length + 1
    rw [List.length_cons]
    omega

end BTreeNode

end MyDb
