/-
**The calls of a tree, node by node.**

Between `loadNode`, `saveNode` and `allocNode` a call of a tree works in memory, where all that can
go wrong is an access outside an array (`NoWorse`). So what these three keep, every call keeps
(`NodeWise`), whatever bytes the pages hold, along every path, and also when it throws.

`NodeWise inv throws` asks of each of the three that it keeps the property `inv` of the pool and
throws with `throws` only; and that `throws` covers an access outside an array and a walk that does
not end. The lemmas below hand this on through the loops and the recursion, up to `insert` and
`rangeScan`. Nothing is assumed about the tree, so they hold also where the pages hold none.
-/

import MyDatabaseEngine.Index.BTree
import MyDatabaseEngine.Storage.PageVisit

namespace MyDb

open Outcome

/-! ### What can go wrong in memory -/

namespace NoWorse

variable {α : Type} {n : Nat}

theorem arrayGet {array : Vector α n} {i : Nat} : NoWorse (arrayGet array i) := by
  unfold MyDb.arrayGet
  split
  · exact ok _
  · exact error

theorem arraySet {array : Vector α n} {i : Nat} {value : α} : NoWorse (arraySet array i value) := by
  unfold MyDb.arraySet
  split
  · exact ok _
  · exact error

theorem arrayTake {array : Vector α n} {count : Nat} : NoWorse (arrayTake array count) := by
  unfold MyDb.arrayTake
  split
  · exact ok _
  · exact error

end NoWorse

namespace BTreeNode

variable {node : BTreeNode} {key : Str}

theorem noWorse_cString (data : Str) : NoWorse (cString data) := by
  unfold cString
  split
  · exact NoWorse.ok _
  · exact NoWorse.error

theorem noWorse_deserialize (page : Page) : NoWorse (deserialize page) := by
  unfold deserialize
  refine (noWorse_cString page.data).bind fun chars => ?_
  dsimp only
  split
  · exact NoWorse.error
  · dsimp only [pure, Except.pure, bind, Except.bind]
    split
    · exact NoWorse.ok _
    · exact NoWorse.ok _

theorem noWorse_serialize (page : Page) : NoWorse (node.serialize page) := by
  unfold serialize text
  refine NoWorse.bind ?_ fun _ => NoWorse.ok _
  refine NoWorse.arrayTake.bind fun keys => ?_
  split
  · exact NoWorse.arrayTake.bind fun _ => NoWorse.ok _
  · exact NoWorse.arrayTake.bind fun _ => NoWorse.ok _

theorem noWorse_childIndex (count : Nat) : ∀ {i : Nat}, NoWorse (node.childIndex key count i) := by
  induction count with
  | zero => exact NoWorse.ok _
  | succ count ih =>
    intro i
    rw [childIndex]
    refine NoWorse.arrayGet.bind fun before => ?_
    split
    · exact ih
    · exact NoWorse.ok _

theorem noWorse_lookFor (count : Nat) : ∀ {i : Nat}, NoWorse (node.lookFor key count i) := by
  induction count with
  | zero => exact NoWorse.ok _
  | succ count ih =>
    intro i
    rw [lookFor]
    refine NoWorse.arrayGet.bind fun other => ?_
    split
    · exact NoWorse.arrayGet.bind fun _ => NoWorse.ok _
    · exact ih

theorem noWorse_collect {fromKey toKey : Str} (count : Nat) :
    ∀ {i : Nat} {result : List (Str × Str)},
    NoWorse (node.collect fromKey toKey count i result) := by
  induction count with
  | zero => exact NoWorse.ok _
  | succ count ih =>
    intro i result
    rw [collect]
    refine NoWorse.arrayGet.bind fun other => ?_
    split
    · exact NoWorse.ok _
    · split
      · exact NoWorse.arrayGet.bind fun _ => ih
      · exact ih

theorem noWorse_shiftEntries (pos : Nat) :
    ∀ {node : BTreeNode}, NoWorse (shiftEntries key pos node) := by
  induction pos with
  | zero => exact NoWorse.ok _
  | succ pos ih =>
    intro node
    rw [shiftEntries]
    refine NoWorse.arrayGet.bind fun before => ?_
    split
    · refine NoWorse.arraySet.bind fun _ => NoWorse.arrayGet.bind fun _ => ?_
      exact NoWorse.arraySet.bind fun _ => ih
    · exact NoWorse.ok _

theorem noWorse_insertEntry {value : Str} : NoWorse (node.insertEntry key value) := by
  unfold insertEntry
  dsimp only
  split
  · exact NoWorse.error
  · refine (noWorse_shiftEntries _).bind fun _ => NoWorse.arraySet.bind fun _ => ?_
    exact NoWorse.arraySet.bind fun _ => NoWorse.ok _

theorem noWorse_shiftChildren {i : Nat} (count : Nat) : ∀ {node : BTreeNode},
    NoWorse (shiftChildren i count node) := by
  induction count with
  | zero => exact NoWorse.ok _
  | succ count ih =>
    intro node
    rw [shiftChildren]
    refine NoWorse.arrayGet.bind fun _ => NoWorse.arraySet.bind fun _ => ?_
    exact NoWorse.arrayGet.bind fun _ => NoWorse.arraySet.bind fun _ => ih

theorem noWorse_insertChild {i newPage : Nat} : NoWorse (node.insertChild i key newPage) := by
  unfold insertChild
  refine (noWorse_shiftChildren _).bind fun _ => NoWorse.arraySet.bind fun _ => ?_
  exact NoWorse.arraySet.bind fun _ => NoWorse.ok _

theorem noWorse_copyEntries {mid : Nat} (count : Nat) : ∀ {i : Nat} {right : BTreeNode},
    NoWorse (copyEntries node mid count i right) := by
  induction count with
  | zero => exact NoWorse.ok _
  | succ count ih =>
    intro i right
    rw [copyEntries]
    refine NoWorse.arrayGet.bind fun _ => NoWorse.arraySet.bind fun _ => ?_
    exact NoWorse.arrayGet.bind fun _ => NoWorse.arraySet.bind fun _ => ih

theorem noWorse_copyChildren {mid : Nat} (count : Nat) : ∀ {i : Nat} {right : BTreeNode},
    NoWorse (copyChildren node mid count i right) := by
  induction count with
  | zero => exact NoWorse.ok _
  | succ count ih =>
    intro i right
    rw [copyChildren]
    refine NoWorse.arrayGet.bind fun _ => NoWorse.arraySet.bind fun _ => ?_
    exact NoWorse.arrayGet.bind fun _ => NoWorse.arraySet.bind fun _ => ih

theorem noWorse_rightChildren {mid : Nat} : NoWorse (node.rightChildren mid) := by
  unfold rightChildren
  refine NoWorse.arrayGet.bind fun _ => NoWorse.arraySet.bind fun _ => ?_
  exact noWorse_copyChildren _

end BTreeNode

namespace BTree

open BTreeNode

theorem noWorse_newRoot {rootId : Nat} {split : SplitResult} : NoWorse (newRoot rootId split) := by
  unfold newRoot
  refine NoWorse.arraySet.bind fun _ => NoWorse.arraySet.bind fun _ => ?_
  exact NoWorse.arraySet.bind fun _ => NoWorse.ok _

/-! ### What the calls keep -/

/-- **What the visits to single nodes keep.** -/
structure NodeWise (inv : BufferPool → Prop) (throws : Fault → BufferPool → Prop) : Prop where
  load : ∀ id, Keeps inv throws (loadNode id)
  save : ∀ id node, Keeps inv throws (saveNode id node)
  alloc : Keeps inv throws allocNode
  undefined : ∀ pool, inv pool → throws .undefinedBehaviour pool
  diverges : ∀ pool, inv pool → throws .diverges pool

namespace NodeWise

variable {inv : BufferPool → Prop} {throws : Fault → BufferPool → Prop}

theorem inMemory (nodeWise : NodeWise inv throws) {α : Type} {result : Except Fault α}
    (noWorse : NoWorse result) : Keeps inv throws (inMemory result) :=
      noWorse.inMemory nodeWise.undefined

theorem create (nodeWise : NodeWise inv throws) : Keeps inv throws create :=
  nodeWise.alloc.bind fun _ => (nodeWise.save _ _).bind fun _ => keeps_pure _

theorem findLeafFrom (nodeWise : NodeWise inv throws) (key : Str) (fuel : Nat) :
    ∀ {cur : Nat}, Keeps inv throws (findLeafFrom key fuel cur) := by
  induction fuel with
  | zero => exact keeps_throw nodeWise.diverges
  | succ fuel ih =>
    intro cur
    rw [BTree.findLeafFrom]
    refine (nodeWise.load cur).bind fun node => ?_
    split
    · exact keeps_pure _
    · refine (nodeWise.inMemory (noWorse_childIndex _)).bind fun _ => ?_
      exact (nodeWise.inMemory NoWorse.arrayGet).bind fun _ => ih

theorem findLeaf (nodeWise : NodeWise inv throws) (tree : BTree) (key : Str) :
    Keeps inv throws (tree.findLeaf key) := keeps_get_bind fun _ => nodeWise.findLeafFrom key _

theorem search (nodeWise : NodeWise inv throws) (tree : BTree) (key : Str) :
    Keeps inv throws (tree.search key) :=
  (nodeWise.findLeaf tree key).bind fun _ => (nodeWise.load _).bind fun _ =>
    nodeWise.inMemory (noWorse_lookFor _)

theorem walkLeaves (nodeWise : NodeWise inv throws) (fromKey toKey : Str) (fuel : Nat) :
    ∀ {leafId : Nat} {result : List (Str × Str)},
      Keeps inv throws (walkLeaves fromKey toKey fuel leafId result) := by
  induction fuel with
  | zero =>
    intro leafId result
    rw [BTree.walkLeaves]
    split
    · exact keeps_pure _
    · exact keeps_throw nodeWise.diverges
  | succ fuel ih =>
    intro leafId result
    rw [BTree.walkLeaves]
    split
    · exact keeps_pure _
    · refine (nodeWise.load leafId).bind fun leaf => ?_
      refine (nodeWise.inMemory (noWorse_collect _)).bind fun collected => ?_
      split
      split
      · exact keeps_pure _
      · exact ih

theorem rangeScan (nodeWise : NodeWise inv throws) (tree : BTree) (fromKey toKey : Str) :
    Keeps inv throws (tree.rangeScan fromKey toKey) :=
  (nodeWise.findLeaf tree fromKey).bind fun _ => keeps_get_bind fun _ =>
    nodeWise.walkLeaves fromKey toKey _

theorem splitNode (nodeWise : NodeWise inv throws) (nodeId : Nat) (node : BTreeNode) :
    Keeps inv throws (splitNode nodeId node) := by
  unfold BTree.splitNode
  split
  · refine (nodeWise.inMemory (noWorse_copyEntries _)).bind fun right => ?_
    refine nodeWise.alloc.bind fun rightId => ?_
    refine (nodeWise.save _ _).bind fun _ => (nodeWise.save _ _).bind fun _ => ?_
    exact (nodeWise.inMemory NoWorse.arrayGet).bind fun _ => keeps_pure _
  · refine (nodeWise.inMemory NoWorse.arrayGet).bind fun pushUpKey => ?_
    refine (nodeWise.inMemory noWorse_rightChildren).bind fun right => ?_
    refine nodeWise.alloc.bind fun rightId => ?_
    exact (nodeWise.save _ _).bind fun _ => (nodeWise.save _ _).bind fun _ => keeps_pure _

theorem saveOrSplit (nodeWise : NodeWise inv throws) (nodeId : Nat) (node : BTreeNode) :
    Keeps inv throws (saveOrSplit nodeId node) := by
  unfold BTree.saveOrSplit
  split
  · exact (nodeWise.save _ _).bind fun _ => keeps_pure _
  · exact (nodeWise.splitNode _ _).bind fun _ => keeps_pure _

theorem insertRec (nodeWise : NodeWise inv throws) (key value : Str) (fuel : Nat) :
    ∀ {nodeId : Nat}, Keeps inv throws (insertRec key value fuel nodeId) := by
  induction fuel with
  | zero => exact keeps_throw nodeWise.diverges
  | succ fuel ih =>
    intro nodeId
    rw [BTree.insertRec]
    refine (nodeWise.load nodeId).bind fun node => ?_
    split
    · exact (nodeWise.inMemory noWorse_insertEntry).bind fun _ => nodeWise.saveOrSplit _ _
    · refine (nodeWise.inMemory (noWorse_childIndex _)).bind fun i => ?_
      refine (nodeWise.inMemory NoWorse.arrayGet).bind fun child => ih.bind fun split => ?_
      cases split with
      | none => exact keeps_pure _
      | some split =>
        exact (nodeWise.inMemory noWorse_insertChild).bind fun _ => nodeWise.saveOrSplit _ _

theorem insert (nodeWise : NodeWise inv throws) (tree : BTree) (key value : Str) :
    Keeps inv throws (tree.insert key value) := by
  refine keeps_get_bind fun pool => (nodeWise.insertRec key value _).bind fun split => ?_
  cases split with
  | none => exact keeps_pure _
  | some split =>
    refine nodeWise.alloc.bind fun newRootId => ?_
    refine (nodeWise.inMemory noWorse_newRoot).bind fun root => ?_
    exact (nodeWise.save _ _).bind fun _ => keeps_pure _

end NodeWise

end BTree

end MyDb
