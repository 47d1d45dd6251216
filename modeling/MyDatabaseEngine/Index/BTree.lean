/-
**The B-tree index** (`src/btree.cpp`).

Nodes live on pages of the buffer pool and are loaded and saved as a whole. What the functions do to
a loaded node is pure, with the loops over the arrays as recursions on what is left of them; an
index outside an array is a fault. A key count that a page makes negative ends a loop before it
starts.

A walk down the tree or along the leaves that has loaded more nodes than the file has pages has come
back to one of them, so it never ends: the recursions below load at most one node more than there
are pages, and then diverge. A walk that leaves the file throws before.
-/

import Mathlib.Data.List.Lex
import MyDatabaseEngine.Storage.BufferPool
import MyDatabaseEngine.Index.BTreeNode

namespace MyDb

namespace BTreeNode

/-- `while (i < keyCount && key >= keys[i]) ++i;`, with `count` keys left to look at. -/
def childIndex (node : BTreeNode) (key : Str) : (count i : Nat) → Except Fault Nat
  | 0, i => return i
  | count + 1, i => do
    if (← arrayGet node.keys i) ≤ key then childIndex node key count (i + 1) else return i

/-- The loop of `search`, with `count` keys left to look at. -/
def lookFor (node : BTreeNode) (key : Str) : (count i : Nat) → Except Fault (Option Str)
  | 0, _ => return none
  | count + 1, i => do
    if (← arrayGet node.keys i) = key then return some (← arrayGet node.values i)
    else lookFor node key count (i + 1)

/-- The inner loop of `rangeScan`, with `count` keys left to look at: whether it returned, and the
pairs found so far. -/
def collect (node : BTreeNode) (fromKey toKey : Str) :
    (count i : Nat) → List (Str × Str) → Except Fault (Bool × List (Str × Str))
  | 0, _, result => return (false, result)
  | count + 1, i, result => do
    let key ← arrayGet node.keys i
    if key > toKey then return (true, result)
    else if key ≥ fromKey then
      let value ← arrayGet node.values i
      collect node fromKey toKey count (i + 1) (result ++ [(key, value)])
    else collect node fromKey toKey count (i + 1) result

/-- The loop that makes room in a leaf, at position `pos`. -/
def shiftEntries (key : Str) : (pos : Nat) → BTreeNode → Except Fault (Nat × BTreeNode)
  | 0, node => return (0, node)
  | pos + 1, node => do
    let before ← arrayGet node.keys pos
    if before > key then
      let keys ← arraySet node.keys (pos + 1) before
      let values ← arraySet node.values (pos + 1) (← arrayGet node.values pos)
      shiftEntries key pos { node with keys, values }
    else return (pos + 1, node)

/-- An entry put into its place in a leaf. With a negative key count that place is in front of the
array. -/
def insertEntry (node : BTreeNode) (key value : Str) : Except Fault BTreeNode := do
  if node.keyCount < 0 then throw .undefinedBehaviour
  let (pos, node) ← shiftEntries key node.keyCount.toNat node
  let keys ← arraySet node.keys pos key
  let values ← arraySet node.values pos value
  return { node with keys, values, keyCount := node.keyCount + 1 }

/-- The loop that makes room in an inner node, `count` positions above the place of the new key. -/
def shiftChildren (i : Nat) : (count : Nat) → BTreeNode → Except Fault BTreeNode
  | 0, node => return node
  | count + 1, node => do
    let pos := i + count + 1
    let keys ← arraySet node.keys pos (← arrayGet node.keys (pos - 1))
    let children ← arraySet node.children (pos + 1) (← arrayGet node.children pos)
    shiftChildren i count { node with keys, children }

/-- A key and the child behind it put into an inner node. -/
def insertChild (node : BTreeNode) (i : Nat) (key : Str) (newPage : Nat) :
    Except Fault BTreeNode := do
  let node ← shiftChildren i (node.keyCount - i).toNat node
  let keys ← arraySet node.keys i key
  let children ← arraySet node.children (i + 1) newPage
  return { node with keys, children, keyCount := node.keyCount + 1 }

/-- The loop that copies the right half of a leaf, with `count` entries left. -/
def copyEntries (node : BTreeNode) (mid : Nat) :
    (count i : Nat) → BTreeNode → Except Fault BTreeNode
  | 0, _, right => return right
  | count + 1, i, right => do
    let keys ← arraySet right.keys i (← arrayGet node.keys (mid + i))
    let values ← arraySet right.values i (← arrayGet node.values (mid + i))
    copyEntries node mid count (i + 1) { right with keys, values }

/-- The loop that copies the right half of an inner node, with `count` keys left. -/
def copyChildren (node : BTreeNode) (mid : Nat) :
    (count i : Nat) → BTreeNode → Except Fault BTreeNode
  | 0, _, right => return right
  | count + 1, i, right => do
    let keys ← arraySet right.keys i (← arrayGet node.keys (mid + 1 + i))
    let children ← arraySet right.children (i + 1) (← arrayGet node.children (mid + 2 + i))
    copyChildren node mid count (i + 1) { right with keys, children }

/-- The right half of an inner node. -/
def rightChildren (node : BTreeNode) (mid : Nat) : Except Fault BTreeNode := do
  let right : BTreeNode := { isLeaf := node.isLeaf, keyCount := node.keyCount - mid - 1 }
  let children ← arraySet right.children 0 (← arrayGet node.children (mid + 1))
  copyChildren node mid right.keyCount.toNat 0 { right with children }

end BTreeNode

structure BTree where
  rootId : Nat
  deriving DecidableEq

/-- `SplitResult`. -/
structure SplitResult where
  key : Str
  newPage : Nat

namespace BTree

open BTreeNode

/-- `loadNode`. -/
def loadNode (id : Nat) : EStateM Fault BufferPool BTreeNode := do
  let page ← BufferPool.fetchPage id
  let node ← inMemory (deserialize page)
  modify (BufferPool.unpin id false)
  return node

/-- `saveNode`. -/
def saveNode (id : Nat) (node : BTreeNode) : EStateM Fault BufferPool Unit := do
  let page ← BufferPool.fetchPage id
  let page ← inMemory (node.serialize page)
  modify (BufferPool.write id page)
  modify (BufferPool.unpin id true)

/-- `allocNode`. -/
def allocNode : EStateM Fault BufferPool Nat := do
  let page ← BufferPool.newPage
  let id := page.id
  modify (BufferPool.unpin id true)
  return id

/-- The constructor. -/
def create : EStateM Fault BufferPool BTree := do
  let rootId ← allocNode
  saveNode rootId { isLeaf := true, keyCount := 0 }
  return { rootId }

/-- The loop of `findLeaf`. -/
def findLeafFrom (key : Str) : (fuel cur : Nat) → EStateM Fault BufferPool Nat
  | 0, _ => throw .diverges
  | fuel + 1, cur => do
    let node ← loadNode cur
    if node.isLeaf then return cur
    else
      let i ← inMemory (node.childIndex key node.keyCount.toNat 0)
      let child ← inMemory (arrayGet node.children i)
      findLeafFrom key fuel child

/-- `findLeaf`. -/
def findLeaf (tree : BTree) (key : Str) : EStateM Fault BufferPool Nat := do
  findLeafFrom key ((← get).disk.pageCount + 1) tree.rootId

/-- `search`. -/
def search (tree : BTree) (key : Str) : EStateM Fault BufferPool (Option Str) := do
  let leafId ← tree.findLeaf key
  let leaf ← loadNode leafId
  inMemory (leaf.lookFor key leaf.keyCount.toNat 0)

/-- The walk along the leaves of `rangeScan`. -/
def walkLeaves (fromKey toKey : Str) (fuel leafId : Nat) (result : List (Str × Str)) :
    EStateM Fault BufferPool (List (Str × Str)) :=
  if leafId = invalidPageId then return result
  else match fuel with
    | 0 => throw .diverges
    | fuel + 1 => do
      let leaf ← loadNode leafId
      let (returned, result) ← inMemory (leaf.collect fromKey toKey leaf.keyCount.toNat 0 result)
      if returned then return result
      else walkLeaves fromKey toKey fuel leaf.nextLeaf result

/-- `rangeScan`. -/
def rangeScan (tree : BTree) (fromKey toKey : Str) :
    EStateM Fault BufferPool (List (Str × Str)) := do
  let leafId ← tree.findLeaf fromKey
  walkLeaves fromKey toKey ((← get).disk.pageCount + 1) leafId []

/-- `splitNode` on a leaf. Its key count is above `ORDER`. -/
def splitLeaf (nodeId : Nat) (node : BTreeNode) : EStateM Fault BufferPool SplitResult := do
  let mid := node.keyCount.toNat / 2
  let right : BTreeNode := { isLeaf := node.isLeaf, keyCount := node.keyCount - mid }
  let right ← inMemory (copyEntries node mid right.keyCount.toNat 0 right)
  let right := { right with nextLeaf := node.nextLeaf }
  let rightId ← allocNode
  saveNode nodeId { node with keyCount := mid, nextLeaf := rightId }
  saveNode rightId right
  let key ← inMemory (arrayGet right.keys 0)
  return { key, newPage := rightId }

/-- `splitNode` on an inner node. -/
def splitInner (nodeId : Nat) (node : BTreeNode) : EStateM Fault BufferPool SplitResult := do
  let mid := node.keyCount.toNat / 2
  let pushUpKey ← inMemory (arrayGet node.keys mid)
  let right ← inMemory (node.rightChildren mid)
  let rightId ← allocNode
  saveNode nodeId { node with keyCount := mid }
  saveNode rightId right
  return { key := pushUpKey, newPage := rightId }

/-- `splitNode`. -/
def splitNode (nodeId : Nat) (node : BTreeNode) : EStateM Fault BufferPool SplitResult :=
  if node.isLeaf then splitLeaf nodeId node else splitInner nodeId node

/-- The end of `insertRec`: the node is saved, or split when it has outgrown `ORDER`. -/
def saveOrSplit (nodeId : Nat) (node : BTreeNode) :
    EStateM Fault BufferPool (Option SplitResult) := do
  if node.keyCount ≤ btreeOrder then
    saveNode nodeId node
    return none
  else return some (← splitNode nodeId node)

/-- `insertRec`. -/
def insertRec (key value : Str) : (fuel nodeId : Nat) →
    EStateM Fault BufferPool (Option SplitResult)
  | 0, _ => throw .diverges
  | fuel + 1, nodeId => do
    let node ← loadNode nodeId
    if node.isLeaf then
      let node ← inMemory (node.insertEntry key value)
      saveOrSplit nodeId node
    else
      let i ← inMemory (node.childIndex key node.keyCount.toNat 0)
      let child ← inMemory (arrayGet node.children i)
      match ← insertRec key value fuel child with
      | none => return none
      | some split =>
        let node ← inMemory (node.insertChild i split.key split.newPage)
        saveOrSplit nodeId node

/-- The new root above the halves of one that was split. -/
def newRoot (rootId : Nat) (split : SplitResult) : Except Fault BTreeNode := do
  let root : BTreeNode := { isLeaf := false, keyCount := 1 }
  let keys ← arraySet root.keys 0 split.key
  let children ← arraySet root.children 0 rootId
  let children ← arraySet children 1 split.newPage
  return { root with keys, children }

/-- `insert`. -/
def insert (tree : BTree) (key value : Str) : EStateM Fault BufferPool BTree := do
  match ← insertRec key value ((← get).disk.pageCount + 1) tree.rootId with
  | none => return tree
  | some split =>
    let newRootId ← allocNode
    let root ← inMemory (newRoot tree.rootId split)
    saveNode newRootId root
    return { rootId := newRootId }

/-- Calls of `insert` one after the other. -/
def insertAll : List (Str × Str) → BTree → EStateM Fault BufferPool BTree
  | [], tree => return tree
  | entry :: rest, tree => do
    let tree ← tree.insert entry.1 entry.2
    insertAll rest tree

end BTree

end MyDb
