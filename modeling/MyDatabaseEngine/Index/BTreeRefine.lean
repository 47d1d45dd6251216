/-
**The tree on the pages is a B+-tree.**

`held content` is the layout of the pages of a pool: what `deserialize` reads from them. On pages
that hold a tree, `insertRec` does what `BPlusTree.insert` does (`insertRec_ends`), with the number
of pages as the next free page. The simulation is by induction on the height: the child's pages
change, those of its siblings do not, and its parent is saved with the new arrays or cut.

The nodes that are saved must fit their pages (`writable`). This is a condition on the tree that the
insertion makes, and the only one: a full disk apart, the insertion cannot fail.
-/

import MyDatabaseEngine.Index.BTreePool
import MyDatabaseEngine.Index.NodeArrays

namespace MyDb

open Outcome BPlusTree

namespace BTree

open BufferPool BTreeNode

/-- **What the pages hold.** -/
def held (content : Nat → Option Page) : Layout Str Str where
  leafAt id entries next := ∃ page, content id = some page ∧ PageLeaf page entries next
  nodeAt id keys children := ∃ page, content id = some page ∧ PageNode page keys children

/-- **The text fits a page**, with page ids for the pages it names. -/
def fitting : Layout Str Str where
  leafAt _ entries next := next ≤ 2 ^ 32 - 1 → Fits (leafText entries next)
  nodeAt _ keys children := (∀ child ∈ children, child ≤ 2 ^ 32 - 1) → Fits (nodeText keys children)

/-- The text can be taken apart again. -/
def legible : Layout Str Str where
  leafAt _ entries _ := EntryTokens entries
  nodeAt _ keys _ := ∀ key ∈ keys, Token key

/-- **What can be written.** -/
def writable : Layout Str Str := fitting.both legible

variable {pool pool' : BufferPool} {id next : Nat} {page : Page} {node : BTreeNode}
  {entries : List (Str × Str)} {keys : List Str} {children : List Nat}

theorem agree_held {content content' : Nat → Option Page} (same : content' id = content id) :
    Layout.Agree (held content) (held content') id where
  leafAt := fun _ _ ⟨page, holds, leaf⟩ => ⟨page, same.trans holds, leaf⟩
  nodeAt := fun _ _ ⟨page, holds, inner⟩ => ⟨page, same.trans holds, inner⟩

/-! ### Saving nodes -/

/-- The left half of a leaf. -/
theorem isLeaf_left {left right : List (Str × Str)} (is : node.IsLeaf (left ++ right) next)
    (next' : Nat) :
    ({ node with keyCount := left.length, nextLeaf := next' } : BTreeNode).IsLeaf left next' where
  isLeaf := is.isLeaf
  keyCount := rfl
  keys := by
    have keys := is.keys
    rw [List.map_append] at keys
    exact (List.prefix_append _ _).trans keys
  values := by
    have values := is.values
    rw [List.map_append] at values
    exact (List.prefix_append _ _).trans values
  nextLeaf := rfl

/-- The left half of an inner node. -/
theorem isNode_left {left right : List Str} {childrenLeft childrenRight : List Nat}
    (is : node.IsNode (left ++ right) (childrenLeft ++ childrenRight))
    (half : childrenLeft.length = left.length + 1) :
    ({ node with keyCount := left.length } : BTreeNode).IsNode left childrenLeft where
  isLeaf := is.isLeaf
  keyCount := rfl
  length := half
  keys := (List.prefix_append _ _).trans is.keys
  children := (List.prefix_append _ _).trans is.children

/-! ### Outcomes on pages -/

/-- What the caller is told. -/
def told {h : Nat} : BPlusTree.Outcome Str (Tree Str Str h) → Option SplitResult
  | .whole _ => none
  | .split _ key right => some { key, newPage := right.id }

/-- **A pool in which an outcome has been laid out**: its pages hold it, and the other pages what
they held. -/
structure LaidOut {h : Nat} (pool pool' : BufferPool) (own : List Nat)
    (outcome : BPlusTree.Outcome Str (Tree Str Str h) × Nat) (next : Nat) : Prop where
  moves : Moves pool pool' pool'.content
  pageCount : pool'.disk.pageCount = outcome.2
  row : (held pool'.content).Row (outcome.1.row []) next
  others : ∀ id < pool.disk.pageCount, id ∉ own → pool'.content id = pool.content id

/-- Saved on any page that ends with a NUL, the node is such a page's node. -/
def Prints (node : BTreeNode) (Is : Page → Prop) : Prop :=
  ∀ page, Terminated page → ∃ page', node.serialize page = .ok page' ∧ Is page'

/-- A pool in which a node's halves have been saved, the right one on a new page. -/
structure Halved (pool pool' : BufferPool) (id : Nat) (left right : Page) : Prop where
  moves : Moves pool pool' pool'.content
  pageCount : pool'.disk.pageCount = pool.disk.pageCount + 1
  left : pool'.content id = some left
  right : pool'.content pool.disk.pageCount = some right
  others : ∀ other, other ≠ id → other ≠ pool.disk.pageCount →
    pool'.content other = pool.content other

/-- **The halves of a node are saved**, before the rest of the call. -/
theorem saveHalves_ends {α : Type} {left : Nat → BTreeNode} {right : BTreeNode}
    {rest : Nat → EStateM Fault BufferPool α} {Left Right : Page → Prop}
    {returns : α → BufferPool → Prop} (ok : pool.Consistent) (holds : pool.content id = some page)
    (terminated : Terminated page)
    (printsLeft : Prints (left pool.disk.pageCount) Left) (printsRight : Prints right Right)
    (goesOn : ∀ pool' pageLeft pageRight, Halved pool pool' id pageLeft pageRight → ¬ pool'.Full →
      Left pageLeft → Right pageRight →
      Ends (rest pool.disk.pageCount) pool' returns (Stops pool (pool.disk.pageCount + 1))) :
    Ends (do
      let rightId ← allocNode
      saveNode id (left rightId)
      saveNode rightId right
      rest rightId) pool returns (Stops pool (pool.disk.pageCount + 1)) := by
  have apart : id ≠ pool.disk.pageCount := (lt_pageCount ok holds).ne
  refine Ends.bind (allocNode_visits ok) ?_
  rintro _ allocated ⟨rfl, -, moves, count, -, room⟩
  have holdsLeft : allocated.content id = some page := by
    rw [moves.content, Function.update_of_ne apart]
    exact holds
  obtain ⟨pageLeft, printed, isLeft⟩ := printsLeft page terminated
  -- with the page there is room for all that follows
  refine Ends.bind ((saveNode_visits moves.consistent holdsLeft (fun full => absurd full room)
    printed).mono (fun _ _ done => done) fun _ _ never => never.elim) ?_
  rintro _ savedLeft ⟨movesLeft, countLeft⟩
  have roomLeft : ¬ savedLeft.Full := fun full => room (movesLeft.full.mp full)
  have holdsRight : savedLeft.content pool.disk.pageCount =
      some (Page.new pool.disk.pageCount) := by
    rw [movesLeft.content, Function.update_of_ne apart.symm, moves.content, Function.update_self]
  obtain ⟨pageRight, printed, isRight⟩ := printsRight _ (terminated_new pool.disk.pageCount)
  refine Ends.bind
    ((saveNode_visits movesLeft.consistent holdsRight (fun full => absurd full roomLeft)
    printed).mono (fun _ _ done => done) fun _ _ never => never.elim) ?_
  rintro _ savedRight ⟨movesRight, countRight⟩
  have all := (moves.trans movesLeft.toMoves).trans movesRight.toMoves
  have roomRight : ¬ savedRight.Full := fun full => roomLeft (movesRight.full.mp full)
  refine goesOn savedRight pageLeft pageRight ⟨all.content ▸ all, ?_, ?_, ?_, ?_⟩ roomRight
    isLeft isRight
  · rw [countRight, countLeft, count]
  · rw [movesRight.content, Function.update_of_ne apart, movesLeft.content, Function.update_self]
  · rw [movesRight.content, Function.update_self]
  · intro other notLeft notRight
    rw [movesRight.content, Function.update_of_ne notRight, movesLeft.content,
      Function.update_of_ne notLeft, moves.content, Function.update_of_ne notRight]

theorem splitLeaf_ends (ok : pool.Consistent) (holds : pool.content id = some page)
    (terminated : Terminated page) {left right : List (Str × Str)} {e : Str × Str}
    (is : node.IsLeaf (left ++ e :: right) next) (half : left.length = node.keyCount.toNat / 2)
    (small : next ≤ 2 ^ 32 - 1) (writesLeft : writable.leafAt id left pool.disk.pageCount)
    (writesRight : writable.leafAt pool.disk.pageCount (e :: right) next) :
    Ends (splitLeaf id node) pool
      (fun result pool' => result = { key := e.1, newPage := pool.disk.pageCount } ∧ ¬ pool'.Full ∧
        ∃ pageLeft pageRight, Halved pool pool' id pageLeft pageRight ∧
          PageLeaf pageLeft left pool.disk.pageCount ∧ PageLeaf pageRight (e :: right) next)
      (Stops pool (pool.disk.pageCount + 1)) := by
  obtain ⟨copied, copies, isRight⟩ := is.copyEntries
  have keyCount := is.keyCount
  rw [List.length_append] at keyCount
  have rest : node.keyCount - left.length = (e :: right).length := by omega
  have count : (node.keyCount - left.length).toNat = (e :: right).length := by omega
  have firstKey : arrayGet copied.keys 0 = .ok e.1 :=
    arrayGet_of_isPrefix (isRight next).keys rfl
  have bound := pageCount_small ok
  have printsLeft : Prints { node with keyCount := left.length, nextLeaf := pool.disk.pageCount }
      fun page => PageLeaf page left pool.disk.pageCount := fun _ terminated =>
    (isLeaf_left is _).serialize (writesLeft.1 bound) writesLeft.2 bound terminated
  have printsRight : Prints { copied with nextLeaf := next }
      fun page => PageLeaf page (e :: right) next := fun _ terminated =>
    (isRight next).serialize (writesRight.1 small) writesRight.2 small terminated
  unfold splitLeaf inMemory
  simp only [← half, count]
  simp only [rest, is.isLeaf, copies, is.nextLeaf, firstKey, pure_bind]
  rw [is.isLeaf] at printsLeft
  refine saveHalves_ends ok holds terminated printsLeft printsRight ?_
  intro pool' pageLeft pageRight halved room isLeft isRight
  exact ⟨rfl, room, pageLeft, pageRight, halved, isLeft, isRight⟩

/-- **A leaf is saved, or cut and saved in halves.** -/
theorem saveOrSplit_leaf (ok : pool.Consistent) (holds : pool.content id = some page)
    (served : Served pool id) (terminated : Terminated page) (is : node.IsLeaf entries next)
    (small : next ≤ 2 ^ 32 - 1)
    (writes : writable.Row ((cutLeaf btreeOrder id entries pool.disk.pageCount).1.row []) next) :
    Ends (saveOrSplit id node) pool
      (fun result pool' => result = told (cutLeaf btreeOrder id entries pool.disk.pageCount).1 ∧
        (result.isSome → ¬ pool'.Full) ∧
        LaidOut pool pool' [id] (cutLeaf btreeOrder id entries pool.disk.pageCount) next)
      (Stops pool (cutLeaf btreeOrder id entries pool.disk.pageCount).2) := by
  have there := lt_pageCount ok holds
  unfold saveOrSplit
  rcases cutLeaf_cases btreeOrder id entries pool.disk.pageCount with
    ⟨few, same⟩ | ⟨left, e, right, many, split, half, same⟩
  · rw [same] at writes ⊢
    rw [if_pos (is.keyCount ▸ Int.ofNat_le.mpr few)]
    obtain ⟨page', printed, leaf⟩ := is.serialize (writes.1 small) writes.2 small terminated
    refine Ends.bind ((saveNode_visits ok holds served printed).mono (fun _ _ done => done)
      fun _ _ never => never.elim) ?_
    rintro _ saved ⟨moves, count⟩
    refine ⟨rfl, fun cut => absurd cut Bool.false_ne_true, moves.content ▸ moves.toMoves, count,
      ⟨page', ?_, leaf⟩, fun other _ apart => ?_⟩
    · rw [moves.content]
      exact Function.update_self ..
    · rw [moves.content]
      exact Function.update_of_ne (fun same => apart (List.mem_singleton.mpr same)) ..
  · rw [same] at writes ⊢
    rw [if_neg (is.keyCount ▸ Int.not_le.mpr (Int.ofNat_lt.mpr many))]
    unfold splitNode
    rw [if_pos is.isLeaf]
    rw [split] at is
    refine Ends.bind (splitLeaf_ends ok holds terminated is ?_ small writes.1 writes.2) ?_
    · rw [half, is.toNat, ← split]
    rintro _ pool' ⟨rfl, room, pageLeft, pageRight, halved, isLeft, isRight⟩
    refine ⟨rfl, fun _ => room, halved.moves, halved.pageCount, ⟨⟨pageLeft, halved.left, isLeft⟩,
      ⟨pageRight, halved.right, isRight⟩⟩, fun other below apart => ?_⟩
    exact halved.others other (fun same => apart (List.mem_singleton.mpr same)) below.ne

theorem splitInner_ends (ok : pool.Consistent) (holds : pool.content id = some page)
    (terminated : Terminated page) {left right : List Str} {s : Str}
    {childrenLeft childrenRight : List Nat} {c : Nat}
    (is : node.IsNode (left ++ s :: right) (childrenLeft ++ c :: childrenRight))
    (length : childrenLeft.length = left.length + 1) (half : left.length = node.keyCount.toNat / 2)
    (small : ∀ child ∈ childrenLeft ++ c :: childrenRight, child ≤ 2 ^ 32 - 1)
    (writesLeft : writable.nodeAt id left childrenLeft)
    (writesRight : writable.nodeAt pool.disk.pageCount right (c :: childrenRight)) :
    Ends (splitInner id node) pool
      (fun result pool' => result = { key := s, newPage := pool.disk.pageCount } ∧ ¬ pool'.Full ∧
        ∃ pageLeft pageRight, Halved pool pool' id pageLeft pageRight ∧
          PageNode pageLeft left childrenLeft ∧ PageNode pageRight right (c :: childrenRight))
      (Stops pool (pool.disk.pageCount + 1)) := by
  obtain ⟨pushUpKey, copied, copies, isRight⟩ := is.rightChildren length
  obtain ⟨smallLeft, smallRight⟩ := List.forall_mem_append.mp small
  have printsLeft : Prints { node with keyCount := left.length }
      fun page => PageNode page left childrenLeft := fun _ terminated =>
    (isNode_left is length).serialize (writesLeft.1 smallLeft) writesLeft.2 smallLeft terminated
  have printsRight : Prints copied fun page => PageNode page right (c :: childrenRight) :=
    fun _ terminated => isRight.serialize (writesRight.1 smallRight) writesRight.2
      smallRight terminated
  unfold splitInner inMemory
  simp only [← half, pushUpKey, copies, pure_bind]
  refine @saveHalves_ends pool id page _ (fun _ => { node with keyCount := left.length }) _ _ _ _ _
    ok holds terminated printsLeft printsRight ?_
  intro pool' pageLeft pageRight halved room isLeft isRight
  exact ⟨rfl, room, pageLeft, pageRight, halved, isLeft, isRight⟩

/-- **An inner node is saved, or cut and saved in halves.** -/
theorem saveOrSplit_node {h : Nat} {row : BPlusTree.Row Str Str h} (ok : pool.Consistent)
    (holds : pool.content id = some page) (served : Served pool id) (terminated : Terminated page)
    (is : node.IsNode (BPlusTree.keys row) (ids row)) (below : (held pool.content).Row row next)
    (apart : ∀ child ∈ across Tree.pages row, child < pool.disk.pageCount ∧ child ≠ id)
    (writes : writable.Row ((cutNode btreeOrder id row pool.disk.pageCount).1.row []) next) :
    Ends (saveOrSplit id node) pool
      (fun result pool' => result = told (cutNode btreeOrder id row pool.disk.pageCount).1 ∧
        (result.isSome → ¬ pool'.Full) ∧
        LaidOut pool pool' [id] (cutNode btreeOrder id row pool.disk.pageCount) next)
      (Stops pool (cutNode btreeOrder id row pool.disk.pageCount).2) := by
  have there := lt_pageCount ok holds
  have keyCount : node.keyCount = row.2.length := by
    rw [is.keyCount, BPlusTree.keys, List.length_map]
  have small : ∀ child ∈ ids row, child ≤ 2 ^ 32 - 1 := fun child member =>
    (apart child (mem_across_of_mem_ids member)).1.le.trans (pageCount_small ok)
  unfold saveOrSplit
  rcases cutNode_cases btreeOrder id row pool.disk.pageCount with
    ⟨few, same⟩ | ⟨left, key, child, right, many, split, half, same⟩
  · rw [same] at writes ⊢
    rw [if_pos (keyCount ▸ Int.ofNat_le.mpr few)]
    obtain ⟨page', printed, inner⟩ := is.serialize (writes.1.1 small) writes.1.2 small terminated
    refine Ends.bind ((saveNode_visits ok holds served printed).mono (fun _ _ done => done)
      fun _ _ never => never.elim) ?_
    rintro _ saved ⟨moves, count⟩
    have others : ∀ other, other ≠ id → saved.content other = pool.content other := by
      intro other apart
      rw [moves.content]
      exact Function.update_of_ne apart ..
    refine ⟨rfl, fun cut => absurd cut Bool.false_ne_true, moves.content ▸ moves.toMoves, count,
      ⟨⟨page', ?_, inner⟩, ?_⟩, fun other _ notOwn => ?_⟩
    · rw [moves.content]
      exact Function.update_self ..
    · exact Layout.Row.frame below fun other member =>
        agree_held (others other (apart other member).2)
    · exact others other fun same => notOwn (List.mem_singleton.mpr same)
  · obtain ⟨first, rest⟩ := row
    simp only at split half keyCount
    rw [same] at writes ⊢
    rw [if_neg (keyCount ▸ Int.not_le.mpr (Int.ofNat_lt.mpr many))]
    unfold splitNode
    rw [is.isLeaf, if_neg Bool.false_ne_true]
    subst split
    rw [keys_append, ids_append] at is
    rw [ids_append] at small
    refine Ends.bind (splitInner_ends ok holds terminated is (length_ids (first, left)) ?_ small
      writes.1.1 writes.2.1) ?_
    · rw [keyCount, Int.toNat_natCast, ← half]
      exact List.length_map ..
    rintro _ pool' ⟨rfl, room, pageLeft, pageRight, halved, isLeft, isRight⟩
    have below' : (held pool'.content).Row (first, left ++ (key, child) :: right) next :=
      Layout.Row.frame below fun other member => agree_held <|
        halved.others other (apart other member).2 (apart other member).1.ne
    rw [Layout.row_append] at below'
    refine ⟨rfl, fun _ => room, halved.moves, halved.pageCount,
      ⟨⟨⟨pageLeft, halved.left, isLeft⟩, below'.1⟩,
      ⟨⟨pageRight, halved.right, isRight⟩, below'.2⟩⟩, fun other below notOwn => ?_⟩
    exact halved.others other (fun same => notOwn (List.mem_singleton.mpr same)) below.ne

/-! ### Insertion -/

section Insert

variable {key value : Str}

/-- The file does not shrink. -/
theorem LaidOut.le_pageCount {h free : Nat} {t : Tree Str Str h} {own : List Nat}
    (laid : LaidOut pool pool' own (BPlusTree.insert btreeOrder key value t free) next) :
    free ≤ pool'.disk.pageCount := by
  obtain ⟨count, grown, -⟩ := @pages_insert _ _ _ btreeOrder key value _ t free
  rw [laid.pageCount, grown]
  exact Nat.le_add_right _ count

/-- The row of an inner node whose child has been laid out, and the pages outside the child. -/
theorem LaidOut.amongRow {h : Nat} {first : Tree Str Str h} {rest : List (Str × Tree Str Str h)}
    {visited stored : BufferPool} (below : (held pool.content).Row (first, rest) next)
    (nodup : (across Tree.pages (first, rest)).Nodup)
    (used : ∀ other ∈ across Tree.pages (first, rest), other < pool.disk.pageCount)
    (content : visited.content = pool.content)
    (count : visited.disk.pageCount = pool.disk.pageCount)
    (laid : LaidOut visited stored (childFor key first rest).pages
      (BPlusTree.insert btreeOrder key value (childFor key first rest) pool.disk.pageCount)
      (Layout.nextFor key first rest next)) :
    (∀ other < pool.disk.pageCount, other ∉ (childFor key first rest).pages →
      stored.content other = pool.content other) ∧
    (held stored.content).Row (insertAmong (BPlusTree.insert btreeOrder key value) key first
      rest pool.disk.pageCount).1 next := by
  have others : ∀ other < pool.disk.pageCount, other ∉ (childFor key first rest).pages →
      stored.content other = pool.content other := by
    intro other below apart
    rw [laid.others other (count ▸ below) apart, content]
  refine ⟨others, ?_⟩
  exact Layout.rowHolds_insertAmong firstLeaf_insert below nodup (fun other member apart =>
    agree_held (others other (used other member) apart)) laid.row

/-- A node whose child was not split has as many keys as before. -/
theorem insertAmong_few {h : Nat} {first : Tree Str Str h} {rest : List (Str × Tree Str Str h)}
    {t : Tree Str Str h} {fresh free : Nat} (few : rest.length ≤ btreeOrder)
    (outcome : BPlusTree.insert btreeOrder key value (childFor key first rest) free =
      (.whole t, fresh)) :
    (insertAmong (BPlusTree.insert btreeOrder key value) key first rest free).1.2.length ≤
      btreeOrder := by
  have length := congrArg List.length (arrays_of_whole id_insert outcome).1
  unfold BPlusTree.keys at length
  rw [List.length_map, List.length_map] at length
  exact length ▸ few

/-- The pages of a row after an insertion are in the file, and not the node's. -/
theorem insertAmong_apart {h id free : Nat} {first : Tree Str Str h}
    {rest : List (Str × Tree Str Str h)} (notBelow : id ∉ across Tree.pages (first, rest))
    (idUsed : id < free) (used : ∀ other ∈ across Tree.pages (first, rest), other < free) :
    ∀ other ∈ across Tree.pages
        (insertAmong (BPlusTree.insert btreeOrder key value) key first rest free).1,
      other < (insertAmong (BPlusTree.insert btreeOrder key value) key first rest free).2 ∧
        other ≠ id := by
  obtain ⟨taken, next', perm⟩ :=
    insertAmong_pages (@pages_insert _ _ _ btreeOrder key value h) key rest first free
  intro other member
  rcases List.mem_append.mp (perm.mem_iff.mp member) with member | member
  · have otherUsed := used other member
    exact ⟨by omega, fun same => notBelow (same ▸ member)⟩
  · have bounds := List.mem_range'_1.mp member
    exact ⟨by omega, by omega⟩

/-- **One level**: `insertRec` on an inner node, if it lays out the outcome of the child. -/
theorem insertRec_node {h fuel : Nat} {t : Tree Str Str (h + 1)} {least : Nat}
    (ok : pool.Consistent) (holds : (held pool.content).Holds t next)
    (shaped : Shaped btreeOrder t least) (nodup : t.pages.Nodup)
    (used : ∀ id ∈ t.pages, id < pool.disk.pageCount)
    (writes : writable.Row ((BPlusTree.insert btreeOrder key value t pool.disk.pageCount).1.row [])
      next) (child : ∀ pool', Visits pool pool' pool.content →
        pool'.disk.pageCount = pool.disk.pageCount →
      Ends (insertRec key value fuel (childFor key t.2.1 t.2.2).id) pool'
        (fun result pool'' =>
          result = told (BPlusTree.insert btreeOrder key value (childFor key t.2.1 t.2.2)
            pool.disk.pageCount).1 ∧
          (result.isSome → ¬ pool''.Full) ∧
          LaidOut pool' pool'' (childFor key t.2.1 t.2.2).pages
            (BPlusTree.insert btreeOrder key value (childFor key t.2.1 t.2.2) pool.disk.pageCount)
            (Layout.nextFor key t.2.1 t.2.2 next))
        (Stops pool' (BPlusTree.insert btreeOrder key value (childFor key t.2.1 t.2.2)
          pool.disk.pageCount).2)) :
    Ends (insertRec key value (fuel + 1) t.id) pool
      (fun result pool' =>
        result = told (BPlusTree.insert btreeOrder key value t pool.disk.pageCount).1 ∧
        (result.isSome → ¬ pool'.Full) ∧
        LaidOut pool pool' t.pages (BPlusTree.insert btreeOrder key value t pool.disk.pageCount)
          next)
      (Stops pool (BPlusTree.insert btreeOrder key value t pool.disk.pageCount).2) := by
  obtain ⟨id, first, rest⟩ := t
  obtain ⟨⟨page, onPage, terminated, node, reads, is⟩, below⟩ := Layout.holds_node.mp holds
  obtain ⟨notBelow, nodupRow⟩ := List.nodup_cons.mp nodup
  have room : (BPlusTree.keys (first, rest)).length ≤ btreeOrder := by
    unfold BPlusTree.keys
    rw [List.length_map]
    exact shaped.2.1
  unfold insertRec
  refine Ends.bind ((loadNode_visits ok onPage reads).mono (fun _ _ done => done)
    fun _ _ missed => .inl missed.2) ?_
  rintro _ loaded ⟨rfl, moves, -, count⟩
  rw [is.isLeaf, if_neg Bool.false_ne_true]
  unfold inMemory
  rw [is.childIndex key, ends_pure_bind, arrayGet_of_isPrefix is.children (ids_slot first rest),
    ends_pure_bind]
  refine Ends.bind ((child loaded moves count).mono (fun _ _ done => done)
    fun _ _ stops =>
      (stops.of_visits moves).mono (fresh_childFor_le id pool.disk.pageCount first rest)) ?_
  rintro _ stored ⟨rfl, roomy, laid⟩
  have all : Moves pool stored stored.content := moves.toMoves.trans laid.moves
  have idUsed := used id List.mem_cons_self
  have usedRow := fun other member => used other (List.mem_cons_of_mem _ member)
  -- the child's pages and the new ones are all that has changed
  obtain ⟨others, row⟩ := laid.amongRow below nodupRow usedRow moves.content count
  have onPage' : stored.content id = some page :=
    (others id idUsed fun inside => notBelow (mem_across_of_childFor inside)).trans onPage
  have counted := laid.pageCount.trans (insertAmong_snd first rest pool.disk.pageCount).symm
  have more := laid.le_pageCount
  rcases outcome : BPlusTree.insert btreeOrder key value (childFor key first rest)
    pool.disk.pageCount with ⟨t | ⟨left, sep, right⟩, fresh⟩
  · obtain ⟨sameKeys, sameIds⟩ := arrays_of_whole id_insert outcome
    rw [insert_node, cutNode, if_pos (insertAmong_few shaped.2.1 outcome)]
    refine ⟨rfl, fun cut => absurd cut Bool.false_ne_true, all, counted,
      ⟨⟨page, onPage', terminated, _, reads, ?_⟩, row⟩, ?_⟩
    · rw [← sameKeys, ← sameIds] at is
      exact is
    · exact fun other below apart => others other below fun inside =>
        apart (List.mem_cons_of_mem _ (mem_across_of_childFor inside))
  · obtain ⟨sameKeys, sameIds⟩ := arrays_of_split id_insert outcome
    obtain ⟨node', inserted, is'⟩ := is.insertChild room (slot_le_length ..) sep right.id
    rw [← sameKeys, ← sameIds] at is'
    simp only [told, inserted, ends_pure_bind]
    have apart := counted ▸ insertAmong_apart notBelow idUsed usedRow
    rw [insert_node, ← counted] at writes ⊢
    -- the child was split, so there is room
    have room' : ¬ stored.Full := roomy (outcome ▸ rfl)
    refine (saveOrSplit_node all.consistent onPage' (fun full => absurd full room') terminated
      is' row apart writes).mono ?_ ?_
    · rintro result saved ⟨same, roomSaved, laid'⟩
      refine ⟨same, roomSaved,
        ⟨all.trans laid'.moves, laid'.pageCount, laid'.row, fun other below apart => ?_⟩⟩
      rw [laid'.others other ?_ fun inside => apart ?_]
      · exact others other below fun inside =>
          apart (List.mem_cons_of_mem _ (mem_across_of_childFor inside))
      · exact below.trans_le more
      · exact List.mem_singleton.mp inside ▸ List.mem_cons_self
    · intro fault stopped stops
      exact .inr (all.maxPages ▸ stops.of_room room')

/-- **`insertRec` is the insertion into a B+-tree.** -/
theorem insertRec_ends (key value : Str) {h : Nat} :
    ∀ {t : Tree Str Str h} {least next fuel : Nat} {pool : BufferPool},
    pool.Consistent → (held pool.content).Holds t next → Shaped btreeOrder t least →
      Sorted t.entries →
    t.pages.Nodup → (∀ id ∈ t.pages, id < pool.disk.pageCount) → next ≤ 2 ^ 32 - 1 → h < fuel →
    writable.Row ((BPlusTree.insert btreeOrder key value t pool.disk.pageCount).1.row []) next →
    Ends (insertRec key value fuel t.id) pool
      (fun result pool' =>
        result = told (BPlusTree.insert btreeOrder key value t pool.disk.pageCount).1 ∧
        (result.isSome → ¬ pool'.Full) ∧
        LaidOut pool pool' t.pages (BPlusTree.insert btreeOrder key value t pool.disk.pageCount)
          next)
      (Stops pool (BPlusTree.insert btreeOrder key value t pool.disk.pageCount).2) := by
  induction h with
  | zero =>
    intro t least next fuel pool ok holds shaped sorted nodup used small enough writes
    obtain ⟨fuel, rfl⟩ := Nat.exists_eq_succ_of_ne_zero (Nat.ne_of_gt enough)
    obtain ⟨page, onPage, terminated, node, reads, is⟩ := holds
    rw [Tree.entries_leaf] at sorted
    unfold insertRec
    refine Ends.bind ((loadNode_visits ok onPage reads).mono (fun _ _ done => done)
      fun _ _ missed => .inl missed.2) ?_
    rintro _ loaded ⟨rfl, moves, served, count⟩
    rw [if_pos is.isLeaf]
    obtain ⟨node', inserted, is'⟩ := is.insertEntry shaped.2 sorted key value
    unfold inMemory
    rw [inserted, ends_pure_bind]
    rw [← count] at writes ⊢
    refine (saveOrSplit_leaf moves.consistent (moves.content ▸ onPage)
      (moves.served.mpr served) terminated
      is' small writes).mono ?_ fun _ _ stops => stops.of_visits moves
    · rintro result saved ⟨same, room, laid⟩
      refine ⟨same, room,
        ⟨(moves.toMoves.trans laid.moves), laid.pageCount, laid.row, fun other below apart => ?_⟩⟩
      rw [laid.others other (count ▸ below) apart, moves.content]
  | succ h ih =>
    intro t least next fuel pool ok holds shaped sorted nodup used small enough writes
    obtain ⟨fuel, rfl⟩ := Nat.exists_eq_succ_of_ne_zero (Nat.ne_of_gt (Nat.zero_lt_of_lt enough))
    refine insertRec_node ok holds shaped nodup used writes fun pool' moves count => ?_
    rw [Tree.entries_node] at sorted
    obtain ⟨id, first, rest⟩ := t
    rw [← count] at used writes ⊢
    have row : (held pool'.content).Row (first, rest) next := moves.content ▸ holds.2
    have shapedRow : RowShaped btreeOrder (first, rest) := shaped.2.2
    have sortedRow : Sorted (across Tree.entries (first, rest)) := sorted
    have nodup' : (childFor key first rest).pages.Nodup :=
      (childFor_sublist Tree.pages).nodup (List.nodup_cons.mp nodup).2
    refine ih moves.consistent (row.childFor key) (shapedRow.childFor key) ?_ nodup' ?_ ?_
      (Nat.lt_of_succ_lt_succ enough) (Layout.row_of_insertAmong (Layout.row_of_cutNode writes))
    · exact sortedRow.sublist (childFor_sublist Tree.entries)
    · exact fun other member => used other (List.mem_cons_of_mem _ (mem_across_of_childFor member))
    · rcases Layout.nextFor_mem key first rest next with same | member
      · rw [same]
        exact small
      · exact (used _ (List.mem_cons_of_mem _ member)).le.trans (pageCount_small moves.consistent)

end Insert

/-! ### Whole trees -/

/-- **The pages of the pool hold the index.** -/
structure Holds (pool : BufferPool) (tree : BTree) (x : Index Str Str) : Prop where
  root : tree.rootId = x.root.id
  fresh : pool.disk.pageCount = x.fresh
  pages : (held pool.content).Holds x.root invalidPageId

/-- What is read in between leaves the index alone. -/
theorem Holds.later {tree : BTree} {x : Index Str Str} (holds : Holds pool tree x)
    (ok : pool.Consistent) (reads : Moves pool pool' pool.content) : Holds pool' tree x where
  root := holds.root
  fresh := (ok.pageCount_eq reads.consistent reads.content).trans holds.fresh
  pages := by
    rw [reads.content]
    exact holds.pages

/-- The pages of a tree are pages of the file. -/
theorem pages_there (ok : pool.Consistent) {h : Nat} {t : Tree Str Str h}
    (holds : (held pool.content).Holds t next) : ∀ id ∈ t.pages, id < pool.disk.pageCount :=
  holds.forall_pages (fun _ _ _ ⟨_, there, _⟩ => lt_pageCount ok there)
    fun _ _ _ ⟨_, there, _⟩ => lt_pageCount ok there

/-- Pages without repetition below a bound are no more than the bound. -/
theorem length_le_of_nodup {ids : List Nat} {bound : Nat} (nodup : ids.Nodup)
    (below : ∀ id ∈ ids, id < bound) : ids.length ≤ bound := by
  have sub : ids ⊆ List.range bound := fun id member => List.mem_range.mpr (below id member)
  have le := (List.Nodup.subperm nodup sub).length_le
  rwa [List.length_range] at le

/-- The new root stands above the halves. -/
theorem newRoot_spec (rootId : Nat) (split : SplitResult) :
    ∃ root, newRoot rootId split = .ok root ∧
      root.IsNode [split.key] [rootId, split.newPage] := by
  refine ⟨_, rfl, rfl, rfl, rfl, ⟨_, rfl⟩, ⟨_, rfl⟩⟩

/-- **A new root is saved** above the halves of the old one. -/
theorem newRoot_ends {h : Nat} {left right : Tree Str Str h} {key : Str}
    (consistent : pool.Consistent) (room : ¬ pool.Full)
    (row : (held pool.content).Row (left, [(key, right)]) invalidPageId)
    (writes : writable.nodeAt pool.disk.pageCount [key] [left.id, right.id]) :
    Ends (do
        let newRootId ← allocNode
        let root ← inMemory (newRoot left.id { key, newPage := right.id })
        saveNode newRootId root
        return ({ rootId := newRootId } : BTree)) pool
      (fun tree' saved => tree'.rootId = pool.disk.pageCount ∧ Moves pool saved saved.content ∧
        saved.disk.pageCount = pool.disk.pageCount + 1 ∧
        (held saved.content).Holds (.node pool.disk.pageCount left [(key, right)]) invalidPageId ∧
        ∀ id, id ≠ pool.disk.pageCount → saved.content id = pool.content id)
      (Exhausted pool.disk.maxPages (pool.disk.pageCount + 1)) := by
  refine Ends.bind ((allocNode_visits consistent).mono (fun _ _ done => done)
    fun _ _ stops => stops.of_room room) ?_
  rintro _ allocated ⟨rfl, -, moves, counted, -, roomy⟩
  obtain ⟨root, made, is⟩ := newRoot_spec left.id { key, newPage := right.id }
  unfold inMemory
  rw [made, ends_pure_bind]
  have holdsRoot : allocated.content pool.disk.pageCount = some (Page.new pool.disk.pageCount) := by
    rw [moves.content, Function.update_self]
  have leftThere := pages_there consistent row.1
  have rightThere := pages_there consistent row.2
  have halves : left.id < pool.disk.pageCount ∧ right.id < pool.disk.pageCount :=
    ⟨leftThere _ left.id_mem_pages, rightThere _ right.id_mem_pages⟩
  have bound := pageCount_small consistent
  have small : ∀ child ∈ [left.id, right.id], child ≤ 2 ^ 32 - 1 := by
    simp only [List.forall_mem_cons]
    exact ⟨by omega, by omega, nofun⟩
  obtain ⟨page', printed, inner⟩ := is.serialize (writes.1 small) writes.2 small
    (terminated_new pool.disk.pageCount)
  refine Ends.bind ((saveNode_visits moves.consistent holdsRoot (fun full => absurd full roomy)
    printed).mono (fun _ _ done => done) fun _ _ never => never.elim) ?_
  rintro _ saved ⟨moves', counted'⟩
  have all := moves.trans moves'.toMoves
  have others : ∀ id, id ≠ pool.disk.pageCount → saved.content id = pool.content id := by
    intro id apart
    rw [moves'.content, Function.update_of_ne apart, moves.content, Function.update_of_ne apart]
  refine ⟨rfl, all.content ▸ all, counted'.trans counted, ⟨⟨page', ?_, inner⟩, ?_⟩, others⟩
  · rw [moves'.content]
    exact Function.update_self ..
  · refine ⟨row.1.frame fun id member => agree_held (others id ?_),
      row.2.frame fun id member => agree_held (others id ?_)⟩
    · exact (leftThere id member).ne
    · exact (rightThere id member).ne

/-- **`insert` is the insertion into an index.** -/
theorem insert_visits {tree : BTree} {x : Index Str Str} (consistent : pool.Consistent)
    (ok : x.Ok btreeOrder) (holds : Holds pool tree x) (entry : Str × Str)
    (writes : writable.Holds (x.insert btreeOrder entry).root invalidPageId) :
    Ends (tree.insert entry.1 entry.2) pool
      (fun tree' pool' => Moves pool pool' pool'.content ∧
        Holds pool' tree' (x.insert btreeOrder entry) ∧
        ∀ id < pool.disk.pageCount, id ∉ x.root.pages → pool'.content id = pool.content id)
      (Stops pool (x.insert btreeOrder entry).fresh) := by
  have used : ∀ id ∈ x.root.pages, id < pool.disk.pageCount := by
    rw [holds.fresh]
    exact ok.used
  have enough : x.height < pool.disk.pageCount + 1 :=
    Nat.lt_succ_of_lt (x.root.height_lt_pages.trans_le (length_le_of_nodup ok.nodup used))
  have kept := @id_insert _ _ _ btreeOrder entry.1 entry.2 _ x.root x.fresh
  have descend :=
    insertRec_ends entry.1 entry.2 consistent holds.pages ok.shaped ok.sorted ok.nodup used
    (Nat.le_refl _) enough
  rw [holds.fresh] at descend
  unfold Index.insert at writes ⊢
  unfold BTree.insert
  rw [ends_get_bind, holds.root, holds.fresh]
  rcases outcome : BPlusTree.insert btreeOrder entry.1 entry.2 x.root x.fresh with
    ⟨t | ⟨left, key, right⟩, fresh⟩
  · rw [outcome] at writes descend kept
    refine Ends.bind (descend writes) ?_
    rintro _ pool' ⟨rfl, -, laid⟩
    refine ⟨laid.moves, ⟨holds.root.trans kept.symm, laid.pageCount, laid.row⟩, ?_⟩
    rw [← holds.fresh]
    exact laid.others
  · rw [outcome] at writes descend kept
    obtain ⟨writesRoot, writesRow⟩ := Layout.holds_node.mp writes
    refine Ends.bind ((descend writesRow).mono (fun _ _ done => done)
      fun _ _ stops => stops.mono (Nat.le_succ fresh)) ?_
    rintro _ stored ⟨rfl, room, laid⟩
    have count : stored.disk.pageCount = fresh := laid.pageCount
    have sameLeft : left.id = x.root.id := kept
    rw [← sameLeft]
    refine (newRoot_ends laid.moves.consistent (room rfl) laid.row (count ▸ writesRoot)).mono ?_ ?_
    · rintro tree' saved ⟨onTop, moves, counted, root, others⟩
      rw [count] at onTop counted root
      have all := laid.moves.trans moves
      refine ⟨all, ⟨onTop, counted, root⟩, fun id below apart => ?_⟩
      have grown : x.fresh ≤ fresh := by
        obtain ⟨taken, next', -⟩ := @pages_insert _ _ _ btreeOrder entry.1 entry.2 _ x.root x.fresh
        rw [outcome] at next'
        have same : fresh = x.fresh + taken := next'
        omega
      rw [others id (by omega)]
      exact laid.others id (holds.fresh ▸ below) apart
    · intro fault stopped exhausted
      rw [count, laid.moves.maxPages] at exhausted
      exact .inr exhausted

theorem insert_ends {tree : BTree} {x : Index Str Str} (ready : pool.Ready) (ok : x.Ok btreeOrder)
    (holds : Holds pool tree x) (entry : Str × Str)
    (writes : writable.Holds (x.insert btreeOrder entry).root invalidPageId) :
    Ends (tree.insert entry.1 entry.2) pool
      (fun tree' pool' => Moves pool pool' pool'.content ∧
        Holds pool' tree' (x.insert btreeOrder entry) ∧
        ∀ id < pool.disk.pageCount, id ∉ x.root.pages → pool'.content id = pool.content id)
      (Exhausted pool.disk.maxPages (x.insert btreeOrder entry).fresh) :=
  (insert_visits ready.consistent ok holds entry writes).mono (fun _ _ done => done)
    fun _ _ stops => stops.of_room ready.not_full

/-- **The constructor** makes an empty index on a new page. -/
theorem create_visits (consistent : pool.Consistent) :
    Ends create pool
      (fun tree pool' => Moves pool pool' pool'.content ∧
        Holds pool' tree (Index.empty pool.disk.pageCount) ∧
        ∀ id < pool.disk.pageCount, pool'.content id = pool.content id)
      (Stops pool (pool.disk.pageCount + 1)) := by
  unfold create
  refine Ends.bind (allocNode_visits consistent) ?_
  rintro _ allocated ⟨rfl, -, moves, counted, -, room⟩
  have holds : allocated.content pool.disk.pageCount = some (Page.new pool.disk.pageCount) := by
    rw [moves.content, Function.update_self]
  have is : ({ isLeaf := true, keyCount := 0 } : BTreeNode).IsLeaf [] invalidPageId :=
    ⟨rfl, rfl, List.nil_prefix, List.nil_prefix, rfl⟩
  obtain ⟨page', printed, leaf⟩ := is.serialize (by decide +kernel) nofun (Nat.le_refl _)
    (terminated_new pool.disk.pageCount)
  refine Ends.bind
    ((saveNode_visits moves.consistent holds (fun full => absurd full room) printed).mono
    (fun _ _ done => done) fun _ _ never => never.elim) ?_
  rintro _ saved ⟨moves', counted'⟩
  have all := moves.trans moves'.toMoves
  refine ⟨all.content ▸ all, ⟨rfl, counted'.trans counted, ⟨page', ?_, leaf⟩⟩, fun id below => ?_⟩
  · rw [moves'.content]
    exact Function.update_self ..
  · rw [moves'.content, Function.update_of_ne below.ne, moves.content,
      Function.update_of_ne below.ne]

theorem create_ends (ready : pool.Ready) :
    Ends create pool
      (fun tree pool' => Moves pool pool' pool'.content ∧
        Holds pool' tree (Index.empty pool.disk.pageCount) ∧
        ∀ id < pool.disk.pageCount, pool'.content id = pool.content id)
      (Exhausted pool.disk.maxPages (pool.disk.pageCount + 1)) :=
  (create_visits ready.consistent).mono (fun _ _ done => done) fun _ _ stops =>
    stops.of_room ready.not_full

/-- **A run of insertions.** -/
theorem insertAll_ends {pairs : List (Str × Str)} : ∀ {pool : BufferPool} {tree : BTree}
    {x : Index Str Str}, pool.Ready → x.Ok btreeOrder → Holds pool tree x →
    (∀ front, front <+: pairs →
      writable.Holds (x.insertAll btreeOrder front).root invalidPageId) →
    Ends (insertAll pairs tree) pool
      (fun tree' pool' => Moves pool pool' pool'.content ∧
        Holds pool' tree' (x.insertAll btreeOrder pairs))
      (Exhausted pool.disk.maxPages (x.insertAll btreeOrder pairs).fresh) := by
  induction pairs with
  | nil =>
    intro pool tree x ready _ holds _
    exact ⟨⟨ready.consistent, rfl, rfl, rfl, rfl⟩, holds⟩
  | cons entry pairs ih =>
    intro pool tree x ready ok holds writes
    refine Ends.bind ((insert_ends ready ok holds entry (writes [entry] ⟨pairs, rfl⟩)).mono
      (fun _ _ done => done) fun _ _ exhausted =>
        ⟨exhausted.1, exhausted.2.trans_le (Index.le_fresh_insertAll btreeOrder pairs _)⟩) ?_
    rintro tree' pool' ⟨moves, holds', -⟩
    refine (ih (moves.ready ready) (ok.insert (by decide) entry).1 holds' ?_).mono ?_ ?_
    · rintro front ⟨back, rfl⟩
      exact writes (entry :: front) ⟨back, rfl⟩
    · rintro tree'' pool'' ⟨moves', holds''⟩
      exact ⟨moves.trans moves', holds''⟩
    · intro fault full failed
      rwa [moves.maxPages] at failed

end BTree

end MyDb
