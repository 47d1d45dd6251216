/-
**An insertion completes or changes nothing.**

Other clients of the pool may have pinned so many pages that no frame can be freed. An insertion
first loads the nodes of one path; a load that is refused has changed nothing. What follows is a
save of the leaf just loaded, or a split, which begins with a new page; once there was room for a
page there is room for all the rest. So `insert_atomic`: an insertion completes, or throws with the
root and every page as they were.
-/

import MyDatabaseEngine.Index.BTreeInvariant
import MyDatabaseEngine.Storage.PoolLru

namespace MyDb

open Outcome BPlusTree

namespace BTree

open BufferPool BTreeNode

/-- **A key and a value that can be inserted**: tokens, with which every node of the tree fits its
page. -/
structure Insertable (x : Index Str Str) (entry : Str × Str) : Prop where
  key : Token entry.1
  value : Token entry.2
  fits : fitting.Holds (x.insert btreeOrder entry).root invalidPageId

/-- **A tree in the states it can come to**, and the index that its pages hold: after insertions
that completed or found no frame, and after anything that its pool's other clients do, pins and
evictions included, to other pages. -/
inductive Reachable : BufferPool → BTree → Index Str Str → Prop
  | create {pool pool' : BufferPool} {tree : BTree} :
      pool.Consistent → create pool = .ok tree pool' →
      Reachable pool' tree (Index.empty pool.disk.pageCount)
  | insert {pool pool' : BufferPool} {tree tree' : BTree} {x : Index Str Str} {entry : Str × Str} :
      Reachable pool tree x → Insertable x entry →
        tree.insert entry.1 entry.2 pool = .ok tree' pool' →
      Reachable pool' tree' (x.insert btreeOrder entry)
  | insertThrows {pool pool' : BufferPool} {tree : BTree} {x : Index Str Str} {entry : Str × Str} :
      Reachable pool tree x → Insertable x entry →
      tree.insert entry.1 entry.2 pool = .error poolFull pool' → Reachable pool' tree x
  | others {pool pool' : BufferPool} {tree : BTree} {x : Index Str Str} :
      Reachable pool tree x → pool'.Consistent →
      (∀ id ∈ x.root.pages, pool'.content id = pool.content id) →
      Reachable pool' tree { x with fresh := pool'.disk.pageCount }

/-- **What is true of a reachable tree.** -/
structure Sound (pool : BufferPool) (tree : BTree) (x : Index Str Str) : Prop where
  consistent : pool.Consistent
  ok : x.Ok btreeOrder
  tokens : EntryTokens x.root.entries
  holds : Holds pool tree x

variable {pool pool' : BufferPool} {tree tree' : BTree} {x : Index Str Str} {entry : Str × Str}

theorem Sound.writable (sound : Sound pool tree x) (insertable : Insertable x entry) :
    writable.Holds (x.insert btreeOrder entry).root invalidPageId := by
  obtain ⟨ok, entries⟩ := sound.ok.insert (by decide) entry
  refine insertable.fits.both <| Layout.holds_of_entries (P := fun e => Token e.1 ∧ Token e.2)
    (fun _ _ _ _ all => all) ?_ ok.shaped fun e member => ?_
  · rintro _ keys _ - - all key member
    obtain ⟨e, token, rfl⟩ := all key member
    exact token.1
  · rw [entries] at member
    rcases List.mem_cons.mp ((put_perm entry _).mem_iff.mp member) with rfl | old
    · exact ⟨insertable.key, insertable.value⟩
    · exact sound.tokens e old

theorem Sound.insert (sound : Sound pool tree x) (insertable : Insertable x entry) :
    Ends (tree.insert entry.1 entry.2) pool
      (fun tree' pool' => Sound pool' tree' (x.insert btreeOrder entry))
      (Stops pool (x.insert btreeOrder entry).fresh) := by
  obtain ⟨ok, entries⟩ := sound.ok.insert (by decide) entry
  refine (insert_visits sound.consistent sound.ok sound.holds entry
    (sound.writable insertable)).mono ?_
    fun _ _ stops => stops
  rintro tree' pool' ⟨moves, holds, -⟩
  refine ⟨moves.consistent, ok, fun e member => ?_, holds⟩
  rw [entries] at member
  rcases List.mem_cons.mp ((put_perm entry _).mem_iff.mp member) with rfl | old
  · exact ⟨insertable.key, insertable.value⟩
  · exact sound.tokens e old

/-- Nothing has happened to the tree's pages. -/
theorem Sound.others (sound : Sound pool tree x) (ok : pool'.Consistent)
    (same : ∀ id ∈ x.root.pages, pool'.content id = pool.content id) :
    Sound pool' tree { x with fresh := pool'.disk.pageCount } := by
  have pages : (held pool'.content).Holds x.root invalidPageId :=
    sound.holds.pages.frame fun id member => agree_held (same id member)
  exact ⟨ok, ⟨sound.ok.shaped, sound.ok.sorted, sound.ok.nodup, pages_there ok pages⟩, sound.tokens,
    ⟨sound.holds.root, rfl, pages⟩⟩

theorem Reachable.sound (reached : Reachable pool tree x) : Sound pool tree x := by
  induction reached with
  | create ok ran =>
    obtain ⟨moves, holds, -⟩ := (create_visits ok).of_ok ran
    exact ⟨moves.consistent, Index.ok_empty btreeOrder _, nofun, holds⟩
  | insert _ insertable ran sound => exact (sound.insert insertable).of_ok ran
  | insertThrows _ insertable ran sound =>
    rcases (sound.insert insertable).of_error ran with ⟨-, -, moves⟩ | ⟨⟨isFailure, -⟩, -⟩
    · exact ⟨moves.consistent, sound.ok, sound.tokens, sound.holds.later sound.consistent moves⟩
    · exact (poolFull_of_otherFault (.inr (.inr ⟨_, isFailure⟩))).elim
  | others _ ok same sound => exact sound.others ok same

/-- **An insertion into a reachable tree completes, or throws because all frames are pinned** and
there is no more room, and then every page holds what it held; `rootId_`, which is assigned last, is
as it was. A full disk without the pages that the insertion needs apart, nothing else can happen. -/
theorem insert_atomic (reached : Reachable pool tree x) (insertable : Insertable x entry) :
    Ends (tree.insert entry.1 entry.2) pool
      (fun tree' pool' => Reachable pool' tree' (x.insert btreeOrder entry))
      (fun fault pool' =>
        (fault = poolFull ∧ pool.Full ∧ pool'.content = pool.content ∧ Reachable pool' tree x) ∨
          Exhausted pool.disk.maxPages (x.insert btreeOrder entry).fresh fault pool') := by
  have ends := reached.sound.insert insertable
  cases ran : tree.insert entry.1 entry.2 pool with
  | ok tree' pool' => exact ends_of_eq_ok ran (.insert reached insertable ran)
  | error fault pool' =>
    refine ends_of_eq_error ran ((ends.of_error ran).imp_left ?_)
    rintro ⟨rfl, full, moves⟩
    exact ⟨rfl, full, moves.content, .insertThrows reached insertable ran⟩

/-- A run of insertions comes to reachable trees. -/
theorem Reachable.insertAll {pairs : List (Str × Str)} :
    ∀ {pool pool' : BufferPool} {tree tree' : BTree}
    {x : Index Str Str}, Reachable pool tree x → EntryTokens pairs →
    (∀ front, front <+: pairs → fitting.Holds (x.insertAll btreeOrder front).root invalidPageId) →
    BTree.insertAll pairs tree pool = .ok tree' pool' →
    Reachable pool' tree' (x.insertAll btreeOrder pairs) := by
  induction pairs with
  | nil =>
    intro pool pool' tree tree' x reached _ _ ran
    cases ran
    exact reached
  | cons entry pairs ih =>
    intro pool pool' tree tree' x reached tokens fits ran
    obtain ⟨⟨key, value⟩, tokens'⟩ := List.forall_mem_cons.mp tokens
    have insertable : Insertable x entry := ⟨key, value, fits [entry] ⟨pairs, rfl⟩⟩
    obtain ⟨middle, stored, first, others⟩ := exists_of_bind_eq_ok ran
    refine ih (.insert reached insertable first) tokens' ?_ others
    rintro front ⟨back, rfl⟩
    exact fits (entry :: front) ⟨back, rfl⟩

/-- **An insertion that cuts the root**, into a tree of four pairs in a pool of one frame. -/
theorem insert_atomic_split :
    ∃ pool tree tree' pool', Reachable pool tree (indexOf 0 (repeatedPairs.take 4)) ∧
      tree.insert (str "b") (str "5") pool = .ok tree' pool' ∧
      Reachable pool' tree'
        ((indexOf 0 (repeatedPairs.take 4)).insert btreeOrder (str "b", str "5")) := by
  have tokens : EntryTokens repeatedPairs := by
    unfold EntryTokens
    decide +kernel
  have short : Short repeatedPairs := by
    unfold Short
    decide +kernel
  have fits := nodesFit_of_short 0 short
  have before : repeatedPairs.take 4 <+: repeatedPairs := List.take_prefix 4 _
  have insertable : Insertable (indexOf 0 (repeatedPairs.take 4)) (str "b", str "5") :=
    ⟨by decide +kernel, by decide +kernel, fits repeatedPairs List.prefix_rfl⟩
  have ready := ready_onePagePool
  have first : onePagePool.disk.pageCount = 0 := rfl
  have room : (indexOf 0 repeatedPairs).fresh ≤ onePagePool.disk.maxPages := by decide +kernel
  -- on a variable, since the elaborator would run the call on the pool itself
  generalize onePagePool = start at ready first room
  have built := build_ends ready (fun e member => tokens e (before.mem member))
    (first.symm ▸ fun front isPrefix => fits front (isPrefix.trans before))
  rw [first] at built
  obtain ⟨tree, pool, ran, moves, -⟩ := exists_ok_of_room built
    ((Index.le_fresh_insert btreeOrder _ (str "b", str "5")).trans room)
  obtain ⟨empty, made, created, inserted⟩ := exists_of_bind_eq_ok ran
  have reached := (first ▸ Reachable.create ready.consistent created).insertAll
    (fun e member => tokens e (before.mem member))
      (fun front isPrefix => fits front (isPrefix.trans before))
    inserted
  have grown : ((indexOf 0 (repeatedPairs.take 4)).insert btreeOrder (str "b", str "5")).fresh ≤
      pool.disk.maxPages := moves.maxPages.symm ▸ room
  obtain ⟨tree', pool', ran', reached'⟩ :=
    ((insert_atomic reached insertable).mono (fun _ _ done => done)
    fun _ _ stopped => stopped.elim (fun full => (moves.ready ready).not_full full.2.1)
      fun exhausted => Nat.not_lt.mpr grown exhausted.2).exists_ok
  exact ⟨pool, tree, tree', pool', reached, ran', reached'⟩

end BTree

end MyDb
