/-
**Nodes on the pages of the pool.**

`loadNode`, `saveNode` and `allocNode` pin one page and release it again. They do to the content of
the pages what they would do to an unbounded memory, unless no frame can be had or the disk is full
(`Stops`).

`Stops` is how a call that makes pages may end: it throws, either because every frame is pinned by
others, with nothing changed, or because the file would need more pages than it may have. With a
frame to be had the first is excluded (`Stops.of_room`). A page that the call has just made is in a
frame, so saving to it cannot fail for want of one.
-/

import MyDatabaseEngine.Storage.PageVisit
import MyDatabaseEngine.Index.BTree

namespace MyDb

open Outcome

namespace BTree

open BufferPool BTreeNode

variable {pool pool' : BufferPool} {id : Nat} {page page' : Page} {node : BTreeNode}

/-- **What can stop an insertion**: no frame could be had, with everything as it was, or the disk is
full and too small for the pages that are needed. -/
def Stops (pool : BufferPool) (needed : Nat) (fault : Fault) (pool' : BufferPool) : Prop :=
  Refused pool fault pool' ∨ Exhausted pool.disk.maxPages needed fault pool'

theorem Stops.mono {needed needed' : Nat} {fault : Fault} (stops : Stops pool needed fault pool')
    (more : needed ≤ needed') : Stops pool needed' fault pool' :=
  stops.imp_right fun exhausted => ⟨exhausted.1, exhausted.2.trans_le more⟩

theorem Stops.of_visits {needed : Nat} {fault : Fault} {pool'' : BufferPool}
    (stops : Stops pool' needed fault pool'') (visits : Visits pool pool' pool.content) :
    Stops pool needed fault pool'' := by
  refine stops.imp (fun refused => refused.of_visits visits) fun full => ?_
  rwa [visits.maxPages] at full

theorem Stops.of_room {needed : Nat} {fault : Fault} (stops : Stops pool needed fault pool')
    (room : ¬ pool.Full) : Exhausted pool.disk.maxPages needed fault pool' :=
  stops.resolve_left fun refused => room refused.2.1

/-- **`loadNode`** reads what the page holds. -/
theorem loadNode_visits (ok : pool.Consistent) (holds : pool.content id = some page)
    (reads : deserialize page = .ok node) :
    Ends (loadNode id) pool
      (fun value pool' => value = node ∧ Visits pool pool' pool.content ∧ Served pool id ∧
        pool'.disk.pageCount = pool.disk.pageCount)
      (Missed id pool) := by
  unfold loadNode
  refine fetching_ends ok holds (fun _ _ missed => missed) fun pinned fetched => ?_
  unfold inMemory
  rw [reads]
  simp only [ends_pure_bind, ends_modify_bind, ends_pure]
  have visits := fetched.release ok
  exact ⟨trivial, visits, fetched.served, ok.pageCount_eq visits.consistent visits.content⟩

/-- **`saveNode`** prints the node over what the page held. -/
theorem saveNode_visits (ok : pool.Consistent) (holds : pool.content id = some page)
    (served : Served pool id) (writes : node.serialize page = .ok page') :
    Ends (saveNode id node) pool
      (fun _ pool' => Visits pool pool' (Function.update pool.content id (some page')) ∧
        pool'.disk.pageCount = pool.disk.pageCount)
      (fun _ _ => False) := by
  unfold saveNode
  refine fetching_ends ok holds (fun _ _ missed => missed.1 (served missed.2.2.1))
    fun pinned fetched => ?_
  unfold inMemory
  rw [writes]
  simp only [ends_pure_bind, ends_modify_bind, ends_modify]
  have visits := fetched.releaseWritten page'
  have there : id < pool.disk.pageCount := ok.content_isSome.mp (holds ▸ rfl)
  refine ⟨visits, (visits.pageCount_update ok there.le).trans ?_⟩
  exact Nat.max_eq_left there

/-- **`allocNode`** adds an empty page at the end of the file. -/
theorem allocNode_visits (ok : pool.Consistent) :
    Ends allocNode pool
      (fun newId pool' => newId = pool.disk.pageCount ∧ newId < pool.disk.maxPages ∧
        Moves pool pool' (Function.update pool.content newId (some (Page.new newId))) ∧
        pool'.disk.pageCount = pool.disk.pageCount + 1 ∧ ¬ pool.Full ∧ ¬ pool'.Full)
      (Stops pool (pool.disk.pageCount + 1)) := by
  unfold allocNode
  refine Ends.bind (newPage_makes ok) ?_
  rintro page pinned ⟨rfl, isNext, room, roomy, roomy', moves⟩
  simp only [ends_modify_bind, ends_pure]
  rw [isNext]
  refine ⟨rfl, room, moves, (moves.pageCount_update ok (Nat.le_refl _)).trans ?_, roomy, roomy'⟩
  exact Nat.max_eq_right (Nat.le_succ _)

/-! ### With a frame to be had -/

theorem loadNode_ends (ready : pool.Ready) (holds : pool.content id = some page)
    (reads : deserialize page = .ok node) :
    Ends (loadNode id) pool
      (fun value pool' => value = node ∧ Moves pool pool' pool.content ∧
        pool'.disk.pageCount = pool.disk.pageCount)
      (fun _ _ => False) := by
  refine (loadNode_visits ready.consistent holds reads).mono ?_ fun _ _ => ready.not_missed
  exact fun value pool' ⟨same, visits, _, count⟩ => ⟨same, visits.toMoves, count⟩

end BTree

end MyDb
