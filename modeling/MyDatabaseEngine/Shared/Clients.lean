/-
**Trees and heaps are clients of the pool.**

The discipline of `PoolSystem` is asked of clients: change a page only under a pin, release it once
for each pin, and as dirty after a change. Here it is shown of the clients there are. Along every
path of every call of a tree or a heap, whatever bytes the pages hold and whatever other clients
have pinned, what the call does to the pool is what allowed events of one client do (`Acted`).
`mixedRun_is_run`: calls of trees and heaps among any events of other clients are one run of events,
so what is known of the pool under its clients holds there.
-/

import MyDatabaseEngine.Shared.PinNeutral
import MyDatabaseEngine.Storage.ClientCalls

namespace MyDb

open Outcome BufferPool

namespace PoolSystem

variable {C : Type} [DecidableEq C]

/-- **The pool after some of a call**: so far it was the client's. -/
def Acted (client : C) (s : PoolSystem C) (pool : BufferPool) : Prop :=
  ∃ ops, ActsAs client s ops pool

/-- **A page is pinned for the client**: released, as it is or changed, it leaves such a pool. -/
structure Visiting (client : C) (s : PoolSystem C) (pageId : Nat) (pinned : BufferPool) : Prop where
  released : Acted client s (pinned.unpin pageId false)
  changed : ∀ page, Acted client s ((pinned.write pageId page).unpin pageId true)

/-- **How a call may throw**: with everything released, or because the file failed. Behind undefined
behaviour nothing is said of the pool. -/
def ThrowsActed (client : C) (s : PoolSystem C) (fault : Fault) (pool : BufferPool) : Prop :=
  fault = .undefinedBehaviour ∨ pool.disk.file.fail = true ∨ Acted client s pool

variable {maxPages : Nat} {s : PoolSystem C} {client : C} {pageId : Nat} {α : Type}

section Calls

variable (agrees : s.Agrees maxPages) (idle : s.Idle client)

include agrees idle

theorem keeps_visit {next : Page → EStateM Fault BufferPool α}
    (visit : ∀ page pinned, Visiting client s pageId pinned →
      Ends (next page) pinned (fun _ => Acted client s) (ThrowsActed client s)) :
    Keeps (Acted client s) (ThrowsActed client s) (fetchPage pageId >>= next) := by
  rintro pool ⟨ops, acts⟩
  refine @ends_visit _ _ _ (s.after pool) client pageId _ next _ _ (acts.agrees agrees) idle ?_ ?_
  · intro page pinned _ released changed
    exact visit page pinned ⟨⟨_, acts.trans released⟩, fun page' => ⟨_, acts.trans (changed page')⟩⟩
  · exact fun _ _ acts' => .inr (.inr ⟨_, acts.trans acts'⟩)

theorem keeps_make {next : Page → EStateM Fault BufferPool α}
    (visit : ∀ page pool', Acted client s (pool'.unpin page.id true) →
      Ends (next page) pool' (fun _ => Acted client s) (ThrowsActed client s)) :
    Keeps (Acted client s) (ThrowsActed client s) (newPage >>= next) := by
  rintro pool ⟨ops, acts⟩
  have agrees' := acts.agrees agrees
  cases ran : newPage pool with
  | ok page pool' =>
    exact (ends_bind_of_ok ran).mpr
      (visit page pool' ⟨_, acts.trans (newPage_acts agrees' idle ran)⟩)
  | error fault pool' =>
    refine Ends.bind (ends_of_eq_error ran ?_ : Ends _ _ (fun _ _ => False) _) fun _ _ never =>
      never.elim
    rcases refused_acts agrees' ran with acts' | full
    · exact .inr (.inr ⟨_, acts.trans acts'⟩)
    · exact .inr (.inl full.2.2)

/-! ### The calls -/

/-- **The visits to single nodes** are the client's. -/
theorem nodeWise_acted : BTree.NodeWise (Acted client s) (ThrowsActed client s) where
  load := by
    refine fun id => keeps_visit agrees idle fun page pinned visiting => ?_
    refine (BTreeNode.noWorse_deserialize page).ends_bind (.inl rfl) fun node => ?_
    exact visiting.released
  save := by
    refine fun id node => keeps_visit agrees idle fun page pinned visiting => ?_
    refine (BTreeNode.noWorse_serialize page).ends_bind (.inl rfl) fun page' => ?_
    exact visiting.changed page'
  alloc := keeps_make agrees idle fun _ _ released => released
  undefined := fun _ _ => .inl rfl
  diverges := fun _ acted => .inr (.inr acted)

theorem keeps_insertRow (heap : TableHeap) (order : RowOrder) (padding : Byte) (row : Row) :
    Keeps (Acted client s) (ThrowsActed client s) (heap.insertRow order padding row) := by
  refine keeps_visit agrees idle fun page pinned visiting => ?_
  refine TableHeap.noWorse_insertIntoPage.ends_bind (.inl rfl) fun inserted => ?_
  exact visiting.changed inserted.2

theorem keeps_getRow (rid : RowId) :
    Keeps (Acted client s) (ThrowsActed client s) (TableHeap.getRow rid) := by
  rw [TableHeap.getRow_eq]
  refine keeps_visit agrees idle fun page pinned visiting => ?_
  exact (TableHeap.noWorse_readSlot _).inMemory (fun _ _ => .inl rfl) _ visiting.released

theorem keeps_deleteRow (rid : RowId) :
    Keeps (Acted client s) (ThrowsActed client s) (TableHeap.deleteRow rid) := by
  refine keeps_visit agrees idle fun page pinned visiting => ?_
  dsimp only
  split
  · exact visiting.released
  · refine Page.noWorse_slotEntry.ends_bind (.inl rfl) fun entry => ?_
    split
    · exact visiting.released
    · refine Page.noWorse_setSlotEntry.ends_bind (.inl rfl) fun page' => ?_
      exact visiting.changed page'

theorem keeps_updateRow (heap : TableHeap) (order : RowOrder) (padding : Byte) (rid : RowId)
    (row : Row) :
    Keeps (Acted client s) (ThrowsActed client s) (heap.updateRow order padding rid row) := by
  refine (keeps_deleteRow agrees idle rid).bind fun done => ?_
  split
  · exact (keeps_insertRow agrees idle heap order padding row).bind fun _ => keeps_pure _
  · exact keeps_pure _

theorem keeps_scanPages (snapshot : Option MvccSnapshot) (count : Nat) :
    ∀ {pid : Nat} {results : List (RowId × Row)},
      Keeps (Acted client s) (ThrowsActed client s)
        (TableHeap.scanPages snapshot count pid results) := by
  induction count with
  | zero => exact keeps_pure _
  | succ count ih =>
    intro pid results
    rw [TableHeap.scanPages]
    refine keeps_visit agrees idle fun page pinned visiting => ?_
    refine (TableHeap.noWorse_scanSlots _).ends_bind (.inl rfl) fun found => ?_
    exact ih _ visiting.released

/-- **Step lemma**: every call is the client's. -/
theorem keeps_storeCall (call : StoreCall α) :
    Keeps (Acted client s) (ThrowsActed client s) call.run := by
  have nodeWise := nodeWise_acted agrees idle
  cases call with
  | createTree => exact nodeWise.create
  | insert tree key value => exact nodeWise.insert tree key value
  | search tree key => exact nodeWise.search tree key
  | rangeScan tree fromKey toKey => exact nodeWise.rangeScan tree fromKey toKey
  | createHeap => exact keeps_make agrees idle fun _ _ released => released
  | insertRow heap order padding row => exact keeps_insertRow agrees idle heap order padding row
  | getRow rid => exact keeps_getRow agrees idle rid
  | updateRow heap order padding rid row =>
    exact keeps_updateRow agrees idle heap order padding rid row
  | deleteRow rid => exact keeps_deleteRow agrees idle rid
  | scan heap snapshot => exact keeps_scanPages agrees idle snapshot _

end Calls

/-! ### Runs -/

/-- **Calls of trees and heaps among the events of clients**, with no file I/O failure. A call is
made for a client that is not in the middle of changing a page. Undefined behaviour has no
outcome. -/
inductive MixedRun (s : PoolSystem C) : PoolSystem C → Prop
  | nil : MixedRun s s
  | event {s' : PoolSystem C} (event : PoolEvent C) :
      MixedRun s s' → s'.Allowed event → (s'.step event).pool.disk.file.fail = false →
      MixedRun s (s'.step event)
  | returned {α : Type} {s' : PoolSystem C} {client : C} {call : StoreCall α} {value : α}
      {pool : BufferPool} :
      MixedRun s s' → s'.Idle client → call.run s'.pool = .ok value pool →
        MixedRun s (s'.after pool)
  | threw {α : Type} {s' : PoolSystem C} {client : C} {call : StoreCall α} {fault : Fault}
      {pool : BufferPool} :
      MixedRun s s' → s'.Idle client → call.run s'.pool = .error fault pool →
      fault ≠ .undefinedBehaviour → pool.disk.file.fail = false → MixedRun s (s'.after pool)

end PoolSystem

open PoolSystem

/-- **Calls of trees and heaps are the work of disciplined clients.** However they are mixed with
what other clients do, whether they return or throw, there is a list of fetches, new pages, changes,
releases and flushes, all within the clients' discipline, that does the same to the pool, the pins
and the pages. -/
theorem mixedRun_is_run {C : Type} [DecidableEq C] {poolSize : Nat} {disk : DiskManager}
    (usable : disk.Usable) {s : PoolSystem C} (mixed : MixedRun (start C poolSize disk) s) :
    ∃ events, Run (start C poolSize disk) events s := by
  induction mixed with
  | nil => exact ⟨[], .nil _⟩
  | event event _ allowed noFailure ih =>
    obtain ⟨events, run⟩ := ih
    exact ⟨events ++ [event], run.append (.cons allowed noFailure (.nil _))⟩
  | @returned _ s' _ call _ pool _ idle ran ih =>
    obtain ⟨events, run⟩ := ih
    have agrees := run.agrees (agrees_start usable)
    obtain ⟨_, events', -, run', -⟩ :=
      (keeps_storeCall agrees idle call _ ⟨_, agrees.actsAs⟩).of_ok ran
    exact ⟨events ++ events', run.append run'⟩
  | @threw _ s' _ call _ pool _ idle ran defined noFailure ih =>
    obtain ⟨events, run⟩ := ih
    have agrees := run.agrees (agrees_start usable)
    rcases (keeps_storeCall agrees idle call _ ⟨_, agrees.actsAs⟩).of_error ran with
      undefined | failed | ⟨_, events', -, run', -⟩
    · exact absurd undefined defined
    · exact nomatch noFailure.symm.trans failed
    · exact ⟨events ++ events', run.append run'⟩

/-- A heap is made while another client has a page pinned. -/
theorem mixedRun_is_run_pinned :
    ∃ events s, Run (start Nat 2 emptyFile) events s ∧ s.pins = {(0, 0)} := by
  have usable : emptyFile.Usable := DiskManager.usable_openFile (by decide) (by decide)
  have pinned : MixedRun (start Nat 2 emptyFile) ((start Nat 2 emptyFile).step (.newPage 0)) :=
    .event (.newPage 0) .nil trivial (by decide +kernel)
  have pins : ((start Nat 2 emptyFile).step (.newPage 0)).pins = {(0, 0)} := by decide +kernel
  have edited : ((start Nat 2 emptyFile).step (.newPage 0)).edited = ∅ := by decide +kernel
  have idle : ((start Nat 2 emptyFile).step (.newPage 0)).Idle 1 := by
    unfold Idle
    rw [edited]
    exact fun pageId => Finset.notMem_empty (1, pageId)
  have creates :
      (returned (TableHeap.create ((start Nat 2 emptyFile).step (.newPage 0)).pool)).isSome := by
    decide +kernel
  -- on a variable, since the elaborator would run the calls
  generalize (start Nat 2 emptyFile).step (.newPage 0) = s at pinned pins idle creates
  obtain ⟨heap, pool, ran⟩ : ∃ heap pool, TableHeap.create s.pool = .ok heap pool := by
    cases ran : TableHeap.create s.pool with
    | ok heap pool => exact ⟨heap, pool, rfl⟩
    | error fault pool =>
      rw [ran] at creates
      exact nomatch creates
  obtain ⟨events, run⟩ := mixedRun_is_run usable
    (@MixedRun.returned _ _ _ _ _ 1 .createHeap heap pool pinned idle ran)
  exact ⟨events, _, run, pins⟩

end MyDb
