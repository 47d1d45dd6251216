/-
**Buffer pool transparency.**

`PoolSystem C` is a pool with its clients: which client holds a pin on which page, which pages a
client has changed since it last unpinned them, and, for comparison, an unbounded memory with no
eviction. An `Event` is one call by a client, or one change of a page's bytes; `Allowed` is the
clients' discipline.

`Run.agrees`: in every run without I/O failure the pool shows exactly the memory. The invariant
behind it is `Agrees`: next to the pool's own (`Consistent`), the pin counts are the pins held, and
a page that no client is editing is settled.

`pool_transparent`: every successful fetch returns what the memory holds, and after `flushAll` with
no page pinned a fresh disk manager reads it back from the file.
-/

import MyDatabaseEngine.Storage.PoolSpec

set_option linter.unusedSectionVars false

namespace MyDb

open Outcome

/-- A pool, the pins its clients hold, the pages they have changed and not yet unpinned, and the
memory all this stands for. -/
structure PoolSystem (C : Type) where
  pool : BufferPool
  pins : Multiset (C × Nat) := 0
  edited : Finset (C × Nat) := ∅
  memory : Nat → Option Page

/-- What a client does. -/
inductive PoolEvent (C : Type)
  | fetchPage (client : C) (pageId : Nat)
  | newPage (client : C)
  | change (client : C) (pageId : Nat) (page : Page)
  | unpin (client : C) (pageId : Nat) (isDirty : Bool)
  | flushPage (pageId : Nat)
  | flushAll (order : PageOrder)

namespace PoolSystem

variable {C : Type} [DecidableEq C]

/-- The clients' discipline: a page is changed under a pin, unpinned once for each pin, and unpinned
as dirty after a change. -/
def Allowed (s : PoolSystem C) : PoolEvent C → Prop
  | .change client pageId _ => (client, pageId) ∈ s.pins
  | .unpin client pageId isDirty =>
    (client, pageId) ∈ s.pins ∧ ((client, pageId) ∈ s.edited → isDirty = true)
  | _ => True

instance (s : PoolSystem C) : ∀ event, Decidable (s.Allowed event)
  | .change client pageId _ => inferInstanceAs (Decidable ((client, pageId) ∈ s.pins))
  | .unpin client pageId isDirty =>
    inferInstanceAs (Decidable (_ ∧ ((client, pageId) ∈ s.edited → isDirty = true)))
  | .fetchPage _ _ | .newPage _ | .flushPage _ | .flushAll _ => inferInstanceAs (Decidable True)

/-- One event. A call that throws gives no pin. The memory changes with a new page and with a
change. -/
def step (s : PoolSystem C) : PoolEvent C → PoolSystem C
  | .fetchPage client pageId =>
    match s.pool.fetchPage pageId with
    | .ok _ pool => { s with pool, pins := (client, pageId) ::ₘ s.pins }
    | .error _ pool => { s with pool }
  | .newPage client =>
    match s.pool.newPage with
    | .ok page pool =>
      { s with
        pool
        pins := (client, page.id) ::ₘ s.pins
        memory := Function.update s.memory page.id (some (Page.new page.id)) }
    | .error _ pool => { s with pool }
  | .change client pageId page =>
    { s with
      pool := s.pool.write pageId page
      edited := insert (client, pageId) s.edited
      memory := Function.update s.memory pageId (some page) }
  | .unpin client pageId isDirty =>
    { s with
      pool := s.pool.unpin pageId isDirty
      pins := s.pins.erase (client, pageId)
      edited := s.edited.erase (client, pageId) }
  | .flushPage pageId =>
    match s.pool.flushPage pageId with
    | .ok _ pool | .error _ pool => { s with pool }
  | .flushAll order =>
    match s.pool.flushAll order with
    | .ok _ pool | .error _ pool => { s with pool }

/-- **A run of events**, with no file I/O failure. -/
inductive Run : PoolSystem C → List (PoolEvent C) → PoolSystem C → Prop
  | nil (s : PoolSystem C) : Run s [] s
  | cons {s s' : PoolSystem C} {event : PoolEvent C} {rest : List (PoolEvent C)} :
      s.Allowed event → (s.step event).pool.disk.file.fail = false →
      Run (s.step event) rest s' → Run s (event :: rest) s'

/-- A new pool over a disk manager: the memory is what the file holds. -/
def start (C : Type) (poolSize : Nat) (disk : DiskManager) : PoolSystem C where
  pool := { poolSize, disk }
  memory := disk.page?

/-! ### The invariant -/

/-- **The pool shows the memory.** -/
structure Agrees (maxPages : Nat) (s : PoolSystem C) : Prop where
  consistent : s.pool.Consistent
  maxPages : s.pool.disk.maxPages = maxPages
  content : s.pool.content = s.memory
  pinned : ∀ pageId, s.pool.pinned pageId = (s.pins.map Prod.snd).count pageId
  edited : ∀ edit ∈ s.edited, edit ∈ s.pins
  settled : ∀ pageId, (∀ client, (client, pageId) ∉ s.edited) → s.pool.Settled pageId

variable {maxPages : Nat} {s : PoolSystem C}

theorem agrees_start {poolSize : Nat} {disk : DiskManager} (usable : disk.Usable) :
    (start C poolSize disk).Agrees disk.maxPages where
  consistent := BufferPool.consistent_new usable
  maxPages := rfl
  content := rfl
  pinned := fun _ => rfl
  edited := nofun
  settled := fun _ _ => nofun

/-- A call that shows nothing, with the same pins. -/
theorem Agrees.unchanged (agrees : s.Agrees maxPages) {pool : BufferPool}
    (becomes : s.pool.Becomes pool s.pool.memory) :
    ({ s with pool } : PoolSystem C).Agrees maxPages where
  consistent := becomes.consistent
  maxPages := becomes.maxPages.trans agrees.maxPages
  content := becomes.content.trans agrees.content
  pinned := fun pageId => (congrFun becomes.pinned pageId).trans (agrees.pinned pageId)
  edited := agrees.edited
  settled := fun pageId free => becomes.settled pageId (agrees.settled pageId free)

theorem pinned_cons (agrees : s.Agrees maxPages) (client : C) (pageId : Nat) :
    (s.pool.memory.pin pageId).pinned =
      fun other => (((client, pageId) ::ₘ s.pins).map Prod.snd).count other := by
  funext other
  show Function.update s.pool.pinned pageId (s.pool.pinned pageId + 1) other = _
  rw [Multiset.map_cons]
  by_cases same : other = pageId
  · rw [same, Function.update_self, Multiset.count_cons_self, agrees.pinned]
  · rw [Function.update_of_ne same, Multiset.count_cons_of_ne same, agrees.pinned]

theorem pinned_erase (agrees : s.Agrees maxPages) {client : C} {pageId : Nat}
    (held : (client, pageId) ∈ s.pins) :
    (s.pool.memory.unpin pageId).pinned =
      fun other => ((s.pins.erase (client, pageId)).map Prod.snd).count other := by
  funext other
  show Function.update s.pool.pinned pageId (s.pool.pinned pageId - 1) other = _
  rw [Multiset.map_erase_of_mem Prod.snd s.pins held]
  by_cases same : other = pageId
  · rw [same, Function.update_self, Multiset.count_erase_self, agrees.pinned]
  · rw [Function.update_of_ne same, Multiset.count_erase_of_ne same, agrees.pinned]

/-- A client that holds a pin keeps the page pinned. -/
theorem Agrees.pinned_pos (agrees : s.Agrees maxPages) {client : C} {pageId : Nat}
    (held : (client, pageId) ∈ s.pins) : 0 < s.pool.pinned pageId := by
  rw [agrees.pinned, Multiset.count_pos]
  exact Multiset.mem_map_of_mem Prod.snd held

/-- Two clients that hold pins count twice. -/
theorem Agrees.pinned_two (agrees : s.Agrees maxPages) {client other : C} {pageId : Nat}
    (held : (client, pageId) ∈ s.pins) (held' : (other, pageId) ∈ s.pins) (apart : other ≠ client) :
    1 < s.pool.pinned pageId := by
  have rest : (other, pageId) ∈ s.pins.erase (client, pageId) :=
    (Multiset.mem_erase_of_ne fun same => apart (congrArg Prod.fst same)).mpr held'
  rw [agrees.pinned, ← Multiset.cons_erase held, Multiset.map_cons, Multiset.count_cons_self]
  exact Nat.succ_lt_succ (Multiset.count_pos.mpr (Multiset.mem_map_of_mem Prod.snd rest))

/-- The page a client unpins as clean is settled, if it is the last one holding it. -/
theorem Agrees.settled_of_last (agrees : s.Agrees maxPages) {client : C} {pageId : Nat}
    (held : (client, pageId) ∈ s.pins) (clean : (client, pageId) ∉ s.edited)
    (last : s.pool.pinned pageId ≤ 1) : s.pool.Settled pageId := by
  refine agrees.settled pageId fun other edit => ?_
  by_cases same : other = client
  · exact clean (same ▸ edit)
  · exact Nat.not_lt.mpr last (agrees.pinned_two held (agrees.edited _ edit) same)

theorem Agrees.unpin (agrees : s.Agrees maxPages) {client : C} {pageId : Nat} {isDirty : Bool}
    (held : (client, pageId) ∈ s.pins) (marked : (client, pageId) ∈ s.edited → isDirty = true) :
    (s.step (.unpin client pageId isDirty)).Agrees maxPages := by
  have clean : isDirty = false → (client, pageId) ∉ s.edited := by
    rintro rfl edit
    exact nomatch marked edit
  obtain ⟨becomes, settled⟩ := BufferPool.becomes_unpin agrees.consistent
    fun last notDirty => agrees.settled_of_last held (clean notDirty) last
  refine ⟨becomes.consistent, becomes.maxPages.trans agrees.maxPages,
    becomes.content.trans agrees.content, ?_, ?_, ?_⟩
  · exact congrFun (becomes.pinned.trans (pinned_erase agrees held))
  · intro edit member
    obtain ⟨apart, member⟩ := Finset.mem_erase.mp member
    exact (Multiset.mem_erase_of_ne apart).mpr (agrees.edited edit member)
  · intro other free
    -- the clients that edit the page do not change, unless this one did
    have before : (other = pageId → isDirty = false) →
        ∀ client', (client', other) ∉ s.edited := by
      intro untouched client' edit
      refine free client' (Finset.mem_erase.mpr ⟨?_, edit⟩)
      intro same
      obtain ⟨rfl, rfl⟩ := Prod.mk.inj same
      exact clean (untouched rfl) edit
    by_cases same : other = pageId
    · cases isDirty with
      | true => exact same ▸ settled rfl
      | false => exact becomes.settled other (agrees.settled other (before fun _ => rfl))
    · exact becomes.settled other (agrees.settled other (before fun is => absurd is same))

theorem Agrees.change (agrees : s.Agrees maxPages) {client : C} {pageId : Nat} (page : Page)
    (held : (client, pageId) ∈ s.pins) : (s.step (.change client pageId page)).Agrees maxPages := by
  obtain ⟨consistent, shows, settled, -, sameDisk⟩ :=
    BufferPool.consistent_write agrees.consistent page (agrees.pinned_pos held)
  refine ⟨consistent, (congrArg DiskManager.maxPages sameDisk).trans agrees.maxPages,
    ?_, ?_, ?_, ?_⟩
  · refine (congrArg Memory.content shows).trans ?_
    show Function.update s.pool.content pageId (some page) = _
    rw [agrees.content]
    rfl
  · intro other
    exact (congrFun (congrArg Memory.pinned shows) other).trans (agrees.pinned other)
  · intro edit member
    rcases Finset.mem_insert.mp member with rfl | member
    · exact held
    · exact agrees.edited edit member
  · intro other free
    have apart : other ≠ pageId := by
      rintro rfl
      exact free client (Finset.mem_insert_self _ _)
    exact settled other apart
      (agrees.settled other fun client' edit => free client' (Finset.mem_insert_of_mem edit))

/-- **One event**: as long as the file does not fail, the pool shows what the memory has become. -/
theorem Agrees.step (agrees : s.Agrees maxPages) {event : PoolEvent C} (allowed : s.Allowed event)
    (noFailure : (s.step event).pool.disk.file.fail = false) : (s.step event).Agrees maxPages := by
  cases event with
  | fetchPage client pageId =>
    have ends := BufferPool.fetchPage_ends agrees.consistent pageId
    cases ran : s.pool.fetchPage pageId with
    | ok page pool =>
      obtain ⟨-, becomes⟩ := ends.of_ok ran
      have same : s.step (.fetchPage client pageId) =
          { s with pool, pins := (client, pageId) ::ₘ s.pins } := by
        simp only [PoolSystem.step, ran]
      rw [same]
      exact ⟨becomes.consistent, becomes.maxPages.trans agrees.maxPages,
        becomes.content.trans agrees.content,
        congrFun (becomes.pinned.trans (pinned_cons agrees client pageId)),
        fun edit member => Multiset.mem_cons_of_mem (agrees.edited edit member),
        fun other free => becomes.settled other (agrees.settled other free)⟩
    | error fault pool =>
      have same : s.step (.fetchPage client pageId) = { s with pool } := by
        simp only [PoolSystem.step, ran]
      rw [same]
      exact agrees.unchanged (ends.of_error ran).2
  | newPage client =>
    have ends := BufferPool.newPage_ends agrees.consistent
    cases ran : s.pool.newPage with
    | ok page pool =>
      obtain ⟨isNew, named, -, becomes⟩ := ends.of_ok ran
      generalize s.pool.disk.pageCount = newId at isNew named becomes
      have same : s.step (.newPage client) =
          { s with
            pool
            pins := (client, newId) ::ₘ s.pins
            memory := Function.update s.memory newId (some page) } := by
        simp only [PoolSystem.step, ran, named]
        rw [isNew]
      rw [same]
      refine ⟨becomes.consistent, becomes.maxPages.trans agrees.maxPages, ?_,
        congrFun (becomes.pinned.trans (pinned_cons agrees client newId)),
        fun edit member => Multiset.mem_cons_of_mem (agrees.edited edit member),
        fun other free => becomes.settled other (agrees.settled other free)⟩
      refine becomes.content.trans ?_
      show Function.update s.pool.content newId (some page) = _
      rw [agrees.content]
    | error fault pool =>
      have same : s.step (.newPage client) = { s with pool } := by
        simp only [PoolSystem.step, ran]
      rw [same] at noFailure ⊢
      rcases ends.of_error ran with ⟨-, -, becomes⟩ | ⟨-, -, -, failed⟩
      · exact agrees.unchanged becomes
      · exact nomatch noFailure.symm.trans failed
  | change client pageId page => exact agrees.change page allowed
  | unpin client pageId isDirty => exact agrees.unpin allowed.1 allowed.2
  | flushPage pageId =>
    obtain ⟨_, pool, ran, becomes, -⟩ :=
      (BufferPool.flushPage_ends agrees.consistent pageId).exists_ok
    have same : s.step (.flushPage pageId) = { s with pool } := by
      simp only [PoolSystem.step, ran]
    rw [same]
    exact agrees.unchanged becomes
  | flushAll order =>
    obtain ⟨_, pool, ran, becomes, -⟩ :=
      (BufferPool.flushAll_ends agrees.consistent order).exists_ok
    have same : s.step (.flushAll order) = { s with pool } := by
      simp only [PoolSystem.step, ran]
    rw [same]
    exact agrees.unchanged becomes

/-- **Every run**: the pool shows what the memory has become. -/
theorem Run.agrees {events : List (PoolEvent C)} {s s' : PoolSystem C} (run : Run s events s')
    (agrees : s.Agrees maxPages) : s'.Agrees maxPages := by
  induction run with
  | nil => exact agrees
  | cons allowed noFailure _ ih => exact ih (agrees.step allowed noFailure)

end PoolSystem

open PoolSystem

/-! ### Transparency -/

/-- **Buffer pool transparency.** Whatever the clients do under their discipline, with no file I/O
failure: a fetch that succeeds returns what the page last held, one that fails does so because the
pool is full of pinned pages or there is no such page, and with no page pinned `flushAll` puts into
the file what a fresh disk manager then reads back, page by page. -/
theorem pool_transparent {C : Type} [DecidableEq C] {poolSize : Nat} {bytes : Str} {maxPages : Nat}
    {maxPages_lt : maxPages < 2 ^ 32} (fits : bytes.length / pageSize ≤ maxPages)
    {events : List (PoolEvent C)} {s : PoolSystem C}
    (run : Run (start C poolSize (DiskManager.openFile bytes maxPages maxPages_lt)) events s) :
    (∀ pageId page pool, s.pool.fetchPage pageId = .ok page pool → s.memory pageId = some page) ∧
    (∀ pageId fault pool, s.pool.fetchPage pageId = .error fault pool →
      fault = BufferPool.poolFull ∧ s.pool.Full ∨
        fault = DiskManager.noSuchPage pageId ∧ s.memory pageId = none) ∧
    (s.pins = 0 → ∀ order, ∃ pool, s.pool.flushAll order = .ok () pool ∧
      ∀ pageId page, s.memory pageId = some page →
        ∃ disk, (DiskManager.openFile pool.disk.file.bytes maxPages maxPages_lt).readPage pageId =
          .ok page disk) := by
  have agrees := run.agrees (agrees_start (DiskManager.usable_openFile maxPages_lt fits))
  refine ⟨?_, ?_, ?_⟩
  · intro pageId page pool ran
    rw [← agrees.content]
    exact ((BufferPool.fetchPage_ends agrees.consistent pageId).of_ok ran).1
  · intro pageId fault pool ran
    rw [← agrees.content]
    exact ((BufferPool.fetchPage_ends agrees.consistent pageId).of_error ran).1
  · intro released order
    obtain ⟨⟨⟩, pool, ran, becomes, stored⟩ :=
      (BufferPool.flushAll_ends agrees.consistent order).exists_ok
    refine ⟨pool, ran, fun pageId page holds => ?_⟩
    have free : ∀ client, (client, pageId) ∉ s.edited := by
      intro client edit
      have held := agrees.edited _ edit
      rw [released] at held
      exact Multiset.notMem_zero _ held
    have onDisk : pool.disk.page? pageId = some page := by
      rw [stored pageId (agrees.settled pageId free), becomes.content, ← holds, ← agrees.content]
      rfl
    have usable := becomes.consistent.usable
    have limit : pool.disk.maxPages = maxPages := becomes.maxPages.trans agrees.maxPages
    have reopened := DiskManager.usable_openFile maxPages_lt
      (usable.pageCount ▸ limit ▸ usable.fits : pool.disk.file.bytes.length / pageSize ≤ maxPages)
    have found : (DiskManager.openFile pool.disk.file.bytes maxPages maxPages_lt).page? pageId =
        some page := (congrFun (DiskManager.page?_congr rfl) pageId).trans onDisk
    obtain ⟨got, disk, read, same⟩ := ((DiskManager.readPage_ends reopened pageId).mono
      (fun _ _ done => done.1) fun _ _ failed => nomatch found.symm.trans failed.2.1).exists_ok
    refine ⟨disk, ?_⟩
    rw [read, Option.some.inj (same.symm.trans found)]

/-- A new page's image with a text in its data area. -/
def editedPage : Page := (Page.new 0).overwriteData (str "edited")

/-- A pool of one frame on a new file; the second page evicts the first after its edit. -/
def evictingEvents : List (PoolEvent Nat) :=
  [.newPage 0, .change 0 0 editedPage, .unpin 0 0 true, .newPage 1, .unpin 1 1 false]

def emptyFile : DiskManager := DiskManager.openFile [] 4 (by decide)

theorem pool_transparent_evicted :
    ∃ page pool, (evictingEvents.foldl step (start Nat 1 emptyFile)).pool.fetchPage 0 =
      .ok page pool ∧ page.data.take 6 = str "edited" := by
  have run : Run (start Nat 1 emptyFile) evictingEvents
      (evictingEvents.foldl step (start Nat 1 emptyFile)) :=
    .cons trivial (by decide +kernel) <|
    .cons (by decide +kernel) (by decide +kernel) <|
    .cons (by decide +kernel) (by decide +kernel) <|
    .cons trivial (by decide +kernel) <|
    .cons (by decide +kernel) (by decide +kernel) (.nil _)
  have memory : ((evictingEvents.foldl step (start Nat 1 emptyFile)).memory 0).map
      (fun page => page.data.take 6) = some (str "edited") := by
    decide +kernel
  have returns : (match (evictingEvents.foldl step (start Nat 1 emptyFile)).pool.fetchPage 0 with
      | .ok _ _ => true
      | .error _ _ => false) = true := by
    decide +kernel
  cases ran : (evictingEvents.foldl step (start Nat 1 emptyFile)).pool.fetchPage 0 with
  | ok page pool =>
    rw [(pool_transparent (by decide) run).1 0 page pool ran] at memory
    exact ⟨page, pool, rfl, Option.some.inj memory⟩
  | error fault pool =>
    rw [ran] at returns
    exact nomatch returns

end MyDb
