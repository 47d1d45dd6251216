/-
**Repeated keys.**

Equal keys may come to lie in several leaves, and every descent ends in the last of them. So
`rangeScan` misses what lies in the others (`rangeScan_complete_iff`), and `search` may find another
value after an insertion that cuts a leaf between entries with the key (`search_insert_iff`).

Both conditions speak of the tree that the insertions make, as the library computes it: the entries
in front of the leaf that the descent ends in, and the value that a search finds before and after.
They are exact for all bounds, keys and values. `rangeScan_misses` inserts one key five times and
finds three of the five pairs, `search_changes` one value first and another one later.
-/

import MyDatabaseEngine.Lib.LeafRow
import MyDatabaseEngine.Index.BTreeInvariant

namespace MyDb

open Outcome BPlusTree

namespace BTree

open BufferPool BTreeNode

variable {pool : BufferPool} {pairs : List (Str × Str)}

/-! ### Range scans -/

/-- **The range, in order**: every pair between the bounds as often as it was inserted. -/
def Complete (pairs : List (Str × Str)) (fromKey toKey : Str) (found : List (Str × Str)) : Prop :=
  Sorted found ∧ found.Perm (pairs.filter fun e => fromKey ≤ e.1 ∧ e.1 ≤ toKey)

instance (pairs : List (Str × Str)) (fromKey toKey : Str) (found : List (Str × Str)) :
    Decidable (Complete pairs fromKey toKey found) := by
  unfold Complete Sorted
  infer_instance

/-- What a scan finds behind the entries it passed over. -/
theorem complete_iff_passed {front back : List (Str × Str)} {fromKey toKey : Str}
    (sorted : Sorted (front ++ back)) (perm : (front ++ back).Perm pairs) :
    Complete pairs fromKey toKey (back.filter fun e => fromKey ≤ e.1 ∧ e.1 ≤ toKey) ↔
      ∀ e ∈ front, ¬ (fromKey ≤ e.1 ∧ e.1 ≤ toKey) := by
  have inPairs := perm.filter fun e => decide (fromKey ≤ e.1 ∧ e.1 ≤ toKey)
  rw [List.filter_append] at inPairs
  constructor
  · rintro ⟨-, same⟩ e member range
    have length := (same.trans inPairs.symm).length_eq
    rw [List.length_append] at length
    have passed : 0 < (front.filter fun e => decide (fromKey ≤ e.1 ∧ e.1 ≤ toKey)).length :=
      List.length_pos_of_mem (List.mem_filter.mpr ⟨member, decide_eq_true range⟩)
    omega
  · intro passed
    have none : front.filter (fun e => decide (fromKey ≤ e.1 ∧ e.1 ≤ toKey)) = [] :=
      List.filter_eq_nil_iff.mpr fun e member => by simpa using passed e member
    rw [none, List.nil_append] at inPairs
    exact ⟨((List.pairwise_append.mp sorted).2.1).sublist List.filter_sublist, inPairs⟩

theorem rangeScan_complete {firstPage : Nat} {tree : BTree} (ready : pool.Ready)
    (holds : Holds pool tree (indexOf firstPage pairs)) (fromKey toKey : Str) :
    Ends (tree.rangeScan fromKey toKey) pool
      (fun found pool' => (Complete pairs fromKey toKey found ↔
          toKey < fromKey ∨ (holders fromKey (indexOf firstPage pairs).root.leaves).length ≤ 1) ∧
        Moves pool pool' pool.content)
      (fun _ _ => False) := by
  obtain ⟨ok, perm, -⟩ := indexOf_spec firstPage pairs
  obtain ⟨before, after, split, -, ends⟩ := rangeScan_ends ready ok holds fromKey toKey
  obtain ⟨before', after', split', here⟩ := seek_spec (by decide) fromKey ok.shaped ok.sorted
  have nodup := (Tree.leaves_sublist _).nodup ok.nodup
  obtain ⟨rfl, rfl⟩ := place_unique (split' ▸ nodup) (split'.symm.trans split)
  have here : EndsAt fromKey before' _ after' := ⟨here.1, here.2⟩
  have sorted := ok.sorted
  unfold Tree.entries at sorted perm
  rw [split] at sorted perm ⊢
  refine ends.mono ?_ fun _ _ never => never
  rintro found pool' ⟨rfl, moves⟩
  refine ⟨?_, moves⟩
  rw [holders_le_one_iff here sorted]
  have passed := here.le_of_passed sorted
  rw [List.flatMap_append] at sorted perm
  rw [complete_iff_passed sorted perm]
  constructor
  · intro outside
    by_contra reached
    obtain ⟨notEmpty, some⟩ := not_or.mp reached
    push Not at some
    obtain ⟨e, member, isKey⟩ := some
    exact outside e member ⟨isKey.ge, isKey.le.trans (not_lt.mp notEmpty)⟩
  · rintro (empty | absent) e member ⟨above, below⟩
    · exact not_lt.mpr (above.trans below) empty
    · exact absent e member (le_antisymm (passed e member) above)

/-- **`rangeScan` is complete exactly when** the range is empty or no more than one leaf holds
entries with the lower bound as their key. -/
theorem rangeScan_complete_iff (ready : pool.Ready) (tokens : EntryTokens pairs)
    (fits : NodesFit pool.disk.pageCount pairs) :
    Ends (build pairs) pool
      (fun tree pool' => ∃ (h : Nat) (t : Tree Str Str h),
        Invariant pool'.content tree.rootId pairs t ∧
        ∀ later, Moves pool' later pool'.content → ∀ fromKey toKey,
          Ends (tree.rangeScan fromKey toKey) later
            (fun found after => (Complete pairs fromKey toKey found ↔
                toKey < fromKey ∨ (holders fromKey t.leaves).length ≤ 1) ∧
              Moves pool' after pool'.content)
            (fun _ _ => False))
      (Exhausted pool.disk.maxPages (indexOf pool.disk.pageCount pairs).fresh) := by
  refine (build_ends ready tokens fits).mono ?_ fun _ _ failed => failed
  rintro tree pool' ⟨moves, holds⟩
  refine ⟨_, _, invariant_of_holds holds, fun later reads fromKey toKey => ?_⟩
  have ready' := reads.ready (moves.ready ready)
  refine (rangeScan_complete ready' (holds.later moves.consistent reads) fromKey toKey).mono ?_
    fun _ _ never => never
  rintro found after ⟨iff, moves'⟩
  exact ⟨iff, reads.trans (reads.content ▸ moves')⟩

theorem rangeScan_complete_iff_repeated :
    ∃ tree pool', build repeatedPairs onePagePool = .ok tree pool' ∧
      ∃ (h : Nat) (t : Tree Str Str h), Invariant pool'.content tree.rootId repeatedPairs t ∧
        ∀ later, Moves pool' later pool'.content → ∀ fromKey toKey,
          Ends (tree.rangeScan fromKey toKey) later
            (fun found after => (Complete repeatedPairs fromKey toKey found ↔
                toKey < fromKey ∨ (holders fromKey t.leaves).length ≤ 1) ∧
              Moves pool' after pool'.content)
            (fun _ _ => False) := by
  have tokens : EntryTokens repeatedPairs := by
    unfold EntryTokens
    decide +kernel
  have short : Short repeatedPairs := by
    unfold Short
    decide +kernel
  have ready := ready_onePagePool
  have room : (indexOf onePagePool.disk.pageCount repeatedPairs).fresh ≤
      onePagePool.disk.maxPages := by
    decide +kernel
  -- on a variable, since the elaborator would run the call on the pool itself
  generalize onePagePool = pool at ready room ⊢
  exact exists_ok_of_room (rangeScan_complete_iff ready tokens (nodesFit_of_short _ short)) room

/-- One key with five values. -/
def oneKeyPairs : List (Str × Str) :=
  ["1", "2", "3", "4", "5"].map fun value => (str "k", str value)

/-- **A scan for the key finds three of its five values.** -/
theorem rangeScan_misses :
    returned ((do
        let tree ← build oneKeyPairs
        tree.rangeScan (str "k") (str "k")) eightPagePool) =
      some [(str "k", str "3"), (str "k", str "4"), (str "k", str "5")] ∧
    ¬ Complete oneKeyPairs (str "k") (str "k")
      [(str "k", str "3"), (str "k", str "4"), (str "k", str "5")] := by
  decide +kernel

/-! ### Searches around an insertion -/

/-- A search for a key before and after an insertion. -/
def searchAround (tree : BTree) (key : Str) (entry : Str × Str) :
    EStateM Fault BufferPool (Option Str × Option Str) := do
  let before ← tree.search key
  let tree ← tree.insert entry.1 entry.2
  let after ← tree.search key
  return (before, after)

/-- **An insertion of another key changes what a search finds exactly when** it lands in the leaf
where the search ends, and cuts this leaf between two entries with the key such that the first one
behind the cut has another value than the first one of all. -/
theorem search_insert_iff (ready : pool.Ready) {key : Str} {entry : Str × Str}
    (apart : entry.1 ≠ key) (tokens : EntryTokens (pairs ++ [entry]))
    (fits : NodesFit pool.disk.pageCount (pairs ++ [entry])) :
    Ends (build pairs) pool
      (fun tree pool' => ∃ (h : Nat) (t : Tree Str Str h),
        Invariant pool'.content tree.rootId pairs t ∧
        Ends (tree.searchAround key entry) pool'
          (fun found _ => found.2 = found.1 ↔
            ¬ ((seek key t).1 = (seek entry.1 t).1 ∧
              Displaces btreeOrder key entry (seek entry.1 t).2))
          (Exhausted pool.disk.maxPages (indexOf pool.disk.pageCount (pairs ++ [entry])).fresh))
      (Exhausted pool.disk.maxPages (indexOf pool.disk.pageCount pairs).fresh) := by
  have isPrefix : pairs <+: pairs ++ [entry] := List.prefix_append _ _
  have tokens' : EntryTokens pairs := fun e member => tokens e (isPrefix.mem member)
  have fits' : NodesFit pool.disk.pageCount pairs := fun front before =>
    fits front (before.trans isPrefix)
  refine (build_ends ready tokens' fits').mono ?_ fun _ _ failed => failed
  rintro tree pool' ⟨moves, holds⟩
  obtain ⟨ok, -, -⟩ := indexOf_spec pool.disk.pageCount pairs
  have ready' := moves.ready ready
  refine ⟨_, _, invariant_of_holds holds, ?_⟩
  have grown : indexOf pool.disk.pageCount (pairs ++ [entry]) =
      (indexOf pool.disk.pageCount pairs).insert btreeOrder entry := List.foldl_concat ..
  have writes : writable.Holds ((indexOf pool.disk.pageCount pairs).insert btreeOrder entry).root
      invalidPageId := grown ▸ writable_of_fits tokens fits _ (List.prefix_refl _)
  unfold searchAround
  refine Ends.bind ((search_ends ready' ok holds key).mono (fun _ _ done => done)
    fun _ _ never => never.elim) ?_
  rintro _ searched ⟨rfl, reads⟩
  refine Ends.bind ((insert_ends (reads.ready ready') ok (holds.later moves.consistent reads) entry
    writes).mono (fun _ _ done => done) ?_) ?_
  · intro fault full failed
    rw [grown]
    rwa [reads.maxPages, moves.maxPages] at failed
  rintro tree' inserted ⟨moves', holds', -⟩
  refine Ends.bind ((search_ends (moves'.ready (reads.ready ready')) (ok.insert (by decide) entry).1
    holds' key).mono (fun _ _ done => done) fun _ _ never => never.elim) ?_
  rintro _ after ⟨rfl, -⟩
  rw [ends_pure]
  have iff := found_insert_iff (by decide) ok apart
  unfold firstWith at iff
  convert iff

theorem search_insert_iff_repeated :
    ∃ tree pool', build repeatedPairs onePagePool = .ok tree pool' ∧
      ∃ (h : Nat) (t : Tree Str Str h), Invariant pool'.content tree.rootId repeatedPairs t ∧
        ∃ found after, tree.searchAround (str "b") (str "d", str "6") pool' = .ok found after ∧
          (found.2 = found.1 ↔
            ¬ ((seek (str "b") t).1 = (seek (str "d") t).1 ∧
              Displaces btreeOrder (str "b") (str "d", str "6") (seek (str "d") t).2)) := by
  have tokens : EntryTokens (repeatedPairs ++ [(str "d", str "6")]) := by
    unfold EntryTokens
    decide +kernel
  have short : Short (repeatedPairs ++ [(str "d", str "6")]) := by
    unfold Short
    decide +kernel
  have apart : str "d" ≠ str "b" := by decide
  have ready := ready_onePagePool
  have room : (indexOf onePagePool.disk.pageCount repeatedPairs).fresh ≤
      onePagePool.disk.maxPages := by
    decide +kernel
  have room' : (indexOf onePagePool.disk.pageCount (repeatedPairs ++ [(str "d", str "6")])).fresh ≤
      onePagePool.disk.maxPages := by
    decide +kernel
  -- on a variable, since the elaborator would run the call on the pool itself
  generalize onePagePool = pool at ready room room' ⊢
  obtain ⟨tree, pool', ran, h, t, invariant, around⟩ :=
    exists_ok_of_room (search_insert_iff ready apart tokens (nodesFit_of_short _ short)) room
  exact ⟨tree, pool', ran, h, t, invariant, exists_ok_of_room around room'⟩

/-- Three values of one key, and another key behind them. -/
def threeValuesPairs : List (Str × Str) :=
  [(str "k", str "1"), (str "k", str "2"), (str "k", str "3"), (str "x", str "4")]

/-- **An insertion of `y` changes what a search for `k` finds.** -/
theorem search_changes :
    returned ((do
        let tree ← build threeValuesPairs
        tree.searchAround (str "k") (str "y", str "5")) eightPagePool) =
      some (some (str "1"), some (str "3")) := by
  decide +kernel

end BTree

end MyDb
