/-
**A file stream: bytes, a position and two sticky flags.**

`std::fstream` on an open file, as far as reading and writing it go: the file's bytes, one position
shared by input and output, and the `eof` and `fail` flags. A read that finds too few bytes takes
what is there and sets both flags; while `fail` is set, seeking, reading and writing have no effect
until `clear`. Writing past the end fills the gap with zeros.

`readAt_writeAt`, `readAt_writeAt_of_disjoint`: inside the file, a write is read back and changes
nothing else. `read_fail_pos`: a read that fails on a good stream leaves the position at the end of
the file.
-/

import Mathlib.Data.List.Basic

set_option linter.unusedSectionVars false

namespace FileStream

variable {β : Type*} [Zero β]

/-- The bytes at an offset; fewer than asked for at the end of the file. -/
def readAt (file : List β) (offset count : Nat) : List β := (file.drop offset).take count

/-- Overwrite at an offset, extending the file with zeros up to it when it is too short. -/
def writeAt (file : List β) (offset : Nat) (bytes : List β) : List β :=
  file.take offset ++ List.replicate (offset - file.length) 0 ++ bytes
    ++ file.drop (offset + bytes.length)

end FileStream

/-- An open stream. -/
structure FileStream (β : Type*) where
  bytes : List β
  pos : Nat := 0
  eof : Bool := false
  fail : Bool := false
  deriving DecidableEq

namespace FileStream

variable {β : Type*} [Zero β]

/-- The stream is usable for input and output. -/
def good (s : FileStream β) : Bool := !s.eof && !s.fail

/-- `seekg(offset)` and `seekp(offset)`. -/
def seek (offset : Nat) (s : FileStream β) : FileStream β :=
  if s.fail then s else { s with pos := offset, eof := false }

/-- `seekg(0, std::ios::end)` and `seekp(0, std::ios::end)`. -/
def seekEnd (s : FileStream β) : FileStream β := s.seek s.bytes.length

/-- `clear()`. -/
def clear (s : FileStream β) : FileStream β := { s with eof := false, fail := false }

/-- `read(buffer, count)`: the bytes stored into the buffer, and the stream after it. -/
def read (count : Nat) (s : FileStream β) : List β × FileStream β :=
  if s.good then
    let got := readAt s.bytes s.pos count
    let short := decide (got.length < count)
    (got, { s with pos := s.pos + got.length, eof := short, fail := short })
  else ([], { s with fail := true })

/-- `write(bytes, count)`. -/
def write (bytes : List β) (s : FileStream β) : FileStream β :=
  if s.good then
    { s with bytes := writeAt s.bytes s.pos bytes, pos := s.pos + bytes.length }
  else { s with fail := true }

/-- `flush()`: the file already holds what was written. -/
def flush (s : FileStream β) : FileStream β := s

section Laws

@[simp]
theorem read_bytes (count : Nat) (s : FileStream β) : (s.read count).2.bytes = s.bytes := by
  unfold read
  split <;> rfl

theorem length_writeAt {file : List β} {offset : Nat} (inside : offset ≤ file.length)
    (bytes : List β) :
    (writeAt file offset bytes).length = max file.length (offset + bytes.length) := by
  unfold writeAt
  simp only [List.length_append, List.length_take, List.length_replicate, List.length_drop]
  omega

theorem getElem?_writeAt {file : List β} {offset : Nat} (inside : offset ≤ file.length)
    (bytes : List β) (i : Nat) :
    (writeAt file offset bytes)[i]? =
      if offset ≤ i ∧ i < offset + bytes.length then bytes[i - offset]? else file[i]? := by
  have gap : offset - file.length = 0 := by omega
  have front : (file.take offset).length = offset := by
    rw [List.length_take, Nat.min_eq_left inside]
  unfold writeAt
  rw [gap, List.replicate_zero, List.append_nil, List.append_assoc]
  rcases Nat.lt_or_ge i offset with before | after
  · rw [if_neg (by omega), List.getElem?_append_left (by omega), List.getElem?_take_of_lt before]
  rw [List.getElem?_append_right (by omega), front]
  rcases Nat.lt_or_ge (i - offset) bytes.length with within | beyond
  · rw [if_pos ⟨after, by omega⟩, List.getElem?_append_left within]
  · rw [if_neg (by omega), List.getElem?_append_right beyond, List.getElem?_drop]
    congr 1
    omega

theorem getElem?_readAt (file : List β) (offset count i : Nat) :
    (readAt file offset count)[i]? = if i < count then file[offset + i]? else none := by
  unfold readAt
  rw [List.getElem?_take, List.getElem?_drop]

/-- **A write is read back.** -/
theorem readAt_writeAt {file : List β} {offset : Nat} (inside : offset ≤ file.length)
    (bytes : List β) : readAt (writeAt file offset bytes) offset bytes.length = bytes := by
  apply List.ext_getElem?
  intro i
  rw [getElem?_readAt, getElem?_writeAt inside]
  rcases Nat.lt_or_ge i bytes.length with within | beyond
  · rw [if_pos within, if_pos (by omega), Nat.add_sub_cancel_left]
  · rw [if_neg (by omega), List.getElem?_eq_none beyond]

/-- **Bytes a write does not reach stay.** -/
theorem readAt_writeAt_of_disjoint {file : List β} {offset other count : Nat} {bytes : List β}
    (inside : offset ≤ file.length)
    (apart : other + count ≤ offset ∨ offset + bytes.length ≤ other) :
    readAt (writeAt file offset bytes) other count = readAt file other count := by
  apply List.ext_getElem?
  intro i
  rw [getElem?_readAt, getElem?_readAt, getElem?_writeAt inside]
  split
  · rw [if_neg (by omega)]
  · rfl

theorem length_readAt (file : List β) (offset count : Nat) :
    (readAt file offset count).length = min count (file.length - offset) := by
  unfold readAt
  rw [List.length_take, List.length_drop]

theorem fail_of_good {s : FileStream β} (good : s.good = true) : s.fail = false := by
  unfold FileStream.good at good
  simp only [Bool.and_eq_true, Bool.not_eq_true'] at good
  exact good.2

/-- Seeking on a good stream sets the position. -/
theorem seek_of_good {s : FileStream β} (good : s.good = true) (offset : Nat) :
    s.seek offset = { s with pos := offset } := by
  unfold seek
  rw [if_neg (by simp [fail_of_good good])]
  unfold FileStream.good at good
  cases s
  simp_all

/-- Reading bytes that are there succeeds. -/
theorem read_seek_of_le {s : FileStream β} {offset count : Nat} (good : s.good = true)
    (there : offset + count ≤ s.bytes.length) :
    (s.seek offset).read count =
      (readAt s.bytes offset count, { s with pos := offset + count }) := by
  have whole : (readAt s.bytes offset count).length = count := by
    rw [length_readAt]
    omega
  rw [seek_of_good good]
  unfold read
  rw [if_pos (show FileStream.good { s with pos := offset } = true from good)]
  simp only [whole, Nat.lt_irrefl, decide_false]
  unfold FileStream.good at good
  cases s
  simp_all

theorem write_seek_of_good {s : FileStream β} (good : s.good = true) (offset : Nat)
    (bytes : List β) :
    (s.seek offset).write bytes =
      { s with bytes := writeAt s.bytes offset bytes, pos := offset + bytes.length } := by
  rw [seek_of_good good]
  unfold write
  rw [if_pos (show FileStream.good { s with pos := offset } = true from good)]

theorem write_of_fail {s : FileStream β} (failed : s.fail = true) (bytes : List β) :
    s.write bytes = s := by
  unfold write good
  cases s
  simp_all

theorem seek_of_fail {s : FileStream β} (failed : s.fail = true) (offset : Nat) :
    s.seek offset = s := by
  unfold seek
  rw [if_pos failed]

/-- The stream is usable and at the end of its file. -/
structure Appending (s : FileStream β) : Prop where
  good : s.good = true
  pos : s.pos = s.bytes.length

/-- **Writing at the end appends.** -/
theorem write_appending {s : FileStream β} (appending : Appending s) (bytes : List β) :
    (s.write bytes).bytes = s.bytes ++ bytes ∧ Appending (s.write bytes) := by
  have written : (s.write bytes).bytes = s.bytes ++ bytes := by
    unfold write writeAt
    rw [if_pos appending.good, appending.pos]
    simp
  refine ⟨written, ?_, ?_⟩
  · unfold write
    rw [if_pos appending.good]
    exact appending.good
  · rw [written, List.length_append, ← appending.pos]
    unfold write
    rw [if_pos appending.good]

theorem length_readAt_le (file : List β) (offset count : Nat) :
    offset + (readAt file offset count).length ≤ max offset file.length := by
  unfold readAt
  simp only [List.length_take, List.length_drop]
  omega

/-- **A successful read** consumes exactly the bytes it asked for, all of them in the file. -/
theorem read_success {s : FileStream β} {count : Nat} (success : (s.read count).2.fail = false) :
    (s.read count).1.length = count ∧ (s.read count).2.pos = s.pos + count ∧
      (0 < count → s.pos + count ≤ s.bytes.length) := by
  unfold read at success ⊢
  split at success
  · rename_i good
    rw [if_pos good]
    simp only [decide_eq_false_iff_not, Nat.not_lt] at success
    have taken : (readAt s.bytes s.pos count).length = min count (s.bytes.length - s.pos) := by
      simp [readAt]
    refine ⟨by simp only; omega, by simp only; omega, fun _ => ?_⟩
    omega
  · simp at success

/-- **A read that fails on a good stream leaves the position at the end of the file.** -/
theorem read_fail_pos {s : FileStream β} {count : Nat} (good : s.good = true)
    (inside : s.pos ≤ s.bytes.length) (failed : (s.read count).2.fail = true) :
    (s.read count).2.pos = s.bytes.length := by
  unfold read at failed ⊢
  rw [if_pos good] at failed ⊢
  simp only [decide_eq_true_eq] at failed ⊢
  unfold readAt at failed ⊢
  simp only [List.length_take, List.length_drop] at failed ⊢
  omega

/-- A read leaves a stream that was inside its file inside it. -/
theorem read_pos_le {s : FileStream β} (inside : s.pos ≤ s.bytes.length) (count : Nat) :
    (s.read count).2.pos ≤ s.bytes.length := by
  unfold read
  split
  · have bound := length_readAt_le s.bytes s.pos count
    show s.pos + _ ≤ _
    omega
  · exact inside

/-- A good stream that has read without failing is good. -/
theorem read_good {s : FileStream β} {count : Nat} (success : (s.read count).2.fail = false) :
    (s.read count).2.good = true := by
  unfold read at success ⊢
  split at success
  · rename_i good
    rw [if_pos good]
    simp only at success ⊢
    simp [FileStream.good, success]
  · simp at success

end Laws

end FileStream
