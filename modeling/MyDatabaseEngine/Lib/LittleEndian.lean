/-
**Unsigned integers as bytes, least significant first.**

`bytes width n` are the lowest `width` bytes of `n`, taken off by division, and `value` is the
number that some bytes stand for. A number that fits its bytes is read back (`value_bytes`).
-/

import Mathlib.Data.List.Basic
import Mathlib.Data.ZMod.Defs
import Mathlib.Order.Fin.Basic

namespace LittleEndian

instance base_neZero : NeZero 256 := ⟨by decide⟩

/-- The `width` bytes of an unsigned integer in memory. -/
def bytes : Nat → Nat → List (Fin 256)
  | 0, _ => []
  | width + 1, value => Fin.ofNat 256 value :: bytes width (value / 256)

/-- The unsigned integer these bytes are in memory. -/
def value : List (Fin 256) → Nat
  | [] => 0
  | c :: rest => c.val + 256 * value rest

@[simp]
theorem length_bytes (width n : Nat) : (bytes width n).length = width := by
  induction width generalizing n with
  | zero => rfl
  | succ width ih => rw [bytes, List.length_cons, ih]

/-- **A value that fits is read back.** -/
theorem value_bytes {width : Nat} : ∀ {n : Nat}, n < 256 ^ width → value (bytes width n) = n := by
  induction width with
  | zero =>
    intro n fits
    simp only [Nat.pow_zero, Nat.lt_one_iff] at fits
    rw [fits]
    rfl
  | succ width ih =>
    intro n fits
    have smaller : n / 256 < 256 ^ width := by
      rw [Nat.div_lt_iff_lt_mul (by decide), ← Nat.pow_succ]
      exact fits
    rw [bytes, value, ih smaller]
    show n % 256 + 256 * (n / 256) = n
    exact Nat.mod_add_div n 256

end LittleEndian
