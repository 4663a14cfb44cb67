import Mathlib

/-!
# Fixed-width machine integers

The values that a C++ conversion to a 32-bit or 64-bit integer type stores.  An unsigned object
holds a natural number below `2 ^ w` and a signed one an integer of two's complement; both are
reached from an exact integer by reduction modulo `2 ^ w`.

The conversions are the identity on the range of the type (`u32_of_lt`, `i32_of_range` and their
64-bit counterparts), and they forget the same multiple of `2 ^ w` (`u32_emod`, `i32_emod`).
-/

namespace MachineInt

/-- The value of an integer converted to `uint32_t`. -/
def u32 (x : ℤ) : ℕ := (x % 2 ^ 32).toNat

/-- The value of an integer converted to `uint64_t`. -/
def u64 (x : ℤ) : ℕ := (x % 2 ^ 64).toNat

/-- The value of an integer converted to a 32-bit `int`. -/
def i32 (x : ℤ) : ℤ := x.bmod (2 ^ 32)

/-- The value of an integer converted to `int64_t`. -/
def i64 (x : ℤ) : ℤ := x.bmod (2 ^ 64)

/-! ### Ranges -/

/-- A `uint32_t` is below `2 ^ 32`. -/
lemma u32_lt (x : ℤ) : u32 x < 2 ^ 32 := by
  unfold u32; omega

/-- A `uint64_t` is below `2 ^ 64`. -/
lemma u64_lt (x : ℤ) : u64 x < 2 ^ 64 := by
  unfold u64; omega

/-- A non-negative integer below `2 ^ 32` is its own `uint32_t` value. -/
lemma u32_of_lt {x : ℤ} (h0 : 0 ≤ x) (h : x < 2 ^ 32) : (u32 x : ℤ) = x := by
  unfold u32; omega

/-- Conversion to `uint32_t` does not enlarge a value. -/
lemma u32_le {x : ℤ} (h : 0 ≤ x) : (u32 x : ℤ) ≤ x := by
  unfold u32; omega

/-- A natural number below `2 ^ 32` is its own `uint32_t` value. -/
lemma u32_natCast {m : ℕ} (h : m < 2 ^ 32) : u32 m = m := by
  unfold u32; omega

/-- A non-negative integer below `2 ^ 64` is its own `uint64_t` value. -/
lemma u64_of_lt {m : ℕ} (h : m < 2 ^ 64) : u64 m = m := by
  unfold u64; omega

/-- An integer of the range of `int` is its own 32-bit value. -/
lemma i32_of_range {x : ℤ} (h0 : -2 ^ 31 ≤ x) (h : x < 2 ^ 31) : i32 x = x := by
  unfold i32
  exact Int.bmod_eq_of_le (by norm_num; omega) (by norm_num; omega)

/-- An integer of the range of `int64_t` is its own 64-bit value. -/
lemma i64_of_range {x : ℤ} (h0 : -2 ^ 63 ≤ x) (h : x < 2 ^ 63) : i64 x = x := by
  unfold i64
  exact Int.bmod_eq_of_le (by norm_num; omega) (by norm_num; omega)

/-- An `int` lies in the range of two's complement. -/
lemma i32_range (x : ℤ) : -2 ^ 31 ≤ i32 x ∧ i32 x < 2 ^ 31 := by
  have hlo := Int.le_bmod (x := x) (m := 2 ^ 32) (by norm_num)
  have hhi := Int.bmod_lt (x := x) (m := 2 ^ 32) (by norm_num)
  unfold i32
  norm_num at hlo hhi ⊢
  omega

/-! ### Congruence -/

/-- Conversion to `uint32_t` keeps the residue. -/
lemma u32_emod (x : ℤ) : (u32 x : ℤ) % 2 ^ 32 = x % 2 ^ 32 := by
  unfold u32; omega

/-- Conversion to `int` keeps the residue. -/
lemma i32_emod (x : ℤ) : i32 x % 2 ^ 32 = x % 2 ^ 32 := by
  unfold i32
  exact_mod_cast Int.bmod_emod (x := x) (m := 2 ^ 32)

/-- Equal residues give the same `uint32_t`. -/
lemma u32_congr {x y : ℤ} (h : x % 2 ^ 32 = y % 2 ^ 32) : u32 x = u32 y := by
  unfold u32; rw [h]

/-- A 64-bit sum may be reduced before it is continued. -/
lemma u64_add_u64 (x y : ℤ) : u64 (u64 x + y) = u64 (x + y) := by
  unfold u64; omega

/-- A sum may be reduced before it is continued. -/
lemma u32_add_u32 (x y : ℤ) : u32 (u32 x + y) = u32 (x + y) := by
  apply u32_congr
  have := u32_emod x
  omega

/-- A sum of `int`s may be reduced before it is continued. -/
lemma i32_add_i32 (x y : ℤ) : i32 (i32 x + y) = i32 (x + y) := by
  unfold i32
  exact Int.bmod_add_bmod

/-- Incrementing an `int` changes it, whether or not it wraps around. -/
lemma i32_succ_ne (x : ℤ) : i32 (x + 1) ≠ x := by
  intro h
  have := i32_emod (x + 1)
  rw [h] at this
  omega

/-- A wrapped increment reaches a bound exactly when the increment does. -/
lemma i32_succ_eq_iff {x y : ℤ} (h0 : 0 ≤ x) (hxy : x ≤ y) (hy : y < 2 ^ 31) :
    i32 (x + 1) = y ↔ x + 1 = y := by
  rcases hxy.lt_or_eq with hlt | rfl
  · rw [i32_of_range (by omega) (by omega)]
  · exact ⟨fun h => absurd h (i32_succ_ne x), fun h => by omega⟩

/-- A natural number survives the conversion to `int` exactly below `2 ^ 31`. -/
lemma i32_natCast_eq_iff (m : ℕ) : i32 m = m ↔ m < 2 ^ 31 := by
  constructor
  · intro h
    have := (i32_range m).2
    omega
  · intro h
    exact i32_of_range (by omega) (by omega)

end MachineInt
