import Mathlib.Tactic.Ring
import Mathlib.Data.Int.Defs

/-!
# Machine integers of the playout buffer

The playout buffer compares 16-bit RTP sequence numbers with `(int16_t)(a - b)`, a difference
wrapped into `[-2^15, 2^15)`, and keeps its loss counters in `int` and `long long` fields.
This module gives both wraps one definition each and the laws the proofs use: the wrapped
difference is antisymmetric except at the half-epoch distance `2^15`, and inside a window of
fewer than `2^15` consecutive sequence numbers it is the plain difference of the offsets.

## Main definitions

* `int16Diff a b` — the value of `(int16_t)(a - b)`.
* `int32`, `int64` — two's complement wrap of an `int` and a `long long` result.
* `InWindow base a` — `a` lies among the `2^15` sequence numbers from `base` on.
-/

namespace UltraGrid.Rtp

/-- `(int16_t)(a - b)` for two `uint16_t` sequence numbers: the difference taken modulo
`2^16` and read as a signed 16-bit value. -/
def int16Diff (a b : UInt16) : Int := Int.bmod ((a.toNat : Int) - b.toNat) 65536

/-- The value an `int` holds after an assignment of `x`: two's complement wrap to 32 bits. -/
def int32 (x : Int) : Int := Int.bmod x (2 ^ 32)

/-- The value a `long long` holds after an assignment of `x`. -/
def int64 (x : Int) : Int := Int.bmod x (2 ^ 64)

theorem toNat_lt (a : UInt16) : a.toNat < 65536 := a.toBitVec.isLt

theorem int16Diff_eq (a b : UInt16) :
    int16Diff a b = if ((a.toNat : Int) - b.toNat) % 65536 < 32768
      then ((a.toNat : Int) - b.toNat) % 65536 else ((a.toNat : Int) - b.toNat) % 65536 - 65536 := by
  simp [int16Diff, Int.bmod]

@[simp] theorem int16Diff_self (a : UInt16) : int16Diff a a = 0 := by
  simp [int16Diff]

theorem int16Diff_eq_zero {a b : UInt16} : int16Diff a b = 0 ↔ a = b := by
  refine ⟨fun h => UInt16.toNat.inj ?_, fun h => h ▸ int16Diff_self a⟩
  have := toNat_lt a; have := toNat_lt b
  rw [int16Diff_eq] at h
  split at h <;> omega

/-- Swapping the operands negates the wrapped difference, except at distance `2^15`, whose
wrap is `-2^15` both ways. -/
theorem int16Diff_swap {a b : UInt16} (h : int16Diff a b ≠ -32768) :
    int16Diff b a = -int16Diff a b := by
  have := toNat_lt a; have := toNat_lt b
  rw [int16Diff_eq] at h ⊢; rw [int16Diff_eq]
  split <;> split at h <;> split <;> omega

theorem int16Diff_neg_of_pos {a b : UInt16} (h : 0 < int16Diff a b) : int16Diff b a < 0 := by
  rw [int16Diff_swap (by omega)]; omega

/-- `a` lies among the `2^15` sequence numbers `base, base + 1, …` (modulo `2^16`). -/
def InWindow (base a : UInt16) : Prop := (a.toNat + 65536 - base.toNat) % 65536 < 32768

instance (base a : UInt16) : Decidable (InWindow base a) := by unfold InWindow; infer_instance

/-- The position of `a` in the window starting at `base`. -/
def offset (base a : UInt16) : Nat := (a.toNat + 65536 - base.toNat) % 65536

/-- Inside one window the wrapped difference is the difference of the positions, so the
wrap-around comparison is the order of the positions. -/
theorem int16Diff_of_inWindow {base a b : UInt16} (ha : InWindow base a) (hb : InWindow base b) :
    int16Diff a b = (offset base a : Int) - offset base b := by
  unfold InWindow at ha hb; unfold offset
  have := toNat_lt a; have := toNat_lt b; have := toNat_lt base
  rw [int16Diff_eq]; split <;> omega

@[simp] theorem int32_zero : int32 0 = 0 := rfl

/-- A wrapped `int` holds a value of `int`'s range. -/
theorem int32_lt (x : Int) : int32 x < 2 ^ 31 := by
  have : Int.bmod x (2 ^ 32) < (2 ^ 32 + 1) / 2 := Int.bmod_lt (by norm_num)
  simpa [int32] using this

theorem int32_ge (x : Int) : -2 ^ 31 ≤ int32 x := by
  have : -((2 ^ 32 : Nat) / 2 : Int) ≤ Int.bmod x (2 ^ 32) := Int.le_bmod (by norm_num)
  simpa [int32] using this

theorem int32_of_lt {x : Int} (h0 : 0 ≤ x) (h : x < 2 ^ 31) : int32 x = x := by
  simp only [int32, Int.bmod]
  rw [Int.emod_eq_of_lt h0 (by omega)]
  simp only [Nat.cast_pow, Nat.cast_ofNat]
  split <;> omega

theorem int32_add_int32 (x y : Int) : int32 (int32 x + y) = int32 (x + y) := by
  simp [int32, Int.bmod_add_bmod_congr]

@[simp] theorem int32_int32 (x : Int) : int32 (int32 x) = int32 x := by
  simpa using int32_add_int32 x 0

theorem int64_add_int64 (x y : Int) : int64 (int64 x + y) = int64 (x + y) := by
  simp [int64, Int.bmod_add_bmod_congr]

/-- A value of the range of `long long` is held as it is. -/
theorem int64_of_range {x : Int} (h0 : -2 ^ 63 ≤ x) (h : x < 2 ^ 63) : int64 x = x := by
  simp only [int64, Int.bmod, Nat.cast_pow, Nat.cast_ofNat]
  split <;> omega

/-! ## Timestamps -/

/-- RTP timestamps compare as plain `uint32_t` values. -/
theorem uint32_lt_iff {a b : UInt32} : a < b ↔ a.toNat < b.toNat := Iff.rfl

theorem uint32_le_iff {a b : UInt32} : a ≤ b ↔ a.toNat ≤ b.toNat := Iff.rfl

theorem uint32_eq_iff {a b : UInt32} : a = b ↔ a.toNat = b.toNat :=
  ⟨congrArg _, UInt32.toNat.inj⟩

end UltraGrid.Rtp
