import Mathlib.Data.Nat.Find
import UltraGrid.Rtp.Pbuf.Defs

/-!
# The longest gap of a flushed word

`compute_longest_gap` folds the longest run of lost packets of one 64-bit word of the loss
bitmap into `*longest_gap`. It takes the run above the highest set bit from
`__builtin_clzll`, and every other run from `__builtin_ctzll` of the word shifted right one
bit at a time: shifted by `s`, the word has as many trailing zeros as there are clear bits
from bit `s` up to the next set bit. Both builtins take the proof that their word is nonzero
(`clz`, `ctz`), so the model cannot apply them to `0`.

A run of clear bits is `ZeroRun`, and `longestZeroRun` is the length of the longest one. The
loop is characterised by what it is at most (`gapLoop_le_iff`), which gives both that it
counts only real runs and that it counts every run ending at a set bit.

## Main definitions

* `ZeroRun`, `longestZeroRun`: the runs of clear bits of a word, and the longest one.
* `ZeroRunTo`: a run that ends at a set bit, which is what `ctz` of a shifted word counts.

## Main statements

* `gapLoop_add`: the loop has left through `packets != 0` within its 64 rounds.
* `gapLoop_le_iff`: the loop keeps the maximum of its start value and of every run that ends
  at a set bit.
* `computeLongestGap_eq`: for a prior value in `[0, 64]`, `compute_longest_gap` stores the
  maximum of that value and the longest zero run.
-/

namespace UltraGrid.Rtp

variable {w : BitVec 64} {i s n m : Nat}

/-! ## Zero runs -/

/-- Bits `i, …, i + n - 1` of `w` are clear, and lie inside the word. -/
def ZeroRun (w : BitVec 64) (i n : Nat) : Prop :=
  i + n ≤ 64 ∧ ∀ k < n, w.getLsbD (i + k) = false

instance (w : BitVec 64) (i n : Nat) : Decidable (ZeroRun w i n) :=
  inferInstanceAs (Decidable (_ ∧ _))

/-- `w` has a run of `n` clear bits. -/
def HasZeroRun (w : BitVec 64) (n : Nat) : Prop := ∃ i ≤ 64, ZeroRun w i n

instance (w : BitVec 64) : DecidablePred (HasZeroRun w) :=
  fun n => @Nat.decidableExistsLE (fun i => ZeroRun w i n) (fun _ => inferInstance) 64

/-- The length of the longest run of clear bits of `w`. -/
def longestZeroRun (w : BitVec 64) : Nat := Nat.findGreatest (HasZeroRun w) 64

/-- The clear bits from bit `s` on end at the set bit `s + n`. -/
def ZeroRunTo (w : BitVec 64) (s n : Nat) : Prop :=
  (∀ k < n, w.getLsbD (s + k) = false) ∧ w.getLsbD (s + n) = true

theorem zeroRun_longestZeroRun (w : BitVec 64) : ∃ i, ZeroRun w i (longestZeroRun w) := by
  obtain ⟨i, -, hi⟩ := Nat.findGreatest_spec (Nat.zero_le 64)
    (show HasZeroRun w 0 from ⟨0, by decide, by decide, fun k hk => absurd hk k.not_lt_zero⟩)
  exact ⟨i, hi⟩

theorem le_longestZeroRun (h : ZeroRun w i n) : n ≤ longestZeroRun w :=
  Nat.le_findGreatest (by have := h.1; omega) ⟨i, by have := h.1; omega, h⟩

theorem longestZeroRun_le (w : BitVec 64) : longestZeroRun w ≤ 64 := Nat.findGreatest_le 64

theorem longestZeroRun_zero : longestZeroRun 0 = 64 :=
  le_antisymm (longestZeroRun_le 0)
    (le_longestZeroRun (show ZeroRun 0 0 64 from ⟨le_rfl, fun _ _ => BitVec.getLsbD_zero⟩))

theorem longestZeroRun_allOnes : longestZeroRun (BitVec.allOnes 64) = 0 := by
  obtain ⟨i, hi, hz⟩ := zeroRun_longestZeroRun (BitVec.allOnes 64)
  by_contra hne
  have := hz 0 (Nat.pos_of_ne_zero hne)
  simp only [Nat.add_zero, BitVec.getLsbD_allOnes, decide_eq_false_iff_not] at this
  omega

theorem ZeroRunTo.lt (h : ZeroRunTo w s n) : s + n < 64 := by
  by_contra hn
  simp [BitVec.getLsbD_ge w (s + n) (by omega), ZeroRunTo] at h

theorem ZeroRunTo.zeroRun (h : ZeroRunTo w s n) : ZeroRun w s n := ⟨Nat.le_of_lt h.lt, h.1⟩

/-- A run that ends at a set bit is at least as long as any run from the same bit. -/
theorem ZeroRunTo.le_of_zeroRun (h : ZeroRunTo w s m) (hr : ZeroRun w s n) : n ≤ m := by
  by_contra hc
  simp [hr.2 m (by omega), ZeroRunTo] at h

theorem ZeroRunTo.unique (h₁ : ZeroRunTo w s n) (h₂ : ZeroRunTo w s m) : n = m :=
  Nat.le_antisymm (h₂.le_of_zeroRun h₁.zeroRun) (h₁.le_of_zeroRun h₂.zeroRun)

@[simp] theorem zeroRunTo_ushiftRight {t : Nat} :
    ZeroRunTo (w >>> t) s n ↔ ZeroRunTo w (t + s) n := by
  simp only [ZeroRunTo, BitVec.getLsbD_ushiftRight, Nat.add_assoc]

/-! ## The two builtins -/

theorem toNat_ne_zero (hw : w ≠ 0) : w.toNat ≠ 0 := fun h => hw (BitVec.eq_of_toNat_eq h)

/-- `ctz` counts the clear bits below the lowest set bit. -/
theorem zeroRunTo_ctz (hw : w ≠ 0) : ZeroRunTo w 0 (ctz w hw) := by
  have hex : ∃ j ∈ List.range 64, w.getLsbD j = true := by
    by_contra hne
    simp only [List.mem_range, not_exists, not_and, Bool.not_eq_true] at hne
    exact hw (BitVec.eq_of_getLsbD_eq fun j => by simpa using hne j j.isLt)
  refine ⟨fun k hk => by simpa using List.not_of_lt_findIdx hk, ?_⟩
  simpa using @List.findIdx_getElem _ _ _ (List.findIdx_lt_length_of_exists hex)

/-- The bits above the highest set bit are clear. -/
theorem getLsbD_of_log2_lt {j : Nat} (hj : Nat.log2 w.toNat < j) : w.getLsbD j = false :=
  Nat.testBit_lt_two_pow
    (Nat.lt_of_lt_of_le Nat.lt_log2_self (Nat.pow_le_pow_right (by decide) hj))

/-- `clz` counts the run of clear bits above the highest set bit. -/
theorem clz_zeroRun (hw : w ≠ 0) : ZeroRun w (64 - clz w hw) (clz w hw) := by
  have ht : Nat.log2 w.toNat < 64 := (Nat.log2_lt (toNat_ne_zero hw)).2 w.isLt
  refine ⟨by unfold clz; omega, fun k hk => getLsbD_of_log2_lt ?_⟩
  unfold clz at hk ⊢
  omega

/-- A run that no set bit follows is no longer than the one `clz` counts. -/
theorem le_clz (hw : w ≠ 0) (hs : w >>> i = 0) (hr : ZeroRun w i n) : n ≤ clz w hw := by
  have hlt : w.toNat < 2 ^ i := Nat.lt_pow_two_of_testBit _ fun j hj => by
    have := congrArg (BitVec.getLsbD · (j - i)) hs
    simpa [Nat.add_sub_cancel' hj] using this
  have := (Nat.log2_lt (toNat_ne_zero hw)).2 hlt
  have := hr.1
  unfold clz
  omega

/-! ## The loop -/

/-- `maxGap` is `max` for a prior value in `[0, 64]` and a count up to `64`. -/
theorem maxGap_eq {g : Int} (h0 : 0 ≤ g) (h64 : g ≤ 64) (hn : n ≤ 64) :
    maxGap g n = max g n := by
  unfold maxGap
  rw [Int.emod_eq_of_lt h0 (by omega)]
  exact int32_of_lt (by omega) (by omega)

/-- The loop leaves through its test `packets != 0` once the word is shifted out: more fuel
changes nothing. -/
theorem gapLoop_add_of_ushiftRight (n k : Nat) (g : Int) (v : BitVec 64) (h : v >>> n = 0) :
    gapLoop (n + k) g v = gapLoop n g v := by
  induction n generalizing g v with
  | zero =>
    rw [BitVec.ushiftRight_zero] at h
    subst h
    cases k <;> simp [gapLoop]
  | succ n ih =>
    rw [Nat.add_right_comm]
    by_cases hv : v = 0
    · simp [gapLoop, hv]
    · simp only [gapLoop, dif_neg hv]
      exact ih _ _ (by rw [← BitVec.shiftRight_add, Nat.add_comm]; exact h)

theorem gapLoop_add (k : Nat) (g : Int) (v : BitVec 64) : gapLoop (64 + k) g v = gapLoop 64 g v :=
  gapLoop_add_of_ushiftRight 64 k g v (by ext j; simp)

/-- The loop is at most `M` exactly when its start value is and every run of clear bits that
starts at one of the first `fuel` bits and ends at a set bit is. -/
theorem gapLoop_le_iff (fuel : Nat) (g M : Int) (v : BitVec 64) (h0 : 0 ≤ g) (h64 : g ≤ 64) :
    gapLoop fuel g v ≤ M ↔
      g ≤ M ∧ ∀ s < fuel, ∀ n, ZeroRunTo v s n → (n : Int) ≤ M := by
  induction fuel generalizing g v with
  | zero => simp [gapLoop]
  | succ fuel ih =>
    by_cases hv : v = 0
    · subst hv
      simp [gapLoop, ZeroRunTo]
    have hc := zeroRunTo_ctz hv
    have hlt := hc.lt
    simp only [gapLoop, dif_neg hv, maxGap_eq h0 h64 (by omega : ctz v hv ≤ 64)]
    rw [ih _ _ (le_max_of_le_left h0) (max_le h64 (by omega)), max_le_iff]
    simp only [zeroRunTo_ushiftRight]
    constructor
    · rintro ⟨⟨hg, hcM⟩, hrest⟩
      refine ⟨hg, fun s hs n hn => ?_⟩
      cases s with
      | zero => rwa [hn.unique hc]
      | succ s => exact hrest s (by omega) n (by rwa [Nat.add_comm])
    · rintro ⟨hg, hall⟩
      exact ⟨⟨hg, hall 0 (by omega) _ hc⟩,
        fun s hs n hn => hall (s + 1) (by omega) n (by rwa [Nat.add_comm] at hn)⟩

/-- Started from the run above the highest set bit, the loop reaches the longest run. -/
theorem gapLoop_clz {g : Int} (h0 : 0 ≤ g) (h64 : g ≤ 64) (hw : w ≠ 0) :
    gapLoop 64 (maxGap g (clz w hw)) w = max g (longestZeroRun w) := by
  have hclz := clz_zeroRun hw
  rw [maxGap_eq h0 h64 (by have := hclz.1; omega)]
  have hs0 : 0 ≤ max g (clz w hw : Int) := le_max_of_le_left h0
  have hs64 : max g (clz w hw : Int) ≤ 64 := max_le h64 (by have := hclz.1; omega)
  apply le_antisymm
  · -- every count is a run, so no longer than the longest
    refine (gapLoop_le_iff 64 _ _ w hs0 hs64).2 ⟨?_, fun s _ n hn => ?_⟩
    · have := le_longestZeroRun hclz
      omega
    · have := le_longestZeroRun hn.zeroRun
      omega
  · -- the longest run is counted by `clz`, or by `ctz` of the word shifted to its start
    obtain ⟨hle, hrun⟩ := (gapLoop_le_iff 64 _ _ w hs0 hs64).1 le_rfl
    obtain ⟨i, hi⟩ := zeroRun_longestZeroRun w
    by_cases hs : w >>> i = 0
    · have := le_clz hw hs hi
      omega
    · have hto : ZeroRunTo w i (ctz (w >>> i) hs) := by
        simpa using zeroRunTo_ushiftRight.1 (zeroRunTo_ctz hs)
      have := hto.le_of_zeroRun hi
      have := hrun i (by have := hto.lt; omega) _ hto
      omega

/-- For a prior value in `[0, 64]`, `compute_longest_gap` ends its loop within the fuel and
stores the maximum of that value and the longest run of clear bits anywhere in the word: the
whole word for `0`, and none for a word of ones. -/
theorem computeLongestGap_eq (g : Int) (w : BitVec 64) (h0 : 0 ≤ g) (h64 : g ≤ 64) :
    (∀ k g', gapLoop (64 + k) g' w = gapLoop 64 g' w) ∧
      computeLongestGap g w = max g (longestZeroRun w) ∧
      longestZeroRun 0 = 64 ∧ longestZeroRun (BitVec.allOnes 64) = 0 := by
  refine ⟨fun k g' => gapLoop_add k g' w, ?_, longestZeroRun_zero, longestZeroRun_allOnes⟩
  unfold computeLongestGap
  split_ifs with hg hw hw'
  · have := longestZeroRun_le w
    omega
  · subst hw
    rw [longestZeroRun_zero]
    omega
  · subst hw'
    rw [longestZeroRun_allOnes]
    omega
  · exact gapLoop_clz h0 h64 hw

/-- A fresh buffer's first flushed word with one packet, at bit 4. -/
theorem computeLongestGap_eq_fresh : (0 : Int) ≤ 0 ∧ (0 : Int) ≤ 64 ∧
    (∀ k g', gapLoop (64 + k) g' 0x10#64 = gapLoop 64 g' 0x10#64) ∧
      computeLongestGap 0 0x10#64 = max (0 : Int) (longestZeroRun 0x10#64) ∧
      longestZeroRun 0 = 64 ∧ longestZeroRun (BitVec.allOnes 64) = 0 :=
  ⟨le_rfl, by decide, computeLongestGap_eq 0 0x10#64 le_rfl (by decide)⟩

end UltraGrid.Rtp
