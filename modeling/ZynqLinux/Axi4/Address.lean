import Mathlib.Data.Nat.ModEq
import Mathlib.Data.Nat.Size

namespace ZynqLinux.Axi4

/-!
# Address arithmetic of the `axi4` IPs

Two pieces of the source that several IPs share.  `clogb2` is the constant function that
each of them declares to size its address fields: it counts how often its argument can be
shifted right before it is zero, which is the bit length of the argument.  `wordAddress`
is how the RAM reader and the RAM writer make a byte address from a word counter.
-/

/-! ### `clogb2` -/

/-- The `for` loop of `clogb2`; `fuel` bounds the number of passes. -/
def clogb2Loop : Nat → Nat → Nat → Nat
  | 0, acc, _ => acc
  | fuel + 1, acc, value => if value > 0 then clogb2Loop fuel (acc + 1) (value >>> 1) else acc

/-- `function integer clogb2 (input integer value)`. -/
def clogb2 (value : Nat) : Nat := clogb2Loop value 0 value

/-- Halving a positive number drops one bit. -/
theorem size_shiftRight_one {value : Nat} (h : 0 < value) :
    Nat.size value = Nat.size (value >>> 1) + 1 := by
  have hiff : ∀ n, Nat.size value ≤ n + 1 ↔ Nat.size (value >>> 1) ≤ n := by
    intro n
    rw [Nat.size_le, Nat.size_le, Nat.shiftRight_one, Nat.pow_succ]
    omega
  have hpos : 0 < Nat.size value := Nat.size_pos.mpr h
  have h1 := (hiff (Nat.size value - 1)).mp (by omega)
  have h2 := (hiff (Nat.size (value >>> 1))).mpr (Nat.le_refl _)
  omega

/-- A number of passes that is not below the argument is enough. -/
theorem clogb2Loop_eq (fuel acc value : Nat) (h : value ≤ fuel) :
    clogb2Loop fuel acc value = acc + Nat.size value := by
  induction fuel generalizing acc value with
  | zero =>
    obtain rfl : value = 0 := by omega
    simp [clogb2Loop]
  | succ fuel ih =>
    rw [clogb2Loop]
    by_cases hv : value > 0
    · rw [if_pos hv, ih _ _ (by rw [Nat.shiftRight_one]; omega), size_shiftRight_one hv]
      omega
    · obtain rfl : value = 0 := by omega
      simp

/-- `clogb2` is the bit length. -/
theorem clogb2_eq_size (value : Nat) : clogb2 value = Nat.size value := by
  rw [clogb2, clogb2Loop_eq _ _ _ (Nat.le_refl _), Nat.zero_add]

/-- The bit length of a full mask is the number of its ones. -/
theorem clogb2_two_pow_sub_one (m : Nat) : clogb2 (2 ^ m - 1) = m := by
  have hpos : 0 < 2 ^ m := Nat.two_pow_pos m
  rw [clogb2_eq_size]
  apply Nat.le_antisymm
  · rw [Nat.size_le]
    omega
  · cases m with
    | zero => simp
    | succ k =>
      rw [Nat.succ_le_iff, Nat.lt_size]
      have hk : 0 < 2 ^ k := Nat.two_pow_pos k
      rw [Nat.pow_succ] at hpos ⊢
      omega

/-- An index field of `clogb2 (n - 1)` bits holds every index below `n`. -/
theorem le_two_pow_clogb2 {n : Nat} (h : 0 < n) : n ≤ 2 ^ clogb2 (n - 1) := by
  have hlt : n - 1 < 2 ^ Nat.size (n - 1) := Nat.lt_size_self (n - 1)
  rw [clogb2_eq_size]
  omega

/-! ### `cfg_data + {int_addr_reg, {(ADDR_SIZE){1'b0}}}` -/

/-- The byte address of word `addr` behind `cfgData`, on a bus of `n` bits; a word has
    `2 ^ size` bytes. -/
def wordAddress {n w : Nat} (size : Nat) (cfgData : BitVec n) (addr : BitVec w) : BitVec n :=
  cfgData + (addr ++ (0 : BitVec size)).setWidth n

/-- The address of a word: the base, plus the index of the word times its size in bytes,
    around the width of the bus. -/
theorem toNat_wordAddress {n w : Nat} (size : Nat) (cfgData : BitVec n) (addr : BitVec w) :
    (wordAddress size cfgData addr).toNat = (cfgData.toNat + addr.toNat * 2 ^ size) % 2 ^ n := by
  have happend : (addr ++ (0 : BitVec size)).toNat = addr.toNat * 2 ^ size := by
    rw [BitVec.toNat_append, Nat.shiftLeft_eq]
    simp
  rw [wordAddress, BitVec.toNat_add, BitVec.toNat_setWidth, happend, Nat.add_mod_mod]

/-- The byte address of the first word of burst `k`, for bursts of 16 words and a word
    counter of `w` bits. -/
def burstAddress {n : Nat} (w size : Nat) (cfgData : BitVec n) (k : Nat) : Nat :=
  (cfgData.toNat + (16 * k) % 2 ^ w * 2 ^ size) % 2 ^ n

/-- When the index stands at the start of burst `k`, the address is the one where that burst
    belongs. -/
theorem toNat_wordAddress_burst {n w : Nat} (size : Nat) (cfgData : BitVec n) (addr : BitVec w)
    (k : Nat) (h : addr.toNat = 16 * k % 2 ^ w) :
    (wordAddress size cfgData addr).toNat = burstAddress w size cfgData k := by
  rw [toNat_wordAddress, h, burstAddress]

/-- Moving the word counter by one changes the byte address, if the bus can tell two words
    apart at all. -/
theorem wordAddress_succ_ne {n w size : Nat} (cfgData : BitVec n) (addr : BitVec w)
    (hw : 0 < w) (hsize : size < n) :
    wordAddress size cfgData (addr + 1) ≠ wordAddress size cfgData addr := by
  intro h
  have hmod : (addr + 1).toNat % 2 = (addr.toNat + 1) % 2 := by
    have hdvd : 2 ∣ 2 ^ w := dvd_pow_self 2 (by omega)
    have hone : (1 : BitVec w).toNat = 1 % 2 ^ w := rfl
    rw [BitVec.toNat_add, hone, Nat.add_mod_mod, Nat.mod_mod_of_dvd _ hdvd]
  have hdvd : 2 * 2 ^ size ∣ 2 ^ n := by
    rw [← Nat.pow_succ']
    exact Nat.pow_dvd_pow 2 hsize
  -- compare both addresses modulo two words: the counters would have the same parity
  have hnat := congrArg (fun a : BitVec n => a.toNat % (2 * 2 ^ size)) h
  simp only [toNat_wordAddress, Nat.mod_mod_of_dvd _ hdvd] at hnat
  have hcancel : (addr + 1).toNat * 2 ^ size ≡ addr.toNat * 2 ^ size [MOD 2 * 2 ^ size] :=
    Nat.ModEq.add_left_cancel' cfgData.toNat hnat
  have hparity : (addr + 1).toNat % 2 = addr.toNat % 2 :=
    Nat.ModEq.mul_right_cancel' (Nat.two_pow_pos size).ne' hcancel
  omega

/-! ### The data width -/

/-- Data words of the default width fit the 72-bit port of the FIFO. -/
theorem dataWidth_le_fifoPort : 64 ≤ 72 := by decide

end ZynqLinux.Axi4
