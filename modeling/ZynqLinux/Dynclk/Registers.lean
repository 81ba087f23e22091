import Mathlib.Tactic.Common
import ZynqLinux.Dynclk.FindMode

namespace ZynqLinux.Dynclk

/-!
# `dglnt_dynclk_find_reg`

The register values for a mode, and what the hardware reads from them.

A counter register of the MMCM holds a high time and a low time of six bits each, where 0
stands for 64, and a NO_COUNT bit that bypasses the counter.  `decode` reads the three
dividers back; `decode_regOf` is the round trip.
-/

/-- `ERR_CLKCOUNTCALC`. -/
def errClkcountcalc : UInt32 := 0xFFFFFFFF

/-- `ERR_CLKDIVIDER`. -/
def errClkdivider : UInt32 := (1 : UInt32) <<< 13 ||| (1 : UInt32) <<< 12

/-- `EINVAL`. -/
def einval : Int := 22

/-- `struct dglnt_dynclk_reg`. -/
structure Reg where
  clk0L : UInt32
  clkFBL : UInt32
  clkFBHClk0H : UInt32
  divclk : UInt32
  lockL : UInt32
  fltrLockH : UInt32
deriving DecidableEq, Repr

/-- `lock_lookup`. -/
def lockLookup : List UInt64 :=
  [0b0011000110111110100011111010010000000001, 0b0011000110111110100011111010010000000001,
   0b0100001000111110100011111010010000000001, 0b0101101011111110100011111010010000000001,
   0b0111001110111110100011111010010000000001, 0b1000110001111110100011111010010000000001,
   0b1001110011111110100011111010010000000001, 0b1011010110111110100011111010010000000001,
   0b1100111001111110100011111010010000000001, 0b1110011100111110100011111010010000000001,
   0b1111111111111000010011111010010000000001, 0b1111111111110011100111111010010000000001,
   0b1111111111101110111011111010010000000001, 0b1111111111101011110011111010010000000001,
   0b1111111111101000101011111010010000000001, 0b1111111111100111000111111010010000000001,
   0b1111111111100011111111111010010000000001, 0b1111111111100010011011111010010000000001,
   0b1111111111100000110111111010010000000001, 0b1111111111011111010011111010010000000001,
   0b1111111111011101101111111010010000000001, 0b1111111111011100001011111010010000000001,
   0b1111111111011010100111111010010000000001, 0b1111111111011001000011111010010000000001,
   0b1111111111011001000011111010010000000001, 0b1111111111010111011111111010010000000001,
   0b1111111111010101111011111010010000000001, 0b1111111111010101111011111010010000000001,
   0b1111111111010100010111111010010000000001, 0b1111111111010100010111111010010000000001,
   0b1111111111010010110011111010010000000001, 0b1111111111010010110011111010010000000001,
   0b1111111111010010110011111010010000000001, 0b1111111111010001001111111010010000000001,
   0b1111111111010001001111111010010000000001, 0b1111111111010001001111111010010000000001,
   0b1111111111001111101011111010010000000001, 0b1111111111001111101011111010010000000001,
   0b1111111111001111101011111010010000000001, 0b1111111111001111101011111010010000000001,
   0b1111111111001111101011111010010000000001, 0b1111111111001111101011111010010000000001,
   0b1111111111001111101011111010010000000001, 0b1111111111001111101011111010010000000001,
   0b1111111111001111101011111010010000000001, 0b1111111111001111101011111010010000000001,
   0b1111111111001111101011111010010000000001, 0b1111111111001111101011111010010000000001,
   0b1111111111001111101011111010010000000001, 0b1111111111001111101011111010010000000001,
   0b1111111111001111101011111010010000000001, 0b1111111111001111101011111010010000000001,
   0b1111111111001111101011111010010000000001, 0b1111111111001111101011111010010000000001,
   0b1111111111001111101011111010010000000001, 0b1111111111001111101011111010010000000001,
   0b1111111111001111101011111010010000000001, 0b1111111111001111101011111010010000000001,
   0b1111111111001111101011111010010000000001, 0b1111111111001111101011111010010000000001,
   0b1111111111001111101011111010010000000001, 0b1111111111001111101011111010010000000001,
   0b1111111111001111101011111010010000000001, 0b1111111111001111101011111010010000000001]

/-- `filter_lookup_low`. -/
def filterLookupLow : List UInt32 :=
  [0b0001011111, 0b0001010111, 0b0001111011, 0b0001011011, 0b0001101011, 0b0001110011,
   0b0001110011, 0b0001110011, 0b0001110011, 0b0001001011, 0b0001001011, 0b0001001011,
   0b0010110011, 0b0001010011, 0b0001010011, 0b0001010011, 0b0001010011, 0b0001010011,
   0b0001010011, 0b0001010011, 0b0001010011, 0b0001010011, 0b0001010011, 0b0001100011,
   0b0001100011, 0b0001100011, 0b0001100011, 0b0001100011, 0b0001100011, 0b0001100011,
   0b0001100011, 0b0001100011, 0b0001100011, 0b0001100011, 0b0001100011, 0b0001100011,
   0b0001100011, 0b0010010011, 0b0010010011, 0b0010010011, 0b0010010011, 0b0010010011,
   0b0010010011, 0b0010010011, 0b0010010011, 0b0010010011, 0b0010010011, 0b0010100011,
   0b0010100011, 0b0010100011, 0b0010100011, 0b0010100011, 0b0010100011, 0b0010100011,
   0b0010100011, 0b0010100011, 0b0010100011, 0b0010100011, 0b0010100011, 0b0010100011,
   0b0010100011, 0b0010100011, 0b0010100011, 0b0010100011]

/-! ### The functions -/

/-- `dglnt_dynclk_divider`. -/
def divider (divide : UInt32) : UInt32 :=
  if divide < 1 || divide > 128 then errClkdivider
  else if divide = 1 then 0x1041
  else
    let highTime := divide / 2
    -- an odd division counts one more cycle low, and sets the edge bit
    let lowTime := if divide &&& 1 ≠ 0 then highTime + 1 else highTime
    let output : UInt32 := if divide &&& 1 ≠ 0 then (1 : UInt32) <<< 13 else 0
    let output := output ||| ((0x03F : UInt32) &&& lowTime)
    output ||| ((0xFC0 : UInt32) &&& (highTime <<< 6))

/-- `dglnt_dynclk_count_calc`. -/
def countCalc (divide : UInt32) : UInt32 :=
  let divCalc := divider divide
  if divCalc = errClkdivider then errClkcountcalc
  else ((0xFFF : UInt32) &&& divCalc) ||| ((divCalc <<< 10) &&& 0x00C00000)

/-- The last two values `dglnt_dynclk_find_reg` computes, from the entries of the tables for
    the multiplier. -/
def lockL (fbmult : UInt32) : UInt32 :=
  (lockLookup.getD (fbmult - 1).toNat 0 &&& 0xFFFFFFFF).toUInt32

def fltrLockH (fbmult : UInt32) : UInt32 :=
  ((lockLookup.getD (fbmult - 1).toNat 0 >>> 32) &&& 0x000000FF).toUInt32 |||
    ((filterLookupLow.getD (fbmult - 1).toNat 0 <<< 16) &&& 0x03FF0000)

/-- `dglnt_dynclk_find_reg`: the return value and `*regValues`.  An error leaves the fields
    that come after it as they were. -/
def findReg (regValues : Reg) (clkParams : Mode) : Int × Reg :=
  if clkParams.fbmult < 2 || clkParams.fbmult > 64 then (-einval, regValues)
  else
    let r := { regValues with clk0L := countCalc clkParams.clkdiv }
    if r.clk0L = errClkcountcalc then (-einval, r)
    else
      let r := { r with clkFBL := countCalc clkParams.fbmult }
      if r.clkFBL = errClkcountcalc then (-einval, r)
      else
        let r := { r with clkFBHClk0H := 0, divclk := divider clkParams.maindiv }
        if r.divclk = errClkdivider then (-einval, r)
        else
          (0, { r with lockL := lockL clkParams.fbmult, fltrLockH := fltrLockH clkParams.fbmult })

/-! ### What the hardware reads -/

/-- A time of six bits; 0 stands for 64. -/
def time (field : UInt32) : Nat :=
  if field &&& 0x3F = 0 then 64 else (field &&& 0x3F).toNat

/-- A counter whose NO_COUNT bit is `noCount`. -/
def counter (noCount r : UInt32) : Nat :=
  if r &&& ((1 : UInt32) <<< noCount) ≠ 0 then 1 else time (r >>> 6) + time r

/-- The three dividers. -/
structure Dividers where
  fbmult : Nat
  clkdiv : Nat
  maindiv : Nat
deriving DecidableEq, Repr

/-- The dividers that six register values stand for. -/
def decode (r : Reg) : Dividers := ⟨counter 22 r.clkFBL, counter 22 r.clk0L, counter 12 r.divclk⟩

/-! ### The round trip -/

/-- The registers of a mode. -/
def regOf (m : Mode) : Reg :=
  ⟨countCalc m.clkdiv, countCalc m.fbmult, 0, divider m.maindiv, lockL m.fbmult, fltrLockH m.fbmult⟩

/-- The dividers of a mode are in the ranges of the counters. -/
structure Mode.InRange (m : Mode) : Prop where
  fbmult_min : 2 ≤ m.fbmult.toNat
  fbmult_max : m.fbmult.toNat ≤ 64
  clkdiv_min : 1 ≤ m.clkdiv.toNat
  clkdiv_max : m.clkdiv.toNat ≤ 128
  maindiv_min : 1 ≤ m.maindiv.toNat
  maindiv_max : m.maindiv.toNat ≤ 128

/-- Every division from 1 to 128 has a code, and the counters read it back. -/
theorem divider_spec {divide : UInt32} (h₁ : 1 ≤ divide.toNat) (h₂ : divide.toNat ≤ 128) :
    divider divide ≠ errClkdivider ∧ countCalc divide ≠ errClkcountcalc ∧
      counter 12 (divider divide) = divide.toNat ∧ counter 22 (countCalc divide) = divide.toNat := by
  have hall : ∀ n < 129, 1 ≤ n → divider (UInt32.ofNat n) ≠ errClkdivider ∧
      countCalc (UInt32.ofNat n) ≠ errClkcountcalc ∧ counter 12 (divider (UInt32.ofNat n)) = n ∧
      counter 22 (countCalc (UInt32.ofNat n)) = n := by
    decide +kernel
  have hn := hall divide.toNat (by omega) h₁
  rwa [UInt32.ofNat_toNat] at hn

/-- On a mode in range `dglnt_dynclk_find_reg` succeeds and sets every field. -/
theorem findReg_of_inRange {m : Mode} (h : m.InRange) (regValues : Reg) :
    findReg regValues m = (0, regOf m) := by
  obtain ⟨-, hclkdiv, -, -⟩ := divider_spec h.clkdiv_min h.clkdiv_max
  obtain ⟨-, hfbmult, -, -⟩ := divider_spec (Nat.le_of_succ_le h.fbmult_min)
    (Nat.le_trans h.fbmult_max (by decide))
  obtain ⟨hmaindiv, -, -, -⟩ := divider_spec h.maindiv_min h.maindiv_max
  have hrange : (m.fbmult < 2 || m.fbmult > 64) = false := by
    rw [Bool.or_eq_false_iff, decide_eq_false_iff_not, decide_eq_false_iff_not, gt_iff_lt,
      UInt32.lt_iff_toNat_lt, UInt32.lt_iff_toNat_lt]
    exact ⟨Nat.not_lt.mpr h.fbmult_min, Nat.not_lt.mpr h.fbmult_max⟩
  simp only [findReg, hrange, hclkdiv, hfbmult, hmaindiv, if_false, Bool.false_eq_true, regOf]

/-- **Round trip.** The registers of a mode in range decode to its dividers. -/
theorem decode_regOf {m : Mode} (h : m.InRange) :
    decode (regOf m) = ⟨m.fbmult.toNat, m.clkdiv.toNat, m.maindiv.toNat⟩ := by
  obtain ⟨-, -, -, hclkdiv⟩ := divider_spec h.clkdiv_min h.clkdiv_max
  obtain ⟨-, -, -, hfbmult⟩ := divider_spec (Nat.le_of_succ_le h.fbmult_min)
    (Nat.le_trans h.fbmult_max (by decide))
  obtain ⟨-, -, hmaindiv, -⟩ := divider_spec h.maindiv_min h.maindiv_max
  simp only [decode, regOf, hclkdiv, hfbmult, hmaindiv]

end ZynqLinux.Dynclk
