import Mathlib.Data.Nat.Find
import Mathlib.Logic.Function.Basic
import ZynqLinux.Dynclk.Registers

namespace ZynqLinux.Dynclk

open ZynqLinux.Lib

/-!
# The clock driver

The `clk_ops` of the driver and the registers they write.  `unsigned long` has 32 bits on
this target.  The locals that C leaves uninitialised (`clkReg`, `clkMode`) are arguments,
so that a theorem for all of them says that their contents do not matter.

`dglnt_dynclk_enable` polls the status register; what it reads is an input (`Status`), and
a poll that never ends is no run of the driver.

* `setRate_eq` is the closed form of `dglnt_dynclk_set_rate`;
* `findMode_findReg` collects what the search promises to the registers.
-/

/-! ### The registers -/

/-- What was last written at each offset; `none` where nothing was written yet. -/
abbrev Io := UInt32 → Option UInt32

/-- `OFST_DISPLAY_CTRL`. -/
def ofstDisplayCtrl : UInt32 := 0x0

/-- `writel`. -/
def writel (value ofst : UInt32) (io : Io) : Io := Function.update io ofst (some value)

/-- `dglnt_dynclk_write_reg`, at the offsets `OFST_DISPLAY_CLK_L` to
    `OFST_DISPLAY_FLTR_LOCK_H`. -/
def writeReg (regValues : Reg) (io : Io) : Io :=
  let io := writel regValues.clk0L 0x8 io
  let io := writel regValues.clkFBL 0x0C io
  let io := writel regValues.clkFBHClk0H 0x10 io
  let io := writel regValues.divclk 0x14 io
  let io := writel regValues.lockL 0x18 io
  writel regValues.fltrLockH 0x1C io

/-- The six values at these offsets, once all are written. -/
def programmed (io : Io) : Option Reg := do
  return ⟨← io 0x8, ← io 0x0C, ← io 0x10, ← io 0x14, ← io 0x18, ← io 0x1C⟩

/-- After `dglnt_dynclk_write_reg` the six registers hold what was written, whatever they held
    before. -/
@[simp] theorem programmed_writeReg (r : Reg) (io : Io) : programmed (writeReg r io) = some r := by
  simp [programmed, writeReg, writel, Function.update]

/-- A write to the control register leaves the six registers alone. -/
@[simp] theorem programmed_writel_ctrl (value : UInt32) (io : Io) :
    programmed (writel value ofstDisplayCtrl io) = programmed io := by
  simp [programmed, writel, ofstDisplayCtrl, Function.update]

/-! ### The operations -/

/-- `struct dglnt_dynclk`, with the registers behind `base`. -/
structure Device where
  freq : UInt32
  io : Io

/-- What the status register reads while the clock starts: at some time it is not 0. -/
structure Status where
  reads : Nat → UInt32
  locks : ∃ n, reads n ≠ 0

/-- The `do … while (!clock_state)` loop: the number of the last read and its value. -/
def Status.poll (status : Status) : Option (Nat × UInt32) :=
  whileLoop (fun s => s.2 == 0) (fun s => some (s.1 + 1, status.reads (s.1 + 1)))
    (Nat.find status.locks + 1) (0, status.reads 0)

/-- `dglnt_dynclk_enable`. -/
def enable (status : Status) (d : Device) : Option (Int × Device) := do
  if d.freq ≠ 0 then
    let d := { d with io := writel 1 ofstDisplayCtrl d.io }
    let _ ← status.poll
    return (0, d)
  return (0, d)

/-- `dglnt_dynclk_disable`. -/
def disable (d : Device) : Device := { d with io := writel 0 ofstDisplayCtrl d.io }

/-- The rate in kHz, times five for the BUFR division. -/
def bufrKhz (rate : UInt32) : UInt32 := (rate + 100) / 200

/-- The parent rate in kHz. -/
def parentKhz (parentRate : UInt32) : UInt32 := (parentRate + 500) / 1000

/-- `dglnt_dynclk_set_rate`. -/
def setRate (status : Status) (clkReg : Reg) (clkMode : Mode) (rate parentRate : UInt32)
    (d : Device) : Option (Int × Device) := do
  if parentRate = 0 || rate = 0 then
    return (-einval, d)
  if rate = d.freq then
    return (0, d)
  let (ret, clkMode) ← findMode (bufrKhz rate) (parentKhz parentRate) clkMode
  if ret = 0 then
    return (-einval, d)
  -- the result of `dglnt_dynclk_find_reg` is ignored
  let (_, clkReg) := findReg clkReg clkMode
  let d := { d with io := writeReg clkReg d.io }
  let d := { d with freq := clkMode.freq * 200 }
  let d := disable d
  let (_, d) ← enable status d
  return (0, d)

/-- `dglnt_dynclk_round_rate`. -/
def roundRate (clkMode : Mode) (rate parentRate : UInt32) : Option UInt32 := do
  let (_, clkMode) ← findMode (bufrKhz rate) (parentKhz parentRate) clkMode
  return clkMode.freq * 200

/-- `dglnt_dynclk_recalc_rate`. -/
def recalcRate (d : Device) (_parentRate : UInt32) : UInt32 := d.freq

/-- The device after `dglnt_dynclk_probe`. -/
def probe : Device := disable ⟨0, fun _ => none⟩

/-! ### One spec for each operation -/

/-- The poll ends with the read that shows the lock. -/
theorem Status.poll_ends (status : Status) : ∃ s, status.poll = some s := by
  let I (s : Nat × UInt32) : Prop := s.2 = status.reads s.1 ∧ s.1 ≤ Nat.find status.locks
  have hbody : ∀ s, I s → (s.2 == 0) = true →
      ∃ s', some (s.1 + 1, status.reads (s.1 + 1)) = some s' ∧ I s' ∧
        Nat.find status.locks - s'.1 < Nat.find status.locks - s.1 := by
    rintro ⟨n, value⟩ ⟨hval, hle⟩ hcond
    -- a read of 0 comes before the lock
    have hne : n ≠ Nat.find status.locks := by
      intro heq
      rw [beq_iff_eq, hval, heq] at hcond
      exact Nat.find_spec status.locks hcond
    have hlt : n < Nat.find status.locks := lt_of_le_of_ne hle hne
    exact ⟨_, rfl, ⟨rfl, hlt⟩, Nat.sub_lt_sub_left hlt (Nat.lt_succ_self n)⟩
  obtain ⟨s, hs, -, -⟩ := whileLoop_spec (I := I) (v := fun s => Nat.find status.locks - s.1) hbody
    (s := (0, status.reads 0)) ⟨rfl, Nat.zero_le _⟩ (Nat.lt_succ_self _)
  exact ⟨s, hs⟩

/-- With a rate set, enabling writes a one to the control register and waits for the status to
    read one. -/
theorem enable_of_ne {d : Device} (status : Status) (h : d.freq ≠ 0) :
    enable status d = some (0, { d with io := writel 1 ofstDisplayCtrl d.io }) := by
  obtain ⟨s, hs⟩ := status.poll_ends
  rw [enable, if_pos h, hs]
  rfl

section
variable {p t : Nat} {c : Setting}

/-- What a mode for the parent `p` has to satisfy. -/
structure Mode.Valid (p : Nat) (m : Mode) : Prop extends m.InRange where
  maindiv_le : m.maindiv.toNat ≤ 106
  vco_min : 600000 * m.maindiv.toNat ≤ p * m.fbmult.toNat
  vco_max : p * m.fbmult.toNat ≤ 1200000 * m.maindiv.toNat
  freq_eq : m.freq.toNat = p * m.fbmult.toNat / m.maindiv.toNat / m.clkdiv.toNat

/-- The frequency of a setting is at most that of its VCO. -/
theorem outFreq_le (hf : Feasible p c) : outFreq p t c ≤ 1200000 :=
  le_trans (Nat.div_le_self _ _) hf.vco_bounds.2

/-- The frequency of the mode is that of its setting: nothing is lost in 32 bits. -/
theorem toNat_modeOf_freq (hf : Feasible p c) : (modeOf p t c).freq.toNat = outFreq p t c :=
  UInt32.toNat_ofNat_of_lt' (lt_of_le_of_lt (outFreq_le hf) (by decide))

theorem toNat_modeOf_fbmult (hf : Feasible p c) : (modeOf p t c).fbmult.toNat = c.fbmult :=
  UInt32.toNat_ofNat_of_lt' (lt_of_le_of_lt hf.fbmult_max (by decide))

theorem toNat_modeOf_maindiv (hf : Feasible p c) : (modeOf p t c).maindiv.toNat = c.maindiv :=
  UInt32.toNat_ofNat_of_lt' (lt_of_le_of_lt hf.maindiv_max (by decide))

/-- So is its output divider, which is clamped to 128. -/
theorem toNat_modeOf_clkdiv (p t : Nat) (c : Setting) :
    (modeOf p t c).clkdiv.toNat = clkDiv p t c :=
  UInt32.toNat_ofNat_of_lt' (lt_of_le_of_lt (clkDiv_bounds p t c).2 (by decide))

/-- The mode of every listed setting is valid: its numbers fit in 32 bits, its dividers are
    within their ranges and its VCO runs within its own. -/
theorem modeOf_valid (hf : Feasible p c) : (modeOf p t c).Valid p := by
  obtain ⟨hk₁, hk₂⟩ := clkDiv_bounds p t c
  have hd := hf.maindiv_max
  constructor
  · constructor <;>
      simp only [toNat_modeOf_fbmult hf, toNat_modeOf_maindiv hf, toNat_modeOf_clkdiv, hf.fbmult_min,
        hf.fbmult_max, hf.maindiv_pos, hk₁, hk₂]
    omega
  all_goals
    simp only [toNat_modeOf_fbmult hf, toNat_modeOf_maindiv hf, toNat_modeOf_clkdiv,
      toNat_modeOf_freq hf, hf.maindiv_max, hf.vco_min, hf.vco_max]
  rfl

/-- The rate of a mode in Hz fits in 32 bits, since the VCO stays below 1200 MHz. -/
theorem toNat_modeOf_rate (hf : Feasible p c) :
    ((modeOf p t c).freq * 200).toNat = outFreq p t c * 200 := by
  have hle : outFreq p t c ≤ 1200000 := outFreq_le hf
  rw [toNat_mul_of_lt, toNat_modeOf_freq hf]
  · rfl
  · rw [toNat_modeOf_freq hf]
    exact lt_of_le_of_lt (Nat.mul_le_mul_right _ hle) (by decide)

/-- The rate behind the BUFR in Hz, 200 for each kHz of the mode, does not wrap to zero in 32
    bits. -/
theorem modeOf_rate_ne_zero (hf : Feasible p c) : (modeOf p t c).freq * 200 ≠ 0 := by
  intro hzero
  have hN := toNat_modeOf_rate (t := t) hf
  rw [hzero] at hN
  have hmin := hf.outFreq_min t
  have : (0 : UInt32).toNat = 0 := rfl
  omega

/-- The search never returns the frequency zero with a mode, so zero stands for no mode. -/
theorem modeOf_freq_ne_zero (hf : Feasible p c) : (modeOf p t c).freq ≠ 0 := by
  intro hzero
  have hrate := modeOf_rate_ne_zero (t := t) hf
  rw [hzero] at hrate
  exact hrate rfl

end

/-- The search in two cases: it finds nothing and returns zero, or it returns the frequency
    and the mode of its best setting. -/
theorem findMode_cases (freq parentFreq : UInt32) (bestPick : Mode) :
    (best parentFreq.toNat (target freq.toNat) = none ∧
      findMode freq parentFreq bestPick = some (0, { bestPick with freq := 0 })) ∨
    ∃ c, best parentFreq.toNat (target freq.toNat) = some c ∧ Feasible parentFreq.toNat c ∧
      findMode freq parentFreq bestPick
        = some ((modeOf parentFreq.toNat (target freq.toNat) c).freq,
            modeOf parentFreq.toNat (target freq.toNat) c) := by
  obtain ⟨m, hfind, hm⟩ := findMode_eq freq parentFreq bestPick
  cases hbest : best parentFreq.toNat (target freq.toNat) with
  | none =>
    rw [hbest, Option.elim_none] at hm
    exact .inl ⟨rfl, by rw [hfind, hm]⟩
  | some c =>
    rw [hbest, Option.elim_some] at hm
    exact .inr ⟨c, rfl, feasible_of_best hbest, by rw [hfind, hm]⟩

/-- The device after a successful `dglnt_dynclk_set_rate` that reaches the hardware. -/
def program (m : Mode) (d : Device) : Device :=
  ⟨m.freq * 200, writel 1 ofstDisplayCtrl (writel 0 ofstDisplayCtrl (writeReg (regOf m) d.io))⟩

/-- What `dglnt_dynclk_set_rate` returns and makes of the device. -/
def setRateResult (rate parentRate : UInt32) (d : Device) : Int × Device :=
  if parentRate = 0 ∨ rate = 0 then (-einval, d)
  else if rate = d.freq then (0, d)
  else (best (parentKhz parentRate).toNat (target (bufrKhz rate).toNat)).elim (-einval, d)
    fun c => (0, program (modeOf (parentKhz parentRate).toNat (target (bufrKhz rate).toNat) c) d)

/-- **`dglnt_dynclk_set_rate`.** It returns, and neither the uninitialised locals nor the
    time of the lock matter. -/
theorem setRate_eq (status : Status) (clkReg : Reg) (clkMode : Mode) (rate parentRate : UInt32)
    (d : Device) :
    setRate status clkReg clkMode rate parentRate d = some (setRateResult rate parentRate d) := by
  unfold setRate setRateResult
  by_cases hzero : parentRate = 0 ∨ rate = 0
  · rw [if_pos hzero, if_pos (by simpa using hzero)]
    rfl
  rw [if_neg hzero, if_neg (by simpa using hzero)]
  by_cases hsame : rate = d.freq
  · rw [if_pos hsame, if_pos hsame]
    rfl
  rw [if_neg hsame, if_neg hsame]
  rcases findMode_cases (bufrKhz rate) (parentKhz parentRate) clkMode with
    ⟨hbest, hfind⟩ | ⟨c, hbest, hf, hfind⟩
  · rw [hbest, hfind]
    rfl
  · rw [hbest, hfind, Option.elim_some]
    have hrate := modeOf_rate_ne_zero (t := target (bufrKhz rate).toNat) hf
    simp only [Option.bind_eq_bind, Option.bind_some, if_neg (modeOf_freq_ne_zero hf),
      findReg_of_inRange (modeOf_valid hf).toInRange]
    rw [disable, enable_of_ne status hrate]
    rfl

/-- The parent rates for which there is a mode. -/
def InParentRange (parentRate : UInt32) : Prop :=
  10000 ≤ (parentKhz parentRate).toNat ∧ (parentKhz parentRate).toNat ≤ 1200000

instance (parentRate : UInt32) : Decidable (InParentRange parentRate) :=
  inferInstanceAs (Decidable (_ ∧ _))

/-- `dglnt_dynclk_set_rate` fails and changes nothing, or finds the rate in the cache and
    changes nothing, or programs the registers. -/
theorem setRateResult_cases (rate parentRate : UInt32) (d : Device) :
    (setRateResult rate parentRate d = (-einval, d) ∧
      (parentRate = 0 ∨ rate = 0 ∨ rate ≠ d.freq ∧ ¬ InParentRange parentRate)) ∨
    (setRateResult rate parentRate d = (0, d) ∧
      parentRate ≠ 0 ∧ rate ≠ 0 ∧ rate = d.freq) ∨
    ∃ m, m.Valid (parentKhz parentRate).toNat ∧
      setRateResult rate parentRate d = (0, program m d) ∧
      parentRate ≠ 0 ∧ rate ≠ 0 ∧ rate ≠ d.freq ∧ InParentRange parentRate := by
  unfold setRateResult
  by_cases hzero : parentRate = 0 ∨ rate = 0
  · rw [if_pos hzero]
    exact .inl ⟨rfl, by rcases hzero with h | h <;> simp [h]⟩
  rw [if_neg hzero]
  obtain ⟨hparent, hrate⟩ := not_or.mp hzero
  by_cases hsame : rate = d.freq
  · rw [if_pos hsame]
    exact .inr (.inl ⟨rfl, hparent, hrate, hsame⟩)
  rw [if_neg hsame]
  cases hbest : best (parentKhz parentRate).toNat (target (bufrKhz rate).toNat) with
  | none => exact .inl ⟨rfl, .inr (.inr ⟨hsame, best_eq_none_iff.mp hbest⟩)⟩
  | some c =>
    have hf := feasible_of_best hbest
    exact .inr (.inr ⟨_, modeOf_valid hf, rfl, hparent, hrate, hsame, hf.parent_min, hf.parent_max⟩)

/-! ### What the search promises to the registers -/

/-- No register holds an error value. -/
structure Reg.NoError (r : Reg) : Prop where
  clk0L : r.clk0L ≠ errClkcountcalc
  clkFBL : r.clkFBL ≠ errClkcountcalc
  divclk : r.divclk ≠ errClkdivider

/-- The values for a mode within its ranges hold no error mark, so `set_rate` writes them. -/
theorem regOf_noError {m : Mode} (h : m.InRange) : (regOf m).NoError :=
  ⟨(divider_spec h.clkdiv_min h.clkdiv_max).2.1,
    (divider_spec (Nat.le_of_succ_le h.fbmult_min) (Nat.le_trans h.fbmult_max (by decide))).2.1,
    (divider_spec h.maindiv_min h.maindiv_max).1⟩

/-- After `set_rate` the registers hold the values of the mode. -/
@[simp] theorem programmed_program (m : Mode) (d : Device) :
    programmed (program m d).io = some (regOf m) := by
  simp [program]

/-- **The search and the registers.** For every frequency and every parent the search ends
    without a division by zero, and it finds a mode exactly for the parents of 10000 to
    1200000 kHz.  The mode is valid, it is the one of the search over the natural numbers,
    and `dglnt_dynclk_find_reg` turns it into registers that decode to it.  So
    `dglnt_dynclk_set_rate` writes no error value and nothing of its uninitialised locals. -/
theorem findMode_findReg :
    (∀ (freq parentFreq : UInt32) (bestPick : Mode) (regValues : Reg),
      ∃ ret pick, findMode freq parentFreq bestPick = some (ret, pick) ∧
        (ret ≠ 0 ↔ 10000 ≤ parentFreq.toNat ∧ parentFreq.toNat ≤ 1200000) ∧
        (ret ≠ 0 → ret = pick.freq ∧ pick.Valid parentFreq.toNat ∧
          best parentFreq.toNat (target freq.toNat)
            = some ⟨pick.maindiv.toNat, pick.fbmult.toNat⟩ ∧
          ∃ r, findReg regValues pick = (0, r) ∧
            decode r = ⟨pick.fbmult.toNat, pick.clkdiv.toNat, pick.maindiv.toNat⟩)) ∧
    ∀ (rate parentRate : UInt32) (d : Device), ∃ ret d',
      (∀ status clkReg clkMode,
        setRate status clkReg clkMode rate parentRate d = some (ret, d')) ∧
      (d' = d ∨ ∃ r, programmed d'.io = some r ∧ r.NoError) := by
  constructor
  · intro freq parentFreq bestPick regValues
    rcases findMode_cases freq parentFreq bestPick with ⟨hbest, hfind⟩ | ⟨c, hbest, hf, hfind⟩
    · refine ⟨_, _, hfind, ?_, fun h => absurd rfl h⟩
      have hout := best_eq_none_iff.mp hbest
      exact ⟨fun h => absurd rfl h, fun h => absurd h hout⟩
    · have hvalid := modeOf_valid (t := target freq.toNat) hf
      refine ⟨_, _, hfind, ?_, fun _ => ⟨rfl, hvalid, ?_, _,
        findReg_of_inRange hvalid.toInRange regValues, decode_regOf hvalid.toInRange⟩⟩
      · exact ⟨fun _ => ⟨hf.parent_min, hf.parent_max⟩, fun _ => modeOf_freq_ne_zero hf⟩
      · rw [hbest, toNat_modeOf_fbmult hf, toNat_modeOf_maindiv hf]
  · intro rate parentRate d
    refine ⟨(setRateResult rate parentRate d).1, (setRateResult rate parentRate d).2,
      fun status clkReg clkMode => setRate_eq status clkReg clkMode rate parentRate d, ?_⟩
    rcases setRateResult_cases rate parentRate d with
      ⟨hres, -⟩ | ⟨hres, -⟩ | ⟨m, hvalid, hres, -⟩ <;> rw [hres]
    · exact .inl rfl
    · exact .inl rfl
    · exact .inr ⟨_, programmed_program m d, regOf_noError hvalid.toInRange⟩

end ZynqLinux.Dynclk
