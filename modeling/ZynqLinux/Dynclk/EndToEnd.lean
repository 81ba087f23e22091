import Mathlib.Data.Fin.Basic
import Mathlib.Tactic.IntervalCases
import ZynqLinux.Dynclk.AxiDynclk
import ZynqLinux.Dynclk.Driver

namespace ZynqLinux.Dynclk.EndToEnd

open ZynqLinux.Lib
open Mmcme2Drp (S1 Answers plan rom)
open AxiDynclk

/-!
# From `dglnt_dynclk_set_rate` to the MMCM

The driver and the generator together.  The driver writes six registers, clears and sets the
control bit and waits for the status bit; the generator carries the registers through its
bus slave, its state machine and its reconfiguration port to the registers of the MMCM.

* `dividers`, `lockOf` and `filterOf` read the fields of the MMCM's registers back, and
  `dividers_exec_plan`, `lockOf_exec_plan` and `filterOf_exec_plan` are their round trips
  through the scattered table, for every address of its first entry;
* `setRateWrites` is what the driver puts on the bus;
* `setRate_reaches_mmcm` is the result.
-/

/-! ### The fields of the MMCM's registers -/

/-- A time of six bits; 0 stands for 64. -/
def duration (t : BitVec 6) : Nat := if t = 0 then 64 else t.toNat

/-- A counter: high time, low time and NO_COUNT bit. -/
def drpCounter (high low : BitVec 6) (noCount : Bool) : Nat :=
  if noCount then 1 else duration high + duration low

/-- The three dividers in the registers of the MMCM. -/
def dividers (mem : BitVec 7 → BitVec 16) : Dividers where
  fbmult := drpCounter ((mem 0x14).extractLsb' 6 6) ((mem 0x14).extractLsb' 0 6)
    ((mem 0x15).getLsbD 6)
  clkdiv := drpCounter ((mem 0x08).extractLsb' 6 6) ((mem 0x08).extractLsb' 0 6)
    ((mem 0x09).getLsbD 6)
  maindiv := drpCounter ((mem 0x16).extractLsb' 6 6) ((mem 0x16).extractLsb' 0 6)
    ((mem 0x16).getLsbD 12)

/-- The lock settings, from the three registers they are scattered over. -/
def lockOf (mem : BitVec 7 → BitVec 16) : BitVec 40 :=
  (mem 0x1A).extractLsb' 10 5 ++ (mem 0x19).extractLsb' 10 5 ++ (mem 0x18).extractLsb' 0 10
    ++ (mem 0x1A).extractLsb' 0 10 ++ (mem 0x19).extractLsb' 0 10

/-- The filter settings, from two registers. -/
def filterOf (mem : BitVec 7 → BitVec 16) : BitVec 10 :=
  (mem 0x4E).extractLsb' 15 1 ++ (mem 0x4E).extractLsb' 11 2 ++ (mem 0x4E).extractLsb' 8 1
    ++ (mem 0x4F).extractLsb' 15 1 ++ (mem 0x4F).extractLsb' 11 2 ++ (mem 0x4F).extractLsb' 7 2
    ++ (mem 0x4F).extractLsb' 4 1

section Fields

variable (addr : BitVec 7) (v : S1) (mem : BitVec 7 → BitVec 16)

/-- A field outside the mask of an entry after the first is that of the entry, whatever the
    first address and what the register held. -/
theorem extractLsb'_exec_plan (k : Nat) {a : BitVec 7} {mask set : BitVec 16}
    (he : (rom v).tail[k]? = some ⟨a, mask, set⟩) (start len : Nat)
    (hmask : mask.extractLsb' start len = 0) :
    (MaskedWrite.exec (plan addr v) mem a).extractLsb' start len = set.extractLsb' start len := by
  have hnodup : ((rom v).tail.map MaskedWrite.addr).Nodup := by
    rw [Mmcme2Drp.map_addr_tail_rom]
    decide
  have hmem := MaskedWrite.exec_of_mem hnodup (List.mem_of_getElem? he)
    (Function.update mem addr 0xFFFF)
  rw [Mmcme2Drp.exec_plan, hmem, MaskedWrite.value, BitVec.extractLsb'_or, BitVec.extractLsb'_and,
    hmask]
  simp

/-- One bit is a field of length 1. -/
theorem getLsbD_exec_plan (k : Nat) {a : BitVec 7} {mask set : BitVec 16}
    (he : (rom v).tail[k]? = some ⟨a, mask, set⟩) (b : Nat) (hmask : mask.extractLsb' b 1 = 0) :
    (MaskedWrite.exec (plan addr v) mem a).getLsbD b = set.getLsbD b := by
  have h := congrArg (fun x => x.getLsbD 0) (extractLsb'_exec_plan addr v mem k he b 1 hmask)
  simpa using h

/-- The dividers that the MMCM ends up with are those of the ports, put together again from
    six registers of the plan. -/
theorem dividers_exec_plan :
    dividers (MaskedWrite.exec (plan addr v) mem)
      = ⟨drpCounter (v.clkfbout.extractLsb' 6 6) (v.clkfbout.extractLsb' 0 6)
            (v.clkfbout.getLsbD 22),
          drpCounter (v.clkout0.extractLsb' 6 6) (v.clkout0.extractLsb' 0 6)
            (v.clkout0.getLsbD 22),
          drpCounter (v.divclk.extractLsb' 6 6) (v.divclk.extractLsb' 0 6)
            (v.divclk.getLsbD 12)⟩ := by
  unfold dividers
  rw [extractLsb'_exec_plan addr v mem 5 rfl 6 6 (by decide),
    extractLsb'_exec_plan addr v mem 5 rfl 0 6 (by decide),
    getLsbD_exec_plan addr v mem 6 rfl 6 (by decide),
    extractLsb'_exec_plan addr v mem 0 rfl 6 6 (by decide),
    extractLsb'_exec_plan addr v mem 0 rfl 0 6 (by decide),
    getLsbD_exec_plan addr v mem 1 rfl 6 (by decide),
    extractLsb'_exec_plan addr v mem 4 rfl 6 6 (by decide),
    extractLsb'_exec_plan addr v mem 4 rfl 0 6 (by decide),
    getLsbD_exec_plan addr v mem 4 rfl 12 (by decide),
    BitVec.extractLsb'_append_eq_of_add_le (by decide),
    BitVec.extractLsb'_append_eq_of_add_le (by decide), BitVec.getLsbD_append]
  simp

/-- The lock settings are put together again from the three registers they are scattered over. -/
theorem lockOf_exec_plan : lockOf (MaskedWrite.exec (plan addr v) mem) = v.lock := by
  unfold lockOf
  rw [extractLsb'_exec_plan addr v mem 9 rfl 10 5 (by decide),
    extractLsb'_exec_plan addr v mem 8 rfl 10 5 (by decide),
    extractLsb'_exec_plan addr v mem 7 rfl 0 10 (by decide),
    extractLsb'_exec_plan addr v mem 9 rfl 0 10 (by decide),
    extractLsb'_exec_plan addr v mem 8 rfl 0 10 (by decide)]
  apply BitVec.eq_of_getLsbD_eq
  intro k hk
  simp only [BitVec.getLsbD_append, BitVec.getLsbD_extractLsb']
  grind

/-- So are the filter settings, from two registers and six fields. -/
theorem filterOf_exec_plan : filterOf (MaskedWrite.exec (plan addr v) mem) = v.digitalFilt := by
  unfold filterOf
  rw [extractLsb'_exec_plan addr v mem 10 rfl 15 1 (by decide),
    extractLsb'_exec_plan addr v mem 10 rfl 11 2 (by decide),
    extractLsb'_exec_plan addr v mem 10 rfl 8 1 (by decide),
    extractLsb'_exec_plan addr v mem 11 rfl 15 1 (by decide),
    extractLsb'_exec_plan addr v mem 11 rfl 11 2 (by decide),
    extractLsb'_exec_plan addr v mem 11 rfl 7 2 (by decide),
    extractLsb'_exec_plan addr v mem 11 rfl 4 1 (by decide)]
  apply BitVec.eq_of_getLsbD_eq
  intro k hk
  simp only [BitVec.getLsbD_append, BitVec.getLsbD_extractLsb']
  grind

end Fields

/-! ### The counters of the driver -/

/-- The driver reads a time of six bits as the MMCM does: zero stands for 64. -/
theorem time_eq_duration (field : UInt32) :
    time field = duration (field.toBitVec.extractLsb' 0 6) := by
  have hand : (field &&& 0x3F).toNat = (field.toBitVec.extractLsb' 0 6).toNat := by
    rw [UInt32.toNat_and, BitVec.extractLsb'_toNat, Nat.shiftRight_zero]
    exact Nat.and_two_pow_sub_one_eq_mod field.toNat 6
  have hzero : field &&& 0x3F = 0 ↔ field.toBitVec.extractLsb' 0 6 = 0 := by
    rw [← UInt32.toNat_inj, hand, ← BitVec.toNat_inj]
    rfl
  simp only [time, duration, hzero, hand]

/-- So it does for the high time, six bits further up. -/
theorem time_shiftRight (field : UInt32) :
    time (field >>> 6) = duration (field.toBitVec.extractLsb' 6 6) := by
  rw [time_eq_duration]
  rfl

/-- A mask of one bit reads that bit. -/
theorem and_bit_ne_zero {r bit : UInt32} {k : Nat} (hk : k < 32)
    (hbit : bit.toBitVec = BitVec.twoPow 32 k) : r &&& bit ≠ 0 ↔ r.toBitVec.getLsbD k = true := by
  rw [ne_eq, ← UInt32.toBitVec_inj, UInt32.toBitVec_and, hbit, BitVec.and_twoPow]
  have hne : BitVec.twoPow 32 k ≠ 0 := by
    intro hzero
    have hbit := congrArg (fun x => x.getLsbD k) hzero
    simp [hk] at hbit
  split
  · next hset => simpa [hset] using hne
  · next hset => simpa using hset

/-- A counter of the driver's registers is one of the MMCM's. -/
theorem counter_eq {noCount r : UInt32} {k : Nat} (hk : k < 32)
    (hbit : ((1 : UInt32) <<< noCount).toBitVec = BitVec.twoPow 32 k) :
    counter noCount r = drpCounter (r.toBitVec.extractLsb' 6 6) (r.toBitVec.extractLsb' 0 6)
      (r.toBitVec.getLsbD k) := by
  rw [counter, time_shiftRight, time_eq_duration]
  simp only [drpCounter, and_bit_ne_zero hk hbit]

/-- The registers of the generator hold the six values. -/
structure Holds (regs : Memory 8 32) (r : Reg) : Prop where
  clk0L : regs 2 = r.clk0L.toBitVec
  clkFBL : regs 3 = r.clkFBL.toBitVec
  clkFBHClk0H : regs 4 = r.clkFBHClk0H.toBitVec
  divclk : regs 5 = r.divclk.toBitVec
  lockL : regs 6 = r.lockL.toBitVec
  fltrLockH : regs 7 = r.fltrLockH.toBitVec

/-- The MMCM after a session has the dividers that the registers decode to. -/
theorem dividers_of_holds {regs : Memory 8 32} {r : Reg} (h : Holds regs r) (addr : BitVec 7)
    (mem : BitVec 7 → BitVec 16) :
    dividers (MaskedWrite.exec (plan addr (ports regs)) mem) = decode r := by
  rw [dividers_exec_plan, decode, counter_eq (k := 22) (by decide) (by decide),
    counter_eq (k := 22) (by decide) (by decide), counter_eq (k := 12) (by decide) (by decide)]
  simp only [ports, h.clk0L, h.clkFBL, h.divclk]
  simp (disch := decide) only [BitVec.extractLsb'_append_eq_of_add_le, BitVec.getLsbD_append,
    BitVec.extractLsb'_extractLsb'_of_le]
  simp

/-- The two halves of the lock settings, from the two registers of the driver that hold them. -/
theorem lock_halves (lock : UInt64) (filter : UInt32) :
    (((lock >>> 32 &&& 0x000000FF).toUInt32 ||| (filter <<< 16 &&& 0x03FF0000)).toBitVec.extractLsb'
        0 8 ++ (lock &&& 0xFFFFFFFF).toUInt32.toBitVec : BitVec 40)
      = lock.toBitVec.extractLsb' 0 40 := by
  apply BitVec.eq_of_getLsbD_eq
  intro k hk
  simp only [BitVec.getLsbD_append, BitVec.getLsbD_extractLsb', UInt32.toBitVec_or,
    UInt32.toBitVec_and, UInt32.toBitVec_shiftLeft, UInt64.toBitVec_toUInt32, UInt64.toBitVec_and,
    UInt64.toBitVec_shiftRight, BitVec.getLsbD_or, BitVec.getLsbD_and, BitVec.getLsbD_setWidth]
  interval_cases k <;> simp

/-- The filter settings are the lower half of the register that they share with the top of the
    lock settings. -/
theorem filter_field (lock : UInt64) (filter : UInt32) :
    ((lock >>> 32 &&& 0x000000FF).toUInt32 ||| (filter <<< 16 &&& 0x03FF0000)).toBitVec.extractLsb'
        16 10 = filter.toBitVec.extractLsb' 0 10 := by
  apply BitVec.eq_of_getLsbD_eq
  intro k hk
  simp only [BitVec.getLsbD_extractLsb', UInt32.toBitVec_or, UInt32.toBitVec_and,
    UInt32.toBitVec_shiftLeft, UInt64.toBitVec_toUInt32, UInt64.toBitVec_and,
    UInt64.toBitVec_shiftRight, BitVec.getLsbD_or, BitVec.getLsbD_and, BitVec.getLsbD_setWidth]
  interval_cases k <;> simp

/-- What the MMCM holds for a mode: its dividers, and the entries of the two tables for its
    multiplier. -/
structure Programmed (m : Mode) (mem : BitVec 7 → BitVec 16) : Prop where
  dividers_eq : dividers mem = ⟨m.fbmult.toNat, m.clkdiv.toNat, m.maindiv.toNat⟩
  lock_eq : lockOf mem = (lockLookup.getD (m.fbmult - 1).toNat 0).toBitVec.extractLsb' 0 40
  filter_eq : filterOf mem
    = (filterLookupLow.getD (m.fbmult - 1).toNat 0).toBitVec.extractLsb' 0 10

/-- An MMCM that is programmed from these registers has the dividers, the lock settings and
    the filter settings of the mode. -/
theorem programmed_of_holds {regs : Memory 8 32} {m : Mode} (h : Holds regs (regOf m))
    (hm : m.InRange) (addr : BitVec 7) (mem : BitVec 7 → BitVec 16) :
    Programmed m (MaskedWrite.exec (plan addr (ports regs)) mem) where
  dividers_eq := by rw [dividers_of_holds h, decode_regOf hm]
  lock_eq := by
    rw [lockOf_exec_plan, ports, h.fltrLockH, h.lockL]
    exact lock_halves _ _
  filter_eq := by
    rw [filterOf_exec_plan, ports, h.fltrLockH]
    exact filter_field _ _

/-! ### The writes on the bus -/

/-- What `dglnt_dynclk_set_rate` writes once it has found a mode: `dglnt_dynclk_write_reg`,
    then the control register cleared and set; offset and value. -/
def setRateWrites (r : Reg) : List (UInt32 × UInt32) :=
  [(0x8, r.clk0L), (0x0C, r.clkFBL), (0x10, r.clkFBHClk0H), (0x14, r.divclk), (0x18, r.lockL),
   (0x1C, r.fltrLockH), (ofstDisplayCtrl, 0), (ofstDisplayCtrl, 1)]

/-- These are the writes of the driver, in its order. -/
theorem setRateWrites_io (m : Mode) (d : Device) :
    (setRateWrites (regOf m)).foldl (fun io w => writel w.2 w.1 io) d.io = (program m d).io := rfl

/-- A write that the slave carries out. -/
structure BusWrite where
  loc : Nat
  data : BitVec 32
  strb : BitVec (32 / 8)
deriving DecidableEq

/-- A 32 bit write to an offset: all strobes are set. -/
def busWrite (w : UInt32 × UInt32) : BusWrite :=
  ⟨w.1.toNat / 4, w.2.toBitVec, 0xF⟩

/-- The write of a cycle, if there is one. -/
def accepted (s : State) (i : In) : List BusWrite :=
  if S00Axi.slvRegWren s.axi i.bus then
    [⟨S00Axi.locAddr s.axi.axiAwaddr, i.bus.wdata, i.bus.wstrb⟩]
  else []

/-- The slave carries out at most one write in a cycle. -/
theorem length_accepted (s : State) (i : In) : (accepted s i).length ≤ 1 := by
  unfold accepted
  split <;> simp

/-- The registers after a list of writes. -/
def writeAll (ws : List BusWrite) (regs : Memory 8 32) : Memory 8 32 :=
  ws.foldl (fun regs w => S00Axi.regWrite regs w.loc w.data w.strb) regs

/-- Out of reset the registers change by the write that is carried out, and by nothing else. -/
theorem slvReg_step {s : State} {i : In} (hreset : i.aresetn = true) :
    (step s i).axi.slvReg = writeAll (accepted s i) s.axi.slvReg := by
  have haxi : (step s i).axi.slvReg
      = if S00Axi.slvRegWren s.axi i.bus then
          S00Axi.regWrite s.axi.slvReg (S00Axi.locAddr s.axi.axiAwaddr) i.bus.wdata i.bus.wstrb
        else s.axi.slvReg := by
    rw [step, hreset]
    rfl
  rw [haxi, accepted]
  split <;> rfl

/-- A full write replaces the register. -/
theorem strobed_full (old data : BitVec 32) : strobed old data 15#4 = data :=
  strobed_allOnes (by decide) old data

/-- The registers after the writes of the driver hold the six values, whatever was there
    before. -/
theorem holds_writeAll (r : Reg) (regs : Memory 8 32) :
    Holds (writeAll ((setRateWrites r).map busWrite) regs) r := by
  constructor <;>
    simp [writeAll, setRateWrites, busWrite, S00Axi.regWrite, Memory.write, ofstDisplayCtrl,
      strobed_full]

/-! ### The generator while the driver writes -/

/-- No request is in progress, and the clock is enabled if the control bit is set: what the
    driver finds when it is called, and keeps until it sets the control bit. -/
def Settled (s : State) : Prop :=
  s.clkState ≠ .waitSrdy ∧ (ctrl0 s.axi.slvReg = true → s.clkState = .enabled)

section Steps

variable {s : State} {i : In}

/-- Out of reset the state machine takes its next state. -/
theorem clkState_step (hreset : i.aresetn = true) : (step s i).clkState = clkNext s i := by
  rw [step, hreset]
  rfl

/-- No request begins while the generator is settled, so the registers can be written without
    a session reading them. -/
theorem Settled.not_waitSrdy (h : Settled s) (hreset : i.aresetn = true) :
    (step s i).clkState ≠ .waitSrdy := by
  rw [clkState_step hreset, clkNext]
  cases hc : s.clkState <;> dsimp only
  case waitLocked => split <;> decide
  case waitEn =>
    rw [if_neg fun hctrl => absurd (hc.symm.trans (h.2 hctrl)) (by decide)]
    decide
  case waitSrdy => exact absurd hc h.1
  case enabled => split <;> decide
  case reset => decide

/-- It stays settled as long as the control bit is not set. -/
theorem Settled.step (h : Settled s) (hreset : i.aresetn = true)
    (hctrl : ctrl0 (AxiDynclk.step s i).axi.slvReg = true → ctrl0 s.axi.slvReg = true) :
    Settled (AxiDynclk.step s i) := by
  refine ⟨h.not_waitSrdy hreset, fun hset => ?_⟩
  rw [clkState_step hreset, clkNext, h.2 (hctrl hset)]
  exact if_pos (hctrl hset)

/-- A settled generator that sees the control bit cleared is not busy afterwards. -/
theorem Settled.not_busy (h : Settled s) (hreset : i.aresetn = true)
    (hctrl : ctrl0 s.axi.slvReg = false) : ¬ Busy (AxiDynclk.step s i) := by
  rintro (hc | hc)
  · exact h.not_waitSrdy hreset hc
  · rw [clkState_step hreset, clkNext, hctrl] at hc
    cases hs : s.clkState <;> simp only [hs] at hc
    case waitLocked => cases hl : i.locked <;> simp [hl] at hc
    case waitSrdy => exact h.1 hs
    all_goals exact absurd hc (by simp)

end Steps

/-- The writes of the driver that do not concern the control register, and the two that do. -/
theorem setRateWrites_split (r : Reg) :
    ∃ ws, (setRateWrites r).map busWrite = ws ++ [⟨0, 0, 0xF⟩] ++ [⟨0, 1, 0xF⟩] ∧
      ∀ w ∈ ws, w.loc ≠ 0 := by
  refine ⟨((setRateWrites r).take 6).map busWrite, rfl, ?_⟩
  simp [setRateWrites, busWrite]

section Run

variable {axi : S00Axi.State} {u : Mmcme2Drp.State} {mem : BitVec 7 → BitVec 16} {past : List In}

variable (axi u mem past) in
/-- The writes that the slave carries out over the cycles after `past`. -/
def busWrites (is : List In) : List BusWrite :=
  log (fun q k => accepted ((axiDynclk axi u mem).run (past ++ q)) k) is

/-- Without a reset the registers are what the writes make of them. -/
theorem slvReg_run {is : List In} (hreset : ∀ k ∈ is, k.aresetn = true) :
    ((axiDynclk axi u mem).run (past ++ is)).axi.slvReg
      = writeAll (busWrites axi u mem past is) ((axiDynclk axi u mem).run past).axi.slvReg := by
  induction is using List.reverseRecOn with
  | nil =>
    rw [List.append_nil]
    rfl
  | append_singleton is k ih =>
    rw [← List.append_assoc, run_snoc, slvReg_step (hreset k (by simp)),
      ih fun k' hk' => hreset k' (by simp [hk']), busWrites, busWrites, log_snoc, writeAll, writeAll,
      writeAll, List.foldl_append]

/-- A write that cannot set the control bit. -/
def Harmless (w : BusWrite) : Prop := w.loc ≠ 0 ∨ w = ⟨0, 0, 0xF⟩

/-- A full write of zero clears the control bit. -/
theorem ctrl0_clear (regs : Memory 8 32) : ctrl0 (S00Axi.regWrite regs 0 0 0xF) = false := by
  simp [ctrl0, S00Axi.regWrite, Memory.write, strobed_full]

/-- Where no write can set the control bit, it is set afterwards only if it was before. -/
theorem ctrl0_writeAll {ws : List BusWrite} (hws : ∀ w ∈ ws, Harmless w) {regs : Memory 8 32}
    (h : ctrl0 (writeAll ws regs) = true) : ctrl0 regs = true := by
  induction ws generalizing regs with
  | nil => exact h
  | cons w ws ih =>
    have hfirst : ctrl0 (S00Axi.regWrite regs w.loc w.data w.strb) = true :=
      ih (fun w' hw' => hws w' (List.mem_cons_of_mem _ hw')) h
    rcases hws w List.mem_cons_self with hloc | rfl
    · rw [S00Axi.regWrite] at hfirst
      split at hfirst
      · exact hfirst
      · rwa [ctrl0, Memory.write, if_neg (fun heq => hloc heq.symm)] at hfirst
    · exact absurd (hfirst.symm.trans (ctrl0_clear regs)) (by decide)

/-- The generator stays settled until the driver sets the control bit. -/
theorem settled_run {is : List In} (h : Settled ((axiDynclk axi u mem).run past))
    (hreset : ∀ k ∈ is, k.aresetn = true)
    (hwrites : ∀ w ∈ busWrites axi u mem past is, Harmless w) :
    Settled ((axiDynclk axi u mem).run (past ++ is)) := by
  induction is using List.reverseRecOn with
  | nil => rwa [List.append_nil]
  | append_singleton is k ih =>
    rw [busWrites, log_snoc, ← busWrites] at hwrites
    have hinit := ih (fun k' hk' => hreset k' (by simp [hk']))
      (fun w hw => hwrites w (List.mem_append_left _ hw))
    rw [← List.append_assoc, run_snoc]
    apply hinit.step (hreset k (by simp))
    rw [slvReg_step (hreset k (by simp))]
    -- a harmless write leaves the control bit low
    exact ctrl0_writeAll fun w hw => hwrites w (List.mem_append_right _ hw)

/-- The request that the status answers came after every point that was not busy. -/
theorem prefix_of_request {p is past' rest : List In} {i : In}
    (hreq : Request (axiDynclk axi u mem) past' i rest) (his : is = past' ++ [i] ++ rest)
    (hp : p <+: is) (hidle : ¬ Busy ((axiDynclk axi u mem).run p)) : p <+: past' := by
  have hpast : past' <+: is := ⟨[i] ++ rest, by rw [his, List.append_assoc]⟩
  rcases List.prefix_or_prefix_of_prefix hp hpast with h | ⟨l, rfl⟩
  · exact h
  · cases l with
    | nil => rw [List.append_nil]
    | cons x q =>
      rw [his, List.append_assoc, List.prefix_append_right_inj, List.singleton_append,
        List.cons_prefix_cons] at hp
      obtain ⟨rfl, hq⟩ := hp
      -- otherwise it would lie behind the request, where the machine is busy
      have hbusy : Busy ((axiDynclk axi u mem).run (past' ++ [x] ++ q)) := hreq.busy q hq
      rw [List.append_assoc] at hbusy
      exact absurd hbusy hidle

/-- **From the driver to the MMCM.** The generator is settled, and then, without a reset, the
    slave carries out the writes of `dglnt_dynclk_set_rate` for a mode, with any cycles between
    them, while the MMCM answers the reads.  If the status reads 1 after that, then the MMCM
    holds the dividers of the mode and the lock and filter settings of its multiplier. -/
theorem setRate_reaches_mmcm {is : List In} {m : Mode} (hm : m.InRange)
    (hsettled : Settled ((axiDynclk axi u mem).run past))
    (hreset : ∀ k ∈ is, k.aresetn = true)
    (hwrites : busWrites axi u mem past is = (setRateWrites (regOf m)).map busWrite)
    (hans : EachCycle (fun p k => Answers ((axiDynclk axi u mem).run p).sys
      (drpIn ((axiDynclk axi u mem).run p) k)) (past ++ is))
    (hend : ((axiDynclk axi u mem).run (past ++ is)).clkState = .enabled) :
    Programmed m ((axiDynclk axi u mem).run (past ++ is)).sys.mem := by
  obtain ⟨ws, hsplit, hws⟩ := setRateWrites_split (regOf m)
  -- the cycle of the last write, after which the generator is not busy
  obtain ⟨before, k, after, rfl, hbefore, hlast⟩ :=
    exists_last_emit (fun _ _ => length_accepted _ _) (hwrites.trans hsplit)
  have hsettled' : Settled ((axiDynclk axi u mem).run (past ++ before)) := by
    refine settled_run hsettled (fun k' hk' => hreset k' (by simp [hk'])) fun w hw => ?_
    rw [busWrites, hbefore, List.mem_append, List.mem_singleton] at hw
    exact hw.imp (hws w) id
  have hctrl : ctrl0 ((axiDynclk axi u mem).run (past ++ before)).axi.slvReg = false := by
    rw [slvReg_run fun k' hk' => hreset k' (by simp [hk']), busWrites, hbefore, writeAll,
      List.foldl_append]
    exact ctrl0_clear _
  have hidle : ¬ Busy ((axiDynclk axi u mem).run (past ++ (before ++ [k]))) := by
    rw [← List.append_assoc, run_snoc]
    exact hsettled'.not_busy (hreset k (by simp)) hctrl
  -- from there on the registers do not change
  have hregs : ∀ q, q <+: after →
      ((axiDynclk axi u mem).run (past ++ (before ++ [k] ++ q))).axi.slvReg
        = writeAll ((setRateWrites (regOf m)).map busWrite)
            ((axiDynclk axi u mem).run past).axi.slvReg := by
    intro q hq
    have hall : busWrites axi u mem past (before ++ [k])
        = (setRateWrites (regOf m)).map busWrite := by
      rw [busWrites, log_snoc, hbefore, hlast, hsplit]
    have hfrom := log_isPrefix (fun q k => accepted ((axiDynclk axi u mem).run (past ++ q)) k)
      (List.prefix_append (before ++ [k]) q)
    have hto := log_isPrefix (fun q k => accepted ((axiDynclk axi u mem).run (past ++ q)) k)
      ((List.prefix_append_right_inj (before ++ [k])).mpr hq)
    rw [← busWrites, ← busWrites] at hfrom hto
    rw [hall] at hfrom
    rw [hwrites] at hto
    rw [slvReg_run fun k' hk' => hreset k' (((List.prefix_append_right_inj _).mpr hq).subset hk'),
      hto.eq_of_length_le hfrom.length_le]
  obtain ⟨past', i, j, rest, his, hreq, hspec⟩ := enabled_spec hend
  have hlate : past ++ (before ++ [k]) <+: past' :=
    prefix_of_request hreq his ⟨after, by simp⟩ hidle
  rw [hspec (ports (writeAll ((setRateWrites (regOf m)).map busWrite)
    ((axiDynclk axi u mem).run past).axi.slvReg)) ?_ hans]
  · exact programmed_of_holds (holds_writeAll _ _) hm _ _
  · intro q hq
    obtain ⟨l, rfl⟩ := hlate
    have heq : past ++ (before ++ [k]) ++ l ++ [i] ++ q
        = past ++ (before ++ [k] ++ (l ++ [i] ++ q)) := by simp
    have hpoint : past ++ (before ++ [k] ++ (l ++ [i] ++ q))
        <+: past ++ (before ++ [k] ++ after) := by
      rw [his, ← heq]
      exact (List.prefix_append_right_inj _).mpr hq
    rw [List.prefix_append_right_inj, List.prefix_append_right_inj] at hpoint
    rw [heq, hregs _ hpoint]

/-- What the bus shows in the two cycles of a write by a master that takes the response at
    once. -/
def writeBus (w : UInt32 × UInt32) : List S00Axi.In :=
  List.replicate 2
    { awaddr := w.1.toBitVec.setWidth 5, awvalid := true, wdata := w.2.toBitVec, wstrb := 0xF,
      wvalid := true, bready := true }

/-- The MMCM locks in the fourth cycle after the reset, and goes through a session after the
    writes of the driver and the two cycles of the request. -/
def mmcmDrive : List (Bool × Bool) :=
  List.replicate 3 (false, false) ++ List.replicate 15 (true, false) ++ Mmcme2Drp.sessionDrive ++
    [(true, false)]

/-- The driver's writes for a multiplication by 10 and a division by 2, and the cycles that the
    generator needs for them. -/
def setRateCycles : List In :=
  List.zipWith (fun bus d => { idle d with bus := bus })
    ((setRateWrites (regOf ⟨500000, 10, 2, 1⟩)).flatMap writeBus
      ++ List.replicate 110 ({} : S00Axi.In)) mmcmDrive

/-- The MMCM ends up with the dividers 10, 2 and 1 after the writes of the driver, with an
    answer to each access two cycles later and a lock some cycles after the reset. -/
theorem setRate_reaches_mmcm_example :
    Programmed ⟨500000, 10, 2, 1⟩
      (started.run ([{ idle (false, false) with aresetn := false }] ++ setRateCycles)).sys.mem := by
  refine setRate_reaches_mmcm ⟨by decide, by decide, by decide, by decide, by decide, by decide⟩
    ⟨by decide +kernel, by decide +kernel⟩ ?_ (by decide +kernel) ?_ (by decide +kernel)
  · decide +kernel
  · decide +kernel

end Run

end ZynqLinux.Dynclk.EndToEnd
