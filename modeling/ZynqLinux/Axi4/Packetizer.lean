import Mathlib.Algebra.Group.Nat.Defs
import Mathlib.Tactic.Common
import ZynqLinux.Lib.History

namespace ZynqLinux.Axi4.Packetizer

open ZynqLinux.Lib

/-!
# `axis_packetizer` — the model, its word count and its framing

The IP lets words of a stream through and marks the last one of each packet of `cfg_data`
words.  The STOP variant closes after one packet, the CONT variant goes on forever.

* `next` is the combinational block of the variant, `axisPacketizer` the clocked IP under a
  constant `cfg_data`;
* `words` is the log of the transfers, `offered` the number of cycles that could transfer;
* `Steady` says where the registers stand after any run with `2 ≤ cfg_data`: both registers
  and the number of transfers are functions of `offered`;
* `passesConfigured_iff` is the word count and `framing` the alignment of the packets.

`cfg_data - 1` is unsigned and as wide as the literal makes it, so `cfg_data = 0` compares
against the largest value of `max CNTR_WIDTH 32` bits, and `cfg_data = 1` compares against
zero and never raises the enable.
-/

/-- The two branches of the `generate`: `CONT` when CONTINUOUS is "TRUE", `STOP` for any
    other text. -/
inductive Variant
  | CONT
  | STOP
  deriving DecidableEq

/-- The module parameters. -/
structure Params where
  axisTdataWidth : Nat := 32
  cntrWidth : Nat := 32
  variant : Variant := .STOP

variable {P : Params}

/-! ### The registers and the next-state logic -/

/-- The registers of the `always @(posedge aclk)` block. -/
structure Regs (P : Params) where
  intCntrReg : BitVec P.cntrWidth
  intEnblReg : Bool

/-- The inputs of one cycle out of reset. -/
structure In (P : Params) where
  sAxisTdata : BitVec P.axisTdataWidth := 0
  sAxisTvalid : Bool := false
  mAxisTready : Bool := false

/-- `assign int_comp_wire = int_cntr_reg < cfg_data-1`, at the width of the wider operand:
    the literal is 32 bits wide. -/
def intCompWire (cfgData : BitVec P.cntrWidth) (r : Regs P) : Bool :=
  (r.intCntrReg.setWidth (max P.cntrWidth 32)).ult (cfgData.setWidth (max P.cntrWidth 32) - 1)

/-- `assign int_tvalid_wire = int_enbl_reg & s_axis_tvalid`, which is `m_axis_tvalid`. -/
def intTvalidWire (r : Regs P) (i : In P) : Bool := r.intEnblReg && i.sAxisTvalid

/-- `assign int_tlast_wire = ~int_comp_wire`. -/
def intTlastWire (cfgData : BitVec P.cntrWidth) (r : Regs P) : Bool := !intCompWire cfgData r

/-- `assign s_axis_tready = int_enbl_reg & m_axis_tready`. -/
def sAxisTready (r : Regs P) (i : In P) : Bool := r.intEnblReg && i.mAxisTready

/-- `assign m_axis_tdata = s_axis_tdata`. -/
def mAxisTdata (i : In P) : BitVec P.axisTdataWidth := i.sAxisTdata

/-- `assign m_axis_tlast = int_enbl_reg & int_tlast_wire`. -/
def mAxisTlast (cfgData : BitVec P.cntrWidth) (r : Regs P) : Bool :=
  r.intEnblReg && intTlastWire cfgData r

/-- The `always @*` block: three `if`s over the defaults, the later ones winning. -/
def next (cfgData : BitVec P.cntrWidth) (r : Regs P) (i : In P) : Regs P :=
  let n := r
  -- the enable depends on the registers alone, so it rises one cycle after reset
  let n := if !r.intEnblReg && intCompWire cfgData r then { n with intEnblReg := true } else n
  let n := if i.mAxisTready && intTvalidWire r i && intCompWire cfgData r then
    { n with intCntrReg := r.intCntrReg + 1 } else n
  if i.mAxisTready && intTvalidWire r i && intTlastWire cfgData r then
    match P.variant with
    | .CONT => { n with intCntrReg := 0 }
    | .STOP => { n with intEnblReg := false }
  else n

/-- The IP with `cfg_data` held at a constant, from reset. -/
def axisPacketizer (cfgData : BitVec P.cntrWidth) : Machine (Regs P) (In P) :=
  ⟨⟨0, false⟩, next cfgData⟩

/-- A transfer on the master side. -/
def transfer (r : Regs P) (i : In P) : Bool := i.mAxisTready && intTvalidWire r i

/-- A transfer on the slave side. -/
def slaveTransfer (r : Regs P) (i : In P) : Bool := sAxisTready r i && i.sAxisTvalid

/-- The words transferred so far, each with its `m_axis_tlast`. -/
def words (cfgData : BitVec P.cntrWidth) (is : List (In P)) :
    List (BitVec P.axisTdataWidth × Bool) :=
  log (fun past i =>
    let r := (axisPacketizer cfgData).run past
    if transfer r i then [(mAxisTdata i, mAxisTlast cfgData r)] else []) is

/-- A cycle, the second one after reset or a later one, in which `s_axis_tvalid` and
    `m_axis_tready` are both high. -/
def offer (past : List (In P)) (i : In P) : Bool :=
  !past.isEmpty && i.sAxisTvalid && i.mAxisTready

/-- The number of such cycles so far. -/
def offered (is : List (In P)) : Nat := count offer is

/-! ### The comparison against `cfg_data - 1` -/

/-- The counter is compared in the wider one of its own width and 32 bits, so its values fit. -/
theorem two_pow_cntrWidth_le (w : Nat) : 2 ^ w ≤ 2 ^ max w 32 :=
  Nat.pow_le_pow_right (by decide) (Nat.le_max_left _ _)

/-- So do 32-bit constants, such as the one that the source takes off `cfg_data`. -/
theorem two_pow_32_le (w : Nat) : 2 ^ 32 ≤ 2 ^ max w 32 :=
  Nat.pow_le_pow_right (by decide) (Nat.le_max_right _ _)

/-- Extending a value of the counter to the width of the comparison does not change it. -/
theorem toNat_setWidth_max (x : BitVec P.cntrWidth) :
    (x.setWidth (max P.cntrWidth 32)).toNat = x.toNat := by
  rw [BitVec.toNat_setWidth]
  exact Nat.mod_eq_of_lt (Nat.lt_of_lt_of_le x.isLt (two_pow_cntrWidth_le _))

/-- One is one in the width of the comparison, which has at least 32 bits. -/
theorem toNat_one_max (w : Nat) : (1 : BitVec (max w 32)).toNat = 1 := by
  have hlt : 1 < 2 ^ max w 32 := Nat.lt_of_lt_of_le (by decide) (two_pow_32_le w)
  rw [BitVec.ofNat_eq_ofNat, BitVec.toNat_ofNat]
  exact Nat.mod_eq_of_lt hlt

/-- The comparison over the natural numbers, with the wrap of the subtraction. -/
theorem intCompWire_eq_mod (cfgData : BitVec P.cntrWidth) (r : Regs P) :
    intCompWire cfgData r = decide (r.intCntrReg.toNat <
      (2 ^ max P.cntrWidth 32 - 1 + cfgData.toNat) % 2 ^ max P.cntrWidth 32) := by
  rw [intCompWire, BitVec.ult, BitVec.toNat_sub, toNat_one_max, toNat_setWidth_max,
    toNat_setWidth_max]

/-- For a positive `cfg_data` the subtraction does not wrap, so the comparison says that the
    packet has a word behind the next one. -/
theorem intCompWire_eq {cfgData : BitVec P.cntrWidth} (hpos : 1 ≤ cfgData.toNat) (r : Regs P) :
    intCompWire cfgData r = decide (r.intCntrReg.toNat + 1 < cfgData.toNat) := by
  have hlt := Nat.lt_of_lt_of_le cfgData.isLt (two_pow_cntrWidth_le _)
  have hsub : (2 ^ max P.cntrWidth 32 - 1 + cfgData.toNat) % 2 ^ max P.cntrWidth 32
      = cfgData.toNat - 1 := by
    rw [show 2 ^ max P.cntrWidth 32 - 1 + cfgData.toNat
        = (cfgData.toNat - 1) + 2 ^ max P.cntrWidth 32 by omega, Nat.add_mod_right]
    exact Nat.mod_eq_of_lt (by omega)
  rw [intCompWire_eq_mod, hsub, decide_eq_decide]
  omega

/-- At zero it wraps, and an untouched counter is below `cfg_data - 1`. -/
theorem intCompWire_zero {cfgData : BitVec P.cntrWidth} (hzero : cfgData.toNat = 0) {r : Regs P}
    (hr : r.intCntrReg.toNat = 0) : intCompWire cfgData r = true := by
  have hbig := two_pow_32_le P.cntrWidth
  rw [intCompWire_eq_mod, hzero, hr, Nat.add_zero, Nat.mod_eq_of_lt (by omega), decide_eq_true_eq]
  omega

/-! ### What one clock edge does, register by register -/

/-- The counter after a clock edge: a word that passes counts, and the last word of a packet
    starts again at zero where the packetizer goes on. -/
theorem next_intCntrReg (cfgData : BitVec P.cntrWidth) (r : Regs P) (i : In P) :
    (next cfgData r i).intCntrReg =
      if transfer r i then
        if intCompWire cfgData r then r.intCntrReg + 1
        else if P.variant = .CONT then 0 else r.intCntrReg
      else r.intCntrReg := by
  unfold next transfer intTlastWire
  cases hv : P.variant <;> cases i.mAxisTready && intTvalidWire r i <;>
    cases intCompWire cfgData r <;> cases r.intEnblReg <;> simp

/-- The enable bit after a clock edge: it rises while the packet has words to come, and falls
    with the last word where the packetizer stops. -/
theorem next_intEnblReg (cfgData : BitVec P.cntrWidth) (r : Regs P) (i : In P) :
    (next cfgData r i).intEnblReg =
      if transfer r i && !intCompWire cfgData r && P.variant == .STOP then false
      else r.intEnblReg || intCompWire cfgData r := by
  unfold next transfer intTlastWire
  cases hv : P.variant <;> cases i.mAxisTready && intTvalidWire r i <;>
    cases hc : intCompWire cfgData r <;> cases he : r.intEnblReg <;> simp [he]

/-- A word passes if both sides are ready for it and the packetizer is open. -/
theorem transfer_iff (r : Regs P) (i : In P) :
    transfer r i = true ↔
      i.mAxisTready = true ∧ r.intEnblReg = true ∧ i.sAxisTvalid = true := by
  rw [transfer, intTvalidWire, Bool.and_eq_true, Bool.and_eq_true]

/-- The two sides of the IP transfer in the same cycles. -/
theorem slaveTransfer_eq (r : Regs P) (i : In P) : slaveTransfer r i = transfer r i := by
  unfold slaveTransfer transfer sAxisTready intTvalidWire
  cases r.intEnblReg <;> cases i.mAxisTready <;> cases i.sAxisTvalid <;> rfl

/-- One more cycle lets at most one more word through, with the mark it has at that time. -/
theorem words_snoc (cfgData : BitVec P.cntrWidth) (is : List (In P)) (i : In P) :
    words cfgData (is ++ [i]) = words cfgData is ++
      (if transfer ((axisPacketizer cfgData).run is) i then
        [(mAxisTdata i, mAxisTlast cfgData ((axisPacketizer cfgData).run is))] else []) :=
  log_snoc _ _ _

/-- So the number of words grows with the cycles in which a word passes. -/
theorem words_length_snoc (cfgData : BitVec P.cntrWidth) (is : List (In P)) (i : In P) :
    (words cfgData (is ++ [i])).length = (words cfgData is).length +
      (transfer ((axisPacketizer cfgData).run is) i).toNat := by
  rw [words_snoc, List.length_append]
  cases transfer ((axisPacketizer cfgData).run is) i <;> rfl

/-- The cycles in which a word could pass, had the packetizer been open, are counted one by
    one. -/
theorem offered_snoc (is : List (In P)) (i : In P) :
    offered (is ++ [i]) = offered is + (offer is i).toNat :=
  count_snoc _ _ _

/-! ### Where a run with two or more words to a packet stands -/

/-- The counter after `t` transfers: it stops in front of the last word of the packet, or
    turns over with the packets. -/
def Variant.counter (v : Variant) (N t : Nat) : Nat :=
  match v with
  | .CONT => t % N
  | .STOP => min t (N - 1)

/-- The transfers that `c` offers bring about. -/
def Variant.passed (v : Variant) (N c : Nat) : Nat :=
  match v with
  | .CONT => c
  | .STOP => min N c

/-- The `t`-th word since reset is one that ends a packet. -/
def Variant.endsPacket (v : Variant) (N t : Nat) : Prop :=
  match v with
  | .CONT => N ∣ t
  | .STOP => t = N

instance (v : Variant) (N t : Nat) : Decidable (v.endsPacket N t) :=
  match v with
  | .CONT => inferInstanceAs (Decidable (N ∣ t))
  | .STOP => inferInstanceAs (Decidable (t = N))

/-- Counting on modulo `N`, without a division: the counter starts again when it reaches `N`. -/
theorem succ_mod_eq {N t : Nat} (hN : 2 ≤ N) :
    (t + 1) % N = if t % N + 1 < N then t % N + 1 else 0 := by
  have hlt := Nat.mod_lt t (show 0 < N by omega)
  rw [Nat.add_mod, Nat.mod_eq_of_lt (show 1 < N by omega)]
  split
  · next h => exact Nat.mod_eq_of_lt h
  · next h => rw [show t % N + 1 = N by omega, Nat.mod_self]

/-- The comparison fails exactly on the word that ends a packet. -/
theorem Variant.counter_succ_lt_iff (v : Variant) {N t : Nat} (hN : 2 ≤ N)
    (hopen : v = .STOP → t < N) : v.counter N t + 1 < N ↔ ¬ v.endsPacket N (t + 1) := by
  cases v with
  | CONT =>
    show t % N + 1 < N ↔ ¬ N ∣ t + 1
    rw [Nat.dvd_iff_mod_eq_zero, succ_mod_eq hN]
    split <;> omega
  | STOP =>
    show min t (N - 1) + 1 < N ↔ ¬ t + 1 = N
    have := hopen rfl
    omega

/-- The counter moves on with every word that does not end a packet. -/
theorem Variant.counter_succ (v : Variant) {N t : Nat} (hN : 2 ≤ N)
    (hopen : v = .STOP → t < N) :
    v.counter N (t + 1) = if v.counter N t + 1 < N then v.counter N t + 1
      else if v = .CONT then 0 else v.counter N t := by
  cases v with
  | CONT => exact succ_mod_eq hN
  | STOP =>
    show min (t + 1) (N - 1) = if min t (N - 1) + 1 < N then min t (N - 1) + 1 else min t (N - 1)
    have := hopen rfl
    split <;> omega

/-- The registers and the number of transfers after the cycles `past`. -/
structure Steady (cfgData : BitVec P.cntrWidth) (past : List (In P)) : Prop where
  passed : (words cfgData past).length = P.variant.passed cfgData.toNat (offered past)
  counter : ((axisPacketizer cfgData).run past).intCntrReg.toNat =
    P.variant.counter cfgData.toNat (words cfgData past).length
  enabled : ((axisPacketizer cfgData).run past).intEnblReg = true ↔
    past ≠ [] ∧ (P.variant = .STOP → (words cfgData past).length < cfgData.toNat)

section Steady

variable {cfgData : BitVec P.cntrWidth} {past : List (In P)}

/-- In front of the first cycle nothing has passed, the counter is at zero and the packetizer
    is closed. -/
theorem steady_nil (cfgData : BitVec P.cntrWidth) : Steady cfgData ([] : List (In P)) := by
  refine ⟨?_, ?_, ?_⟩
  · show 0 = P.variant.passed cfgData.toNat 0
    cases P.variant <;> simp [Variant.passed]
  · show (0 : BitVec P.cntrWidth).toNat = P.variant.counter cfgData.toNat 0
    cases P.variant with
    | CONT => simp [Variant.counter]
    | STOP => simp [Variant.counter]
  · show false = true ↔ _
    simp

/-- At a steady point the comparison is that of the packet position. -/
theorem Steady.intCompWire_eq (hN : 2 ≤ cfgData.toNat) (h : Steady cfgData past) :
    intCompWire cfgData ((axisPacketizer cfgData).run past) =
      decide (P.variant.counter cfgData.toNat (words cfgData past).length + 1 < cfgData.toNat) := by
  rw [Packetizer.intCompWire_eq (by omega), h.counter]

/-- A transfer takes an offer while the packetizer is open. -/
theorem Steady.transfer_iff (h : Steady cfgData past) (i : In P) :
    transfer ((axisPacketizer cfgData).run past) i = true ↔
      offer past i = true ∧
        (P.variant = .STOP → (words cfgData past).length < cfgData.toNat) := by
  rw [Packetizer.transfer_iff, h.enabled]
  simp only [offer, Bool.and_eq_true, Bool.not_eq_true', List.isEmpty_eq_false_iff]
  tauto

/-- The number of words passed after one more cycle is again what the variant lets through of
    the words offered. -/
theorem Steady.passed_step (h : Steady cfgData past) (i : In P) :
    (words cfgData (past ++ [i])).length =
      P.variant.passed cfgData.toNat (offered (past ++ [i])) := by
  have ht := h.transfer_iff i
  have hp := h.passed
  rw [words_length_snoc, offered_snoc]
  cases hv : P.variant with
  | CONT =>
    have heq : transfer ((axisPacketizer cfgData).run past) i = offer past i := by
      rw [Bool.eq_iff_iff, ht]
      simp [hv]
    rw [hv] at hp
    rw [heq, hp]
    rfl
  | STOP =>
    rw [hv] at hp ht
    simp only [Variant.passed, forall_const] at hp ht ⊢
    cases hoff : offer past i
    · -- without an offer neither count moves
      have hno : transfer ((axisPacketizer cfgData).run past) i = false := by
        rw [← Bool.not_eq_true, ht, hoff]
        simp
      rw [hno, hp]
      rfl
    · rw [hoff] at ht
      -- an offer is taken until `cfg_data` words have gone, where the minimum stands still
      by_cases hlt : (words cfgData past).length < cfgData.toNat
      · rw [ht.mpr ⟨rfl, hlt⟩]
        simp only [Bool.toNat_true]
        omega
      · have hno : transfer ((axisPacketizer cfgData).run past) i = false := by
          rw [← Bool.not_eq_true, ht]
          exact fun h => hlt h.2
        rw [hno]
        simp only [Bool.toNat_true, Bool.toNat_false]
        omega

/-- The counter after one more cycle is again the place of the next word in its packet. -/
theorem Steady.counter_step (hN : 2 ≤ cfgData.toNat) (h : Steady cfgData past) (i : In P) :
    ((axisPacketizer cfgData).run (past ++ [i])).intCntrReg.toNat =
      P.variant.counter cfgData.toNat (words cfgData (past ++ [i])).length := by
  rw [words_length_snoc, Machine.run_snoc]
  show (next cfgData _ i).intCntrReg.toNat = _
  rw [next_intCntrReg, h.intCompWire_eq hN]
  cases ht : transfer ((axisPacketizer cfgData).run past) i
  · exact h.counter
  · have hopen := ((h.transfer_iff i).mp ht).2
    rw [Bool.toNat_true, Variant.counter_succ _ hN hopen]
    simp only [if_true, decide_eq_true_eq]
    split_ifs with hlt hcont
    · -- the increment stays below `cfg_data`, which fits the register
      have hfit := cfgData.isLt
      have hone : (1 : BitVec P.cntrWidth).toNat = 1 := by
        have hlt : 1 < 2 ^ P.cntrWidth := by omega
        rw [BitVec.ofNat_eq_ofNat, BitVec.toNat_ofNat]
        exact Nat.mod_eq_of_lt hlt
      rw [BitVec.toNat_add, hone, h.counter]
      exact Nat.mod_eq_of_lt (by omega)
    · simp
    · exact h.counter

/-- After reset the counter is in front of the first word of a packet, not of the last. -/
theorem intCompWire_start (hN : 2 ≤ cfgData.toNat) :
    intCompWire cfgData ((axisPacketizer cfgData).run []) = true := by
  rw [intCompWire_eq (by omega), decide_eq_true_eq]
  show (0 : BitVec P.cntrWidth).toNat + 1 < cfgData.toNat
  rw [BitVec.ofNat_eq_ofNat, BitVec.toNat_ofNat, Nat.zero_mod]
  exact hN

/-- In a STOP run the comparison holds while two words or more are to come. -/
theorem Steady.intCompWire_stop (hN : 2 ≤ cfgData.toNat) (h : Steady cfgData past)
    (hv : P.variant = .STOP) :
    intCompWire cfgData ((axisPacketizer cfgData).run past) = true ↔
      (words cfgData past).length + 1 < cfgData.toNat := by
  rw [h.intCompWire_eq hN, hv, decide_eq_true_eq]
  show min _ (cfgData.toNat - 1) + 1 < _ ↔ _
  omega

/-- The enable rises in the first cycle, and falls with the last word of a STOP packet. -/
theorem Steady.enabled_step (hN : 2 ≤ cfgData.toNat) (h : Steady cfgData past) (i : In P) :
    ((axisPacketizer cfgData).run (past ++ [i])).intEnblReg = true ↔
      past ++ [i] ≠ [] ∧
        (P.variant = .STOP → (words cfgData (past ++ [i])).length < cfgData.toNat) := by
  rw [words_length_snoc, Machine.run_snoc]
  show (next cfgData _ i).intEnblReg = true ↔ _
  rw [next_intEnblReg]
  have hcons : past ++ [i] ≠ [] := by simp
  by_cases hnil : past = []
  · -- the first cycle: the comparison holds, and at most one word goes
    subst hnil
    rw [intCompWire_start hN]
    have hle := Bool.toNat_le (transfer ((axisPacketizer cfgData).run []) i)
    refine iff_of_true (by simp) ⟨hcons, fun _ => ?_⟩
    show 0 + _ < _
    omega
  · cases hv : P.variant with
    | CONT =>
      -- a CONT run never closes
      simp [h.enabled.mpr ⟨hnil, by simp [hv]⟩]
    | STOP =>
      have hcomp := h.intCompWire_stop hN hv
      have hen : ((axisPacketizer cfgData).run past).intEnblReg = true ↔
          (words cfgData past).length < cfgData.toNat := by
        rw [h.enabled]
        simp [hnil, hv]
      cases ht : transfer ((axisPacketizer cfgData).run past) i
      · -- no word: a closed packetizer has none to come, so the comparison does not open it
        simp only [Bool.false_and, Bool.false_eq_true, if_false, Bool.or_eq_true, hen, hcomp,
          forall_const, Bool.toNat_false, hcons, ne_eq, not_false_eq_true, true_and]
        omega
      · -- a word: the packetizer stays open exactly when the comparison holds
        have hlive := ((Packetizer.transfer_iff _ i).mp ht).2.1
        simp only [hlive, Bool.true_and, beq_self_eq_true, Bool.and_true, Bool.true_or,
          Bool.toNat_true, forall_const, hcons, ne_eq, not_false_eq_true, true_and]
        rw [← hcomp]
        cases intCompWire cfgData ((axisPacketizer cfgData).run past) <;> simp

/-- So one cycle keeps all three parts of the invariant. -/
theorem Steady.step (hN : 2 ≤ cfgData.toNat) (h : Steady cfgData past) (i : In P) :
    Steady cfgData (past ++ [i]) :=
  ⟨h.passed_step i, h.counter_step hN i, h.enabled_step hN i⟩

/-- Every run of a packetizer set to two or more words is steady. -/
theorem steady_run (hN : 2 ≤ cfgData.toNat) (is : List (In P)) : Steady cfgData is := by
  induction is using List.reverseRecOn with
  | nil => exact steady_nil cfgData
  | append_singleton is i ih => exact ih.step hN i

end Steady

/-! ### Runs with no word or one word to a packet -/

section Degenerate

variable {cfgData : BitVec P.cntrWidth}

/-- No transfer happens in the cycle after reset, so every transfer takes an offer. -/
theorem words_length_le_offered (cfgData : BitVec P.cntrWidth) (is : List (In P)) :
    (words cfgData is).length ≤ offered is := by
  induction is using List.reverseRecOn with
  | nil => exact Nat.le_refl 0
  | append_singleton is i ih =>
    rw [words_length_snoc, offered_snoc]
    cases ht : transfer ((axisPacketizer cfgData).run is) i
    · simp only [Bool.toNat_false]
      omega
    · rw [transfer_iff] at ht
      -- the packetizer opens in the first cycle, so no word goes in it
      have hne : is ≠ [] := by
        rintro rfl
        exact Bool.false_ne_true ht.2.1
      have hoff : offer is i = true := by simp [offer, ht.1, ht.2.2, hne]
      rw [hoff]
      exact Nat.succ_le_succ ih

/-- At one word to a packet the comparison never holds and the enable never rises. -/
theorem one_closed (hN : cfgData.toNat = 1) (is : List (In P)) :
    ((axisPacketizer cfgData).run is).intEnblReg = false := by
  apply Machine.run_of_step (M := axisPacketizer cfgData) (I := fun r => r.intEnblReg = false) rfl
  intro r i hr
  show (next cfgData r i).intEnblReg = false
  rw [next_intEnblReg, hr, intCompWire_eq (by omega), hN]
  simp

/-- With a packet of one word the comparison never opens the packetizer, so nothing passes. -/
theorem one_words (hN : cfgData.toNat = 1) (is : List (In P)) : words cfgData is = [] := by
  induction is using List.reverseRecOn with
  | nil => rfl
  | append_singleton is i ih =>
    rw [words_snoc, ih, transfer, intTvalidWire, one_closed hN]
    simp

/-- At zero words to a packet the enable rises at once: the first offer is taken. -/
theorem zero_untouched (hN : cfgData.toNat = 0) (is : List (In P))
    (h : (words cfgData is).length = 0) :
    offered is = 0 ∧ ((axisPacketizer cfgData).run is).intCntrReg.toNat = 0 ∧
      (is ≠ [] → ((axisPacketizer cfgData).run is).intEnblReg = true) := by
  induction is using List.reverseRecOn with
  | nil =>
    refine ⟨rfl, ?_, fun hne => absurd rfl hne⟩
    show (0 : BitVec P.cntrWidth).toNat = 0
    simp
  | append_singleton is i ih =>
    rw [words_length_snoc] at h
    obtain ⟨hoff, hcntr, hen⟩ := ih (by omega)
    -- this cycle has not transferred a word either
    have hno : transfer ((axisPacketizer cfgData).run is) i = false := by
      cases ht : transfer ((axisPacketizer cfgData).run is) i
      · rfl
      · rw [ht] at h
        exact absurd h (by simp)
    have hcomp := intCompWire_zero hN hcntr
    rw [offered_snoc, Machine.run_snoc]
    refine ⟨?_, ?_, fun _ => ?_⟩
    · have hnooff : offer is i = false := by
        by_cases hnil : is = []
        · simp [offer, hnil]
        · rw [transfer, intTvalidWire, hen hnil, Bool.true_and] at hno
          rw [offer, Bool.and_assoc, Bool.and_comm i.sAxisTvalid, hno, Bool.and_false]
      rw [hoff, hnooff]
      rfl
    · show (next cfgData _ i).intCntrReg.toNat = 0
      rw [next_intCntrReg, hno]
      exact hcntr
    · show (next cfgData _ i).intEnblReg = true
      rw [next_intEnblReg, hno, hcomp]
      simp

end Degenerate

/-! ### The number of words -/

/-- The number of words transferred so far is the configured one: STOP takes the first
    `cfg_data` offers, CONT with a positive `cfg_data` takes them all. -/
def PassesConfigured (cfgData : BitVec P.cntrWidth) (is : List (In P)) : Prop :=
  (P.variant = .STOP → (words cfgData is).length = min cfgData.toNat (offered is)) ∧
  (P.variant = .CONT → 1 ≤ cfgData.toNat → (words cfgData is).length = offered is)

/-- **Word count, exactly.** A run passes the configured number of words if and only if
    `cfg_data` is at least two or the run makes no offer; CONT with `cfg_data = 0` is left
    open. -/
theorem passesConfigured_iff (cfgData : BitVec P.cntrWidth) (is : List (In P)) :
    PassesConfigured cfgData is ↔
      2 ≤ cfgData.toNat ∨ offered is = 0 ∨ (P.variant = .CONT ∧ cfgData.toNat = 0) := by
  rw [PassesConfigured]
  rcases (show cfgData.toNat = 0 ∨ cfgData.toNat = 1 ∨ 2 ≤ cfgData.toNat by omega) with
    hN | hN | hN
  · -- no word is configured, but the first offer is taken
    have hzero := fun h => (zero_untouched hN is h).1
    have hle := words_length_le_offered cfgData is
    rw [hN, Nat.zero_min]
    cases P.variant with
    | CONT => simp
    | STOP =>
      simp only [reduceCtorEq, forall_const, false_implies, and_true, or_false]
      omega
  · -- one word is configured, and none goes
    have hone : (words cfgData is).length = 0 := by rw [one_words hN is]; rfl
    rw [hN, hone]
    cases P.variant with
    | CONT => simp [eq_comm]
    | STOP =>
      simp only [reduceCtorEq, forall_const, false_implies, false_and, and_true, or_false]
      omega
  · have hp := (steady_run hN is).passed
    refine iff_of_true ⟨fun hv => ?_, fun hv _ => ?_⟩ (Or.inl hN)
    · rw [hp, hv]
      rfl
    · rw [hp, hv]
      rfl

/-- One offered word. -/
def offerOne : In {} := { sAxisTvalid := true, mAxisTready := true }

/-- Set to one word, the IP passes none: the word offered in the second cycle is not taken. -/
theorem one_word_not_passed : ¬ PassesConfigured (P := {}) 1 [offerOne, offerOne] := by
  intro h
  exact absurd (h.1 rfl) (by decide +kernel)

/-! ### The framing and the handshake -/

/-- The upstream keeps `s_axis_tvalid` and `s_axis_tdata` until `s_axis_tready`. -/
def UpstreamHolds (cfgData : BitVec P.cntrWidth) (is : List (In P)) : Prop :=
  ∀ past i j, past ++ [i] ++ [j] <+: is → i.sAxisTvalid = true →
    sAxisTready ((axisPacketizer cfgData).run past) i = false →
    j.sAxisTvalid = true ∧ j.sAxisTdata = i.sAxisTdata

/-- The master side keeps `m_axis_tvalid`, `m_axis_tdata` and `m_axis_tlast` until
    `m_axis_tready`. -/
def MasterHolds (cfgData : BitVec P.cntrWidth) (is : List (In P)) : Prop :=
  ∀ past i j, past ++ [i] ++ [j] <+: is →
    intTvalidWire ((axisPacketizer cfgData).run past) i = true → i.mAxisTready = false →
    intTvalidWire ((axisPacketizer cfgData).run (past ++ [i])) j = true ∧
    mAxisTdata j = mAxisTdata i ∧
    mAxisTlast cfgData ((axisPacketizer cfgData).run (past ++ [i])) =
      mAxisTlast cfgData ((axisPacketizer cfgData).run past)

/-- The packets of a run and its handshakes are in order. -/
structure Framing (cfgData : BitVec P.cntrWidth) (is : List (In P)) : Prop where
  /-- the two sides transfer in the same cycles, the same data -/
  transparent : EachCycle (fun past i =>
    let r := (axisPacketizer cfgData).run past
    (slaveTransfer r i = true ↔ transfer r i = true) ∧ mAxisTdata i = i.sAxisTdata) is
  /-- the words that end a packet are the ones marked -/
  tlast : ∀ k w, (words cfgData is)[k]? = some w →
    (w.2 = true ↔ P.variant.endsPacket cfgData.toNat (k + 1))
  /-- the marked word of a STOP run is its last -/
  final : P.variant = .STOP → EachCycle (fun past i =>
    transfer ((axisPacketizer cfgData).run past) i = true →
    ∀ w ∈ words cfgData past, w.2 = false) is
  bounded : 2 ≤ cfgData.toNat →
    EachPoint (fun past => ((axisPacketizer cfgData).run past).intCntrReg.toNat ≤
      cfgData.toNat - 1) is
  stable : UpstreamHolds cfgData is → MasterHolds cfgData is

/-- A word that waits for `m_axis_tready` leaves both registers as they are. -/
theorem masterHolds (cfgData : BitVec P.cntrWidth) {is : List (In P)}
    (hup : UpstreamHolds cfgData is) : MasterHolds cfgData is := by
  intro past i j hpre hvalid hready
  -- no transfer, so neither register moves, and the upstream master holds its word
  have hno : transfer ((axisPacketizer cfgData).run past) i = false := by
    rw [transfer, hready, Bool.false_and]
  rw [intTvalidWire, Bool.and_eq_true] at hvalid
  have hwait : sAxisTready ((axisPacketizer cfgData).run past) i = false := by
    rw [sAxisTready, hready, Bool.and_false]
  obtain ⟨hjvalid, hjdata⟩ := hup past i j hpre hvalid.2 hwait
  have hen : ((axisPacketizer cfgData).run (past ++ [i])).intEnblReg = true := by
    rw [Machine.run_snoc]
    show (next cfgData _ i).intEnblReg = true
    rw [next_intEnblReg, hno, hvalid.1]
    rfl
  have hcntr : ((axisPacketizer cfgData).run (past ++ [i])).intCntrReg =
      ((axisPacketizer cfgData).run past).intCntrReg := by
    rw [Machine.run_snoc]
    show (next cfgData _ i).intCntrReg = _
    rw [next_intCntrReg, hno]
    rfl
  refine ⟨?_, hjdata, ?_⟩
  · rw [intTvalidWire, hen, hjvalid]
    rfl
  · rw [mAxisTlast, mAxisTlast, intTlastWire, intTlastWire, intCompWire, intCompWire, hen, hcntr,
      hvalid.1]

/-- A transferred word is marked exactly when it ends a packet. -/
theorem mAxisTlast_iff {cfgData : BitVec P.cntrWidth} (hN : 2 ≤ cfgData.toNat)
    {past : List (In P)} {i : In P}
    (ht : transfer ((axisPacketizer cfgData).run past) i = true) :
    mAxisTlast cfgData ((axisPacketizer cfgData).run past) = true ↔
      P.variant.endsPacket cfgData.toNat ((words cfgData past).length + 1) := by
  have h := steady_run hN past
  have hopen := ((h.transfer_iff i).mp ht).2
  rw [transfer_iff] at ht
  rw [mAxisTlast, intTlastWire, ht.2.1, Bool.true_and, Bool.not_eq_true', h.intCompWire_eq hN,
    decide_eq_false_iff_not, Variant.counter_succ_lt_iff _ hN hopen, not_not]

/-- The words marked as last are those that end a packet, and no others. -/
theorem tlast_run {cfgData : BitVec P.cntrWidth} (hN : 2 ≤ cfgData.toNat) (is : List (In P)) :
    ∀ k w, (words cfgData is)[k]? = some w →
      (w.2 = true ↔ P.variant.endsPacket cfgData.toNat (k + 1)) := by
  induction is using List.reverseRecOn with
  | nil =>
    intro k w hw
    exact absurd hw (by simp [words])
  | append_singleton is i ih =>
    rw [words_snoc]
    split
    · next ht => exact forall_getElem?_snoc ih _ (mAxisTlast_iff hN ht)
    · simpa using ih

/-- No word in front of a STOP transfer is marked. -/
theorem unmarked_of_transfer {cfgData : BitVec P.cntrWidth} (hN : 2 ≤ cfgData.toNat)
    (hv : P.variant = .STOP) {past : List (In P)} {i : In P}
    (ht : transfer ((axisPacketizer cfgData).run past) i = true) :
    ∀ w ∈ words cfgData past, w.2 = false := by
  intro w hw
  obtain ⟨k, hk⟩ := List.mem_iff_getElem?.mp hw
  have hopen := (((steady_run hN past).transfer_iff i).mp ht).2 hv
  have hlt := (List.getElem?_eq_some_iff.mp hk).1
  rw [← Bool.not_eq_true, tlast_run hN past k w hk, hv]
  show ¬ k + 1 = cfgData.toNat
  omega

/-- The counter never goes past the last word of its packet. -/
theorem Variant.counter_le (v : Variant) {N : Nat} (hN : 2 ≤ N) (t : Nat) :
    v.counter N t ≤ N - 1 := by
  cases v with
  | CONT =>
    show t % N ≤ N - 1
    have := Nat.mod_lt t (show 0 < N by omega)
    omega
  | STOP => exact Nat.min_le_right t (N - 1)

/-- **Framing.** Over every run of a packetizer set to one or more words, the two sides
    transfer together, the words marked are those that end a packet, a STOP run ends with
    its marked word, the counter stays below `cfg_data`, and a held upstream is passed on
    as a held master side. -/
theorem framing (cfgData : BitVec P.cntrWidth) (hN : 1 ≤ cfgData.toNat) (is : List (In P)) :
    Framing cfgData is where
  transparent := by
    intro past i _
    show (slaveTransfer _ i = true ↔ transfer _ i = true) ∧ _
    rw [slaveTransfer_eq]
    exact ⟨Iff.rfl, rfl⟩
  tlast := by
    rcases Nat.eq_or_lt_of_le hN with hone | htwo
    · rw [one_words hone.symm]
      intro k w hw
      exact absurd hw (by simp)
    · exact tlast_run htwo is
  final := by
    intro hv past i _ ht
    rcases Nat.eq_or_lt_of_le hN with hone | htwo
    · rw [one_words hone.symm]
      simp
    · exact unmarked_of_transfer htwo hv ht
  bounded := by
    intro htwo past _
    show ((axisPacketizer cfgData).run past).intCntrReg.toNat ≤ cfgData.toNat - 1
    rw [(steady_run htwo past).counter]
    exact P.variant.counter_le htwo _
  stable := masterHolds cfgData

/-- A STOP run of two words to a packet, with a word waiting for `m_axis_tready`. -/
theorem framing_two : Framing (P := {}) 2 [offerOne, offerOne, { sAxisTvalid := true }, offerOne] :=
  framing 2 (by decide) _

end ZynqLinux.Axi4.Packetizer
