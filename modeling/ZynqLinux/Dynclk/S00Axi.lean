import Mathlib.Tactic.Common
import ZynqLinux.Lib.Mailbox
import ZynqLinux.Lib.StrobedMemory

namespace ZynqLinux.Dynclk.S00Axi

open ZynqLinux.Lib

/-!
# `axi_dynclk_S00_AXI.vhd`

The eight registers of the clock generator behind an AXI4-Lite slave.  Register 1 is the
status of the generator and cannot be written.

The slave latches an address in the cycle in which both write channels are valid and is
ready for both in the next one, so a write goes to the latched address: `slvReg_eq_memory`
says that for a master that holds its address this is the address of the handshake.  A
response register that is full drops what comes next.  `refinesRegisterFile` puts the two
together: the registers are a memory, and the responses complete unless one is dropped.
-/

/-! ### One cycle -/

/-- The inputs of one cycle out of reset. -/
structure In where
  awaddr : BitVec 5 := 0
  awvalid : Bool := false
  wdata : BitVec 32 := 0
  wstrb : BitVec (32 / 8) := 0
  wvalid : Bool := false
  bready : Bool := false
  araddr : BitVec 5 := 0
  arvalid : Bool := false
  rready : Bool := false
  statReg : BitVec 32 := 0

/-- The registers of the slave.  Word 1 of `slvReg` is not one of them: `slv_reg1` is a wire
    from `STAT_REG`. -/
structure State where
  axiAwaddr : BitVec 5
  axiAwready : Bool
  axiWready : Bool
  axiBvalid : Bool
  axiAraddr : BitVec 5
  axiArready : Bool
  axiRvalid : Bool
  axiRdata : BitVec 32
  slvReg : Memory 8 32

/-- `loc_addr`, the bits `ADDR_LSB + OPT_MEM_ADDR_BITS downto ADDR_LSB`. -/
def locAddr (addr : BitVec 5) : Nat := (addr.extractLsb' 2 3).toNat

/-- The address field of three bits selects one of the eight registers. -/
theorem locAddr_lt (addr : BitVec 5) : locAddr addr < 8 := (addr.extractLsb' 2 3).isLt

/-- `slv_reg_wren`. -/
def slvRegWren (s : State) (i : In) : Bool :=
  s.axiWready && i.wvalid && s.axiAwready && i.awvalid

/-- The registers after a write; there is no case for register 1. -/
def regWrite (mem : Memory 8 32) (loc : Nat) (data : BitVec 32) (strb : BitVec (32 / 8)) :
    Memory 8 32 :=
  if loc = 1 then mem else mem.write loc data strb

/-- What a register reads as. -/
def regRead (mem : Memory 8 32) (statReg : BitVec 32) (addr : BitVec 5) : BitVec 32 :=
  if locAddr addr = 1 then statReg else mem ⟨locAddr addr, locAddr_lt addr⟩

/-- `slv_reg_rden`. -/
def slvRegRden (s : State) (i : In) : Bool := s.axiArready && i.arvalid && !s.axiRvalid

/-- One clock edge with `S_AXI_ARESETN` high. -/
def step (s : State) (i : In) : State where
  axiAwready := !s.axiAwready && i.awvalid && i.wvalid
  axiAwaddr := if !s.axiAwready && i.awvalid && i.wvalid then i.awaddr else s.axiAwaddr
  axiWready := !s.axiWready && i.wvalid && i.awvalid
  slvReg :=
    if slvRegWren s i then regWrite s.slvReg (locAddr s.axiAwaddr) i.wdata i.wstrb else s.slvReg
  axiBvalid :=
    if s.axiAwready && i.awvalid && s.axiWready && i.wvalid && !s.axiBvalid then true
    else if i.bready && s.axiBvalid then false
    else s.axiBvalid
  axiArready := !s.axiArready && i.arvalid
  axiAraddr := if !s.axiArready && i.arvalid then i.araddr else s.axiAraddr
  axiRvalid :=
    if s.axiArready && i.arvalid && !s.axiRvalid then true
    else if s.axiRvalid && i.rready then false
    else s.axiRvalid
  axiRdata := if slvRegRden s i then regRead s.slvReg i.statReg s.axiAraddr else s.axiRdata

/-- What the reset branches load. -/
def resetState : State := ⟨0, false, false, false, BitVec.allOnes 5, false, false, 0, Memory.zero⟩

/-- The slave, from reset. -/
def s00Axi : Machine State In := ⟨resetState, step⟩

/-! ### The write channels -/

/-- Both write channels are always ready together. -/
theorem wready_eq_awready (is : List In) : (s00Axi.run is).axiWready = (s00Axi.run is).axiAwready := by
  refine Machine.run_of_step (M := s00Axi) (I := fun s => s.axiWready = s.axiAwready) rfl ?_ is
  intro s i h
  show (!s.axiWready && i.wvalid && i.awvalid) = (!s.axiAwready && i.awvalid && i.wvalid)
  rw [h, Bool.and_assoc, Bool.and_assoc, Bool.and_comm i.wvalid]

/-- A handshake of both write channels. -/
def writeHandshake (s : State) (i : In) : Bool := s.axiAwready && i.awvalid && i.wvalid

/-- The write enable of the source, which looks at both channels, is high in exactly the
    cycles of a write handshake. -/
theorem slvRegWren_run (is : List In) (i : In) :
    slvRegWren (s00Axi.run is) i = writeHandshake (s00Axi.run is) i := by
  rw [slvRegWren, writeHandshake, wready_eq_awready]
  cases (s00Axi.run is).axiAwready <;> cases i.wvalid <;> cases i.awvalid <;> rfl

/-- A master that offers an address again, unchanged, until it is accepted. -/
def HoldsAddress (is : List In) : Prop :=
  EachCycle (fun past i => ∀ p ∈ past.getLast?,
    (p.awvalid = true → (s00Axi.run past.dropLast).axiAwready = false → i.awaddr = p.awaddr) ∧
    (p.arvalid = true → (s00Axi.run past.dropLast).axiArready = false → i.araddr = p.araddr)) is

/-- The latched address is the one on the bus whenever the slave is ready for it. -/
theorem latched_of_ready {past : List In} {i : In} (h : HoldsAddress (past ++ [i])) :
    ((s00Axi.run past).axiAwready = true → (s00Axi.run past).axiAwaddr = i.awaddr) ∧
      ((s00Axi.run past).axiArready = true → (s00Axi.run past).axiAraddr = i.araddr) := by
  rw [HoldsAddress, eachCycle_snoc] at h
  cases past using List.reverseRecOn with
  | nil => exact ⟨fun h => absurd h (by decide), fun h => absurd h (by decide)⟩
  | append_singleton past p =>
    have hhold := h.2 p (by simp)
    rw [List.dropLast_concat] at hhold
    rw [Machine.run_snoc]
    constructor
    · intro hready
      -- the slave is ready after a cycle in which it latched
      have hlatch : (!(s00Axi.run past).axiAwready && p.awvalid && p.wvalid) = true := hready
      change (if _ then p.awaddr else _) = i.awaddr
      rw [if_pos hlatch]
      simp only [Bool.and_eq_true, Bool.not_eq_true'] at hlatch
      exact (hhold.1 hlatch.1.2 hlatch.1.1).symm
    · intro hready
      have hlatch : (!(s00Axi.run past).axiArready && p.arvalid) = true := hready
      change (if _ then p.araddr else _) = i.araddr
      rw [if_pos hlatch]
      simp only [Bool.and_eq_true, Bool.not_eq_true'] at hlatch
      exact (hhold.2 hlatch.2 hlatch.1).symm

/-! ### The register file -/

/-- The registers that the accepted writes make, each at the address on the bus. -/
def memory (is : List In) : Memory 8 32 :=
  (log (fun past i => if writeHandshake (s00Axi.run past) i then [i] else []) is).foldl
    (fun mem i => regWrite mem (locAddr i.awaddr) i.wdata i.wstrb) Memory.zero

/-- A cycle with a write handshake makes that write, and any other cycle leaves the memory. -/
theorem memory_snoc (is : List In) (i : In) :
    memory (is ++ [i])
      = if writeHandshake (s00Axi.run is) i then
          regWrite (memory is) (locAddr i.awaddr) i.wdata i.wstrb
        else memory is := by
  rw [memory, log_snoc, List.foldl_append, ← memory]
  split <;> rfl

/-- For a master that holds its address, the registers are what the writes make of them, at
    the addresses of the handshakes. -/
theorem slvReg_eq_memory {is : List In} (h : HoldsAddress is) :
    (s00Axi.run is).slvReg = memory is := by
  induction is using List.reverseRecOn with
  | nil => rfl
  | append_singleton is i ih =>
    have hlatched := latched_of_ready h
    rw [HoldsAddress, eachCycle_snoc, ← HoldsAddress] at h
    rw [memory_snoc, ← ih h.1, Machine.run_snoc]
    change (if slvRegWren (s00Axi.run is) i then _ else _) = _
    rw [slvRegWren_run]
    split
    · next hwrite =>
      simp only [writeHandshake, Bool.and_eq_true] at hwrite
      -- the latched address is the one the master holds
      rw [hlatched.1 hwrite.1.1]
    · rfl

/-! ### The responses -/

/-- The response that waits on B. -/
def bSlot (s : State) : Option Unit := if s.axiBvalid then some () else none

/-- A write handshake asks for a response. -/
def bPut (s : State) (i : In) : Option Unit :=
  if s.axiAwready && i.awvalid && s.axiWready && i.wvalid then some () else none

/-- The response on B over one clock edge: an empty channel takes the next response, a full
    one keeps its own until it is taken. -/
theorem bSlot_step (s : State) (i : In) :
    bSlot (step s i) = (bSlot s).elim (bPut s i) fun x => if i.bready then none else some x := by
  unfold bSlot bPut step
  dsimp only
  cases (s.axiAwready && i.awvalid && s.axiWready && i.wvalid) <;> cases s.axiBvalid <;>
    cases i.bready <;> rfl

/-- The data word that waits on R. -/
def rSlot (s : State) : Option (BitVec 32) := if s.axiRvalid then some s.axiRdata else none

/-- A read handshake asks for the register at the latched address. -/
def rPut (s : State) (i : In) : Option (BitVec 32) :=
  if s.axiArready && i.arvalid then some (regRead s.slvReg i.statReg s.axiAraddr) else none

/-- So it is with the data word on R. -/
theorem rSlot_step (s : State) (i : In) :
    rSlot (step s i) = (rSlot s).elim (rPut s i) fun x => if i.rready then none else some x := by
  unfold rSlot rPut step slvRegRden
  dsimp only
  cases (s.axiArready && i.arvalid) <;> cases s.axiRvalid <;> cases i.rready <;> rfl

/-- The write response channel. -/
def bChannel : Mailbox State In Unit :=
  ⟨s00Axi, bSlot, bPut, fun _ i => i.bready, rfl, bSlot_step⟩

/-- The read data channel. -/
def rChannel : Mailbox State In (BitVec 32) :=
  ⟨s00Axi, rSlot, rPut, fun _ i => i.rready, rfl, rSlot_step⟩

/-- The registers at the addresses of the accepted reads, each as it is in the cycle of the
    handshake. -/
def memoryReads (is : List In) : List (BitVec 32) :=
  log (fun past i =>
    if (s00Axi.run past).axiArready && i.arvalid then [regRead (memory past) i.statReg i.araddr]
    else []) is

/-- The data words asked for are the registers at the addresses of the read handshakes. -/
theorem posted_eq_memoryReads {is : List In} (h : HoldsAddress is) :
    rChannel.posted is = memoryReads is := by
  induction is using List.reverseRecOn with
  | nil => rfl
  | append_singleton is i ih =>
    have hlatched := latched_of_ready h
    rw [HoldsAddress, eachCycle_snoc, ← HoldsAddress] at h
    rw [Mailbox.posted, memoryReads, log_snoc, log_snoc, ← Mailbox.posted, ← memoryReads, ih h.1]
    congr 1
    change (rPut (s00Axi.run is) i).toList = _
    rw [rPut]
    split
    · -- the address is latched in the cycle before, and still the one on the bus
      next hread =>
      rw [Bool.and_eq_true] at hread
      rw [hlatched.2 hread.1, slvReg_eq_memory h.1]
      rfl
    · rfl

/-- **The registers, over every run.** For a master that holds its addresses, the registers
    are what the accepted writes make of them.  Every write gets its one response if and only
    if no write is accepted while a response waits, and the data words on R are the registers
    at the accepted read addresses, in order, if and only if no address is accepted while a
    data word waits. -/
theorem refinesRegisterFile (is : List In) (h : HoldsAddress is) :
    EachPoint (fun past => (s00Axi.run past).slvReg = memory past) is ∧
    (EachPoint bChannel.Accounted is ↔ EachCycle bChannel.NoOverrun is) ∧
    (EachPoint (fun past => rChannel.delivered past ++ (rSlot (s00Axi.run past)).toList
        = memoryReads past) is ↔ EachCycle rChannel.NoOverrun is) := by
  have hpre : ∀ past, past <+: is → HoldsAddress past :=
    fun past hp p i hpi => h p i (hpi.trans hp)
  refine ⟨fun past hp => slvReg_eq_memory (hpre past hp), bChannel.delivered_iff is, ?_⟩
  rw [← rChannel.delivered_iff]
  -- with held addresses the responses of the slave are the reads of the memory
  have hpoint : ∀ past, past <+: is →
      (rChannel.Accounted past ↔ rChannel.delivered past
        ++ (rSlot (s00Axi.run past)).toList = memoryReads past) := by
    intro past hp
    rw [Mailbox.Accounted, posted_eq_memoryReads (hpre past hp)]
    rfl
  exact ⟨fun hall past hp => (hpoint past hp).mpr (hall past hp),
    fun hall past hp => (hpoint past hp).mp (hall past hp)⟩

/-- A write of 1 to the control register, and a read of it. -/
def writeThenRead : List In :=
  [{ awvalid := true, wvalid := true, wdata := 1, wstrb := 15 },
   { awvalid := true, wvalid := true, wdata := 1, wstrb := 15 },
   { bready := true, arvalid := true }, { arvalid := true }, { rready := true }]

/-- The write and the read each get their one response, and the read gives what was written. -/
theorem refinesRegisterFile_writeThenRead :
    memory writeThenRead 0 = 1 ∧ EachPoint bChannel.Accounted writeThenRead ∧
      rChannel.delivered writeThenRead = memoryReads writeThenRead := by
  have h := refinesRegisterFile writeThenRead (by unfold HoldsAddress; decide +kernel)
  have hreads := (h.2.2.mpr (by decide +kernel)).last
  have hslot : rSlot (s00Axi.run writeThenRead) = none := by decide +kernel
  rw [hslot, Option.toList_none, List.append_nil] at hreads
  exact ⟨by decide +kernel, h.2.1.mpr (by decide +kernel), hreads⟩

end ZynqLinux.Dynclk.S00Axi
