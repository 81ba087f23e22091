import Mathlib.Tactic.Common
import ZynqLinux.Axi4.Address
import ZynqLinux.Lib.Fifo
import ZynqLinux.Lib.History

namespace ZynqLinux.Axi4.RamReader

open ZynqLinux.Lib

/-!
# `axis_ram_reader` — the model

The IP turns memory into a stream: it asks for bursts of 16 words on the AXI read address
channel, puts the words of the read data channel into a FIFO36E1 and shows them on M_AXIS.

* `next` is the combinational block of the source, over the registers (`Regs`) and the
  wires of the cycle (`CoreIn`); `core` clocks it with the almost-full flag as a free input;
* `axisRamReader` is the whole IP, `core` joined to the queue that stands for FIFO36E1
  (512 words, first word fall through, `ALMOST_FULL_OFFSET = 13'h1f1`);
* `after_regs` connects the two.
-/

/-- The module parameters; the R data bus fits the 72-bit FIFO port. -/
structure Params where
  addrWidth : Nat := 20
  axiAddrWidth : Nat := 32
  axiDataWidth : Nat := 64
  axisTdataWidth : Nat := 64
  axiDataWidth_le : axiDataWidth ≤ 72 := by first | exact dataWidth_le_fifoPort | decide

/-- `localparam integer ADDR_SIZE`: log2 of the bytes of a data word. -/
def Params.addrSize (P : Params) : Nat := clogb2 (P.axiDataWidth / 8 - 1)

variable {P : Params}

/-! ### The registers and the next-state logic -/

/-- The registers of the `always @(posedge aclk)` block. -/
structure Regs (P : Params) where
  intArvalidReg : Bool
  intRreadyReg : Bool
  intAddrReg : BitVec P.addrWidth

/-- The wires of a cycle: the FIFO's ALMOSTFULL (`int_full_wire` in the source) and the
    inputs from the read slave.  The next-state logic does not look at `rvalid`. -/
structure CoreIn where
  intFullWire : Bool
  mAxiArready : Bool
  mAxiRvalid : Bool
  mAxiRlast : Bool

/-- The `always @*` block: three `if`s over the defaults, the later ones winning. -/
def next (r : Regs P) (i : CoreIn) : Regs P :=
  let n := r
  let n := if !i.intFullWire && !r.intArvalidReg && !r.intRreadyReg then
    { n with intArvalidReg := true, intRreadyReg := true } else n
  let n := if i.mAxiArready && r.intArvalidReg then { n with intArvalidReg := false } else n
  -- the end of a burst is seen without a look at `m_axi_rvalid`
  if r.intRreadyReg && i.mAxiRlast then
    let n := { n with intAddrReg := r.intAddrReg + 16 }
    if i.intFullWire then { n with intRreadyReg := false } else { n with intArvalidReg := true }
  else n

/-- What the reset branch loads. -/
def resetRegs : Regs P := ⟨false, false, 0⟩

/-- The registers and their logic, for any pattern of the almost-full flag. -/
def core (P : Params) : Machine (Regs P) CoreIn := ⟨resetRegs, next⟩

/-- `assign m_axi_araddr = cfg_data + {int_addr_reg, {(ADDR_SIZE){1'b0}}}`. -/
def mAxiAraddr (cfgData : BitVec P.axiAddrWidth) (r : Regs P) : BitVec P.axiAddrWidth :=
  wordAddress P.addrSize cfgData r.intAddrReg

/-- A handshake of the read address channel. -/
def arHandshake (r : Regs P) (i : CoreIn) : Bool := r.intArvalidReg && i.mAxiArready

/-- A handshake of the read data channel: a beat. -/
def rHandshake (r : Regs P) (i : CoreIn) : Bool := r.intRreadyReg && i.mAxiRvalid

/-- The condition on which the source ends a burst; it does not ask for `rvalid`. -/
def endSeen (r : Regs P) (i : CoreIn) : Bool := r.intRreadyReg && i.mAxiRlast

/-! ### What one clock edge does -/

/-- The address register moves on by 16 words at what the IP takes for the end of a burst,
    with data or without. -/
theorem next_intAddrReg (r : Regs P) (i : CoreIn) :
    (next r i).intAddrReg = if endSeen r i then r.intAddrReg + 16 else r.intAddrReg := by
  obtain ⟨arvalid, rready, addr⟩ := r
  obtain ⟨full, arready, rvalid, rlast⟩ := i
  cases full <;> cases arready <;> cases rlast <;> cases arvalid <;> cases rready <;> rfl

/-- **What one clock edge can do to the two handshake registers**: ask for the next burst,
    stop at the end of a burst, start from idle, or wait. -/
theorem next_cases (r : Regs P) (i : CoreIn) :
    (endSeen r i = true ∧ i.intFullWire = false ∧
      (next r i).intArvalidReg = true ∧ (next r i).intRreadyReg = true) ∨
    (endSeen r i = true ∧ i.intFullWire = true ∧
      (next r i).intArvalidReg = (r.intArvalidReg && !i.mAxiArready) ∧
      (next r i).intRreadyReg = false) ∨
    (r.intArvalidReg = false ∧ r.intRreadyReg = false ∧ i.intFullWire = false ∧
      (next r i).intArvalidReg = true ∧ (next r i).intRreadyReg = true) ∨
    (endSeen r i = false ∧ (next r i).intArvalidReg = (r.intArvalidReg && !i.mAxiArready) ∧
      (next r i).intRreadyReg = r.intRreadyReg) := by
  obtain ⟨arvalid, rready, addr⟩ := r
  obtain ⟨full, arready, rvalid, rlast⟩ := i
  cases full <;> cases arready <;> cases rlast <;> cases arvalid <;> cases rready <;>
    simp [next, endSeen]

/-! ### The IP: `core` joined to the FIFO -/

/-- The state of the IP: its registers and the words in FIFO36E1. -/
structure State (P : Params) where
  regs : Regs P
  fifo : Fifo (BitVec 72) 512

/-- The inputs of one cycle out of reset. -/
structure In (P : Params) where
  mAxiArready : Bool
  mAxiRdata : BitVec P.axiDataWidth
  mAxiRlast : Bool
  mAxiRvalid : Bool
  mAxisTready : Bool

/-- What the next-state logic samples: ALMOSTFULL compares with `13'h1f1`. -/
def coreIn (s : State P) (i : In P) : CoreIn :=
  ⟨s.fifo.almostFull 0x1f1, i.mAxiArready, i.mAxiRvalid, i.mAxiRlast⟩

/-- The FIFO write enable, which is the R handshake. -/
def wren (s : State P) (i : In P) : Bool := s.regs.intRreadyReg && i.mAxiRvalid

/-- `assign int_rden_wire = m_axis_tready & ~int_empty_wire`. -/
def intRdenWire (s : State P) (i : In P) : Bool := i.mAxisTready && !s.fifo.empty

/-- One clock edge of the IP. -/
def step (s : State P) (i : In P) : State P where
  regs := next s.regs (coreIn s i)
  fifo := s.fifo.clock (wren s i) (i.mAxiRdata.setWidth 72) (intRdenWire s i)

/-- The IP, from reset. -/
def axisRamReader (P : Params) : Machine (State P) (In P) := ⟨⟨resetRegs, Fifo.nil⟩, step⟩

/-- The state of the IP after the cycles `is`. -/
def after (is : List (In P)) : State P := (axisRamReader P).run is

theorem after_snoc (is : List (In P)) (i : In P) : after (is ++ [i]) = step (after is) i :=
  Machine.run_snoc _ is i

/-- `assign m_axis_tvalid = int_rden_wire`. -/
def mAxisTvalid (s : State P) (i : In P) : Bool := intRdenWire s i

/-- `assign m_axis_tdata = int_rdata_wire[AXI_DATA_WIDTH-1:0]`; undefined (`none`) while the
    FIFO has no word to show. -/
def mAxisTdata (s : State P) : Option (BitVec P.axisTdataWidth) :=
  s.fifo.dout.map fun w => (w.setWidth P.axiDataWidth).setWidth P.axisTdataWidth

/-- The wires the registers see along a run of the IP. -/
def coreHistory (is : List (In P)) : List CoreIn :=
  log (fun past i => [coreIn (after past) i]) is

/-- The registers of the IP run as `core` under the flag the FIFO shows. -/
theorem after_regs (is : List (In P)) : (after is).regs = (core P).run (coreHistory is) :=
  Machine.run_part (M := axisRamReader P) (N := core P) (f := State.regs) (g := coreIn) rfl
    (fun _ _ => rfl) is

end ZynqLinux.Axi4.RamReader
