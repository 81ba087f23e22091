import Mathlib.Tactic.Common
import ZynqLinux.Axi4.Address
import ZynqLinux.Lib.Fifo
import ZynqLinux.Lib.History

namespace ZynqLinux.Axi4.RamWriter

open ZynqLinux.Lib

/-!
# `axis_ram_writer` — the model

The IP moves a stream into memory: words accepted on S_AXIS go through a FIFO36E1 and
leave on the AXI write data channel in bursts of 16 beats, each announced on the write
address channel.

* `next` is the combinational block of the source, over the registers (`Regs`) and the
  wires it samples (`CoreIn`); `core` clocks it with the almost-empty flag as a free input;
* `axisRamWriter` is the whole IP, `core` joined to the queue that stands for FIFO36E1
  (512 words, first word fall through, `ALMOST_EMPTY_OFFSET = 13'hf`);
* `after_regs` connects the two: the registers of the IP run as `core` does under the flag
  the queue shows.
-/

theorem four_le_default_addrWidth : 4 ≤ 20 := by decide

/-- The module parameters, with what the source needs to elaborate: `int_addr_reg[3:0]`
    exists, and both data buses fit the 72-bit FIFO port. -/
structure Params where
  addrWidth : Nat := 20
  axiAddrWidth : Nat := 32
  axiDataWidth : Nat := 64
  axisTdataWidth : Nat := 64
  four_le_addrWidth : 4 ≤ addrWidth := by first | exact four_le_default_addrWidth | decide
  axiDataWidth_le : axiDataWidth ≤ 72 := by first | exact dataWidth_le_fifoPort | decide
  axisTdataWidth_le : axisTdataWidth ≤ 72 := by first | exact dataWidth_le_fifoPort | decide

/-- `localparam integer ADDR_SIZE`: log2 of the bytes of a data word. -/
def Params.addrSize (P : Params) : Nat := clogb2 (P.axiDataWidth / 8 - 1)

variable {P : Params}

/-! ### The registers and the next-state logic -/

/-- The registers of the `always @(posedge aclk)` block. -/
structure Regs (P : Params) where
  intAwvalidReg : Bool
  intWvalidReg : Bool
  intAddrReg : BitVec P.addrWidth

/-- The wires the next-state logic samples besides the registers: the FIFO's ALMOSTEMPTY
    (`int_empty_wire` in the source) and the two ready inputs. -/
structure CoreIn where
  intEmptyWire : Bool
  mAxiAwready : Bool
  mAxiWready : Bool

/-- `assign int_wlast_wire = &int_addr_reg[3:0]`. -/
def intWlastWire (r : Regs P) : Bool := r.intAddrReg.extractLsb' 0 4 == BitVec.allOnes 4

/-- `assign int_rden_wire = m_axi_wready & int_wvalid_reg`: a beat of the W channel. -/
def intRdenWire (r : Regs P) (i : CoreIn) : Bool := i.mAxiWready && r.intWvalidReg

/-- The `always @*` block: four `if`s over the defaults, the later ones winning. -/
def next (r : Regs P) (i : CoreIn) : Regs P :=
  let n := r
  let n := if !i.intEmptyWire && !r.intAwvalidReg && !r.intWvalidReg then
    { n with intAwvalidReg := true, intWvalidReg := true } else n
  -- tests read the registers, and of two assignments the later one wins
  let n := if i.mAxiAwready && r.intAwvalidReg then { n with intAwvalidReg := false } else n
  let n := if intRdenWire r i then { n with intAddrReg := r.intAddrReg + 1 } else n
  -- unlike the increment this branch is not gated by `int_wvalid_reg`
  if i.mAxiWready && intWlastWire r then
    if i.intEmptyWire then { n with intWvalidReg := false } else { n with intAwvalidReg := true }
  else n

/-- What the reset branch loads. -/
def resetRegs : Regs P := ⟨false, false, 0⟩

/-- The registers and their logic, for any pattern of the almost-empty flag. -/
def core (P : Params) : Machine (Regs P) CoreIn := ⟨resetRegs, next⟩

/-- `assign m_axi_awaddr = cfg_data + {int_addr_reg, {(ADDR_SIZE){1'b0}}}`. -/
def mAxiAwaddr (cfgData : BitVec P.axiAddrWidth) (r : Regs P) : BitVec P.axiAddrWidth :=
  wordAddress P.addrSize cfgData r.intAddrReg

/-- A handshake of the write address channel. -/
def awHandshake (r : Regs P) (i : CoreIn) : Bool := r.intAwvalidReg && i.mAxiAwready

/-- The beat handshake that ends a burst: W handshake with `m_axi_wlast`. -/
def lastBeat (r : Regs P) (i : CoreIn) : Bool := intRdenWire r i && intWlastWire r

/-! ### The position inside a burst -/

/-- The number of beats of the current burst already taken. -/
def beat (r : Regs P) : Nat := r.intAddrReg.toNat % 16

theorem beat_lt (r : Regs P) : beat r < 16 := Nat.mod_lt _ (by decide)

/-- The address register holds a whole number of bursts, so its wrap is one between two
    bursts. -/
theorem sixteen_dvd (P : Params) : 16 ∣ 2 ^ P.addrWidth :=
  Nat.pow_dvd_pow 2 P.four_le_addrWidth

/-- One is one in the address register, which has at least four bits. -/
theorem toNat_one (P : Params) : (1 : BitVec P.addrWidth).toNat = 1 := by
  have h16 := Nat.le_of_dvd (Nat.two_pow_pos _) (sixteen_dvd P)
  have hlt : 1 < 2 ^ P.addrWidth := by omega
  rw [BitVec.ofNat_eq_ofNat, BitVec.toNat_ofNat]
  exact Nat.mod_eq_of_lt hlt

/-- Incrementing the address register moves one beat on, around the burst. -/
theorem succ_mod_sixteen (a : BitVec P.addrWidth) :
    (a + 1).toNat % 16 = (a.toNat % 16 + 1) % 16 := by
  rw [BitVec.toNat_add, Nat.mod_mod_of_dvd _ (sixteen_dvd P), toNat_one]
  omega

/-- `int_wlast_wire` is high exactly on the 16th beat, where the low four bits of the address
    register are all ones. -/
theorem intWlastWire_iff (r : Regs P) : intWlastWire r = true ↔ beat r = 15 := by
  rw [intWlastWire, beq_iff_eq, ← BitVec.toNat_inj, BitVec.extractLsb'_toNat]
  simp [beat]

/-- A last beat is taken inside a burst, in its 16th position. -/
theorem of_lastBeat {r : Regs P} {i : CoreIn} (h : lastBeat r i = true) :
    intRdenWire r i = true ∧ r.intWvalidReg = true ∧ beat r = 15 := by
  rw [lastBeat, Bool.and_eq_true, intWlastWire_iff] at h
  have hv := h.1
  rw [intRdenWire, Bool.and_eq_true] at hv
  exact ⟨h.1, hv.2, h.2⟩

/-! ### What one clock edge does, register by register -/

/-- The address register counts the beats that are taken on W, whatever the address channel
    does. -/
theorem next_intAddrReg (r : Regs P) (i : CoreIn) :
    (next r i).intAddrReg = if intRdenWire r i then r.intAddrReg + 1 else r.intAddrReg := by
  simp only [next]
  split_ifs <;> rfl

/-- A burst is offered on W from its start to its last beat, and goes on from there if the
    FIFO has words for another one. -/
theorem next_intWvalidReg (r : Regs P) (i : CoreIn) :
    (next r i).intWvalidReg =
      if i.mAxiWready && intWlastWire r && i.intEmptyWire then false
      else r.intWvalidReg || (!i.intEmptyWire && !r.intAwvalidReg) := by
  obtain ⟨awvalid, wvalid, addr⟩ := r
  obtain ⟨empty, awready, wready⟩ := i
  simp only [next, intRdenWire]
  generalize intWlastWire _ = wlast
  cases empty <;> cases awready <;> cases wready <;> cases wlast <;> cases awvalid <;>
    cases wvalid <;> rfl

/-- An address is raised where a burst starts or is restarted, and stays until it is taken. -/
theorem next_intAwvalidReg (r : Regs P) (i : CoreIn) :
    (next r i).intAwvalidReg =
      if i.mAxiWready && intWlastWire r && !i.intEmptyWire then true
      else if r.intAwvalidReg then !i.mAxiAwready
      else !i.intEmptyWire && !r.intWvalidReg := by
  obtain ⟨awvalid, wvalid, addr⟩ := r
  obtain ⟨empty, awready, wready⟩ := i
  simp only [next, intRdenWire]
  generalize intWlastWire _ = wlast
  cases empty <;> cases awready <;> cases wready <;> cases wlast <;> cases awvalid <;>
    cases wvalid <;> rfl

/-- The position inside the burst moves with every beat and starts again behind the last one. -/
theorem next_beat (r : Regs P) (i : CoreIn) :
    beat (next r i) = if intRdenWire r i then (beat r + 1) % 16 else beat r := by
  rw [beat, next_intAddrReg]
  cases intRdenWire r i with
  | false => rfl
  | true => exact succ_mod_sixteen r.intAddrReg

/-- **What one clock edge can do to the two valid registers**, in a state that is aligned
    outside its bursts: restart a burst, end one, start one from idle, or wait. -/
theorem next_cases (r : Regs P) (i : CoreIn) (halign : r.intWvalidReg = false → beat r = 0) :
    (lastBeat r i = true ∧ i.intEmptyWire = false ∧
      (next r i).intAwvalidReg = true ∧ (next r i).intWvalidReg = true) ∨
    (lastBeat r i = true ∧ i.intEmptyWire = true ∧
      (next r i).intAwvalidReg = (r.intAwvalidReg && !i.mAxiAwready) ∧
      (next r i).intWvalidReg = false) ∨
    (lastBeat r i = false ∧ r.intAwvalidReg = false ∧ r.intWvalidReg = false ∧
      i.intEmptyWire = false ∧
      (next r i).intAwvalidReg = true ∧ (next r i).intWvalidReg = true) ∨
    (lastBeat r i = false ∧ (next r i).intAwvalidReg = (r.intAwvalidReg && !i.mAxiAwready) ∧
      (next r i).intWvalidReg = r.intWvalidReg) := by
  -- between bursts the address is aligned, so `WLAST` is low
  have hidle : r.intWvalidReg = false → intWlastWire r = false := by
    intro hw
    have hne : ¬ intWlastWire r = true := by rw [intWlastWire_iff, halign hw]; decide
    simpa using hne
  rw [next_intAwvalidReg, next_intWvalidReg, lastBeat, intRdenWire]
  cases hw : r.intWvalidReg with
  | false =>
    rw [hidle hw]
    cases r.intAwvalidReg <;> cases i.intEmptyWire <;> cases i.mAxiAwready <;> simp
  | true =>
    cases intWlastWire r <;> cases r.intAwvalidReg <;> cases i.intEmptyWire <;>
      cases i.mAxiAwready <;> cases i.mAxiWready <;> simp

/-- Outside a burst the address register stands at the start of one. -/
def Aligned (r : Regs P) : Prop := r.intWvalidReg = false → beat r = 0

/-- One clock edge keeps the registers aligned: outside a burst no beat is taken, and a burst
    ends behind its 16th. -/
theorem Aligned.next {r : Regs P} (h : Aligned r) (i : CoreIn) : Aligned (next r i) := by
  rw [Aligned, beat, next_intAddrReg, next_intWvalidReg]
  intro hw
  cases hv : r.intWvalidReg with
  | false =>
    -- no beat is taken, so the address stays
    simpa [intRdenWire, hv, beat] using h hv
  | true =>
    -- the burst can only have ended on its 16th beat
    have hend : (i.mAxiWready = true ∧ intWlastWire r = true) ∧ i.intEmptyWire = true := by
      simpa [hv] using hw
    have h15 : r.intAddrReg.toNat % 16 = 15 := (intWlastWire_iff r).mp hend.1.2
    have hrd : intRdenWire r i = true := by rw [intRdenWire, hend.1.1, hv]; rfl
    rw [if_pos hrd, succ_mod_sixteen, h15]

/-- The registers are aligned in every run, so the condition `m_axi_wready &
    int_wlast_wire`, which the source does not gate with `wvalid`, is never met outside a
    burst. -/
theorem core_aligned (is : List CoreIn) : Aligned ((core P).run is) :=
  Machine.run_of_step (fun _ => Nat.zero_mod 16) (fun _ i h => h.next i) is

/-! ### The IP: `core` joined to the FIFO -/

/-- The state of the IP: its registers and the words in FIFO36E1. -/
structure State (P : Params) where
  regs : Regs P
  fifo : Fifo (BitVec 72) 512

/-- The inputs of one cycle out of reset. -/
structure In (P : Params) where
  sAxisTvalid : Bool
  sAxisTdata : BitVec P.axisTdataWidth
  mAxiAwready : Bool
  mAxiWready : Bool

/-- `assign int_tready_wire = ~int_full_wire`, the S_AXIS ready output. -/
def intTreadyWire (s : State P) : Bool := !s.fifo.full

/-- What the next-state logic samples: ALMOSTEMPTY compares with `13'hf`. -/
def coreIn (s : State P) (i : In P) : CoreIn :=
  ⟨s.fifo.almostEmpty 0xf, i.mAxiAwready, i.mAxiWready⟩

/-- The FIFO write enable, which is the S_AXIS handshake. -/
def wren (s : State P) (i : In P) : Bool := intTreadyWire s && i.sAxisTvalid

/-- The FIFO read enable, which is the W handshake. -/
def rden (s : State P) (i : In P) : Bool := intRdenWire s.regs (coreIn s i)

/-- One clock edge of the IP. -/
def step (s : State P) (i : In P) : State P where
  regs := next s.regs (coreIn s i)
  fifo := s.fifo.clock (wren s i) (i.sAxisTdata.setWidth 72) (rden s i)

/-- The IP, from reset. -/
def axisRamWriter (P : Params) : Machine (State P) (In P) := ⟨⟨resetRegs, Fifo.nil⟩, step⟩

/-- The state of the IP after the cycles `is`. -/
def after (is : List (In P)) : State P := (axisRamWriter P).run is

theorem after_snoc (is : List (In P)) (i : In P) : after (is ++ [i]) = step (after is) i :=
  Machine.run_snoc _ is i

/-- `assign m_axi_wdata = int_wdata_wire[AXI_DATA_WIDTH-1:0]`; undefined (`none`) while the
    FIFO has no word to show. -/
def mAxiWdata (s : State P) : Option (BitVec P.axiDataWidth) :=
  s.fifo.dout.map (BitVec.setWidth P.axiDataWidth)

/-- The inputs the registers see along a run of the IP. -/
def coreHistory (is : List (In P)) : List CoreIn :=
  log (fun past i => [coreIn (after past) i]) is

/-- The registers of the IP run as `core` under the flag the FIFO shows. -/
theorem after_regs (is : List (In P)) : (after is).regs = (core P).run (coreHistory is) :=
  Machine.run_part (M := axisRamWriter P) (N := core P) (f := State.regs) (g := coreIn) rfl
    (fun _ _ => rfl) is

end ZynqLinux.Axi4.RamWriter
