import Mathlib.Tactic.Common
import ZynqLinux.Axi4.Address
import ZynqLinux.Axi4.CfgRegister
import ZynqLinux.Axi4.ReadChannel

namespace ZynqLinux.Axi4.StsRegister

open ZynqLinux.Lib

/-!
# `axi_sts_register` — the model, and the read responses of both register IPs

The read-only sibling of `axi_cfg_register`: an AXI4-Lite master reads the status bits that
come in on `sts_data`, as they are in the cycle its address is accepted.

`registerReads_iff` is the result about the read channel that the two IPs share, drawn
from `ReadPort.readResponses_iff` for each of them.
-/

/-- The module parameters. -/
structure Params where
  stsDataWidth : Nat := 1024
  axiDataWidth : Nat := 32
  axiAddrWidth : Nat := 32

/-- `localparam integer ADDR_LSB`. -/
def Params.addrLsb (P : Params) : Nat := clogb2 (P.axiDataWidth / 8 - 1)

/-- `localparam integer STS_SIZE`. -/
def Params.stsSize (P : Params) : Nat := P.stsDataWidth / P.axiDataWidth

/-- `localparam integer STS_WIDTH`. -/
def Params.stsWidth (P : Params) : Nat := if P.stsSize > 1 then clogb2 (P.stsSize - 1) else 1

variable {P : Params}

/-- The inputs of one cycle out of reset. -/
structure In (P : Params) where
  stsData : BitVec P.stsDataWidth := 0
  sAxiAraddr : BitVec P.axiAddrWidth := 0
  sAxiArvalid : Bool := false
  sAxiRready : Bool := false

/-- The index field `s_axi_araddr[ADDR_LSB+STS_WIDTH-1:ADDR_LSB]`. -/
def wordIndex (addr : BitVec P.axiAddrWidth) : Nat :=
  (addr.extractLsb' P.addrLsb P.stsWidth).toNat

/-- `int_data_mux[j]`; a read past the last word is undefined. -/
def intDataMux (i : In P) (j : Nat) : Option (BitVec P.axiDataWidth) :=
  if j < P.stsSize then some (i.stsData.extractLsb' (j * P.axiDataWidth) P.axiDataWidth)
  else none

/-- One clock edge. -/
def step (r : ReadRegs (BitVec P.axiDataWidth)) (i : In P) : ReadRegs (BitVec P.axiDataWidth) :=
  readNext r i.sAxiArvalid (intDataMux i (wordIndex i.sAxiAraddr)) i.sAxiRready

/-- The IP, from reset. -/
def axiStsRegister (P : Params) : Machine (ReadRegs (BitVec P.axiDataWidth)) (In P) :=
  ⟨⟨false, some 0⟩, step⟩

/-- The read channel of the IP. -/
def readPort (P : Params) : ReadPort (ReadRegs (BitVec P.axiDataWidth)) (In P)
    (BitVec P.axiDataWidth) where
  machine := axiStsRegister P
  regs := id
  arvalid := In.sAxiArvalid
  rready := In.sAxiRready
  selected := fun _ i => intDataMux i (wordIndex i.sAxiAraddr)
  regs_reset := rfl
  regs_step := fun _ _ => rfl

/-- **Read responses of the register IPs, exactly.** Over every run from reset, each of the
    two IPs answers every accepted address once, in order and with the word it selected,
    and holds every response until it is taken, if and only if no address is accepted
    while a response is on the bus. -/
theorem registerReads_iff (C : CfgRegister.Params) (P : Params) (is : List (CfgRegister.In C))
    (js : List (In P)) :
    ((CfgRegister.readPort C).ReadResponses is ↔
      EachCycle (fun past i => ¬ (CfgRegister.readPort C).Overlap past i) is) ∧
    ((readPort P).ReadResponses js ↔
      EachCycle (fun past i => ¬ (readPort P).Overlap past i) js) :=
  ⟨(CfgRegister.readPort C).readResponses_iff is, (readPort P).readResponses_iff js⟩

/-- Two reads in a row by a master that is ready for the responses. -/
def readTwice : List (In {}) :=
  [{ sAxiArvalid := true, sAxiRready := true }, { sAxiArvalid := true, sAxiRready := true }]

/-- The same two reads of `axi_cfg_register`. -/
def readTwiceCfg : List (CfgRegister.In {}) :=
  [{ sAxiArvalid := true, sAxiRready := true }, { sAxiArvalid := true, sAxiRready := true }]

/-- The second address is accepted in the cycle that takes the first response, and neither
    IP ever answers it. -/
theorem second_read_unanswered :
    ¬ (CfgRegister.readPort {}).ReadResponses readTwiceCfg ∧ ¬ (readPort {}).ReadResponses readTwice := by
  constructor <;> intro h
  · exact absurd h.responses.last (by decide +kernel)
  · exact absurd h.responses.last (by decide +kernel)

end ZynqLinux.Axi4.StsRegister
