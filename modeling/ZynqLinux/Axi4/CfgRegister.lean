import ZynqLinux.Axi4.Address
import ZynqLinux.Axi4.ReadChannel
import ZynqLinux.Lib.Bits

namespace ZynqLinux.Axi4.CfgRegister

open ZynqLinux.Lib

/-!
# `axi_cfg_register` — the model, and its write responses

A bank of configuration bits that an AXI4-Lite master writes word by word, with byte
strobes, and reads back.  The bits are FDRE flip-flops, one per bit, generated over the
words and the bits of a word.

The write channel accepts an address together with its data in every cycle both are there
and keeps its one response in `int_bvalid_reg`.  It does not look at a response that is
still waiting: `writeResponses_iff` says exactly when this loses a response.
-/

/-- The module parameters. -/
structure Params where
  cfgDataWidth : Nat := 1024
  axiDataWidth : Nat := 32
  axiAddrWidth : Nat := 32

/-- `localparam integer ADDR_LSB`. -/
def Params.addrLsb (P : Params) : Nat := clogb2 (P.axiDataWidth / 8 - 1)

/-- `localparam integer CFG_SIZE`. -/
def Params.cfgSize (P : Params) : Nat := P.cfgDataWidth / P.axiDataWidth

/-- `localparam integer CFG_WIDTH`. -/
def Params.cfgWidth (P : Params) : Nat := if P.cfgSize > 1 then clogb2 (P.cfgSize - 1) else 1

variable {P : Params}

/-! ### One cycle -/

/-- The flip-flops and registers. -/
structure State (P : Params) where
  intDataWire : BitVec P.cfgDataWidth
  intBvalidReg : Bool
  read : ReadRegs (BitVec P.axiDataWidth)

/-- The inputs of one cycle out of reset. -/
structure In (P : Params) where
  sAxiAwaddr : BitVec P.axiAddrWidth := 0
  sAxiAwvalid : Bool := false
  sAxiWdata : BitVec P.axiDataWidth := 0
  sAxiWstrb : BitVec (P.axiDataWidth / 8) := 0
  sAxiWvalid : Bool := false
  sAxiBready : Bool := false
  sAxiAraddr : BitVec P.axiAddrWidth := 0
  sAxiArvalid : Bool := false
  sAxiRready : Bool := false

/-- `assign int_wvalid_wire = s_axi_awvalid & s_axi_wvalid`, which is also both ready
    outputs: a write is accepted. -/
def intWvalidWire (i : In P) : Bool := i.sAxiAwvalid && i.sAxiWvalid

/-- The index field `addr[ADDR_LSB+CFG_WIDTH-1:ADDR_LSB]`. -/
def wordIndex (addr : BitVec P.axiAddrWidth) : Nat :=
  (addr.extractLsb' P.addrLsb P.cfgWidth).toNat

/-- `int_data_mux[j]`; a read past the last word is undefined. -/
def intDataMux (s : State P) (j : Nat) : Option (BitVec P.axiDataWidth) :=
  if j < P.cfgSize then some (s.intDataWire.extractLsb' (j * P.axiDataWidth) P.axiDataWidth)
  else none

/-- `int_ce_wire[j]`. -/
def intCeWire (i : In P) (j : Nat) : Bool := intWvalidWire i && wordIndex i.sAxiAwaddr == j

/-- The FDRE of bit `k` of word `j`: it loads `s_axi_wdata[k]` under
    `int_ce_wire[j] & s_axi_wstrb[k/8]`. -/
def fdre (s : State P) (i : In P) (j k : Nat) : Bool :=
  if intCeWire i j && i.sAxiWstrb.getLsbD (k / 8) then i.sAxiWdata.getLsbD k
  else s.intDataWire.getLsbD (j * P.axiDataWidth + k)

/-- The flip-flops after a clock edge: the `WORDS` and `BITS` loops. -/
def intDataNext (s : State P) (i : In P) : BitVec P.cfgDataWidth :=
  ofBits fun b : Fin P.cfgDataWidth =>
    if b / P.axiDataWidth < P.cfgSize then
      fdre s i (b / P.axiDataWidth) (b % P.axiDataWidth)
    else s.intDataWire.getLsbD b

/-- `int_bvalid_next`: a write sets it, a response that is taken clears it, and the second
    `if` wins. -/
def intBvalidNext (s : State P) (i : In P) : Bool :=
  let n := s.intBvalidReg
  let n := if intWvalidWire i then true else n
  if i.sAxiBready && s.intBvalidReg then false else n

/-- One clock edge. -/
def step (s : State P) (i : In P) : State P where
  intDataWire := intDataNext s i
  intBvalidReg := intBvalidNext s i
  read := readNext s.read i.sAxiArvalid (intDataMux s (wordIndex i.sAxiAraddr)) i.sAxiRready

/-- What the reset branch loads. -/
def resetState : State P := ⟨0, false, ⟨false, some 0⟩⟩

/-- The IP, from reset. -/
def axiCfgRegister (P : Params) : Machine (State P) (In P) := ⟨resetState, step⟩

/-- The state of the IP after the cycles `is`. -/
def after (is : List (In P)) : State P := (axiCfgRegister P).run is

theorem after_snoc (is : List (In P)) (i : In P) : after (is ++ [i]) = step (after is) i :=
  Machine.run_snoc _ is i

/-- The read channel of the IP. -/
def readPort (P : Params) : ReadPort (State P) (In P) (BitVec P.axiDataWidth) where
  machine := axiCfgRegister P
  regs := State.read
  arvalid := In.sAxiArvalid
  rready := In.sAxiRready
  selected := fun s i => intDataMux s (wordIndex i.sAxiAraddr)
  regs_reset := rfl
  regs_step := fun _ _ => rfl

/-! ### Write responses -/

/-- A handshake of the write response channel. -/
def bHandshake (s : State P) (i : In P) : Bool := s.intBvalidReg && i.sAxiBready

/-- The number of writes accepted. -/
def writesAccepted (is : List (In P)) : Nat := count (fun _ i => intWvalidWire i) is

/-- The number of write responses taken. -/
def responsesTaken (is : List (In P)) : Nat := count (fun past i => bHandshake (after past) i) is

/-- The response line is high exactly while a write is unanswered, and no response comes
    without a write. -/
def WriteAnswered (past : List (In P)) : Prop :=
  ((after past).intBvalidReg = true ↔ responsesTaken past < writesAccepted past) ∧
    responsesTaken past ≤ writesAccepted past

/-- A response that is taken is the only one owed, and no write is accepted with it. -/
def TakenAlone (past : List (In P)) (i : In P) : Prop :=
  bHandshake (after past) i = true →
    intWvalidWire i = false ∧ writesAccepted past = responsesTaken past + 1

theorem writesAccepted_snoc (is : List (In P)) (i : In P) :
    writesAccepted (is ++ [i]) = writesAccepted is + (intWvalidWire i).toNat :=
  count_snoc _ _ _

theorem responsesTaken_snoc (is : List (In P)) (i : In P) :
    responsesTaken (is ++ [i]) = responsesTaken is + (bHandshake (after is) i).toNat :=
  count_snoc _ _ _

/-- The response line after a clock edge: a response that is taken clears it, even in a cycle
    that accepts the next write. -/
theorem intBvalidReg_snoc (is : List (In P)) (i : In P) :
    (after (is ++ [i])).intBvalidReg
      = if bHandshake (after is) i then false else (after is).intBvalidReg || intWvalidWire i := by
  rw [after_snoc]
  show intBvalidNext (after is) i = _
  rw [intBvalidNext, bHandshake]
  cases (after is).intBvalidReg <;> cases i.sAxiBready <;> cases intWvalidWire i <;> rfl

/-- After reset no write is owed a response, and the response line is low. -/
theorem writeAnswered_nil : WriteAnswered ([] : List (In P)) := by
  refine ⟨?_, Nat.le_refl _⟩
  show false = true ↔ 0 < 0
  simp

/-- While every write has been answered, a cycle keeps it so exactly when it takes its
    response alone. -/
theorem writeAnswered_snoc (is : List (In P)) (i : In P) (h : WriteAnswered is) :
    WriteAnswered (is ++ [i]) ↔ TakenAlone is i := by
  obtain ⟨hiff, hle⟩ := h
  have hone : (intWvalidWire i).toNat ≤ 1 := Bool.toNat_le _
  rw [WriteAnswered, TakenAlone, intBvalidReg_snoc, writesAccepted_snoc, responsesTaken_snoc]
  cases hb : bHandshake (after is) i with
  | true =>
    -- a response leaves: nothing may be owed after it
    have hv : (after is).intBvalidReg = true := by
      rw [bHandshake, Bool.and_eq_true] at hb
      exact hb.1
    have hlt := hiff.mp hv
    cases hw : intWvalidWire i <;> simp <;> omega
  | false =>
    -- none leaves: a waiting response or a new write keeps the line high
    cases hv : (after is).intBvalidReg <;> cases hw : intWvalidWire i <;>
      simp [hv] at hiff ⊢ <;> omega

/-- **Write responses, exactly.** Over every run from reset and every master, every accepted
    write keeps its response and no response comes without a write, if and only if every
    response is taken alone. -/
theorem writeResponses_iff (is : List (In P)) :
    EachPoint WriteAnswered is ↔ EachCycle TakenAlone is :=
  eachPoint_iff_eachCycle writeAnswered_nil
    (fun past i hpast _ => writeAnswered_snoc past i hpast.last) is

/-- An AXI4-Lite master: an address or a data word that is not accepted is offered again,
    unchanged. -/
def LiteMaster (is : List (In P)) : Prop :=
  EachCycle (fun past i => ∀ p ∈ past.getLast?,
    (p.sAxiAwvalid = true → p.sAxiWvalid = false →
      i.sAxiAwvalid = true ∧ i.sAxiAwaddr = p.sAxiAwaddr) ∧
    (p.sAxiWvalid = true → p.sAxiAwvalid = false →
      i.sAxiWvalid = true ∧ i.sAxiWdata = p.sAxiWdata ∧ i.sAxiWstrb = p.sAxiWstrb)) is

/-- A write of `0x1` to word 0 by a master that is ready for the response. -/
def writeWord : In {} := { sAxiAwvalid := true, sAxiWdata := 1, sAxiWstrb := 15,
                           sAxiWvalid := true, sAxiBready := true }

/-- Two writes in a row, the second in the cycle that takes the response to the first: the
    second response is lost. -/
theorem second_write_unanswered :
    LiteMaster [writeWord, writeWord] ∧ ¬ EachPoint WriteAnswered [writeWord, writeWord] := by
  constructor
  · unfold LiteMaster
    decide +kernel
  · intro h
    have hlast := h.last
    unfold WriteAnswered at hlast
    exact absurd hlast (by decide +kernel)

end ZynqLinux.Axi4.CfgRegister
