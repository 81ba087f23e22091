import Mathlib.Tactic.Common
import ZynqLinux.Lib.History

namespace ZynqLinux.Axi4

open ZynqLinux.Lib

/-!
# The read channel of the two register IPs

`axi_cfg_register` and `axi_sts_register` answer AXI4-Lite reads with the same text: an
address is taken in every cycle it is offered (`s_axi_arready = 1'b1`), the selected word
goes into the one response register, and the response leaves on R.  They differ in the
words they select from.

* `readNext` is that text;
* `ReadPort` is a machine whose response registers are clocked by it;
* `ReadResponses` is what AXI asks of the channel, and `ReadPort.readResponses_iff` the
  exact condition under which the channel gives it.
-/

variable {σ ι α : Type}

/-- `int_rvalid_reg` and `int_rdata_reg`; the data is `none` while it is undefined. -/
@[ext] structure ReadRegs (α : Type) where
  intRvalidReg : Bool
  intRdataReg : Option α

/-- The `always @*` block of the read channel: a new address loads the response register,
    a response that is taken clears its valid bit, and the second `if` wins. -/
def readNext (r : ReadRegs α) (sAxiArvalid : Bool) (word : Option α) (sAxiRready : Bool) :
    ReadRegs α :=
  let n := r
  let n := if sAxiArvalid then { n with intRvalidReg := true, intRdataReg := word } else n
  if sAxiRready && r.intRvalidReg then { n with intRvalidReg := false } else n

/-- A machine with a read channel: where its registers are, which inputs drive them, and
    which word an address selects in a cycle. -/
structure ReadPort (σ ι α : Type) where
  machine : Machine σ ι
  regs : σ → ReadRegs α
  arvalid : ι → Bool
  rready : ι → Bool
  selected : σ → ι → Option α
  regs_reset : (regs machine.reset).intRvalidReg = false
  regs_step : ∀ s i, regs (machine.step s i)
    = readNext (regs s) (arvalid i) (selected s i) (rready i)

namespace ReadPort

variable (R : ReadPort σ ι α)

/-- The response registers after the cycles `is`. -/
def after (is : List ι) : ReadRegs α := R.regs (R.machine.run is)

/-- The words selected by the accepted addresses, each as it is in the cycle of the
    acceptance. -/
def requested (is : List ι) : List (Option α) :=
  log (fun past i => if R.arvalid i then [R.selected (R.machine.run past) i] else []) is

/-- The words of the R handshakes. -/
def answered (is : List ι) : List (Option α) :=
  log (fun past i =>
    if (R.after past).intRvalidReg && R.rready i then [(R.after past).intRdataReg] else []) is

/-- The response that is on R and not taken yet. -/
def pending (is : List ι) : List (Option α) :=
  if (R.after is).intRvalidReg then [(R.after is).intRdataReg] else []

/-- The read channel does its job over a run from reset. -/
structure ReadResponses (is : List ι) : Prop where
  /-- The R handshakes answer the accepted addresses one for one and in order; the last
      address may still have its response on the bus. -/
  responses : EachPoint (fun past => R.answered past ++ R.pending past = R.requested past) is
  /-- A response that is not taken stays as it is. -/
  stable : EachCycle (fun past i => (R.after past).intRvalidReg = true → R.rready i = false →
    (R.after (past ++ [i])).intRvalidReg = true ∧
      (R.after (past ++ [i])).intRdataReg = (R.after past).intRdataReg) is

/-- An address is accepted while the response to an earlier one is on the bus. -/
def Overlap (past : List ι) (i : ι) : Prop :=
  R.arvalid i = true ∧ (R.after past).intRvalidReg = true

theorem after_snoc (is : List ι) (i : ι) :
    R.after (is ++ [i])
      = readNext (R.after is) (R.arvalid i) (R.selected (R.machine.run is) i) (R.rready i) := by
  rw [after, Machine.run_snoc, R.regs_step]
  rfl

/-- A cycle keeps the responses in step with the requests exactly when it accepts no
    address over a waiting response. -/
theorem responses_snoc (is : List ι) (i : ι)
    (h : R.answered is ++ R.pending is = R.requested is) :
    R.answered (is ++ [i]) ++ R.pending (is ++ [i]) = R.requested (is ++ [i]) ↔
      ¬ R.Overlap is i := by
  rw [answered, requested, log_snoc, log_snoc, ← answered, ← requested, ← h, pending, pending,
    R.after_snoc, Overlap, readNext]
  obtain ⟨rvalid, rdata⟩ := R.after is
  -- where a response is lost the two lists differ in length
  cases R.arvalid i <;> cases rvalid <;> cases R.rready i <;> simp

theorem responses_nil : R.answered [] ++ R.pending [] = R.requested [] := by
  have hreset : (R.after []).intRvalidReg = false := R.regs_reset
  rw [pending, hreset]
  rfl

/-- **The read channel, exactly.** It answers every address, in order and with the right
    word, if and only if no address is accepted while a response waits. -/
theorem readResponses_iff (is : List ι) :
    R.ReadResponses is ↔ EachCycle (fun past i => ¬ R.Overlap past i) is := by
  have hpoints := eachPoint_iff_eachCycle
    (P := fun past => R.answered past ++ R.pending past = R.requested past) R.responses_nil
    (fun past i hpast _ => R.responses_snoc past i hpast.last) is
  constructor
  · intro h
    exact hpoints.mp h.responses
  · intro hc
    refine ⟨hpoints.mpr hc, ?_⟩
    intro past i hp hv hr
    -- without an overlap a response that waits is not overwritten
    have har : R.arvalid i = false := by
      rw [← Bool.not_eq_true]
      exact fun har => hc past i hp ⟨har, hv⟩
    rw [R.after_snoc, har, hr, readNext]
    exact ⟨hv, rfl⟩

end ReadPort

end ZynqLinux.Axi4
