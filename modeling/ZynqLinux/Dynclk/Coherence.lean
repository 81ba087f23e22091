import ZynqLinux.Dynclk.Driver
import ZynqLinux.Lib.History

namespace ZynqLinux.Dynclk

open ZynqLinux.Lib

/-!
# The cached rate and the registers

The driver caches the rate it programmed, and returns at once when it is asked for that
rate again.  The parent rate the registers were computed for is not cached, so a parent
that has changed in between is missed.

* `driver` is the driver as a machine, one call a cycle, from `dglnt_dynclk_probe`;
* `coherent_of_sameParent` says that the cached rate is the rate the registers give in
  every run in which no early return comes with a new parent;
* `stale_after_parent_change` is a run of two calls where it is not.
-/

/-! ### Runs of calls -/

/-- The calls of the clock framework, with the contents of the uninitialised locals and
    what the status register reads. -/
inductive Call
  | setRate (status : Status) (clkReg : Reg) (clkMode : Mode) (rate parentRate : UInt32)
  | enable (status : Status)
  | disable

/-- What a call does. -/
def Call.exec (d : Device) : Call → Option (Int × Device)
  | .setRate status clkReg clkMode rate parentRate =>
    Dynclk.setRate status clkReg clkMode rate parentRate d
  | .enable status => Dynclk.enable status d
  | .disable => some (0, Dynclk.disable d)

/-- Every call returns: the polling loop ends with its status words, and no division is by
    zero. -/
theorem Call.exec_isSome (d : Device) (call : Call) : (call.exec d).isSome := by
  cases call with
  | setRate status clkReg clkMode rate parentRate =>
    rw [exec, setRate_eq]
    rfl
  | enable status =>
    obtain ⟨s, hs⟩ := status.poll_ends
    rw [exec, Dynclk.enable, hs]
    split <;> rfl
  | disable => rfl

/-- The return value of a call and the device after it. -/
def Call.result (d : Device) (call : Call) : Int × Device := (call.exec d).get (call.exec_isSome d)

/-- The driver, from `dglnt_dynclk_probe`. -/
def driver : Machine Device Call := ⟨probe, fun d call => (call.result d).2⟩

/-- The device after the calls. -/
def after (calls : List Call) : Device := driver.run calls

/-- One more call works on the device as the calls before it left it. -/
theorem after_snoc (calls : List Call) (call : Call) :
    after (calls ++ [call]) = (call.result (after calls)).2 :=
  Machine.run_snoc _ calls call

/-- What `set_rate` leaves does not depend on the status words that it polls, nor on its
    uninitialised locals. -/
theorem result_setRate (status : Status) (clkReg : Reg) (clkMode : Mode) (rate parentRate : UInt32)
    (d : Device) :
    (Call.setRate status clkReg clkMode rate parentRate).result d
      = setRateResult rate parentRate d := by
  unfold Call.result
  simp only [Call.exec, setRate_eq, Option.get_some]

/-- Enabling and disabling touch the control register only. -/
theorem result_enable (status : Status) (d : Device) :
    (Call.enable status).result d
      = (0, if d.freq = 0 then d else { d with io := writel 1 ofstDisplayCtrl d.io }) := by
  have hexec : (Call.enable status).exec d
      = some (0, if d.freq = 0 then d else { d with io := writel 1 ofstDisplayCtrl d.io }) := by
    by_cases hfreq : d.freq = 0
    · rw [if_pos hfreq, Call.exec, enable, if_neg (not_not.mpr hfreq)]
      rfl
    · rw [if_neg hfreq]
      exact enable_of_ne status hfreq
  unfold Call.result
  simp only [hexec, Option.get_some]

/-! ### Coherence -/

/-- The registers give the cached rate, for a parent of `q` kHz. -/
def Gives (q : UInt32) (d : Device) : Prop :=
  ∃ r, programmed d.io = some r ∧
    d.freq.toNat
      = 200 * (q.toNat * (decode r).fbmult / (decode r).maindiv / (decode r).clkdiv)

/-- What a call owes: `set_rate` that returns 0 leaves registers that give the cached rate,
    and a call that fails leaves the device as it was. -/
def Kept (past : List Call) (call : Call) : Prop :=
  (∀ status clkReg clkMode rate parentRate,
    call = .setRate status clkReg clkMode rate parentRate → (call.result (after past)).1 = 0 →
      Gives (parentKhz parentRate) (after (past ++ [call]))) ∧
  ((call.result (after past)).1 ≠ 0 → after (past ++ [call]) = after past)

/-- The cached rate and the registers are coherent over a run. -/
def Coherent (calls : List Call) : Prop := EachCycle Kept calls

/-- A call that programs the registers, neither an early return nor an error, and the
    parent in kHz it programs them for. -/
def Call.programs (d : Device) : Call → Option UInt32
  | .setRate _ _ _ rate parentRate =>
    if parentRate ≠ 0 ∧ rate ≠ 0 ∧ rate ≠ d.freq ∧ InParentRange parentRate then
      some (parentKhz parentRate)
    else none
  | _ => none

/-- The parent the registers were last programmed for. -/
def programmedFor (calls : List Call) : Option UInt32 :=
  (log (fun past call => (call.programs (after past)).toList) calls).getLast?

/-- An early return comes with the parent the registers were programmed for, in kHz. -/
def SameParent (past : List Call) : Call → Prop
  | .setRate _ _ _ rate parentRate =>
    rate = (after past).freq → rate ≠ 0 → parentRate ≠ 0 →
      programmedFor past = some (parentKhz parentRate)
  | _ => True

instance (past : List Call) : (call : Call) → Decidable (SameParent past call)
  | .setRate .. => inferInstanceAs (Decidable (_ → _))
  | .enable _   => isTrue trivial
  | .disable    => isTrue trivial

/-- A call that programs the registers sets the parent they are programmed for, and any other
    call leaves it. -/
theorem programmedFor_snoc (calls : List Call) (call : Call) :
    programmedFor (calls ++ [call]) = (call.programs (after calls)).or (programmedFor calls) := by
  rw [programmedFor, log_snoc, List.getLast?_append, ← programmedFor]
  cases call.programs (after calls) <;> rfl

/-- The registers of a valid mode give its rate. -/
theorem gives_program {m : Mode} {q : UInt32} (h : m.Valid q.toNat) (d : Device) :
    Gives q (program m d) := by
  refine ⟨regOf m, programmed_program m d, ?_⟩
  have hle : m.freq.toNat ≤ 1200000 := by
    rw [h.freq_eq]
    exact le_trans (Nat.div_le_self _ _)
      (Nat.div_le_of_le_mul (by rw [Nat.mul_comm m.maindiv.toNat]; exact h.vco_max))
  have hfreq : (program m d).freq.toNat = m.freq.toNat * 200 :=
    toNat_mul_of_lt (lt_of_le_of_lt (Nat.mul_le_mul_right _ hle) (by decide))
  rw [hfreq, decode_regOf h.toInRange, h.freq_eq, Nat.mul_comm]

/-- The control register does not matter for what the six registers give. -/
theorem gives_ctrl {q : UInt32} {d : Device} (h : Gives q d) (value : UInt32) :
    Gives q { d with io := writel value ofstDisplayCtrl d.io } := by
  obtain ⟨r, hr, hfreq⟩ := h
  exact ⟨r, (programmed_writel_ctrl value d.io).trans hr, hfreq⟩

/-- The registers give the cached rate for the parent they were programmed for, after every
    run. -/
theorem gives_programmedFor (calls : List Call) :
    ∀ q, programmedFor calls = some q → Gives q (after calls) := by
  induction calls using List.reverseRecOn with
  | nil =>
    intro q hq
    exact absurd hq (by simp [programmedFor])
  | append_singleton calls call ih =>
    intro q hq
    rw [programmedFor_snoc] at hq
    rw [after_snoc]
    cases call with
    | setRate status clkReg clkMode rate parentRate =>
      rw [result_setRate]
      rw [Call.programs] at hq
      rcases setRateResult_cases rate parentRate (after calls) with
        ⟨hres, hwhy⟩ | ⟨hres, hwhy⟩ | ⟨m, hvalid, hres, hwhy⟩
      · -- a call that fails, or finds the rate cached, leaves the registers alone
        rw [if_neg (by tauto)] at hq
        rw [hres]
        exact ih q hq
      · rw [if_neg (by tauto)] at hq
        rw [hres]
        exact ih q hq
      · rw [if_pos hwhy] at hq
        rw [hres, ← Option.some.inj hq]
        -- a call that programs them gives its own rate
        exact gives_program hvalid _
    | enable status =>
      rw [result_enable]
      show Gives q (if _ then _ else _)
      split
      · exact ih q hq
      · exact gives_ctrl (ih q hq) 1
    | disable => exact gives_ctrl (ih q hq) 0

/-- A call that fails changes nothing, neither the registers nor the cached rate. -/
theorem after_of_error (past : List Call) (call : Call) (h : (call.result (after past)).1 ≠ 0) :
    after (past ++ [call]) = after past := by
  rw [after_snoc]
  cases call with
  | setRate status clkReg clkMode rate parentRate =>
    rw [result_setRate] at h ⊢
    rcases setRateResult_cases rate parentRate (after past) with
      ⟨hres, -⟩ | ⟨hres, -⟩ | ⟨m, -, hres, -⟩
    · rw [hres]
    · rw [hres]
    · rw [hres] at h
      exact absurd rfl h
  | enable status => exact absurd (by rw [result_enable]) h
  | disable => exact absurd rfl h

/-- **Coherence.** In every run in which no early return comes with a new parent, the
    registers give the cached rate after every `set_rate` that returns 0, for the parent of
    that call, and a call that fails changes nothing. -/
theorem coherent_of_sameParent (calls : List Call) (h : EachCycle SameParent calls) :
    Coherent calls := by
  intro past call hp
  refine ⟨?_, after_of_error past call⟩
  rintro status clkReg clkMode rate parentRate rfl hret
  apply gives_programmedFor
  have hsame := h past _ hp
  rw [result_setRate] at hret
  rw [programmedFor_snoc, Call.programs]
  rcases setRateResult_cases rate parentRate (after past) with
    ⟨hres, -⟩ | ⟨-, hparent, hrate, hcached⟩ | ⟨m, -, -, hwhy⟩
  · rw [hres] at hret
    exact absurd (show -einval = 0 from hret) (by decide)
  · rw [if_neg (by tauto)]
    -- the early return is right, because the parent has not changed since the rate was programmed
    exact hsame hcached hrate hparent
  · rw [if_pos hwhy]
    rfl

/-- A clock that locks at once. -/
def locked : Status := ⟨fun _ => 1, 0, by decide⟩

/-- `set_rate` on that clock, with zeros in the uninitialised locals. -/
def call (rate parentRate : UInt32) : Call :=
  .setRate locked ⟨0, 0, 0, 0, 0, 0⟩ ⟨0, 0, 0, 0⟩ rate parentRate

/-- 120 MHz from 600 MHz, off and on again, and the same rate from a parent that is the same
    to the kHz. -/
def sameParentRun : List Call :=
  [call 120000000 600000000, .disable, .enable locked, call 120000000 600000100]

/-- The last call returns early, with a parent that is the same to the kHz: the registers
    still give the cached rate. -/
theorem coherent_sameParentRun :
    EachCycle SameParent sameParentRun ∧ Coherent sameParentRun := by
  have h : EachCycle SameParent sameParentRun := by decide +kernel
  exact ⟨h, coherent_of_sameParent sameParentRun h⟩

/-- 120 MHz from 600 MHz, and the same rate from 300 MHz: the second call returns early, and
    the registers still divide for 600 MHz, so that the clock runs at 60 MHz. -/
theorem stale_after_parent_change :
    ¬ Coherent [call 120000000 600000000, call 120000000 300000000] := by
  intro h
  obtain ⟨r, hr, hfreq⟩ := (h [call 120000000 600000000] (call 120000000 300000000)
    (List.prefix_refl _)).1 _ _ _ _ _ rfl (by decide +kernel)
  have hregs : programmed (after ([call 120000000 600000000] ++ [call 120000000 300000000])).io
      = some (regOf ⟨600000, 2, 1, 2⟩) := by
    decide +kernel
  obtain rfl := Option.some.inj (hr.symm.trans hregs)
  exact absurd hfreq (by decide +kernel)

end ZynqLinux.Dynclk
