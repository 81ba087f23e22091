import ZynqLinux.Dynclk.Coherence

namespace ZynqLinux.Dynclk

open ZynqLinux.Lib

/-!
# The gate of the output clock

The clock framework switches the output with `dglnt_dynclk_enable` and `dglnt_dynclk_disable`.
`dglnt_dynclk_set_rate` restarts the output with the same two functions, to make the MMCM load
its new settings, and does not ask whether the output was on.

* `requested` is what the framework has asked for last, `control` what the driver has last
  written to the control register;
* `Gated` says that the two agree, as soon as a rate is configured;
* `gated_snoc` says of one call exactly when it keeps them in agreement, and `gated_iff` of a
  run.
-/

/-- What a call of the framework asks of the gate. -/
def Call.request : Call → Option Bool
  | .setRate .. => none
  | .enable _   => some true
  | .disable    => some false

/-- The most recent request was to enable the output; before the first one it is off. -/
def requested (calls : List Call) : Bool :=
  ((log (fun _ call => call.request.toList) calls).getLast?).getD false

/-- The value last written to the control register. -/
def control (d : Device) : Option UInt32 := d.io ofstDisplayCtrl

/-- The output is on exactly when the framework has asked for it and a rate is configured. -/
def Gated (calls : List Call) : Prop :=
  control (after calls) = some 1 ↔ requested calls = true ∧ (after calls).freq ≠ 0

/-- The registers are programmed only while the output is requested. -/
def ProgramsWhileEnabled (past : List Call) (call : Call) : Prop :=
  (call.programs (after past)).isSome = true → requested past = true

/-! ### What one call does to the gate -/

/-- A call that asks for a state of the output sets what is requested, and any other call
    leaves it. -/
theorem requested_snoc (calls : List Call) (call : Call) :
    requested (calls ++ [call]) = call.request.getD (requested calls) := by
  rw [requested, log_snoc, List.getLast?_append, requested]
  cases call.request <;> rfl

/-- A write to the control register is what the control register holds. -/
@[simp] theorem control_writel (value : UInt32) (d : Device) :
    control { d with io := writel value ofstDisplayCtrl d.io } = some value := by
  simp [control, writel]

/-- A new mode leaves the output switched on. -/
@[simp] theorem control_program (m : Mode) (d : Device) : control (program m d) = some 1 := by
  simp [control, program, writel]

/-- A valid mode runs at 4687 kHz at least, so its rate is not 0. -/
theorem Mode.Valid.rate_ne_zero {p : Nat} {m : Mode} (h : m.Valid p) : m.freq * 200 ≠ 0 := by
  have hvco : 600000 ≤ p * m.fbmult.toNat / m.maindiv.toNat := by
    rw [Nat.le_div_iff_mul_le h.maindiv_min]
    exact h.vco_min
  have hmax : p * m.fbmult.toNat / m.maindiv.toNat ≤ 1200000 :=
    Nat.div_le_of_le_mul (by rw [Nat.mul_comm m.maindiv.toNat]; exact h.vco_max)
  have hmin : 4687 ≤ m.freq.toNat := by
    rw [h.freq_eq, Nat.le_div_iff_mul_le h.clkdiv_min]
    calc 4687 * m.clkdiv.toNat ≤ 4687 * 128 := Nat.mul_le_mul_left _ h.clkdiv_max
      _ ≤ p * m.fbmult.toNat / m.maindiv.toNat := by omega
  have hle : m.freq.toNat ≤ 1200000 := by
    rw [h.freq_eq]
    exact le_trans (Nat.div_le_self _ _) hmax
  have hrate : (m.freq * 200).toNat = m.freq.toNat * 200 :=
    toNat_mul_of_lt (lt_of_le_of_lt (Nat.mul_le_mul_right _ hle) (by decide))
  intro hzero
  rw [hzero] at hrate
  have : (0 : UInt32).toNat = 0 := rfl
  omega

/-- A call that programs the registers switches the output on; any other `set_rate` leaves
    the device alone. -/
theorem setRateResult_gate (status : Status) (clkReg : Reg) (clkMode : Mode)
    (rate parentRate : UInt32) (d : Device) :
    (((Call.setRate status clkReg clkMode rate parentRate).programs d).isSome = true ∧
      control (setRateResult rate parentRate d).2 = some 1 ∧
      (setRateResult rate parentRate d).2.freq ≠ 0) ∨
    (((Call.setRate status clkReg clkMode rate parentRate).programs d).isSome = false ∧
      (setRateResult rate parentRate d).2 = d) := by
  rw [Call.programs]
  rcases setRateResult_cases rate parentRate d with
    ⟨hres, hwhy⟩ | ⟨hres, hwhy⟩ | ⟨m, hvalid, hres, hwhy⟩
  · rw [if_neg (by tauto), hres]
    exact Or.inr ⟨rfl, rfl⟩
  · rw [if_neg (by tauto), hres]
    exact Or.inr ⟨rfl, rfl⟩
  · rw [if_pos hwhy, hres]
    exact Or.inl ⟨rfl, control_program m d, hvalid.rate_ne_zero⟩

/-- After a call the gate agrees with the requests, if it did before, exactly when the call
    does not program the registers of a clock that is not requested. -/
theorem gated_snoc {past : List Call} (h : Gated past) (call : Call) :
    Gated (past ++ [call]) ↔ ProgramsWhileEnabled past call := by
  rw [Gated, ProgramsWhileEnabled, after_snoc, requested_snoc]
  cases call with
  | setRate status clkReg clkMode rate parentRate =>
    rw [result_setRate]
    show (_ ↔ requested past = true ∧ _) ↔ _
    rcases setRateResult_gate status clkReg clkMode rate parentRate (after past) with
      ⟨hprog, hon, hfreq⟩ | ⟨hprog, hsame⟩
    · -- the output is on now: this is right only if it is requested
      simp only [hprog, hon, true_iff, forall_const]
      exact ⟨fun hboth => hboth.1, fun hreq => ⟨hreq, hfreq⟩⟩
    · rw [hsame, hprog]
      exact ⟨fun _ hcontra => absurd hcontra (by decide), fun _ => h⟩
  | enable status =>
    rw [result_enable]
    refine iff_of_true ?_ (fun hcontra => absurd hcontra (by simp [Call.programs]))
    show control (if _ then _ else _) = some 1 ↔ true = true ∧ (if _ then _ else _ : Device).freq ≠ 0
    by_cases hfreq : (after past).freq = 0
    · -- without a rate nothing is written, and the output was off
      have hoff : control (after past) = some 1 ↔ requested past = true ∧ _ := h
      rw [if_pos hfreq, hoff]
      simp [hfreq]
    · rw [if_neg hfreq, control_writel]
      simpa using hfreq
  | disable =>
    refine iff_of_true ?_ (fun hcontra => absurd hcontra (by simp [Call.programs]))
    show control (disable (after past)) = some 1 ↔ false = true ∧ _
    rw [disable, control_writel]
    simp

/-! ### The gate over a run -/

/-- **The gate, exactly.** After probe and every sequence of calls, the control register has
    followed the requests of the framework at every point if and only if every `set_rate`
    that programs the registers came while the output was requested. -/
theorem gated_iff (calls : List Call) :
    EachPoint Gated calls ↔ EachCycle ProgramsWhileEnabled calls := by
  refine eachPoint_iff_eachCycle ?_ (fun past call hpast _ => gated_snoc hpast.last call) calls
  show control probe = some 1 ↔ false = true ∧ _
  decide

/-- 120 MHz from 600 MHz, on a clock that nobody has enabled: the output is switched on. -/
theorem set_rate_switches_on : ¬ Gated [call 120000000 600000000] := by
  intro h
  have hon : control (after [call 120000000 600000000]) = some 1 := by decide +kernel
  exact absurd (h.mp hon).1 (by decide)

end ZynqLinux.Dynclk
