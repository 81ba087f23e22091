import ZynqLinux.Dynclk.Driver

namespace ZynqLinux.Dynclk

open ZynqLinux.Lib

/-!
# `round_rate`, `set_rate` and `recalc_rate` agree

The clock framework asks for a rounded rate, sets it and reads it back.  The three agree
because an achieved frequency is found again when it is the target (`outFreq_refound`) and
the conversion to kHz and back is exact on achieved rates (`bufrKhz_rate`).
-/

variable {p t : Nat} {c : Setting}

/-- `dglnt_dynclk_round_rate`. -/
theorem roundRate_eq (clkMode : Mode) (rate parentRate : UInt32) :
    roundRate clkMode rate parentRate = some (
      (best (parentKhz parentRate).toNat (target (bufrKhz rate).toNat)).elim 0
        fun c => (modeOf (parentKhz parentRate).toNat (target (bufrKhz rate).toNat) c).freq * 200) := by
  unfold roundRate
  rcases findMode_cases (bufrKhz rate) (parentKhz parentRate) clkMode with
    ⟨hbest, hfind⟩ | ⟨c, hbest, -, hfind⟩
  · rw [hbest, hfind]
    rfl
  · rw [hbest, hfind]
    rfl

/-- An achieved rate in kHz is the frequency it comes from. -/
theorem bufrKhz_rate (hf : Feasible p c) :
    (bufrKhz ((modeOf p t c).freq * 200)).toNat = outFreq p t c := by
  have hle : outFreq p t c ≤ 1200000 := outFreq_le hf
  have hrate := toNat_modeOf_rate (t := t) hf
  rw [bufrKhz, UInt32.toNat_div, toNat_add_of_lt, hrate]
  · show (outFreq p t c * 200 + 100) / 200 = outFreq p t c
    omega
  · rw [hrate]
    show outFreq p t c * 200 + 100 < 2 ^ 32
    omega

/-- The search for an achieved rate has a result, and it has the same rate. -/
theorem best_achieved (ht₁ : 4000 ≤ t) (ht₂ : t ≤ 800000) (h : best p t = some c) :
    ∃ c', best p (target (bufrKhz ((modeOf p t c).freq * 200)).toNat) = some c' ∧
      (modeOf p (target (bufrKhz ((modeOf p t c).freq * 200)).toNat) c').freq
        = (modeOf p t c).freq := by
  have hf := feasible_of_best h
  rw [bufrKhz_rate hf]
  cases hbest : best p (target (outFreq p t c)) with
  | none => exact absurd ⟨hf.parent_min, hf.parent_max⟩ (best_eq_none_iff.mp hbest)
  | some c' =>
    refine ⟨c', rfl, ?_⟩
    show UInt32.ofNat _ = UInt32.ofNat _
    rw [outFreq_refound ht₁ ht₂ h hbest]

/-- **Agreement.** For every rate and every parent rate: rounding is idempotent, and a
    rounded rate that is not 0 can be set in every state of the device and is then the rate
    that is read back. -/
theorem roundRate_agreement (rate parentRate : UInt32) :
    ∃ r, (∀ clkMode, roundRate clkMode rate parentRate = some r) ∧
      (∀ clkMode, roundRate clkMode r parentRate = some r) ∧
      (r ≠ 0 → ∀ status clkReg clkMode d, ∃ d',
        setRate status clkReg clkMode r parentRate d = some (0, d') ∧
          ∀ parentRate', recalcRate d' parentRate' = r) := by
  refine ⟨_, fun clkMode => roundRate_eq clkMode rate parentRate, ?_⟩
  obtain ⟨ht₁, ht₂⟩ := target_bounds (bufrKhz rate).toNat
  cases hbest : best (parentKhz parentRate).toNat (target (bufrKhz rate).toNat) with
  | none =>
    refine ⟨fun clkMode => ?_, fun h => absurd rfl h⟩
    rw [roundRate_eq, best_eq_none_iff.mpr (best_eq_none_iff.mp hbest)]
    rfl
  | some c =>
    -- the rounded rate is a target of its own: the search for it finds a setting with the same
    -- rate
    obtain ⟨c', hbest', hsame⟩ := best_achieved ht₁ ht₂ hbest
    rw [Option.elim_some]
    refine ⟨fun clkMode => ?_, fun hr status clkReg clkMode d => ?_⟩
    · rw [roundRate_eq, hbest', Option.elim_some, hsame]
    · have hparent : parentRate ≠ 0 := by
        rintro rfl
        exact absurd (feasible_of_best hbest).parent_min (by decide)
      rw [setRate_eq, setRateResult, if_neg (not_or.mpr ⟨hparent, hr⟩)]
      by_cases hcached : (modeOf (parentKhz parentRate).toNat
          (target (bufrKhz rate).toNat) c).freq * 200 = d.freq
      · -- the early return: the rate is the cached one
        rw [if_pos hcached]
        exact ⟨d, rfl, fun _ => hcached.symm⟩
      · rw [if_neg hcached, hbest', Option.elim_some]
        refine ⟨_, rfl, fun _ => ?_⟩
        show _ * 200 = _ * 200
        rw [hsame]

end ZynqLinux.Dynclk
