import ZynqLinux.Dynclk.Driver

namespace ZynqLinux.Dynclk

/-!
# How close the search comes

`dglnt_dynclk_find_mode` tries one output divider for each setting, the ratio of the VCO
frequency and the target rounded to the nearest integer.  Between two neighbouring dividers
the nearer ratio is not always the nearer frequency: the rounding changes over at the
harmonic mean of the two outputs, the distance at their arithmetic mean.  A target between
the two means gets the wrong divider, and whether another setting makes up for it depends on
the VCO frequencies the parent allows.

* `Optimal` says that no setting with any divider comes closer than a given frequency, and
  `Closest` is a setting with a divider that comes closest;
* `Clear` says that the exact ratio of a setting is so far from the middle between two
  dividers that its three decimals do not matter, `Touching` that it is not farther beyond
  the middle than the three decimals can take it;
* `optimal_bracket`: the search comes closest if a closest divider is clear of the middle, and
  only if one touches its side of it;
* `optimal_of_close`: it comes closest whenever any setting comes within a three hundredth of
  the target.
-/

variable {p t : Nat} {c : Setting} {k : Nat}

/-- The distance of a frequency from the target. -/
def distance (f t : Nat) : Nat := if f ≥ t then f - t else t - f

/-- No setting of the search comes closer to the target with any output divider. -/
def Optimal (p t ret : Nat) : Prop :=
  ∀ d b k, minDiv p ≤ d → d ≤ maxDiv p → minFb p d ≤ b → b ≤ maxFb p d → 1 ≤ k → k ≤ 128 →
    distance ret t ≤ distance (p * b / d / k) t

/-- The setting `c` with the divider `k` comes as close to the target as any other. -/
structure Closest (p t : Nat) (c : Setting) (k : Nat) : Prop where
  mem : c ∈ settings p
  clkdiv_min : 1 ≤ k
  clkdiv_max : k ≤ 128
  least : ∀ c' ∈ settings p, ∀ k', 1 ≤ k' → k' ≤ 128 →
    distance (vco p c / k) t ≤ distance (vco p c' / k') t

/-- The error of a setting in the search is its distance from the target, with the one divider
    that the search tries for it. -/
theorem freqError_eq (p t : Nat) (c : Setting) :
    freqError p t c = distance (vco p c / clkDiv p t c) t := rfl

/-! ### Ratios near the middle between two dividers -/

/-- The ratio `p * b / (d * t)` is less than `1/2 - b/2000` away from the divider `k`, or it is
    above the range of the dividers and `k` is the last one. -/
structure Clear (p t : Nat) (c : Setting) (k : Nat) : Prop where
  lower : (2000 * k + c.fbmult) * (c.maindiv * t)
    < 2000 * (p * c.fbmult) + 1000 * (c.maindiv * t)
  upper : k = 128 ∨
    2000 * (p * c.fbmult) + c.fbmult * (c.maindiv * t) < (2000 * k + 1000) * (c.maindiv * t)

/-- The ratio is at most `1/2 + b/2000` away from `k`, or above the range as before. -/
structure Touching (p t : Nat) (c : Setting) (k : Nat) : Prop where
  lower : 2000 * k * (c.maindiv * t)
    ≤ 2000 * (p * c.fbmult) + (1000 + c.fbmult) * (c.maindiv * t)
  upper : k = 128 ∨
    2000 * (p * c.fbmult) ≤ (2000 * k + 1000 + c.fbmult) * (c.maindiv * t)

/-- The multiplier of three decimals, scaled by the feedback multiplier, is off by at most
    half of the latter. -/
theorem clkMult_scaled (hf : Feasible p c) (ht : 0 < t) :
    2 * (clkMult p t c.maindiv * c.fbmult) * (c.maindiv * t)
        ≤ 2000 * (p * c.fbmult) + c.fbmult * (c.maindiv * t) ∧
      2000 * (p * c.fbmult)
        ≤ 2 * (clkMult p t c.maindiv * c.fbmult) * (c.maindiv * t) + c.fbmult * (c.maindiv * t) := by
  obtain ⟨hup, hlo⟩ := clkMult_round (p := p) (Nat.mul_pos hf.maindiv_pos ht)
  constructor
  · calc 2 * (clkMult p t c.maindiv * c.fbmult) * (c.maindiv * t)
        = 2 * clkMult p t c.maindiv * (c.maindiv * t) * c.fbmult := by ring
      _ ≤ (2000 * p + c.maindiv * t) * c.fbmult := Nat.mul_le_mul_right _ hup
      _ = 2000 * (p * c.fbmult) + c.fbmult * (c.maindiv * t) := by ring
  · calc 2000 * (p * c.fbmult) = 2000 * p * c.fbmult := by ring
      _ ≤ (2 * clkMult p t c.maindiv * (c.maindiv * t) + c.maindiv * t) * c.fbmult :=
        Nat.mul_le_mul_right _ hlo
      _ = 2 * (clkMult p t c.maindiv * c.fbmult) * (c.maindiv * t)
          + c.fbmult * (c.maindiv * t) := by ring

/-- The lowest VCO frequency is far above half of the highest target. -/
theorem Feasible.half_lt (hf : Feasible p c) (ht : t ≤ 800000) :
    1064 * (c.maindiv * t) < 2000 * (p * c.fbmult) := by
  have hd : 0 < c.maindiv := hf.maindiv_pos
  calc 1064 * (c.maindiv * t) ≤ 1064 * (c.maindiv * 800000) :=
        Nat.mul_le_mul_left _ (Nat.mul_le_mul_left _ ht)
    _ < 2000 * (600000 * c.maindiv) := by omega
    _ ≤ 2000 * (p * c.fbmult) := Nat.mul_le_mul_left _ hf.vco_min

/-- A divider that is clear of the middle is the one the search tries. -/
theorem Clear.clkDiv_eq (h : Clear p t c k) (hf : Feasible p c) (ht : 0 < t) (hk₁ : 1 ≤ k)
    (hk₂ : k ≤ 128) : clkDiv p t c = k := by
  obtain ⟨hlo, hup⟩ := h
  obtain ⟨hle, hge⟩ := clkMult_scaled hf ht
  unfold clkDiv
  generalize clkMult p t c.maindiv * c.fbmult = m at hle hge ⊢
  -- both bounds are scaled by twice the main divider and the target
  have hlower : 1000 * k ≤ m + 500 := by
    refine Nat.le_of_lt_succ (Nat.lt_of_mul_lt_mul_right (a := 2 * (c.maindiv * t)) ?_)
    calc 1000 * k * (2 * (c.maindiv * t)) = 2000 * k * (c.maindiv * t) := by ring
      _ < 2 * m * (c.maindiv * t) + 1000 * (c.maindiv * t) := by
        rw [Nat.add_mul] at hlo
        omega
      _ ≤ (m + 500 + 1) * (2 * (c.maindiv * t)) := by
        rw [show (m + 500 + 1) * (2 * (c.maindiv * t))
          = 2 * m * (c.maindiv * t) + 1000 * (c.maindiv * t) + 2 * (c.maindiv * t) by ring]
        exact Nat.le_add_right _ _
  rcases hup with rfl | hup
  · omega
  · have hupper : m + 500 < 1000 * (k + 1) := by
      refine Nat.lt_of_mul_lt_mul_right (a := 2 * (c.maindiv * t)) ?_
      calc (m + 500) * (2 * (c.maindiv * t))
          = 2 * m * (c.maindiv * t) + 1000 * (c.maindiv * t) := by ring
        _ < (2000 * k + 1000) * (c.maindiv * t) + 1000 * (c.maindiv * t) := by omega
        _ = 1000 * (k + 1) * (2 * (c.maindiv * t)) := by ring
    omega

/-- The divider the search tries touches its side of the middle. -/
theorem touching_clkDiv (hf : Feasible p c) (ht₁ : 0 < t) (ht₂ : t ≤ 800000) :
    Touching p t c (clkDiv p t c) := by
  obtain ⟨hle, hge⟩ := clkMult_scaled hf ht₁
  have hhalf := hf.half_lt ht₂
  constructor
  · by_cases hk : clkDiv p t c = 1
    · -- no ratio is below the middle between 0 and 1
      rw [hk, Nat.add_mul]
      omega
    · have hlower : 1000 * clkDiv p t c ≤ clkMult p t c.maindiv * c.fbmult + 500 := by
        unfold clkDiv at hk ⊢
        omega
      have hscaled := Nat.mul_le_mul_right (2 * (c.maindiv * t)) hlower
      rw [Nat.add_mul]
      calc 2000 * clkDiv p t c * (c.maindiv * t)
          = 1000 * clkDiv p t c * (2 * (c.maindiv * t)) := by ring
        _ ≤ (clkMult p t c.maindiv * c.fbmult + 500) * (2 * (c.maindiv * t)) := hscaled
        _ = 2 * (clkMult p t c.maindiv * c.fbmult) * (c.maindiv * t) + 1000 * (c.maindiv * t) := by
          ring
        _ ≤ _ := by omega
  · by_cases hk : clkDiv p t c = 128
    · exact .inl hk
    · right
      have hupper : clkMult p t c.maindiv * c.fbmult + 500 ≤ 1000 * (clkDiv p t c + 1) := by
        unfold clkDiv at hk ⊢
        omega
      have hscaled := Nat.mul_le_mul_right (2 * (c.maindiv * t)) hupper
      have heq : (clkMult p t c.maindiv * c.fbmult + 500) * (2 * (c.maindiv * t))
          = 2 * (clkMult p t c.maindiv * c.fbmult) * (c.maindiv * t) + 1000 * (c.maindiv * t) := by
        ring
      have heq' : 1000 * (clkDiv p t c + 1) * (2 * (c.maindiv * t))
          = (2000 * clkDiv p t c + 1000) * (c.maindiv * t) + 1000 * (c.maindiv * t) := by ring
      rw [heq, heq'] at hscaled
      rw [Nat.add_mul (2000 * clkDiv p t c + 1000)]
      omega

/-! ### The choice of the search -/

/-- The search has tried every setting with a divider that is clear of the middle. -/
theorem le_of_clear {c' : Setting} (h : best p t = some c) (ht : 0 < t) (hc' : c' ∈ settings p)
    (hk₁ : 1 ≤ k) (hk₂ : k ≤ 128) (hclear : Clear p t c' k) :
    distance (outFreq p t c) t ≤ distance (vco p c' / k) t := by
  have htried := le_of_best h hc'
  rwa [freqError_eq p t c', hclear.clkDiv_eq (feasible_of_mem hc') ht hk₁ hk₂] at htried

/-- If a closest divider is clear of the middle, the search comes closest. -/
theorem optimal_of_clear {c' : Setting} (h : best p t = some c) (ht : 0 < t)
    (hclosest : Closest p t c' k) (hclear : Clear p t c' k) : Optimal p t (outFreq p t c) := by
  intro d b j hd₁ hd₂ hb₁ hb₂ hj₁ hj₂
  have hmem : (⟨d, b⟩ : Setting) ∈ settings p := mem_settings.mpr ⟨⟨hd₁, hd₂⟩, hb₁, hb₂⟩
  calc distance (outFreq p t c) t ≤ distance (vco p c' / k) t :=
        le_of_clear h ht hclosest.mem hclosest.clkdiv_min hclosest.clkdiv_max hclear
    _ ≤ distance (p * b / d / j) t := hclosest.least _ hmem j hj₁ hj₂

/-- If the search comes closest, its own choice is a closest one. -/
theorem closest_of_optimal (h : best p t = some c) (hopt : Optimal p t (outFreq p t c)) :
    Closest p t c (clkDiv p t c) := by
  obtain ⟨hk₁, hk₂⟩ := clkDiv_bounds p t c
  refine ⟨List.argmin_mem h, hk₁, hk₂, ?_⟩
  intro c' hc' k' hk₁' hk₂'
  obtain ⟨⟨hd₁, hd₂⟩, hb₁, hb₂⟩ := mem_settings.mp hc'
  exact hopt c'.maindiv c'.fbmult k' hd₁ hd₂ hb₁ hb₂ hk₁' hk₂'

/-- **Optimality, up to three decimals.** For every frequency and every parent, a frequency
    that the search returns is as close to the clamped target as any setting comes with any
    output divider, if the exact ratio of one of the closest settings is within
    `1/2 - b/2000` of its divider, and only if it is within `1/2 + b/2000` for one of them. -/
theorem optimal_bracket (freq parentFreq : UInt32) (bestPick : Mode) :
    ∃ ret pick, findMode freq parentFreq bestPick = some (ret, pick) ∧
      (ret ≠ 0 →
        ((∃ c k, Closest parentFreq.toNat (target freq.toNat) c k ∧
            Clear parentFreq.toNat (target freq.toNat) c k) →
          Optimal parentFreq.toNat (target freq.toNat) ret.toNat) ∧
        (Optimal parentFreq.toNat (target freq.toNat) ret.toNat →
          ∃ c k, Closest parentFreq.toNat (target freq.toNat) c k ∧
            Touching parentFreq.toNat (target freq.toNat) c k)) := by
  obtain ⟨ht₁, ht₂⟩ := target_bounds freq.toNat
  rcases findMode_cases freq parentFreq bestPick with ⟨-, hfind⟩ | ⟨c, hbest, hf, hfind⟩
  · exact ⟨_, _, hfind, fun hne => absurd rfl hne⟩
  · refine ⟨_, _, hfind, fun _ => ?_⟩
    rw [toNat_modeOf_freq hf]
    constructor
    · -- if a closest triple is clear of the middle, its divider is the one the search tries
      rintro ⟨c', k, hclosest, hclear⟩
      exact optimal_of_clear hbest (by omega) hclosest hclear
    · intro hopt
      -- conversely the pick is itself a closest triple, and no divider leaves the touching
      -- interval
      exact ⟨c, _, closest_of_optimal hbest hopt, touching_clkDiv hf (by omega) ht₂⟩

/-- 490 MHz from 1200 MHz: every VCO runs at 1200 MHz, the ratio 2.45 is rounded to 2, and
    the driver takes 600 MHz where 400 MHz is closer. -/
theorem farther_frequency_taken :
    ∃ pick, findMode 490000 1200000 ⟨0, 0, 0, 0⟩ = some (600000, pick) ∧
      ¬ Optimal 1200000 (target 490000) 600000 := by
  refine ⟨⟨600000, 2, 2, 2⟩, by decide +kernel, fun hopt => ?_⟩
  have hle := hopt 2 2 3 (by decide) (by decide) (by decide) (by decide) (by decide) (by decide)
  exact absurd hle (by decide)

/-! ### Targets that some setting comes close to -/

/-- A setting that comes within a three hundredth of the target is clear of the middle. -/
theorem clear_of_close (hf : Feasible p c) (ht : 4000 ≤ t) (hk₁ : 1 ≤ k) (hk₂ : k ≤ 128)
    (hclose : 300 * distance (vco p c / k) t ≤ t) : Clear p t c k := by
  have hd : 0 < c.maindiv := hf.maindiv_pos
  -- the product of both dividers, and the output between two products with it
  have hfloor : vco p c / k * (k * c.maindiv) ≤ p * c.fbmult := by
    rw [vco, Nat.div_div_eq_div_mul, Nat.mul_comm k]
    exact Nat.div_mul_le_self _ _
  have hceil : p * c.fbmult < (vco p c / k + 1) * (k * c.maindiv) := by
    rw [vco, Nat.div_div_eq_div_mul, Nat.mul_comm k, Nat.add_mul, Nat.one_mul]
    exact Nat.lt_div_mul_add (Nat.mul_pos hd hk₁)
  have hbounds : 299 * t ≤ 300 * (vco p c / k) ∧ 300 * (vco p c / k) ≤ 301 * t := by
    unfold distance at hclose
    split at hclose <;> omega
  generalize vco p c / k = F at hfloor hceil hbounds
  have hlo := Nat.mul_le_mul_right (k * c.maindiv) hbounds.1
  have hup := Nat.mul_le_mul_right (k * c.maindiv) hbounds.2
  have hsmall := Nat.mul_le_mul_right (k * c.maindiv) ht
  have hky : t * (k * c.maindiv) = k * (c.maindiv * t) := by ring
  have hk := Nat.mul_le_mul_right (c.maindiv * t) hk₂
  have hb := Nat.mul_le_mul_right (c.maindiv * t) hf.fbmult_max
  have hpos : 0 < c.maindiv * t := Nat.mul_pos hd (by omega)
  rw [Nat.mul_assoc, Nat.mul_assoc, hky] at hlo hup
  rw [hky] at hsmall
  rw [Nat.add_mul, Nat.one_mul] at hceil
  constructor
  · rw [Nat.add_mul, Nat.mul_assoc]
    omega
  · right
    rw [Nat.add_mul, Nat.mul_assoc 2000]
    omega

/-- For every frequency and every parent, the search comes closest whenever some setting comes
    within a three hundredth of the clamped target: no divider near the middle comes so
    close. -/
theorem optimal_of_close (freq parentFreq : UInt32) (bestPick : Mode) {c' : Setting}
    (hc' : c' ∈ settings parentFreq.toNat) (hk₁ : 1 ≤ k) (hk₂ : k ≤ 128)
    (hclose : 300 * distance (vco parentFreq.toNat c' / k) (target freq.toNat)
      ≤ target freq.toNat) :
    ∃ ret pick, findMode freq parentFreq bestPick = some (ret, pick) ∧
      (ret ≠ 0 → Optimal parentFreq.toNat (target freq.toNat) ret.toNat) := by
  obtain ⟨ht, -⟩ := target_bounds freq.toNat
  rcases findMode_cases freq parentFreq bestPick with ⟨-, hfind⟩ | ⟨c, hbest, hf, hfind⟩
  · exact ⟨_, _, hfind, fun hne => absurd rfl hne⟩
  · refine ⟨_, _, hfind, fun _ => ?_⟩
    rw [toNat_modeOf_freq hf]
    intro d b j hd₁ hd₂ hb₁ hb₂ hj₁ hj₂
    have hmem : (⟨d, b⟩ : Setting) ∈ settings parentFreq.toNat :=
      mem_settings.mpr ⟨⟨hd₁, hd₂⟩, hb₁, hb₂⟩
    by_cases hj : 300 * distance (parentFreq.toNat * b / d / j) (target freq.toNat)
        ≤ target freq.toNat
    · -- this one has been tried
      exact le_of_clear hbest (by omega) hmem hj₁ hj₂
        (clear_of_close (feasible_of_mem hmem) ht hj₁ hj₂ hj)
    · -- this one is farther than the one that comes close, which has been tried
      have htried := le_of_clear hbest (by omega) hc' hk₁ hk₂
        (clear_of_close (feasible_of_mem hc') ht hk₁ hk₂ hclose)
      omega

end ZynqLinux.Dynclk
