import Mathlib.Data.List.MinMax
import Mathlib.Tactic.Linarith
import Mathlib.Tactic.Ring

namespace ZynqLinux.Dynclk

/-!
# The settings of the MMCM

What `dglnt_dynclk_find_mode` searches, over the natural numbers.  For a parent of `p` kHz
a setting is a main divider and a feedback multiplier that keep the VCO in its range; the
output divider is not searched but computed for each setting, from the target `t`, through
a multiplier of three decimals.

* `settings p` lists the settings in the order of the two loops;
* `Feasible` collects what every listed setting satisfies;
* `clkMult_bracket` bounds the error of the multiplier; all later facts about the output
  divider come from it;
* `outFreq_refound` says that an achieved frequency is found again when it is the target.
-/

/-- `curDiv` and `curFb` of one pass of the inner loop. -/
structure Setting where
  maindiv : Nat
  fbmult : Nat
deriving DecidableEq, Repr

variable {p t T d : Nat} {c : Setting}

/-! ### What is computed for a setting -/

/-- The target after the clamps to `MMCM_FREQ_OUTMIN` and `MMCM_FREQ_OUTMAX`. -/
def target (freq : Nat) : Nat := min (max freq 4000) 800000

/-- The clamp leaves a target within the range of the output. -/
theorem target_bounds (freq : Nat) : 4000 ≤ target freq ∧ target freq ≤ 800000 := by
  unfold target
  omega

/-- `curClkMult`: 1000 times the parent over the divided target, rounded. -/
def clkMult (p t d : Nat) : Nat := (p * 1000 + d * t / 2) / (d * t)

/-- `curClkDiv`: the output divider, clamped to its range. -/
def clkDiv (p t : Nat) (c : Setting) : Nat :=
  max (min ((clkMult p t c.maindiv * c.fbmult + 500) / 1000) 128) 1

/-- The VCO frequency. -/
def vco (p : Nat) (c : Setting) : Nat := p * c.fbmult / c.maindiv

/-- `curFreq`: the output frequency. -/
def outFreq (p t : Nat) (c : Setting) : Nat := vco p c / clkDiv p t c

/-- `curError`: the distance to the target. -/
def freqError (p t : Nat) (c : Setting) : Nat :=
  if outFreq p t c ≥ t then outFreq p t c - t else t - outFreq p t c

/-! ### What is searched -/

/-- The first main divider. -/
def minDiv (p : Nat) : Nat := if p > 450000 then 2 else 1

/-- The last main divider. -/
def maxDiv (p : Nat) : Nat := min (p / 10000) 106

/-- The first feedback multiplier for a main divider. -/
def minFb (p d : Nat) : Nat := max (d * ((600000 + p - 1) / p)) 2

/-- The last feedback multiplier for a main divider. -/
def maxFb (p d : Nat) : Nat := min (d * (1200000 / p)) 64

/-- The search does not divide by zero: its first main divider is 1 or 2. -/
theorem minDiv_pos (p : Nat) : 0 < minDiv p := by
  unfold minDiv
  split <;> decide

/-- The main divider has at most the 106 of `MMCM_DIV_MAX`. -/
theorem maxDiv_le (p : Nat) : maxDiv p ≤ 106 := Nat.min_le_right _ _

/-- The multiplier has at most the 64 of `MMCM_FB_MAX`. -/
theorem maxFb_le (p d : Nat) : maxFb p d ≤ 64 := Nat.min_le_right _ _

/-- The pass of the inner loop for the main divider `d`, up to the multiplier `fb`. -/
def innerSettings (p d fb : Nat) : List Setting :=
  (List.range' (minFb p d) (fb - minFb p d)).map fun b => ⟨d, b⟩

/-- The passes of the outer loop up to the main divider `d`. -/
def outerSettings (p d : Nat) : List Setting :=
  (List.range' (minDiv p) (d - minDiv p)).flatMap fun d => innerSettings p d (maxFb p d + 1)

/-- All settings, in the order of the search. -/
def settings (p : Nat) : List Setting := outerSettings p (maxDiv p + 1)

/-- The settings that the two loops go through are all pairs within the four bounds, and no
    others. -/
theorem mem_settings :
    c ∈ settings p ↔
      (minDiv p ≤ c.maindiv ∧ c.maindiv ≤ maxDiv p) ∧
        minFb p c.maindiv ≤ c.fbmult ∧ c.fbmult ≤ maxFb p c.maindiv := by
  obtain ⟨d, b⟩ := c
  simp only [settings, outerSettings, innerSettings, List.mem_flatMap, List.mem_map,
    List.mem_range'_1, Setting.mk.injEq]
  constructor
  · rintro ⟨d, hd, b, hb, rfl, rfl⟩
    omega
  · intro h
    exact ⟨d, by omega, b, by omega, rfl, rfl⟩

/-- One more multiplier adds its setting at the end of the list. -/
theorem innerSettings_succ {fb : Nat} (h : minFb p d ≤ fb) :
    innerSettings p d (fb + 1) = innerSettings p d fb ++ [⟨d, fb⟩] := by
  have hlen : fb + 1 - minFb p d = (fb - minFb p d) + 1 := by omega
  rw [innerSettings, innerSettings, hlen, List.range'_1_concat, List.map_append,
    Nat.add_sub_cancel' h]
  rfl

/-- One more main divider adds the settings of its inner loop at the end of the list. -/
theorem outerSettings_succ (h : minDiv p ≤ d) :
    outerSettings p (d + 1) = outerSettings p d ++ innerSettings p d (maxFb p d + 1) := by
  have hlen : d + 1 - minDiv p = (d - minDiv p) + 1 := by omega
  rw [outerSettings, outerSettings, hlen, List.range'_1_concat, List.flatMap_append,
    Nat.add_sub_cancel' h, List.flatMap_singleton]

/-- The inner loop up to a multiplier is the start of the loop up to a later one. -/
theorem innerSettings_mono (p d : Nat) {fb fb' : Nat} (h : fb ≤ fb') :
    innerSettings p d fb <+: innerSettings p d fb' := by
  rw [innerSettings, innerSettings,
    show fb' - minFb p d = (fb - minFb p d) + (fb' - minFb p d - (fb - minFb p d)) by omega,
    ← List.range'_append_1, List.map_append]
  exact List.prefix_append _ _

/-- The outer loop up to a main divider is the start of the loop up to a later one. -/
theorem outerSettings_mono (p : Nat) {d d' : Nat} (h : d ≤ d') :
    outerSettings p d <+: outerSettings p d' := by
  rw [outerSettings, outerSettings,
    show d' - minDiv p = (d - minDiv p) + (d' - minDiv p - (d - minDiv p)) by omega,
    ← List.range'_append_1, List.flatMap_append]
  exact List.prefix_append _ _

/-- In front of its first multiplier the inner loop has tried nothing. -/
theorem innerSettings_of_le {fb : Nat} (h : fb ≤ minFb p d) : innerSettings p d fb = [] := by
  rw [innerSettings, Nat.sub_eq_zero_of_le h]
  rfl

/-- In front of its first main divider the outer loop has tried nothing. -/
theorem outerSettings_of_le (h : d ≤ minDiv p) : outerSettings p d = [] := by
  rw [outerSettings, Nat.sub_eq_zero_of_le h]
  rfl

/-! ### Feasible settings -/

/-- What the bounds of the two loops guarantee. -/
structure Feasible (p : Nat) (c : Setting) : Prop where
  parent_min : 10000 ≤ p
  parent_max : p ≤ 1200000
  maindiv_pos : 1 ≤ c.maindiv
  maindiv_max : c.maindiv ≤ 106
  fbmult_min : 2 ≤ c.fbmult
  fbmult_max : c.fbmult ≤ 64
  vco_min : 600000 * c.maindiv ≤ p * c.fbmult
  vco_max : p * c.fbmult ≤ 1200000 * c.maindiv

/-- Every setting of the search is feasible: its VCO runs within its range, and its dividers
    are within theirs. -/
theorem feasible_of_mem (h : c ∈ settings p) : Feasible p c := by
  obtain ⟨⟨hd₁, hd₂⟩, hb₁, hb₂⟩ := mem_settings.mp h
  have hmin := minDiv_pos p
  simp only [maxDiv, le_min_iff, minFb, max_le_iff, maxFb] at hd₂ hb₁ hb₂
  have hp : 0 < p := by omega
  -- a parent above 1200 MHz leaves no multiplier, since the quotient is zero
  have hq : 0 < 1200000 / p := by
    rw [Nat.pos_iff_ne_zero]
    intro hzero
    rw [hzero] at hb₂
    omega
  refine ⟨by omega, ?_, by omega, by omega, by omega, by omega, ?_, ?_⟩
  · exact (Nat.div_pos_iff.mp hq).2
  · have hup : 600000 ≤ (600000 + p - 1) / p * p := by
      have := Nat.lt_div_mul_add (a := 600000 + p - 1) hp
      omega
    calc 600000 * c.maindiv ≤ (600000 + p - 1) / p * p * c.maindiv := Nat.mul_le_mul_right _ hup
      _ = p * (c.maindiv * ((600000 + p - 1) / p)) := by ring
      _ ≤ p * c.fbmult := Nat.mul_le_mul_left _ hb₁.1
  · calc p * c.fbmult ≤ p * (c.maindiv * (1200000 / p)) := Nat.mul_le_mul_left _ hb₂.1
      _ = 1200000 / p * p * c.maindiv := by ring
      _ ≤ 1200000 * c.maindiv := Nat.mul_le_mul_right _ (Nat.div_mul_le_self _ _)

/-- There is a setting exactly for the parents the MMCM can take. -/
theorem settings_eq_nil_iff : settings p = [] ↔ ¬ (10000 ≤ p ∧ p ≤ 1200000) := by
  constructor
  · rintro hnil ⟨hlo, hhi⟩
    -- the first main divider always has a multiplier
    have hmem : (⟨minDiv p, minFb p (minDiv p)⟩ : Setting) ∈ settings p := by
      rw [mem_settings]
      have hp : 0 < p := by omega
      have hq : 1 ≤ 1200000 / p := (Nat.le_div_iff_mul_le hp).mpr (by omega)
      have hceil : (600000 + p - 1) / p ≤ 1200000 / p ∧ (600000 + p - 1) / p ≤ 60 := by
        constructor
        · by_cases hhalf : p ≤ 600000
          · exact Nat.div_le_div_right (by omega)
          · rw [Nat.div_eq_of_lt_le (k := 1) (by omega) (by omega)]
            exact hq
        · rw [Nat.div_le_iff_le_mul_add_pred hp]
          omega
      have hdiv : 1 ≤ p / 10000 := by omega
      unfold maxFb minFb maxDiv minDiv
      by_cases hbig : p > 450000
      · have hceil2 : (600000 + p - 1) / p ≤ 2 := by
          rw [Nat.div_le_iff_le_mul_add_pred hp]
          omega
        simp only [if_pos hbig]
        omega
      · have hq2 : 2 ≤ 1200000 / p := (Nat.le_div_iff_mul_le hp).mpr (by omega)
        simp only [if_neg hbig]
        omega
    rw [hnil] at hmem
    exact List.not_mem_nil hmem
  · intro h
    rw [List.eq_nil_iff_forall_not_mem]
    intro c hc
    have hf := feasible_of_mem hc
    exact h ⟨hf.parent_min, hf.parent_max⟩

/-- The two bounds on the multiplier keep the VCO between 600 and 1200 MHz, also after the
    division is rounded down. -/
theorem Feasible.vco_bounds (h : Feasible p c) : 600000 ≤ vco p c ∧ vco p c ≤ 1200000 := by
  have hd : 0 < c.maindiv := h.maindiv_pos
  unfold vco
  rw [Nat.le_div_iff_mul_le hd]
  exact ⟨h.vco_min, Nat.div_le_of_le_mul (by rw [Nat.mul_comm c.maindiv]; exact h.vco_max)⟩

/-! ### The output divider -/

/-- The output divider is between 1 and 128, for every parent and every target. -/
theorem clkDiv_bounds (p t : Nat) (c : Setting) : 1 ≤ clkDiv p t c ∧ clkDiv p t c ≤ 128 := by
  unfold clkDiv
  omega

/-- Rounding puts the multiplier within one half of the quotient. -/
theorem clkMult_round (hy : 0 < d * t) :
    2 * clkMult p t d * (d * t) ≤ 2000 * p + d * t ∧
      2000 * p ≤ 2 * clkMult p t d * (d * t) + d * t := by
  have hle := Nat.div_mul_le_self (p * 1000 + d * t / 2) (d * t)
  have hlt := Nat.lt_div_mul_add (a := p * 1000 + d * t / 2) hy
  rw [← clkMult] at hle hlt
  rw [Nat.mul_assoc]
  omega

/-- **The multiplier of three decimals.** Scaled by the feedback multiplier it is 1000
    times the quotient of the VCO frequency and the target, up to an error of 32. -/
theorem clkMult_bracket (hf : Feasible p c) (ht : 0 < t) :
    1000 * vco p c ≤ (clkMult p t c.maindiv * c.fbmult + 32) * t ∧
      clkMult p t c.maindiv * c.fbmult * t < 1000 * (vco p c + 1) + 32 * t := by
  obtain ⟨d, b⟩ := c
  have hd : 0 < d := hf.maindiv_pos
  have hb : b ≤ 64 := hf.fbmult_max
  obtain ⟨hup, hlo⟩ := clkMult_round (p := p) (Nat.mul_pos hd ht)
  have hfloor := Nat.div_mul_le_self (p * b) d
  have hceil := Nat.lt_div_mul_add (a := p * b) hd
  show 1000 * (p * b / d) ≤ (clkMult p t d * b + 32) * t ∧
    clkMult p t d * b * t < 1000 * (p * b / d + 1) + 32 * t
  generalize clkMult p t d = m at hup hlo ⊢
  generalize p * b / d = v at hfloor hceil ⊢
  constructor
  · -- multiply the lower bound by `b`, and cancel the main divider
    refine Nat.le_of_mul_le_mul_right (c := 2 * d) ?_ (by omega)
    calc 1000 * v * (2 * d) = 2000 * (v * d) := by ring
      _ ≤ 2000 * (p * b) := Nat.mul_le_mul_left _ hfloor
      _ = 2000 * p * b := by ring
      _ ≤ (2 * m * (d * t) + d * t) * b := Nat.mul_le_mul_right _ hlo
      _ = 2 * m * b * (d * t) + b * (d * t) := by ring
      _ ≤ 2 * m * b * (d * t) + 64 * (d * t) := Nat.add_le_add_left (Nat.mul_le_mul_right _ hb) _
      _ = (m * b + 32) * t * (2 * d) := by ring
  · refine Nat.lt_of_mul_lt_mul_right (a := 2 * d) ?_
    calc m * b * t * (2 * d) = 2 * m * (d * t) * b := by ring
      _ ≤ (2000 * p + d * t) * b := Nat.mul_le_mul_right _ hup
      _ = 2000 * (p * b) + b * (d * t) := by ring
      _ < 2000 * (v * d + d) + 64 * (d * t) :=
        Nat.add_lt_add_of_lt_of_le (by omega) (Nat.mul_le_mul_right _ hb)
      _ = (1000 * (v + 1) + 32 * t) * (2 * d) := by ring

/-- The scaled multiplier is far below `2 ^ 32`. -/
theorem clkMult_mul_lt (hf : Feasible p c) (ht : 4000 ≤ t) :
    clkMult p t c.maindiv * c.fbmult < 400000 := by
  by_contra hge
  have hv := hf.vco_bounds.2
  have hlt := (clkMult_bracket hf (t := t) (by omega)).2
  have hle := Nat.mul_le_mul_right t (Nat.le_of_not_lt hge)
  omega

/-- A small divider bounds the VCO frequency from above. -/
theorem vco_le_of_clkDiv_le (hf : Feasible p c) (ht : 0 < t) {j : Nat} (hj : clkDiv p t c ≤ j)
    (hj' : j < 128) : 1000 * vco p c ≤ (1000 * j + 531) * t := by
  have hN : clkMult p t c.maindiv * c.fbmult ≤ 1000 * j + 499 := by
    unfold clkDiv at hj
    omega
  calc 1000 * vco p c ≤ (clkMult p t c.maindiv * c.fbmult + 32) * t := (clkMult_bracket hf ht).1
    _ ≤ (1000 * j + 531) * t := Nat.mul_le_mul_right _ (by omega)

/-- A large output divider bounds the VCO frequency from below: it is the target times almost
    the divider. -/
theorem lt_vco_of_lt_clkDiv (hf : Feasible p c) (ht : 0 < t) {j : Nat} (hj : j < clkDiv p t c)
    (hj' : 1 ≤ j) : (1000 * j + 468) * t < 1000 * (vco p c + 1) := by
  have hN : 1000 * j + 500 ≤ clkMult p t c.maindiv * c.fbmult := by
    unfold clkDiv at hj
    omega
  have hlt := (clkMult_bracket hf ht).2
  have hle := Nat.mul_le_mul_right t hN
  rw [Nat.add_mul] at hle ⊢
  omega

/-- A higher target never raises the divider. -/
theorem clkDiv_antitone (ht : 0 < t) (hf : Feasible p c) (htT : t ≤ T) :
    clkDiv p T c ≤ clkDiv p t c := by
  have hd : 0 < c.maindiv := hf.maindiv_pos
  have hmult : clkMult p T c.maindiv ≤ clkMult p t c.maindiv := by
    have hy : c.maindiv * t ≤ c.maindiv * T := Nat.mul_le_mul_left _ htT
    have hle := Nat.div_mul_le_self (p * 1000 + c.maindiv * T / 2) (c.maindiv * T)
    rw [← clkMult] at hle
    rw [clkMult.eq_def p t, Nat.le_div_iff_mul_le (Nat.mul_pos hd ht)]
    generalize clkMult p T c.maindiv = m at hle ⊢
    generalize c.maindiv * T = Y at hle hy
    generalize c.maindiv * t = y at hy ⊢
    -- `m * y - y / 2` grows with `y` as soon as `m` is positive
    rcases Nat.eq_zero_or_pos m with rfl | hm
    · omega
    · obtain ⟨e, rfl⟩ := Nat.exists_eq_add_of_le hy
      rw [Nat.mul_add] at hle
      have he : e ≤ m * e := Nat.le_mul_of_pos_left e hm
      omega
  have hscaled := Nat.mul_le_mul_right c.fbmult hmult
  unfold clkDiv
  omega

/-! ### The output frequency -/

/-- The lowest VCO frequency over the largest divider is the lowest output, and it is above
    the `MMCM_FREQ_OUTMIN` of 4000. -/
theorem Feasible.outFreq_min (h : Feasible p c) (t : Nat) : 4687 ≤ outFreq p t c := by
  obtain ⟨hk₁, hk₂⟩ := clkDiv_bounds p t c
  have hv := h.vco_bounds.1
  rw [outFreq, Nat.le_div_iff_mul_le hk₁]
  calc 4687 * clkDiv p t c ≤ 4687 * 128 := Nat.mul_le_mul_left _ hk₂
    _ ≤ vco p c := by omega

/-- Every setting beats the value the search starts with. -/
theorem freqError_lt (hf : Feasible p c) (ht₁ : 4000 ≤ t) (ht₂ : t ≤ 800000) :
    freqError p t c < 800000 := by
  have hmin := hf.outFreq_min t
  have hv := hf.vco_bounds.2
  -- the output is below 800000 unless the divider is 1, and then it is near the target
  have hmax : outFreq p t c < t + 800000 := by
    obtain ⟨hk₁, -⟩ := clkDiv_bounds p t c
    by_cases hk : clkDiv p t c ≤ 1
    · have hclose := vco_le_of_clkDiv_le hf (by omega) hk (by decide)
      rw [outFreq, show clkDiv p t c = 1 by omega, Nat.div_one]
      omega
    · have hhalf : outFreq p t c ≤ vco p c / 2 := Nat.div_le_div_left (by omega) (by decide)
      omega
  unfold freqError
  split <;> omega

/-- The search: the first setting of least error. -/
def best (p t : Nat) : Option Setting := (settings p).argmin (freqError p t)

/-- The search finds nothing exactly for the parents that no main divider and multiplier bring
    into the range of the VCO. -/
theorem best_eq_none_iff : best p t = none ↔ ¬ (10000 ≤ p ∧ p ≤ 1200000) := by
  rw [best, List.argmin_eq_none, settings_eq_nil_iff]

/-- What the search returns is one of the settings it went through. -/
theorem feasible_of_best (h : best p t = some c) : Feasible p c :=
  feasible_of_mem (List.argmin_mem h)

/-- No setting that the search went through has a smaller error than the one it returns. -/
theorem le_of_best (h : best p t = some c) {c' : Setting} (hc' : c' ∈ settings p) :
    freqError p t c ≤ freqError p t c' :=
  List.le_of_mem_argmin hc' h

/-- An achieved frequency as the target gives back the divider that achieved it. -/
theorem clkDiv_outFreq (hf : Feasible p c) (t : Nat) :
    clkDiv p (outFreq p t c) c = clkDiv p t c := by
  obtain ⟨hk₁, hk₂⟩ := clkDiv_bounds p t c
  have hF := hf.outFreq_min t
  obtain ⟨hlo, hup⟩ := clkMult_bracket hf (t := outFreq p t c) (by omega)
  have hfloor : clkDiv p t c * outFreq p t c ≤ vco p c := Nat.mul_div_le _ _
  have hceil : vco p c < clkDiv p t c * (outFreq p t c + 1) := Nat.lt_mul_div_succ _ hk₁
  rw [Nat.mul_add, Nat.mul_one] at hceil
  generalize clkDiv p t c = k at *
  generalize hF' : outFreq p t c = F at *
  generalize hN : clkMult p F c.maindiv * c.fbmult = N at *
  have hk_le : 1000 * k ≤ N + 32 := by
    refine Nat.le_of_mul_le_mul_right (c := F) ?_ (by omega)
    calc 1000 * k * F = 1000 * (k * F) := Nat.mul_assoc _ _ _
      _ ≤ 1000 * vco p c := Nat.mul_le_mul_left _ hfloor
      _ ≤ (N + 32) * F := hlo
  have hk_lt : N < 1000 * k + 60 := by
    -- the floor of the division loses less than `k`, and `1000 * k ≤ 28 * F`
    refine Nat.lt_of_mul_lt_mul_right (a := F) ?_
    have hscaled : (1000 * k + 60) * F = 1000 * (k * F) + 60 * F := by ring
    omega
  unfold clkDiv
  rw [hN]
  omega

/-- The frequency of a setting, once its divider is known. -/
theorem outFreq_of_clkDiv {k : Nat} (h : clkDiv p t c = k) : outFreq p t c = vco p c / k := by
  rw [outFreq, h]

/-- An output above half the VCO range is not divided. -/
theorem clkDiv_eq_one (hf : Feasible p c) (h : 600000 < outFreq p t c) : clkDiv p t c = 1 := by
  have hv := hf.vco_bounds.2
  have hpos := (clkDiv_bounds p t c).1
  by_contra hne
  have hhalf : outFreq p t c ≤ vco p c / 2 := Nat.div_le_div_left (by omega) (by decide)
  omega

/-- A setting that is at least as good as the output `F` for the clamp, and no better than
    `F` for the lower target `t`, has the same divider for both. -/
theorem clkDiv_same {F : Nat} (hf : Feasible p c) (ht₁ : 4000 ≤ t) (ht₂ : t < 800000)
    (hF : 800000 < F) (hclose : 1000 * F ≤ 1531 * t) (hopt : F - t ≤ freqError p t c)
    (hopt' : freqError p 800000 c ≤ F - 800000) : clkDiv p t c = clkDiv p 800000 c := by
  have hv := hf.vco_bounds.2
  have hpos := (clkDiv_bounds p 800000 c).1
  have hanti := clkDiv_antitone (by omega) hf (Nat.le_of_lt ht₂)
  -- an error of at most `F - 800000` bounds the VCO, and so the divider for the clamp
  have hle2 : clkDiv p 800000 c ≤ 2 := by
    by_contra hlt
    have hbig := lt_vco_of_lt_clkDiv hf (t := 800000) (by decide) (j := 2) (by omega) (by decide)
    omega
  by_contra hne
  unfold freqError at hopt hopt'
  by_cases hone : clkDiv p 800000 c = 1
  · -- for the lower target the setting is halved, and then closer than `F`
    have hge := lt_vco_of_lt_clkDiv hf (t := t) (by omega) (j := 1) (by omega) (by decide)
    rw [outFreq_of_clkDiv hone, Nat.div_one] at hopt'
    have hvle : vco p c ≤ F := by
      split at hopt' <;> omega
    have htwo : clkDiv p t c = 2 := by
      by_contra hne2
      have hbig := lt_vco_of_lt_clkDiv hf (t := t) (by omega) (j := 2) (by omega) (by decide)
      omega
    rw [outFreq_of_clkDiv htwo] at hopt
    split at hopt <;> omega
  · -- it is halved for the clamp: then the target is too high for a divider of 3
    have hbig := lt_vco_of_lt_clkDiv hf (t := t) (by omega) (j := 2) (by omega) (by decide)
    rw [outFreq_of_clkDiv (show clkDiv p 800000 c = 2 by omega)] at hopt'
    split at hopt' <;> omega

/-- An output above the clamp, found for a target below it, is found for the clamp too. -/
theorem outFreq_refound_above {c' : Setting} (ht₁ : 4000 ≤ t) (ht₂ : t < 800000)
    (h : best p t = some c) (hF : 800000 < outFreq p t c) (h' : best p 800000 = some c') :
    outFreq p 800000 c' = outFreq p t c := by
  have hf := feasible_of_best h
  -- the divider of `c` is 1, for both targets
  have hk : clkDiv p t c = 1 := clkDiv_eq_one hf (by omega)
  have hkT : clkDiv p 800000 c = 1 := by
    have hle := clkDiv_antitone (t := t) (by omega) hf (T := 800000) (by omega)
    have hpos := (clkDiv_bounds p 800000 c).1
    omega
  have hclose := vco_le_of_clkDiv_le hf (by omega) (le_of_eq hk) (by decide)
  have houtT : outFreq p 800000 c = outFreq p t c := by
    rw [outFreq_of_clkDiv hk, outFreq_of_clkDiv hkT]
  rw [← Nat.div_one (vco p c), ← outFreq_of_clkDiv hk] at hclose
  have hopt := le_of_best h (List.argmin_mem h')
  have hopt' := le_of_best h' (List.argmin_mem h)
  rw [freqError, if_pos (by omega)] at hopt
  rw [freqError.eq_def p 800000 c, houtT, if_pos (by omega)] at hopt'
  -- so the two searches compare the same two frequencies
  have hsame := clkDiv_same (feasible_of_best h') ht₁ ht₂ hF hclose hopt hopt'
  rw [freqError, outFreq_of_clkDiv hsame, ← outFreq] at hopt
  rw [freqError] at hopt'
  split at hopt <;> split at hopt' <;> omega

/-- **An achieved frequency is found again.** With the output of one search as the target
    of the next, clamped or not, the next search has the same output. -/
theorem outFreq_refound {c' : Setting} (ht₁ : 4000 ≤ t) (ht₂ : t ≤ 800000)
    (h : best p t = some c) (h' : best p (target (outFreq p t c)) = some c') :
    outFreq p (target (outFreq p t c)) c' = outFreq p t c := by
  have hf := feasible_of_best h
  have hmin := hf.outFreq_min t
  by_cases hF : outFreq p t c ≤ 800000
  · -- below the clamp the frequency is found again with no error
    have htarget : target (outFreq p t c) = outFreq p t c := by
      unfold target
      omega
    rw [htarget] at h' ⊢
    have hopt := le_of_best h' (List.argmin_mem h)
    have hsame : outFreq p (outFreq p t c) c = outFreq p t c :=
      outFreq_of_clkDiv (clkDiv_outFreq hf t)
    simp only [freqError, hsame] at hopt
    split at hopt <;> split at hopt <;> omega
  · -- above it the search aims at 800 MHz instead
    have htarget : target (outFreq p t c) = 800000 := by
      unfold target
      omega
    rw [htarget] at h' ⊢
    by_cases ht : t = 800000
    · rw [ht] at h ⊢
      rw [Option.some.inj (h'.symm.trans h)]
    · exact outFreq_refound_above ht₁ (by omega) h (by omega) h'

end ZynqLinux.Dynclk
