import ZynqLinux.Dynclk.Settings
import ZynqLinux.Lib.BestSoFar
import ZynqLinux.Lib.While
import ZynqLinux.Lib.Word32

namespace ZynqLinux.Dynclk

open ZynqLinux.Lib

/-!
# `dglnt_dynclk_find_mode`

The search as the driver runs it: two nested loops over `u32` locals, with every division
and every product in 32 bits.  `findMode_eq` shows that it ends, divides by no zero and
returns what the search over the natural numbers (`best`) returns, for every frequency and
every parent.  A parent above 1200000 makes some intermediate results wrap, but then no
setting is tried.
-/

/-- `struct dglnt_dynclk_mode`. -/
structure Mode where
  freq : UInt32
  fbmult : UInt32
  clkdiv : UInt32
  maindiv : UInt32
deriving DecidableEq, Repr

/-- The locals of the search that live across iterations, and `*bestPick`. -/
structure Locals where
  bestError : UInt32
  curFb : UInt32
  curDiv : UInt32
  freqFound : Bool
  bestPick : Mode

/-- More iterations than a `u32` counter can make. -/
def loopFuel : Nat := 2 ^ 32

/-- `DIV_ROUND_UP`. -/
def divRoundUp (n d : UInt32) : Option UInt32 := udiv (n + d - 1) d

/-- The mode the inner loop computes for one pair of multiplier and main divider. -/
def curPick (parentFreq curClkMult curFb curDiv : UInt32) : Option Mode := do
  let curClkDiv := (curClkMult * curFb + 500) / 1000
  -- MMCM_CLKDIV_MAX and MMCM_CLKDIV_MIN
  let curClkDiv := if curClkDiv > 128 then 128 else curClkDiv
  let curClkDiv := if curClkDiv < 1 then 1 else curClkDiv
  let curVco ← udiv (parentFreq * curFb) curDiv
  let curFreq ← udiv curVco curClkDiv
  return ⟨curFreq, curFb, curClkDiv, curDiv⟩

/-- `curError`. -/
def curError (freq curFreq : UInt32) : UInt32 :=
  if curFreq ≥ freq then curFreq - freq else freq - curFreq

/-- The rest of the body: keep a better pick, note an exact one, go to the next multiplier. -/
def keepBest (error : UInt32) (pick : Mode) (s : Locals) : Locals :=
  let s := if error < s.bestError then { s with bestError := error, bestPick := pick } else s
  let s := if error = 0 then { s with freqFound := true } else s
  { s with curFb := s.curFb + 1 }

/-- The body of the inner loop. -/
def tryFb (freq parentFreq curClkMult : UInt32) (s : Locals) : Option Locals := do
  let pick ← curPick parentFreq curClkMult s.curFb s.curDiv
  return keepBest (curError freq pick.freq) pick s

/-- The body of the outer loop. -/
def tryDiv (freq parentFreq : UInt32) (s : Locals) : Option Locals := do
  -- MMCM_FREQ_VCOMIN and MMCM_FREQ_VCOMAX, then MMCM_FB_MAX and MMCM_FB_MIN
  let minFb := s.curDiv * (← divRoundUp 600000 parentFreq)
  let maxFb := s.curDiv * (← udiv 1200000 parentFreq)
  let maxFb := if maxFb > 64 then 64 else maxFb
  let minFb := if minFb < 2 then 2 else minFb
  -- the multiplier from which the output divider of each feedback value is found
  let divVal := s.curDiv * freq
  let curClkMult ← udiv (parentFreq * 1000 + divVal / 2) divVal
  let s ← whileLoop (fun s => s.curFb ≤ maxFb && !s.freqFound)
    (tryFb freq parentFreq curClkMult) loopFuel { s with curFb := minFb }
  return { s with curDiv := s.curDiv + 1 }

/-- `dglnt_dynclk_find_mode`: the return value and `*bestPick`, which is not initialised by
    the callers. -/
def findMode (freq parentFreq : UInt32) (bestPick : Mode) : Option (UInt32 × Mode) := do
  let bestPick := { bestPick with freq := 0 }
  if parentFreq = 0 then
    return (0, bestPick)
  -- MMCM_FREQ_OUTMIN and MMCM_FREQ_OUTMAX
  let freq := if freq < 4000 then 4000 else freq
  let freq := if freq > 800000 then 800000 else freq
  -- MMCM_FREQ_PFDMAX, MMCM_FREQ_PFDMIN and MMCM_DIV_MAX
  let curDiv := if parentFreq > 450000 then 2 else 1
  let maxDiv := parentFreq / 10000
  let maxDiv := if maxDiv > 106 then 106 else maxDiv
  let s ← whileLoop (fun s => s.curDiv ≤ maxDiv && !s.freqFound)
    (tryDiv freq parentFreq) loopFuel ⟨800000, 0, curDiv, false, bestPick⟩
  return (s.bestPick.freq, s.bestPick)

/-- A counter of 32 bits makes fewer iterations than the loops are given. -/
theorem lt_loopFuel {v n : Nat} (hv : v ≤ n) (hn : n < 2 ^ 32) : v < loopFuel :=
  Nat.lt_of_le_of_lt hv hn

/-! ### The inner loop -/

section
variable {p t : Nat} {pick : Mode} {l : List Setting} {c : Setting} {s : Locals}

/-- The mode of a setting. -/
def modeOf (p t : Nat) (c : Setting) : Mode :=
  ⟨UInt32.ofNat (outFreq p t c), UInt32.ofNat c.fbmult, UInt32.ofNat (clkDiv p t c),
    UInt32.ofNat c.maindiv⟩

/-- After the settings `l` the locals hold the first one of least error, or still `pick`. -/
structure Tracks (p t : Nat) (pick : Mode) (l : List Setting) (s : Locals) : Prop where
  best : ∃ b, BestSoFar (freqError p t) 800000 l s.bestError.toNat b ∧
    s.bestPick = b.elim pick (modeOf p t)
  found : s.freqFound = true ↔ s.bestError.toNat = 0

/-- With an exact setting in hand, the settings that follow change nothing. -/
theorem Tracks.of_found {l' : List Setting} (h : Tracks p t pick l s) (hfound : s.freqFound = true)
    (hl : l <+: l') : Tracks p t pick l' s := by
  obtain ⟨⟨b, hbest, hpick⟩, hiff⟩ := h
  have hzero := hiff.mp hfound
  rw [hzero] at hbest
  refine ⟨⟨b, ?_, hpick⟩, hiff⟩
  rw [hzero]
  exact hbest.extend (by decide) hl

/-- No 32-bit operation of the inner loop wraps on a feasible setting. -/
theorem curPick_spec {parentFreq curClkMult curFb curDiv : UInt32} (ht : 4000 ≤ t)
    (hf : Feasible parentFreq.toNat ⟨curDiv.toNat, curFb.toNat⟩)
    (hmult : curClkMult.toNat = clkMult parentFreq.toNat t curDiv.toNat) :
    curPick parentFreq curClkMult curFb curDiv
      = some (modeOf parentFreq.toNat t ⟨curDiv.toNat, curFb.toNat⟩) := by
  have hd : 0 < curDiv.toNat := hf.maindiv_pos
  have hd' : curDiv.toNat ≤ 106 := hf.maindiv_max
  have hsmall : clkMult parentFreq.toNat t curDiv.toNat * curFb.toNat < 400000 :=
    clkMult_mul_lt hf ht
  have hvco : parentFreq.toNat * curFb.toNat ≤ 1200000 * curDiv.toNat := hf.vco_max
  have hmul : (curClkMult * curFb).toNat = curClkMult.toNat * curFb.toNat :=
    toNat_mul_of_lt (by rw [hmult]; omega)
  -- the output divider
  have hclkDiv : ((curClkMult * curFb + 500) / 1000).toNat
      = (clkMult parentFreq.toNat t curDiv.toNat * curFb.toNat + 500) / 1000 := by
    rw [UInt32.toNat_div, toNat_add_of_lt, hmul, hmult]
    · rfl
    · rw [hmul, hmult]
      exact Nat.lt_of_lt_of_le (Nat.add_lt_add_right hsmall _) (by decide)
  unfold curPick
  generalize hx : (curClkMult * curFb + 500) / 1000 = x at hclkDiv ⊢
  generalize hk : (if (if x > 128 then 128 else x) < 1 then 1 else if x > 128 then 128 else x) = k
  have hkN : k.toNat = clkDiv parentFreq.toNat t ⟨curDiv.toNat, curFb.toNat⟩ := by
    rw [← hk, toNat_clampMin, toNat_clampMax, hclkDiv]
    rfl
  -- the two divisions
  obtain ⟨v, hv, hvN⟩ := udiv_of_pos (parentFreq * curFb) hd
  obtain ⟨f, hf', hfN⟩ := udiv_of_pos v (b := k) (by rw [hkN]; exact (clkDiv_bounds _ _ _).1)
  rw [toNat_mul_of_lt (by omega)] at hvN
  have hfreq : f.toNat = outFreq parentFreq.toNat t ⟨curDiv.toNat, curFb.toNat⟩ := by
    rw [hfN, hvN, hkN]
    rfl
  simp only [hk, hv, hf', Option.bind_eq_bind, Option.bind_some, modeOf, ← hfreq, ← hkN,
    UInt32.ofNat_toNat]
  rfl

section keepBest
variable (error : UInt32) (m : Mode) (s : Locals)

/-- The error kept is the smaller one. -/
theorem keepBest_bestError :
    (keepBest error m s).bestError = if error < s.bestError then error else s.bestError := by
  unfold keepBest
  split <;> split <;> rfl

/-- The mode kept goes with it: a mode with the same error does not replace an earlier one. -/
theorem keepBest_bestPick :
    (keepBest error m s).bestPick = if error < s.bestError then m else s.bestPick := by
  unfold keepBest
  split <;> split <;> rfl

/-- The search stops for a frequency that is met exactly. -/
theorem keepBest_freqFound :
    (keepBest error m s).freqFound = true ↔ error = 0 ∨ s.freqFound = true := by
  unfold keepBest
  split <;> split <;> simp_all

/-- A pass of the inner loop goes on to the next multiplier. -/
theorem keepBest_curFb : (keepBest error m s).curFb = s.curFb + 1 := by
  unfold keepBest
  split <;> split <;> rfl

theorem keepBest_curDiv : (keepBest error m s).curDiv = s.curDiv := by
  unfold keepBest
  split <;> split <;> rfl

end keepBest

/-- One more setting is tracked: the error and the mode kept are those of the best setting
    tried so far, this one included. -/
theorem keepBest_tracks {error : UInt32} (h : Tracks p t pick l s)
    (herror : error.toNat = freqError p t c) (hlt : freqError p t c < 800000) :
    Tracks p t pick (l ++ [c]) (keepBest error (modeOf p t c) s) := by
  obtain ⟨⟨b, hbest, hpick⟩, hfound⟩ := h
  have hzero : error = 0 ↔ error.toNat = 0 := by
    rw [← UInt32.toNat_inj]
    rfl
  by_cases hbetter : error < s.bestError
  · have hbetter' := UInt32.lt_iff_toNat_lt.mp hbetter
    refine ⟨⟨some c, ?_, ?_⟩, ?_⟩
    · rw [keepBest_bestError, if_pos hbetter, herror]
      exact hbest.improve (by omega)
    · rw [keepBest_bestPick, if_pos hbetter]
      rfl
    · rw [keepBest_freqFound, keepBest_bestError, if_pos hbetter, hzero, hfound]
      omega
  · have hworse : s.bestError.toNat ≤ error.toNat := by
      rw [UInt32.lt_iff_toNat_lt] at hbetter
      omega
    refine ⟨⟨b, ?_, ?_⟩, ?_⟩
    · rw [keepBest_bestError, if_neg hbetter]
      exact hbest.keep (by omega) hlt
    · rw [keepBest_bestPick, if_neg hbetter]
      exact hpick
    · rw [keepBest_freqFound, keepBest_bestError, if_neg hbetter, hzero, hfound]
      omega

/-- One pass of the inner loop on a feasible setting. -/
theorem tryFb_spec {freq parentFreq curClkMult : UInt32} (ht₁ : 4000 ≤ freq.toNat)
    (ht₂ : freq.toNat ≤ 800000)
    (hf : Feasible parentFreq.toNat ⟨s.curDiv.toNat, s.curFb.toNat⟩)
    (hmult : curClkMult.toNat = clkMult parentFreq.toNat freq.toNat s.curDiv.toNat)
    (h : Tracks parentFreq.toNat freq.toNat pick l s) :
    ∃ s', tryFb freq parentFreq curClkMult s = some s' ∧ s'.curDiv = s.curDiv ∧
      s'.curFb = s.curFb + 1 ∧
      Tracks parentFreq.toNat freq.toNat pick (l ++ [⟨s.curDiv.toNat, s.curFb.toNat⟩]) s' := by
  have hout : outFreq parentFreq.toNat freq.toNat ⟨s.curDiv.toNat, s.curFb.toNat⟩ < 2 ^ 32 :=
    lt_of_le_of_lt (Nat.div_le_self _ _) (lt_of_le_of_lt hf.vco_bounds.2 (by decide))
  have herror : (curError freq
        (modeOf parentFreq.toNat freq.toNat ⟨s.curDiv.toNat, s.curFb.toNat⟩).freq).toNat
      = freqError parentFreq.toNat freq.toNat ⟨s.curDiv.toNat, s.curFb.toNat⟩ := by
    rw [curError, toNat_distance, modeOf, UInt32.toNat_ofNat_of_lt' hout]
    rfl
  refine ⟨_, ?_, keepBest_curDiv _ _ _, keepBest_curFb _ _ _,
    keepBest_tracks h herror (freqError_lt hf ht₁ ht₂)⟩
  rw [tryFb, curPick_spec ht₁ hf hmult]
  rfl

/-- The rule of both loops.  The counter `k` runs from `lo` to `n`; `tried i` is what has been
    tried when it is at `i`, and `R` is kept besides. -/
theorem scanLoop_spec {k : Locals → UInt32} {n : UInt32} {body : Locals → Option Locals}
    {R : Locals → Prop} {lo : Nat} {tried : Nat → List Setting}
    (hmono : ∀ {i j : Nat}, i ≤ j → tried i <+: tried j)
    (hlow : ∀ {i : Nat}, i ≤ lo → tried i = tried lo) (hhi : n.toNat < 2 ^ 31)
    (hbody : ∀ s, R s → lo ≤ (k s).toNat → (k s).toNat ≤ n.toNat →
      Tracks p t pick (tried (k s).toNat) s →
      ∃ s', body s = some s' ∧ R s' ∧ k s' = k s + 1 ∧
        Tracks p t pick (tried ((k s).toNat + 1)) s')
    (hR : R s) (hs : (k s).toNat = lo) (h : Tracks p t pick (tried lo) s) :
    ∃ s', whileLoop (fun s => k s ≤ n && !s.freqFound) body loopFuel s = some s' ∧ R s' ∧
      Tracks p t pick (tried (n.toNat + 1)) s' := by
  -- the counter has not run past `n + 1`, unless it started there
  let I (s : Locals) : Prop := R s ∧ lo ≤ (k s).toNat ∧
    ((k s).toNat ≤ n.toNat + 1 ∨ (k s).toNat = lo) ∧
    Tracks p t pick (tried (k s).toNat) s
  have hstart : I s := ⟨hR, Nat.le_of_eq hs.symm, .inr hs, by rwa [hs]⟩
  have hstep : ∀ s₁, I s₁ → (k s₁ ≤ n && !s₁.freqFound) = true →
      ∃ s₂, body s₁ = some s₂ ∧ I s₂ ∧
        n.toNat + 1 - (k s₂).toNat < n.toNat + 1 - (k s₁).toNat := by
    rintro s₁ ⟨hR₁, hlo, -, htrack⟩ hcond
    rw [Bool.and_eq_true, decide_eq_true_eq, UInt32.le_iff_toNat_le] at hcond
    obtain ⟨s₂, hs₂, hR₂, hcount, htrack₂⟩ := hbody s₁ hR₁ hlo hcond.1 htrack
    have hcountN : (k s₂).toNat = (k s₁).toNat + 1 := by
      rw [hcount, toNat_add_one_of_lt (by omega)]
    refine ⟨s₂, hs₂, ⟨hR₂, by omega, .inl (by omega), ?_⟩, by omega⟩
    rwa [hcountN]
  obtain ⟨s', hs', ⟨hR', hlo, hend, htrack⟩, hexit⟩ := whileLoop_spec (I := I)
    (v := fun s => n.toNat + 1 - (k s).toNat) hstep hstart
    (lt_loopFuel (Nat.sub_le _ _) (by omega))
  refine ⟨s', hs', hR', ?_⟩
  have hsub : tried (k s').toNat <+: tried (n.toNat + 1) := by
    rcases hend with hend | hend
    · exact hmono hend
    · rcases Nat.le_total lo (n.toNat + 1) with hle | hle
      · exact hmono (by omega)
      · have hsame : tried (k s').toNat = tried (n.toNat + 1) := by rw [hend, hlow hle]
        exact hsame ▸ List.prefix_refl _
  rw [Bool.and_eq_false_iff, decide_eq_false_iff_not, UInt32.le_iff_toNat_le] at hexit
  rcases hexit with hpast | hfound
  · -- everything was tried
    rwa [hsub.eq_of_length_le (hmono (by omega)).length_le] at htrack
  · -- an exact setting was found
    exact htrack.of_found (by simpa using hfound) hsub

/-- The inner loop tries the settings of one main divider, or stops at an exact one. -/
theorem innerLoop_spec {freq parentFreq curClkMult fb₀ fb₁ : UInt32} (ht₁ : 4000 ≤ freq.toNat)
    (ht₂ : freq.toNat ≤ 800000)
    (hd₁ : minDiv parentFreq.toNat ≤ s.curDiv.toNat) (hd₂ : s.curDiv.toNat ≤ maxDiv parentFreq.toNat)
    (hfb₀ : fb₀.toNat = minFb parentFreq.toNat s.curDiv.toNat)
    (hfb₁ : fb₁.toNat = maxFb parentFreq.toNat s.curDiv.toNat)
    (hmult : curClkMult.toNat = clkMult parentFreq.toNat freq.toNat s.curDiv.toNat)
    (h : Tracks parentFreq.toNat freq.toNat pick (outerSettings parentFreq.toNat s.curDiv.toNat) s) :
    ∃ s', whileLoop (fun s => s.curFb ≤ fb₁ && !s.freqFound) (tryFb freq parentFreq curClkMult)
        loopFuel { s with curFb := fb₀ } = some s' ∧ s'.curDiv = s.curDiv ∧
      Tracks parentFreq.toNat freq.toNat pick
        (outerSettings parentFreq.toNat (s.curDiv.toNat + 1)) s' := by
  rw [outerSettings_succ hd₁, ← hfb₁]
  refine scanLoop_spec (R := fun s' => s'.curDiv = s.curDiv)
    (fun hle => (List.prefix_append_right_inj _).mpr (innerSettings_mono _ _ hle))
    (fun hle => by rw [innerSettings_of_le hle, innerSettings_of_le (Nat.le_refl _)])
    ?_ ?_ rfl hfb₀ ?_
  · rw [hfb₁]
    exact lt_of_le_of_lt (maxFb_le _ _) (by decide)
  · intro s₁ hdiv hlo hhi htrack
    rw [hfb₁] at hhi
    rw [← hdiv] at hd₁ hd₂ hlo hhi hmult htrack ⊢
    have hf : Feasible parentFreq.toNat ⟨s₁.curDiv.toNat, s₁.curFb.toNat⟩ :=
      feasible_of_mem (mem_settings.mpr ⟨⟨hd₁, hd₂⟩, hlo, hhi⟩)
    obtain ⟨s₂, hs₂, hdiv₂, hfb₂, htrack₂⟩ := tryFb_spec ht₁ ht₂ hf hmult htrack
    refine ⟨s₂, hs₂, hdiv₂, hfb₂, ?_⟩
    rwa [innerSettings_succ hlo, ← List.append_assoc]
  · rw [innerSettings_of_le (Nat.le_refl _), List.append_nil]
    exact ⟨h.best, h.found⟩

/-! ### The outer loop -/

/-- For a parent above the range of the VCO the inner loop has nothing to try. -/
theorem innerLoop_empty {fb₁ : UInt32} {body : Locals → Option Locals} (h : fb₁ < s.curFb) :
    whileLoop (fun s => s.curFb ≤ fb₁ && !s.freqFound) body loopFuel s = some s := by
  have hcond : (s.curFb ≤ fb₁ && !s.freqFound) = false := by
    rw [Bool.and_eq_false_iff, decide_eq_false_iff_not]
    exact .inl (UInt32.not_le.mpr h)
  show (if (s.curFb ≤ fb₁ && !s.freqFound) = true then _ else some s) = some s
  rw [hcond]
  rfl

section
variable {parentFreq freq curDiv : UInt32}

/-- The sum in `DIV_ROUND_UP` fits in 32 bits for the parents that are searched. -/
theorem toNat_roundUp (hp : 0 < parentFreq.toNat) (hbig : parentFreq.toNat ≤ 1200000) :
    (600000 + parentFreq - 1).toNat = 600000 + parentFreq.toNat - 1 := by
  have hadd : (600000 + parentFreq).toNat = 600000 + parentFreq.toNat :=
    toNat_add_of_lt (lt_of_le_of_lt (Nat.add_le_add_left hbig _) (by decide))
  rw [UInt32.toNat_sub_of_le, hadd, UInt32.toNat_one]
  rw [UInt32.le_iff_toNat_le, hadd, UInt32.toNat_one]
  omega

/-- The product of the main divider and the target fits in 32 bits. -/
theorem toNat_divVal (hd : curDiv.toNat ≤ 106) (ht : freq.toNat ≤ 800000) :
    (curDiv * freq).toNat = curDiv.toNat * freq.toNat :=
  toNat_mul_of_lt (lt_of_le_of_lt (Nat.mul_le_mul hd ht) (by decide))

/-- So does the numerator of the ratio in thousandths, with half the divisor added for the
    rounding. -/
theorem toNat_multNumerator (hd : curDiv.toNat ≤ 106) (ht : freq.toNat ≤ 800000)
    (hbig : parentFreq.toNat ≤ 1200000) :
    (parentFreq * 1000 + curDiv * freq / 2).toNat
      = parentFreq.toNat * 1000 + curDiv.toNat * freq.toNat / 2 := by
  have hmul : (parentFreq * 1000).toNat = parentFreq.toNat * 1000 :=
    toNat_mul_of_lt (lt_of_le_of_lt (Nat.mul_le_mul_right _ hbig) (by decide))
  have hhalf : (curDiv * freq / 2).toNat = curDiv.toNat * freq.toNat / 2 := by
    rw [UInt32.toNat_div, toNat_divVal hd ht]
    rfl
  have hle : curDiv.toNat * freq.toNat ≤ 106 * 800000 := Nat.mul_le_mul hd ht
  rw [toNat_add_of_lt, hmul, hhalf]
  rw [hmul, hhalf]
  omega

/-- A product with a main divider fits in 32 bits, since the main divider is at most 106. -/
theorem toNat_curDiv_mul {x : UInt32} (hd : curDiv.toNat ≤ 106) (hx : x.toNat ≤ 1800000) :
    (curDiv * x).toNat = curDiv.toNat * x.toNat :=
  toNat_mul_of_lt (lt_of_le_of_lt (Nat.mul_le_mul hd hx) (by decide))

end

/-- One pass of the outer loop tries the settings of its main divider, in the order of the
    inner loop, and goes on to the next one. -/
theorem tryDiv_spec {freq parentFreq : UInt32} (ht₁ : 4000 ≤ freq.toNat)
    (ht₂ : freq.toNat ≤ 800000)
    (hd₁ : minDiv parentFreq.toNat ≤ s.curDiv.toNat) (hd₂ : s.curDiv.toNat ≤ maxDiv parentFreq.toNat)
    (h : Tracks parentFreq.toNat freq.toNat pick (outerSettings parentFreq.toNat s.curDiv.toNat) s) :
    ∃ s', tryDiv freq parentFreq s = some s' ∧ s'.curDiv = s.curDiv + 1 ∧
      Tracks parentFreq.toNat freq.toNat pick
        (outerSettings parentFreq.toNat (s.curDiv.toNat + 1)) s' := by
  have hd0 : 0 < s.curDiv.toNat := lt_of_lt_of_le (minDiv_pos _) hd₁
  have hd106 : s.curDiv.toNat ≤ 106 := hd₂.trans (maxDiv_le _)
  have hp : 0 < parentFreq.toNat := by
    have hle : s.curDiv.toNat ≤ parentFreq.toNat / 10000 := hd₂.trans (Nat.min_le_left _ _)
    omega
  have hdivVal := toNat_divVal hd106 ht₂
  have hdivVal0 : 0 < (s.curDiv * freq).toNat := by
    rw [hdivVal]
    exact Nat.mul_pos hd0 (by omega)
  -- no divisor is 0
  obtain ⟨up, hup, hupN⟩ := udiv_of_pos (600000 + parentFreq - 1) hp
  obtain ⟨down, hdown, hdownN⟩ := udiv_of_pos 1200000 hp
  obtain ⟨mult, hmult, hmultN⟩ := udiv_of_pos (parentFreq * 1000 + s.curDiv * freq / 2) hdivVal0
  simp only [tryDiv, divRoundUp, hup, hdown, hmult, Option.bind_eq_bind, Option.bind_some]
  generalize hfb₁ : (if s.curDiv * down > 64 then 64 else s.curDiv * down) = fb₁
  generalize hfb₀ : (if s.curDiv * up < 2 then 2 else s.curDiv * up) = fb₀
  have hfb₁N : fb₁.toNat = maxFb parentFreq.toNat s.curDiv.toNat := by
    have hle : down.toNat ≤ 1800000 := hdownN ▸ le_trans (Nat.div_le_self _ _) (by decide)
    rw [← hfb₁, toNat_clampMax, toNat_curDiv_mul hd106 hle, hdownN]
    rfl
  by_cases hbig : parentFreq.toNat ≤ 1200000
  · have hfb₀N : fb₀.toNat = minFb parentFreq.toNat s.curDiv.toNat := by
      have hle : up.toNat ≤ 1800000 := by
        rw [hupN, toNat_roundUp hp hbig]
        exact le_trans (Nat.div_le_self _ _) (by omega)
      rw [← hfb₀, toNat_clampMin, toNat_curDiv_mul hd106 hle, hupN, toNat_roundUp hp hbig]
      rfl
    have hmultN' : mult.toNat = clkMult parentFreq.toNat freq.toNat s.curDiv.toNat := by
      rw [hmultN, hdivVal, toNat_multNumerator hd106 ht₂ hbig]
      rfl
    obtain ⟨s', hs', hdiv, htrack⟩ := innerLoop_spec ht₁ ht₂ hd₁ hd₂ hfb₀N hfb₁N hmultN' h
    refine ⟨{ s' with curDiv := s'.curDiv + 1 }, ?_, by rw [hdiv], ⟨htrack.best, htrack.found⟩⟩
    rw [hs']
    rfl
  · -- the products may wrap, but the inner loop is empty
    have hmax : maxFb parentFreq.toNat s.curDiv.toNat = 0 := by
      rw [maxFb, Nat.div_eq_of_lt (by omega)]
      rfl
    have hlt : fb₁ < fb₀ := by
      rw [UInt32.lt_iff_toNat_lt, hfb₁N, hmax, ← hfb₀, toNat_clampMin]
      exact Nat.lt_of_lt_of_le (by decide) (Nat.le_max_right _ _)
    refine ⟨{ s with curFb := fb₀, curDiv := s.curDiv + 1 }, ?_, rfl, ?_⟩
    · rw [innerLoop_empty (s := { s with curFb := fb₀ }) hlt]
      rfl
    · have hnone : innerSettings parentFreq.toNat s.curDiv.toNat 1 = [] :=
        innerSettings_of_le (le_trans (by decide) (Nat.le_max_right _ _))
      rw [outerSettings_succ hd₁, hmax, hnone, List.append_nil]
      exact ⟨h.best, h.found⟩

/-- The outer loop tries all settings, or stops at an exact one. -/
theorem outerLoop_spec {freq parentFreq d₁ : UInt32} (ht₁ : 4000 ≤ freq.toNat)
    (ht₂ : freq.toNat ≤ 800000) (hd₀ : s.curDiv.toNat = minDiv parentFreq.toNat)
    (hd₁ : d₁.toNat = maxDiv parentFreq.toNat)
    (h : Tracks parentFreq.toNat freq.toNat pick [] s) :
    ∃ s', whileLoop (fun s => s.curDiv ≤ d₁ && !s.freqFound) (tryDiv freq parentFreq) loopFuel s
        = some s' ∧ Tracks parentFreq.toNat freq.toNat pick (settings parentFreq.toNat) s' := by
  have hscan := scanLoop_spec (R := fun _ => True) (k := Locals.curDiv) (n := d₁)
    (outerSettings_mono parentFreq.toNat)
    (fun hle => by rw [outerSettings_of_le hle, outerSettings_of_le (Nat.le_refl _)])
    (by rw [hd₁]; exact lt_of_le_of_lt (maxDiv_le _) (by decide))
    (fun s₁ _ hlo hhi htrack => by
      rw [hd₁] at hhi
      obtain ⟨s₂, hs₂, hdiv, htrack₂⟩ := tryDiv_spec ht₁ ht₂ hlo hhi htrack
      exact ⟨s₂, hs₂, trivial, hdiv, htrack₂⟩)
    trivial hd₀ (by rwa [outerSettings_of_le (Nat.le_refl _)])
  obtain ⟨s', hs', -, htrack⟩ := hscan
  refine ⟨s', hs', ?_⟩
  rwa [settings, ← hd₁]

/-- **The search, exactly.** For every frequency, every parent and whatever `*bestPick`
    held, the function ends without a division by zero, and the pick is the first setting of
    least error that the search over the natural numbers finds. -/
theorem findMode_eq (freq parentFreq : UInt32) (bestPick : Mode) :
    ∃ m, findMode freq parentFreq bestPick = some (m.freq, m) ∧
      m = (best parentFreq.toNat (target freq.toNat)).elim { bestPick with freq := 0 }
        (modeOf parentFreq.toNat (target freq.toNat)) := by
  by_cases hzero : parentFreq = 0
  · refine ⟨{ bestPick with freq := 0 }, ?_, ?_⟩
    · rw [findMode, if_pos hzero]
      rfl
    · rw [hzero, best_eq_none_iff.mpr (by decide)]
      rfl
  simp only [findMode, if_neg hzero]
  generalize ht : (if (if freq < 4000 then 4000 else freq) > 800000 then 800000
    else if freq < 4000 then 4000 else freq) = t
  have htN : t.toNat = target freq.toNat := by
    rw [← ht, toNat_clampMax, toNat_clampMin]
    rfl
  have ht₁ : 4000 ≤ t.toNat ∧ t.toNat ≤ 800000 := by
    rw [htN, target]
    omega
  generalize hd₀ : (if parentFreq > 450000 then (2 : UInt32) else 1) = d₀
  have hd₀N : d₀.toNat = minDiv parentFreq.toNat := by
    have hiff : parentFreq > 450000 ↔ parentFreq.toNat > 450000 := UInt32.lt_iff_toNat_lt
    rw [← hd₀, minDiv]
    by_cases hgt : parentFreq > 450000
    · rw [if_pos hgt, if_pos (hiff.mp hgt)]
      rfl
    · rw [if_neg hgt, if_neg (fun hgt' => hgt (hiff.mpr hgt'))]
      rfl
  generalize hd₁ : (if parentFreq / 10000 > 106 then 106 else parentFreq / 10000) = d₁
  have hd₁N : d₁.toNat = maxDiv parentFreq.toNat := by
    rw [← hd₁, toNat_clampMax, UInt32.toNat_div]
    rfl
  have hstart : Tracks parentFreq.toNat t.toNat { bestPick with freq := 0 } []
      ⟨800000, 0, d₀, false, { bestPick with freq := 0 }⟩ :=
    ⟨⟨none, .nil _ _, rfl⟩, by simp⟩
  obtain ⟨s', hs', ⟨b, hbest, hpick⟩, -⟩ := outerLoop_spec ht₁.1 ht₁.2 hd₀N hd₁N hstart
  refine ⟨s'.bestPick, ?_, ?_⟩
  · rw [hs']
    rfl
  · rw [hpick, ← htN, best, hbest.argmin]

end

end ZynqLinux.Dynclk
