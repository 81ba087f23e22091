import Mathlib.Logic.Function.Iterate
import Mathlib.Tactic.Common
import Mathlib.Tactic.TypeStar

namespace ZynqLinux.Lib

/-!
# `while` loops

A C loop whose body may go wrong is `whileLoop cond body`: the body returns `none` where
it has no defined result, and the loop returns `none` if it meets such a body or has not
ended after `fuel` iterations.  Hence `some s` says that the loop ends, that every
iteration is defined, and that `s` is the state it ends in.

`whileLoop_spec` is the total-correctness rule: an invariant and a variant.
`whileLoop_eq_some_iff` finds the result of a loop among the iterates of its body.
-/

variable {σ : Type*}

/-- `while (cond) body`, for at most `fuel` iterations. -/
def whileLoop (cond : σ → Bool) (body : σ → Option σ) : (fuel : Nat) → σ → Option σ
  | 0, _        => none
  | fuel + 1, s => if cond s then (body s).bind (whileLoop cond body fuel) else some s

/-- **Total correctness.** A body that is defined under the invariant, keeps it and lowers
    the variant makes a loop that ends, with the invariant, where the condition fails. -/
theorem whileLoop_spec {cond : σ → Bool} {body : σ → Option σ} {I : σ → Prop} {v : σ → Nat}
    (hbody : ∀ s, I s → cond s = true → ∃ s', body s = some s' ∧ I s' ∧ v s' < v s)
    {fuel : Nat} {s : σ} (hs : I s) (hfuel : v s < fuel) :
    ∃ s', whileLoop cond body fuel s = some s' ∧ I s' ∧ cond s' = false := by
  induction fuel generalizing s with
  | zero => omega
  | succ fuel ih =>
    rw [whileLoop]
    by_cases hc : cond s = true
    · obtain ⟨s₁, hs₁, hI₁, hv₁⟩ := hbody s hs hc
      rw [if_pos hc, hs₁, Option.bind_some]
      exact ih hI₁ (by omega)
    · rw [if_neg hc]
      exact ⟨s, rfl, hs, by simpa using hc⟩

/-- A body that is `f` where it is defined makes a loop that ends in the first iterate of `f`
    at which the condition fails, if the body is defined before. -/
theorem whileLoop_eq_some_iff {cond ok : σ → Bool} {body : σ → Option σ} {f : σ → σ}
    (hbody : ∀ s, body s = if ok s then some (f s) else none) {fuel : Nat} {s s' : σ} :
    whileLoop cond body fuel s = some s' ↔
      ∃ n < fuel, (∀ m < n, cond (f^[m] s) = true ∧ ok (f^[m] s) = true) ∧
        cond (f^[n] s) = false ∧ f^[n] s = s' := by
  induction fuel generalizing s with
  | zero => simp [whileLoop]
  | succ fuel ih =>
    rw [whileLoop]
    by_cases hc : cond s = true
    · rw [if_pos hc, hbody]
      constructor
      · intro h
        -- one pass of the loop, and the rest of it from the state behind
        by_cases hok : ok s = true
        · rw [if_pos hok, Option.bind_some] at h
          obtain ⟨n, hn, hbefore, hend, hs'⟩ := ih.mp h
          refine ⟨n + 1, Nat.succ_lt_succ hn, fun m hm => ?_, hend, hs'⟩
          cases m with
          | zero => exact ⟨hc, hok⟩
          | succ m => exact hbefore m (Nat.lt_of_succ_lt_succ hm)
        · rw [if_neg hok] at h
          exact absurd h (by simp)
      · rintro ⟨n, hn, hbefore, hend, hs'⟩
        cases n with
        | zero => exact absurd hc (by simpa using hend)
        | succ n =>
          have hok : ok s = true := (hbefore 0 n.succ_pos).2
          rw [if_pos hok, Option.bind_some]
          exact ih.mpr ⟨n, Nat.lt_of_succ_lt_succ hn,
            fun m hm => hbefore (m + 1) (Nat.succ_lt_succ hm), hend, hs'⟩
    · rw [if_neg hc, Option.some.injEq]
      constructor
      · intro h
        exact ⟨0, Nat.succ_pos _, fun m hm => absurd hm (Nat.not_lt_zero m), by simpa using hc, h⟩
      · rintro ⟨n, -, hbefore, -, hs'⟩
        cases n with
        | zero => exact hs'
        | succ n => exact absurd (hbefore 0 n.succ_pos).1 hc

end ZynqLinux.Lib
