import Mathlib.Tactic.Common

namespace ZynqLinux.Lib

/-!
# Bit vectors from their bits

A design that generates one flip-flop or one gate per bit gives a word bit by bit.  `ofBits`
is that word, and `getLsbD_ofBits` reads its bits back.
-/

variable {w : Nat}

/-- The word with the bits `f`, the first of them at the low end. -/
def ofBits (f : Fin w → Bool) : BitVec w := (BitVec.iunfoldr (fun k (_ : Unit) => ((), f k)) ()).2

/-- Bit `k` of the word is `f k`, and beyond the width there is none. -/
theorem getLsbD_ofBits (f : Fin w → Bool) (k : Nat) :
    (ofBits f).getLsbD k = if hk : k < w then f ⟨k, hk⟩ else false := by
  by_cases hk : k < w
  · rw [dif_pos hk]
    exact BitVec.iunfoldr_getLsbD (fun _ => ()) ⟨k, hk⟩ (fun _ => rfl)
  · rw [dif_neg hk]
    exact BitVec.getLsbD_of_ge _ _ (Nat.le_of_not_lt hk)

end ZynqLinux.Lib
