import Mathlib.Data.Nat.Count

namespace ZynqLinux.Lib

/-!
# Differential codes

A code that sends each bit as the combination of the last bit sent and the next data bit,
over sequences of bits of any length.

* `unchain_chain` is the round trip, for every combination that undoes itself;
* `ones` counts the ones among the first bits, and `transitions` the changes;
* `transitions_chain` counts the transitions of the code in the data bits, and
  `transitions_xor` says that inverting the code does not change them.
-/

variable {op : Bool → Bool → Bool} {q q' : Nat → Bool} {n : Nat}

/-- The code of `d`: the first bit as it is, then each bit combined with the code so far. -/
def chain (op : Bool → Bool → Bool) (d : Nat → Bool) : Nat → Bool
  | 0     => d 0
  | i + 1 => op (chain op d i) (d (i + 1))

/-- The decoder: neighbouring bits of the code combined. -/
def unchain (op : Bool → Bool → Bool) (q : Nat → Bool) : Nat → Bool
  | 0     => q 0
  | i + 1 => op (q i) (q (i + 1))

/-- A combination that undoes itself is undone by the decoder, bit by bit. -/
theorem unchain_chain (hop : ∀ a b, op a (op a b) = b) (d : Nat → Bool) (i : Nat) :
    unchain op (chain op d) i = d i := by
  cases i with
  | zero => rfl
  | succ i => exact hop _ _

/-- The decoder looks at the code up to its own place only. -/
theorem unchain_congr {i : Nat} (h : ∀ j ≤ i, q j = q' j) : unchain op q i = unchain op q' i := by
  cases i with
  | zero => exact h 0 (Nat.le_refl 0)
  | succ i => rw [unchain, unchain, h i (Nat.le_succ i), h (i + 1) (Nat.le_refl _)]

/-! ### Ones and transitions -/

/-- The number of ones among the bits below `n`. -/
def ones (q : Nat → Bool) (n : Nat) : Nat := Nat.count (fun i => q i = true) n

/-- One more bit adds one if it is set. -/
theorem ones_succ (q : Nat → Bool) (n : Nat) : ones q (n + 1) = ones q n + (q n).toNat := by
  rw [ones, Nat.count_succ, ← ones]
  cases q n <;> rfl

/-- The first bit taken apart. -/
theorem ones_succ' (q : Nat → Bool) (n : Nat) :
    ones q (n + 1) = ones (fun i => q (i + 1)) n + (q 0).toNat := by
  rw [ones, Nat.count_succ', ← ones]
  cases q 0 <;> rfl

/-- The ones are counted in the first bits only. -/
theorem ones_congr (h : ∀ i < n, q i = q' i) : ones q n = ones q' n := by
  induction n with
  | zero => rfl
  | succ n ih =>
    rw [ones_succ, ones_succ, ih fun i hi => h i (Nat.lt_succ_of_lt hi), h n (Nat.lt_succ_self n)]

/-- Every bit below `n` is a one or a zero. -/
theorem ones_add_ones_not (q : Nat → Bool) (n : Nat) : ones q n + ones (fun i => !q i) n = n := by
  induction n with
  | zero => rfl
  | succ n ih =>
    rw [ones_succ, ones_succ]
    cases q n <;> simp only [Bool.not_false, Bool.not_true, Bool.toNat_false, Bool.toNat_true]
      <;> omega

/-- The number of transitions among the bits up to `n`. -/
def transitions (q : Nat → Bool) (n : Nat) : Nat := ones (fun i => q i ^^ q (i + 1)) n

/-- One more bit adds a transition if it differs from the one before. -/
theorem transitions_succ (q : Nat → Bool) (n : Nat) :
    transitions q (n + 1) = transitions q n + (q n ^^ q (n + 1)).toNat :=
  ones_succ _ n

theorem transitions_succ_le (q : Nat → Bool) (n : Nat) :
    transitions q (n + 1) ≤ transitions q n + 1 := by
  rw [transitions_succ]
  exact Nat.add_le_add_left (Bool.toNat_le _) _

/-- The data bits `f` that make the code change make its transitions. -/
theorem transitions_chain {f : Bool → Bool} (hop : ∀ a b, (a ^^ op a b) = f b) (d : Nat → Bool)
    (n : Nat) : transitions (chain op d) n = ones (fun i => f (d (i + 1))) n :=
  ones_congr fun _ _ => hop _ _

/-- Inverting every bit, or none, keeps the transitions. -/
theorem transitions_xor (inv : Bool) (q : Nat → Bool) (n : Nat) :
    transitions (fun i => inv ^^ q i) n = transitions q n := by
  apply ones_congr
  intro i _
  show ((inv ^^ q i) ^^ (inv ^^ q (i + 1))) = (q i ^^ q (i + 1))
  cases inv <;> cases q i <;> cases q (i + 1) <;> rfl

/-- Transitions depend on the bits up to `n` only. -/
theorem transitions_congr (h : ∀ i ≤ n, q i = q' i) : transitions q n = transitions q' n := by
  apply ones_congr
  intro i hi
  rw [h i (Nat.le_of_lt hi), h (i + 1) hi]

end ZynqLinux.Lib
