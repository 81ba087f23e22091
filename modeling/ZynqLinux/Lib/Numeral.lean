import Mathlib.Data.Nat.Notation

namespace ZynqLinux.Lib

/-!
# Numerals

Numbers that are written in the digits of a base up to sixteen, as bytes.

* `digitValue` is the value of a digit, in either case;
* `ofDigits` reads a numeral from its first digit on;
* `ofDigits_toDigits` says that a number is read back from its digits, however they are turned
  into bytes, and `ofDigits_append` what one more digit means;
* `isSome_digitValue_of_mem` says that a numeral is made of digits only.
-/

/-- The value of a digit: '0' to '9', 'A' to 'F' and 'a' to 'f'. -/
def digitValue (b : UInt8) : Option Nat :=
  if 0x30 ≤ b ∧ b ≤ 0x39 then some (b.toNat - 0x30)
  else if 0x41 ≤ b ∧ b ≤ 0x46 then some (b.toNat - 0x41 + 10)
  else if 0x61 ≤ b ∧ b ≤ 0x66 then some (b.toNat - 0x61 + 10)
  else none

/-- The number after one more digit. -/
def pushDigit (base n : Nat) (b : UInt8) : Option Nat :=
  (digitValue b).bind fun d => if d < base then some (base * n + d) else none

/-- The number that a numeral stands for; there is at least one digit. -/
def ofDigits (base : Nat) (bs : List UInt8) : Option Nat :=
  if bs = [] then none else bs.foldlM (pushDigit base) 0

/-- A digit of the base is pushed behind the number read so far. -/
theorem pushDigit_eq_some {base n d : Nat} {b : UInt8} (hb : digitValue b = some d)
    (hd : d < base) : pushDigit base n b = some (base * n + d) := by
  rw [pushDigit, hb, Option.bind_some, if_pos hd]

/-- One more digit at the end of a numeral. -/
theorem ofDigits_append {base n d : Nat} {bs : List UInt8} {b : UInt8}
    (h : ofDigits base bs = some n) (hb : digitValue b = some d) (hd : d < base) :
    ofDigits base (bs ++ [b]) = some (base * n + d) := by
  rw [ofDigits] at h ⊢
  split at h
  · cases h
  · rw [if_neg (by simp), List.foldlM_append, h]
    show ([b].foldlM (pushDigit base) n : Option Nat) = _
    rw [List.foldlM_cons, pushDigit_eq_some hb hd]
    rfl

/-- A numeral of one digit is the value of the digit. -/
theorem ofDigits_singleton {base d : Nat} {b : UInt8} (hb : digitValue b = some d)
    (hd : d < base) : ofDigits base [b] = some d := by
  rw [ofDigits, if_neg (by simp), List.foldlM_cons, pushDigit_eq_some hb hd, Nat.mul_zero,
    Nat.zero_add]
  rfl

/-- A number is read back from its digits, if the digits are turned into bytes that mean them. -/
theorem ofDigits_toDigits {base : Nat} {render : Char → UInt8}
    (hrender : ∀ d < 16, digitValue (render d.digitChar) = some d) (hlt : 1 < base)
    (hle : base ≤ 16) (n : Nat) : ofDigits base ((Nat.toDigits base n).map render) = some n := by
  induction n using Nat.strongRecOn with
  | ind n ih =>
    rw [Nat.toDigits_eq_if hlt]
    split
    · next hn =>
      rw [List.map_singleton]
      exact ofDigits_singleton (hrender n (Nat.lt_of_lt_of_le hn hle)) hn
    · next hn =>
      -- the last digit is the remainder, and those in front of it are the quotient's
      have hmod : n % base < base := Nat.mod_lt n (Nat.zero_lt_of_lt hlt)
      have hdiv : n / base < n := Nat.div_lt_self (by omega) hlt
      rw [List.map_append, List.map_singleton,
        ofDigits_append (ih _ hdiv) (hrender _ (Nat.lt_of_lt_of_le hmod hle)) hmod,
        Nat.div_add_mod]

/-- A digit that was read has a value. -/
theorem isSome_digitValue_of_pushDigit {base n m : Nat} {b : UInt8}
    (h : pushDigit base n b = some m) : (digitValue b).isSome := by
  rw [pushDigit, Option.bind_eq_some_iff] at h
  obtain ⟨d, hd, -⟩ := h
  rw [hd, Option.isSome_some]

/-- A numeral that can be read has nothing but digits. -/
theorem isSome_digitValue_of_foldlM {base n m : Nat} {bs : List UInt8}
    (h : bs.foldlM (pushDigit base) n = some m) : ∀ b ∈ bs, (digitValue b).isSome := by
  induction bs generalizing n with
  | nil => simp
  | cons b bs ih =>
    rw [List.foldlM_cons] at h
    obtain ⟨k, hk, hrest⟩ := Option.bind_eq_some_iff.mp h
    intro c hc
    rcases List.mem_cons.mp hc with rfl | hc
    · exact isSome_digitValue_of_pushDigit hk
    · exact ih hrest c hc

/-- A numeral is made of digits only. -/
theorem isSome_digitValue_of_mem {base n : Nat} {bs : List UInt8}
    (h : ofDigits base bs = some n) : ∀ b ∈ bs, (digitValue b).isSome := by
  rw [ofDigits] at h
  split at h
  · cases h
  · exact isSome_digitValue_of_foldlM h

/-- What is not a digit does not stand in a numeral. -/
theorem not_mem_of_ofDigits {base n : Nat} {bs : List UInt8} {b : UInt8}
    (h : ofDigits base bs = some n) (hb : digitValue b = none) : b ∉ bs := by
  intro hmem
  have hsome := isSome_digitValue_of_mem h b hmem
  rw [hb] at hsome
  cases hsome

end ZynqLinux.Lib
