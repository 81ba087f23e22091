import ZynqLinux.Lib.Bits

namespace ZynqLinux.Lib

/-!
# Word memories with byte strobes

The abstract memory behind a register bank: `n` words of `w` bits.  A write names a word,
new contents and one strobe bit per byte; it replaces the bytes whose strobe is set and
leaves every other bit of the memory.
-/

variable {n w : Nat}

/-- A word with the strobed bytes replaced. -/
def strobed (old data : BitVec w) (strb : BitVec (w / 8)) : BitVec w :=
  ofBits fun k : Fin w => if strb.getLsbD (k / 8) then data.getLsbD k else old.getLsbD k

/-- A bit comes from the new contents exactly if the strobe of its byte is set. -/
theorem getLsbD_strobed (old data : BitVec w) (strb : BitVec (w / 8)) {k : Nat} (hk : k < w) :
    (strobed old data strb).getLsbD k
      = if strb.getLsbD (k / 8) then data.getLsbD k else old.getLsbD k := by
  rw [strobed, getLsbD_ofBits, dif_pos hk]

/-- With every strobe set the whole word is replaced, if it is made of whole bytes. -/
theorem strobed_allOnes (hw : 8 ∣ w) (old data : BitVec w) :
    strobed old data (BitVec.allOnes (w / 8)) = data := by
  apply BitVec.eq_of_getLsbD_eq
  intro k hk
  have hbyte : k / 8 < w / 8 := Nat.div_lt_div_of_lt_of_dvd hw hk
  rw [getLsbD_strobed _ _ _ hk, BitVec.getLsbD_allOnes, decide_eq_true hbyte, if_pos rfl]

/-- A memory of `n` words. -/
abbrev Memory (n w : Nat) := Fin n → BitVec w

namespace Memory

/-- The memory of zeros. -/
def zero : Memory n w := fun _ => 0

/-- A strobed write to word `idx`; an index past the end writes nothing. -/
def write (mem : Memory n w) (idx : Nat) (data : BitVec w) (strb : BitVec (w / 8)) : Memory n w :=
  fun j => if j = idx then strobed (mem j) data strb else mem j

/-- What a read of word `idx` gives; undefined past the end. -/
def read (mem : Memory n w) (idx : Nat) : Option (BitVec w) :=
  if h : idx < n then some (mem ⟨idx, h⟩) else none

/-- The bits of a memory after a write. -/
theorem getLsbD_write (mem : Memory n w) (idx : Nat) (data : BitVec w) (strb : BitVec (w / 8))
    (j : Fin n) {k : Nat} (hk : k < w) :
    (mem.write idx data strb j).getLsbD k
      = if idx = j ∧ strb.getLsbD (k / 8) = true then data.getLsbD k else (mem j).getLsbD k := by
  rw [write]
  by_cases hj : (j : Nat) = idx
  · rw [if_pos hj, getLsbD_strobed _ _ _ hk]
    simp [hj]
  · rw [if_neg hj, if_neg (fun h => hj h.1.symm)]

end Memory

end ZynqLinux.Lib
