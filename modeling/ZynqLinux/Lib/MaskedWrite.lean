import Mathlib.Data.List.Nodup
import Mathlib.Logic.Function.Basic

namespace ZynqLinux.Lib

/-!
# Programs of masked writes

A read-modify-write of one register keeps the bits of a mask and sets the bits of a value.
A table of such writes is a program over the register file.

* `exec_of_notMem` is the frame: a register no entry names is left alone;
* `exec_of_mem` says what an entry leaves behind if no other entry has its address.
-/

variable {α : Type*} [DecidableEq α] {w : Nat}

/-- One read-modify-write. -/
structure MaskedWrite (α : Type*) (w : Nat) where
  addr : α
  mask : BitVec w
  set : BitVec w
deriving DecidableEq

namespace MaskedWrite

/-- The new contents of a register that held `old`. -/
def value (e : MaskedWrite α w) (old : BitVec w) : BitVec w := e.set ||| (e.mask &&& old)

/-- The register file after one write. -/
def apply (mem : α → BitVec w) (e : MaskedWrite α w) : α → BitVec w :=
  Function.update mem e.addr (e.value (mem e.addr))

/-- The register file after a table of writes, first entry first. -/
def exec (es : List (MaskedWrite α w)) (mem : α → BitVec w) : α → BitVec w := es.foldl apply mem

@[simp] theorem exec_nil (mem : α → BitVec w) : exec [] mem = mem := rfl

/-- The writes are carried out one after the other. -/
@[simp] theorem exec_cons (e : MaskedWrite α w) (es : List (MaskedWrite α w))
    (mem : α → BitVec w) : exec (e :: es) mem = exec es (apply mem e) := rfl

/-- One more entry of a table is one more masked write behind those of the entries in front of
    it. -/
theorem exec_take_succ {es : List (MaskedWrite α w)} {k : Nat} {e : MaskedWrite α w}
    (h : es[k]? = some e) (mem : α → BitVec w) :
    exec (es.take (k + 1)) mem = apply (exec (es.take k) mem) e := by
  rw [exec, List.take_add_one, h, Option.toList_some, List.foldl_append]
  rfl

@[simp] theorem apply_self (mem : α → BitVec w) (e : MaskedWrite α w) :
    apply mem e e.addr = e.value (mem e.addr) := Function.update_self ..

theorem apply_of_ne {mem : α → BitVec w} {e : MaskedWrite α w} {a : α} (h : a ≠ e.addr) :
    apply mem e a = mem a := Function.update_of_ne h ..

/-- A register that no entry names keeps its contents. -/
theorem exec_of_notMem {es : List (MaskedWrite α w)} {a : α} (h : a ∉ es.map addr)
    (mem : α → BitVec w) : exec es mem a = mem a := by
  induction es generalizing mem with
  | nil => rfl
  | cons e es ih =>
    rw [List.map_cons, List.mem_cons, not_or] at h
    rw [exec_cons, ih h.2, apply_of_ne h.1]

/-- In a table without repeated addresses each entry has its effect on what was there
    before. -/
theorem exec_of_mem {es : List (MaskedWrite α w)} (hnodup : (es.map addr).Nodup)
    {e : MaskedWrite α w} (he : e ∈ es) (mem : α → BitVec w) :
    exec es mem e.addr = e.value (mem e.addr) := by
  induction es generalizing mem with
  | nil => cases he
  | cons e₀ es ih =>
    rw [List.map_cons, List.nodup_cons] at hnodup
    rw [exec_cons]
    rcases List.mem_cons.mp he with rfl | he
    · -- the addresses differ, so no later write touches this one
      rw [exec_of_notMem hnodup.1, apply_self]
    · rw [ih hnodup.2 he, apply_of_ne]
      intro heq
      exact hnodup.1 (heq ▸ List.mem_map_of_mem he)

end MaskedWrite

end ZynqLinux.Lib
