import Mathlib.Data.List.TakeWhile

namespace ZynqLinux.Lib

/-!
# C strings

A `CString` is the bytes of a string in front of its NUL.  A buffer is the list of its bytes;
`strcat`, `sprintf` and `store` return the memory from the start of the buffer on, so that a
result longer than the buffer says that bytes behind it have been stored.

* `stringAt` is the string that a buffer starts with, and `inBuffer` a buffer that starts with a
  string;
* `strcat_inBuffer` says that `strcat` joins strings, `length_sprintf` how far `sprintf` stores,
  and `store_append` what a store at the end of some bytes does.
-/

/-- The bytes of a string, without the NUL that ends it. -/
structure CString where
  bytes : List UInt8
  no_nul : 0 ∉ bytes

/-- `strlen(s)`. -/
def CString.strlen (s : CString) : Nat := s.bytes.length

/-- `strcat(buf, s)`: the string and its NUL are stored from the first NUL of the buffer on. -/
def strcat (buf : List UInt8) (s : CString) : List UInt8 :=
  buf.takeWhile (· ≠ 0) ++ (s.bytes ++ [0]) ++
    buf.drop ((buf.takeWhile (· ≠ 0)).length + s.strlen + 1)

/-- The string in a buffer ends at its first NUL. -/
theorem takeWhile_cString (s : CString) (rest : List UInt8) :
    (s.bytes ++ 0 :: rest).takeWhile (· ≠ 0) = s.bytes := by
  rw [List.takeWhile_append_of_pos, List.takeWhile_cons_of_neg (by simp), List.append_nil]
  intro b hb
  have hne : b ≠ 0 := fun h => s.no_nul (h ▸ hb)
  simpa using hne

/-- The strings are joined; what stood behind them stays. -/
theorem strcat_cString (s t : CString) (rest : List UInt8) :
    strcat (s.bytes ++ 0 :: rest) t =
      s.bytes ++ (t.bytes ++ 0 :: rest.drop t.strlen) := by
  rw [strcat, takeWhile_cString]
  simp [List.drop_append, CString.strlen, Nat.add_assoc]

/-! ### Strings in buffers -/

attribute [ext] CString

instance : Append CString where
  append s t := ⟨s.bytes ++ t.bytes, fun h => (List.mem_append.mp h).elim s.no_nul t.no_nul⟩

/-- The strings for the elements of a list, joined. -/
def CString.flatMap {α : Type*} (xs : List α) (f : α → CString) : CString where
  bytes := xs.flatMap fun x => (f x).bytes
  no_nul h := by
    obtain ⟨x, -, hx⟩ := List.mem_flatMap.mp h
    exact (f x).no_nul hx

/-- The text of a list is the text of its head and the text of the rest. -/
theorem CString.flatMap_cons {α : Type*} (x : α) (xs : List α) (f : α → CString) :
    CString.flatMap (x :: xs) f = f x ++ CString.flatMap xs f := rfl

theorem CString.append_assoc (s t u : CString) : s ++ t ++ u = s ++ (t ++ u) := by
  ext1
  exact List.append_assoc _ _ _

theorem CString.strlen_append (s t : CString) : (s ++ t).strlen = s.strlen + t.strlen :=
  List.length_append

/-- If no part is longer than `n`, the text of the list has at most `n` characters for each of
    its elements. -/
theorem CString.strlen_flatMap_le {α : Type*} {f : α → CString} {n : Nat}
    (h : ∀ x, (f x).strlen ≤ n) (xs : List α) : (CString.flatMap xs f).strlen ≤ n * xs.length := by
  induction xs with
  | nil => exact Nat.zero_le _
  | cons x xs ih =>
    rw [CString.flatMap_cons, CString.strlen_append, List.length_cons, Nat.mul_succ, Nat.add_comm]
    exact Nat.add_le_add ih (h x)

/-- The string that a buffer starts with. -/
def stringAt (buf : List UInt8) : CString where
  bytes := buf.takeWhile (· ≠ 0)
  no_nul h := by simpa using List.mem_takeWhile_imp h

/-- A buffer that starts with a string and its NUL. -/
def CString.inBuffer (s : CString) (rest : List UInt8) : List UInt8 := s.bytes ++ 0 :: rest

/-- `sprintf(buf, ..)`, for the text that is printed. -/
def sprintf (buf : List UInt8) (s : CString) : List UInt8 :=
  s.inBuffer (buf.drop (s.strlen + 1))

/-- `buf[i] = b`, for an index in the memory from the buffer on. -/
def store (buf : List UInt8) (i : Nat) (b : UInt8) : List UInt8 :=
  buf.take i ++ b :: buf.drop (i + 1)

/-- What is read from the buffer up to the NUL is the string that was put there, whatever lies
    behind it. -/
@[simp]
theorem stringAt_inBuffer (s : CString) (rest : List UInt8) : stringAt (s.inBuffer rest) = s := by
  ext1
  exact takeWhile_cString s rest

/-- A string takes one byte more than its length. -/
theorem length_inBuffer (s : CString) (rest : List UInt8) :
    (s.inBuffer rest).length = s.strlen + 1 + rest.length := by
  rw [CString.inBuffer, List.length_append, List.length_cons, CString.strlen]
  omega

/-- The strings are joined, in the same buffer. -/
theorem strcat_inBuffer (s t : CString) (rest : List UInt8) :
    strcat (s.inBuffer rest) t = (s ++ t).inBuffer (rest.drop t.strlen) := by
  rw [CString.inBuffer, strcat_cString, ← List.append_assoc]
  rfl

/-- The buffer is as long as it was, or as long as the text and its NUL. -/
theorem length_sprintf (buf : List UInt8) (s : CString) :
    (sprintf buf s).length = max buf.length (s.strlen + 1) := by
  rw [sprintf, length_inBuffer, List.length_drop]
  omega

/-- A store inside the buffer leaves it as long as it was. -/
theorem length_store {buf : List UInt8} {i : Nat} (h : i < buf.length) (b : UInt8) :
    (store buf i b).length = buf.length := by
  rw [store, List.length_append, List.length_cons, List.length_take, List.length_drop]
  omega

/-- A store right behind some bytes appends to them. -/
theorem store_append (bs rest : List UInt8) (b : UInt8) :
    store (bs ++ rest) bs.length b = bs ++ [b] ++ rest.drop 1 := by
  simp [store, List.drop_append]

end ZynqLinux.Lib
