import ZynqLinux.Lib.CString

namespace ZynqLinux.Pmod

open ZynqLinux.Lib

/-!
# The display driver PmodCLS, in C and in Python

The driver exists for I2C, SPI and UART, each in C and in Python.  To print a string at a
position it sends an escape sequence with the row and the column, and then the string, cut at
the end of the line.

* `clsWriteStringAtPos` is the C function, with the buffer `stringToSend` and the bytes sent;
* `writeStringAtPos` is the Python method; in both languages the three ports differ only in the
  call that sends the bytes;
* `printed` says what is to be sent, and `Agree` that both functions send this, return the same
  error bits, and that the C function stays inside its buffer;
* `allAgree_iff` says for which strings: the whole string has to fit the buffer, cut or not.
-/

/-! ### The C function -/

/-- The port that the display is connected to. -/
inductive Port
  | i2c
  | spi
  | uart
  deriving DecidableEq

/-- `ESC`. -/
def esc : UInt8 := 0x1B

/-- `BRACKET`. -/
def bracket : UInt8 := 0x5B

/-- `CURSOR_POS_CMD`. -/
def cursorPosCmd : UInt8 := 0x48

/-- `LCDS_ERR_SUCCESS`. -/
def lcdsErrSuccess : UInt8 := 0

/-- `LCDS_ERR_ARG_ROW_RANGE`. -/
def lcdsErrArgRowRange : UInt8 := 1

/-- `LCDS_ERR_ARG_COL_RANGE`. -/
def lcdsErrArgColRange : UInt8 := 2

/-- The characters '0' and ';'. -/
def zeroChar : UInt8 := 0x30

@[inherit_doc zeroChar]
def semicolon : UInt8 := 0x3B

/-- The size of the local buffer `stringToSend`. -/
def stringToSendSize : Nat := 0x27

/-- What a call returns, the memory from `stringToSend` on when it has been filled, and what is
    sent to which port. -/
structure Written where
  bResult : UInt8
  stringToSend : List UInt8
  sent : List (Port × List UInt8)
  deriving DecidableEq

/-- The escape sequence for a position. -/
def position (idxRow idxCol : UInt8) : List UInt8 :=
  -- "separate the position digits in order to send them"
  let firstDigit := idxCol % 10
  let secondDigit := idxCol / 10
  [esc, bracket, idxRow + zeroChar, semicolon, secondDigit + zeroChar, firstDigit + zeroChar,
    cursorPosCmd]

/-- `bResult` after the range checks of the position. -/
def clsCheckPos (idxRow idxCol : UInt8) : UInt8 :=
  let bResult := lcdsErrSuccess
  let bResult := if idxRow < 0 ∨ idxRow > 2 then bResult ||| lcdsErrArgRowRange else bResult
  if idxCol < 0 ∨ idxCol > 39 then bResult ||| lcdsErrArgColRange else bResult

/-- `CLS_WriteStringAtPos`, which sends with `i2c_write`, `spi_transfer` or `uart_write`. -/
def clsWriteStringAtPos (port : Port) (idxRow idxCol : UInt8) (strLn : CString) : Written :=
  let bResult := clsCheckPos idxRow idxCol
  if bResult = lcdsErrSuccess then
    let length := UInt8.ofNat strLn.strlen
    let lengthToPrint := length + idxCol
    -- an initialiser leaves zeros behind the bytes it names
    let stringToSend := position idxRow idxCol ++ List.replicate (stringToSendSize - 7) 0
    let length := if lengthToPrint > 40 then 40 - idxCol else length
    let stringToSend := strcat stringToSend strLn
    ⟨bResult, stringToSend, [(port, stringToSend.take (length.toNat + 7))]⟩
  else ⟨bResult, [], []⟩

/-- `CLS_WriteStringAtPos` in `i2c_sw`. -/
def I2c.clsWriteStringAtPos := Pmod.clsWriteStringAtPos .i2c

/-- `CLS_WriteStringAtPos` in `spi_sw`. -/
def Spi.clsWriteStringAtPos := Pmod.clsWriteStringAtPos .spi

/-- `CLS_WriteStringAtPos` in `uart_sw`. -/
def Uart.clsWriteStringAtPos := Pmod.clsWriteStringAtPos .uart

/-! ### The Python method -/

/-- `map(ord, '%d' % n)`, for a number that is not negative. -/
def decimal (n : Nat) : List UInt8 := (Nat.toDigits 10 n).map fun c => c.toNat.toUInt8

/-- `map(ord, '%02d' % n)`. -/
def decimal2 (n : Nat) : List UInt8 :=
  List.replicate (2 - (decimal n).length) zeroChar ++ decimal n

/-- `bResult` after the range checks of the position. -/
def checkPos (idxRow idxCol : Int) : Nat :=
  let bResult := 0
  let bResult := if idxRow < 0 ∨ idxRow > 2 then bResult ||| 1 else bResult
  if idxCol < 0 ∨ idxCol > 39 then bResult ||| 2 else bResult

/-- `writeStringAtPos`, which sends with `i2c.write`, `spi.xfer` or `serial.write`: the result,
    and what is sent to which port. -/
def writeStringAtPos (port : Port) (idxRow idxCol : Int) (strLn : List UInt8) :
    Nat × List (Port × List UInt8) :=
  let bResult := checkPos idxRow idxCol
  if bResult = 0 then
    let stringToSend := [esc, bracket] ++ decimal idxRow.toNat ++ [semicolon] ++
      decimal2 idxCol.toNat ++ [cursorPosCmd]
    let length := if strLn.length + idxCol > 40 then 40 - idxCol else strLn.length
    (bResult, [(port, (stringToSend ++ strLn).take (7 + length).toNat)])
  else (bResult, [])

/-- `writeStringAtPos` in `pmodcls_i2c.py`. -/
def I2c.writeStringAtPos := Pmod.writeStringAtPos .i2c

/-- `writeStringAtPos` in `pmodcls_spi.py`. -/
def Spi.writeStringAtPos := Pmod.writeStringAtPos .spi

/-- `writeStringAtPos` in `pmodcls_uart.py`. -/
def Uart.writeStringAtPos := Pmod.writeStringAtPos .uart

/-! ### The C function and the Python method -/

/-- What is to be sent: the position and as much of the string as fits the line, or nothing if
    the position is not on the display. -/
def printed (port : Port) (idxRow idxCol : UInt8) (strLn : CString) :
    List (Port × List UInt8) :=
  if idxRow ≤ 2 ∧ idxCol ≤ 39 then
    [(port, position idxRow idxCol ++ strLn.bytes.take (40 - idxCol.toNat))]
  else []

/-- Both send the same, as they should, and return the same error bits, and the C function
    stores nothing outside its buffer. -/
structure Agree (port : Port) (c : UInt8 → UInt8 → CString → Written)
    (python : Int → Int → List UInt8 → Nat × List (Port × List UInt8))
    (idxRow idxCol : UInt8) (strLn : CString) : Prop where
  cSent : (c idxRow idxCol strLn).sent = printed port idxRow idxCol strLn
  pythonSent : (python idxRow.toNat idxCol.toNat strLn.bytes).2 = printed port idxRow idxCol strLn
  bits : (c idxRow idxCol strLn).bResult.toNat =
    (python idxRow.toNat idxCol.toNat strLn.bytes).1
  inside : (c idxRow idxCol strLn).stringToSend.length ≤ stringToSendSize

/-! ### The range checks -/

/-- A byte that is compared with a bound in C is the number compared in Python. -/
theorem outside_iff (x bound : UInt8) :
    ((x.toNat : Int) < 0 ∨ (x.toNat : Int) > bound.toNat) ↔ (x < 0 ∨ x > bound) := by
  have hlt : (x > bound) ↔ bound.toNat < x.toNat := UInt8.lt_iff_toNat_lt
  have hzero : ¬ x < 0 := UInt8.not_lt_zero
  simp only [hzero, false_or, hlt]
  omega

/-- The check of the Python port, on the numbers of two bytes, gives the error code of the C
    ports. -/
theorem checkPos_eq (idxRow idxCol : UInt8) :
    checkPos idxRow.toNat idxCol.toNat = (clsCheckPos idxRow idxCol).toNat := by
  have hrow : ((idxRow.toNat : Int) < 0 ∨ (idxRow.toNat : Int) > 2) ↔ _ := outside_iff idxRow 2
  have hcol : ((idxCol.toNat : Int) < 0 ∨ (idxCol.toNat : Int) > 39) ↔ _ := outside_iff idxCol 39
  simp only [checkPos, clsCheckPos, hrow, hcol]
  split <;> split <;> rfl

/-- The check lets rows up to 2 and columns up to 39 pass, though the display has two rows. -/
theorem clsCheckPos_eq_success_iff (idxRow idxCol : UInt8) :
    clsCheckPos idxRow idxCol = lcdsErrSuccess ↔ idxRow ≤ 2 ∧ idxCol ≤ 39 := by
  have hle : ∀ x bound : UInt8, (x < 0 ∨ x > bound) ↔ ¬ x ≤ bound := by simp
  simp only [clsCheckPos, hle]
  by_cases hrow : idxRow ≤ 2 <;> by_cases hcol : idxCol ≤ 39 <;>
    simp only [hrow, hcol, not_true_eq_false, not_false_eq_true, if_true, if_false, and_self,
      and_true, and_false] <;> decide

/-! ### What is sent -/

/-- A number below ten is printed as one digit. -/
theorem decimal_digit {x : UInt8} (h : x ≤ 9) : decimal x.toNat = [x + zeroChar] := by
  have hdigits : ∀ n < 10, decimal n = [n.toUInt8 + zeroChar] := by decide
  have hlt : x.toNat < 10 := Nat.lt_succ_of_le (UInt8.le_iff_toNat_le.mp h)
  simpa using hdigits x.toNat hlt

section

variable (port : Port) {idxRow idxCol : UInt8} (strLn : CString)

/-- Off the display nothing is sent: all three ports refuse the position with the same error. -/
theorem agree_of_offDisplay (h : ¬ (idxRow ≤ 2 ∧ idxCol ≤ 39)) :
    Agree port (clsWriteStringAtPos port) (writeStringAtPos port) idxRow idxCol strLn := by
  have hc : clsCheckPos idxRow idxCol ≠ lcdsErrSuccess :=
    fun hzero => h ((clsCheckPos_eq_success_iff idxRow idxCol).mp hzero)
  have hpython : (clsCheckPos idxRow idxCol).toNat ≠ 0 :=
    fun hzero => hc (UInt8.toNat_inj.mp hzero)
  have hprinted : printed port idxRow idxCol strLn = [] := if_neg h
  constructor <;>
    simp [hprinted, clsWriteStringAtPos, writeStringAtPos, hc, hpython, checkPos_eq]

/-- The digits of a position in Python are the digits in C. -/
theorem position_eq (h : idxRow ≤ 2 ∧ idxCol ≤ 39) :
    [esc, bracket] ++ decimal idxRow.toNat ++ [semicolon] ++ decimal2 idxCol.toNat ++
      [cursorPosCmd] = position idxRow idxCol := by
  have hcols : ∀ n < 40, decimal2 n = [n.toUInt8 / 10 + zeroChar, n.toUInt8 % 10 + zeroChar] := by
    decide
  have hrow : idxRow ≤ 9 := UInt8.le_trans h.1 (by decide)
  have hcol : idxCol.toNat < 40 := Nat.lt_succ_of_le (UInt8.le_iff_toNat_le.mp h.2)
  rw [decimal_digit hrow, hcols _ hcol]
  simp [position]

/-- The escape sequence is a string of seven bytes. -/
def positionString (h : idxRow ≤ 2 ∧ idxCol ≤ 39) : CString where
  bytes := position idxRow idxCol
  no_nul := by
    have hnul : ∀ n < 3, ∀ m < 40, 0 ∉ position n.toUInt8 m.toUInt8 := by decide
    have hrow : idxRow.toNat < 3 := Nat.lt_succ_of_le (UInt8.le_iff_toNat_le.mp h.1)
    have hcol : idxCol.toNat < 40 := Nat.lt_succ_of_le (UInt8.le_iff_toNat_le.mp h.2)
    simpa using hnul _ hrow _ hcol

/-- The buffer after `strcat` holds the position command behind what was there. -/
theorem strcat_position (h : idxRow ≤ 2 ∧ idxCol ≤ 39) :
    strcat (position idxRow idxCol ++ List.replicate (stringToSendSize - 7) 0) strLn =
      position idxRow idxCol ++
        (strLn.bytes ++ 0 :: (List.replicate (stringToSendSize - 8) 0).drop strLn.strlen) :=
  strcat_cString (positionString h) strLn (List.replicate (stringToSendSize - 8) 0)

/-- The bytes of a string that fit the line. -/
theorem take_position (idxRow : UInt8) {n : Nat} (rest : List UInt8)
    (hn : n = min strLn.strlen (40 - idxCol.toNat)) :
    (position idxRow idxCol ++ (strLn.bytes ++ rest)).take (n + 7) =
      position idxRow idxCol ++ strLn.bytes.take (40 - idxCol.toNat) := by
  have hlen : (position idxRow idxCol).length = 7 := rfl
  have hle : n ≤ strLn.bytes.length := by
    rw [hn]
    exact Nat.min_le_left _ _
  rw [Nat.add_comm, ← hlen, List.take_length_add_append, List.take_append_of_le_length hle, hn,
    CString.strlen, Nat.min_comm, ← List.take_eq_take_min]

/-- The length that the C function sends, while its bytes do not overflow. -/
theorem toNat_length (hcol : idxCol ≤ 39) (hlen : strLn.strlen ≤ 31) :
    (if UInt8.ofNat strLn.strlen + idxCol > 40 then 40 - idxCol
      else UInt8.ofNat strLn.strlen).toNat = min strLn.strlen (40 - idxCol.toNat) := by
  have hcol' : idxCol.toNat ≤ 39 := UInt8.le_iff_toNat_le.mp hcol
  have hlength : (UInt8.ofNat strLn.strlen).toNat = strLn.strlen :=
    UInt8.toNat_ofNat_of_lt' (Nat.lt_of_le_of_lt hlen (by decide))
  have hsum : (UInt8.ofNat strLn.strlen + idxCol).toNat = strLn.strlen + idxCol.toNat := by
    rw [UInt8.toNat_add, hlength]
    omega
  have hcut : (UInt8.ofNat strLn.strlen + idxCol > 40) ↔ 40 < strLn.strlen + idxCol.toNat := by
    rw [gt_iff_lt, UInt8.lt_iff_toNat_lt, hsum]
    rfl
  by_cases hlong : 40 < strLn.strlen + idxCol.toNat
  · have hsub : (40 - idxCol).toNat = 40 - idxCol.toNat :=
      UInt8.toNat_sub_of_le 40 idxCol (UInt8.le_iff_toNat_le.mpr (Nat.le_succ_of_le hcol'))
    rw [if_pos (hcut.mpr hlong), hsub]
    omega
  · rw [if_neg (fun hgt => hlong (hcut.mp hgt)), hlength]
    omega

/-- On the display, Python sends the position and what fits the line. -/
theorem writeStringAtPos_eq (h : idxRow ≤ 2 ∧ idxCol ≤ 39) :
    writeStringAtPos port idxRow.toNat idxCol.toNat strLn.bytes =
      (0, printed port idxRow idxCol strLn) := by
  have hbits : checkPos idxRow.toNat idxCol.toNat = 0 := by
    rw [checkPos_eq, (clsCheckPos_eq_success_iff idxRow idxCol).mpr h]
    rfl
  have hcol : idxCol.toNat ≤ 39 := UInt8.le_iff_toNat_le.mp h.2
  have hlength : (7 + if (strLn.bytes.length : Int) + idxCol.toNat > 40 then 40 - (idxCol.toNat : Int)
      else strLn.bytes.length).toNat = min strLn.strlen (40 - idxCol.toNat) + 7 := by
    rw [CString.strlen]
    split <;> omega
  have htake := take_position strLn idxRow [] (rfl : min strLn.strlen (40 - idxCol.toNat) = _)
  simp only [writeStringAtPos, hbits, if_true, Int.toNat_natCast, position_eq h, printed, if_pos h,
    hlength]
  rw [List.append_nil] at htake
  rw [htake]

/-- On the display, they agree exactly if the whole string fits the buffer. -/
theorem agree_iff_of_onDisplay (h : idxRow ≤ 2 ∧ idxCol ≤ 39) :
    Agree port (clsWriteStringAtPos port) (writeStringAtPos port) idxRow idxCol strLn ↔
      strLn.strlen ≤ 31 := by
  have hbits := (clsCheckPos_eq_success_iff idxRow idxCol).mpr h
  have hbuffer := strcat_position strLn h
  -- seven bytes of position, the string and its NUL have 39 places in the buffer
  have hsize : (position idxRow idxCol ++ (strLn.bytes ++ 0 ::
      (List.replicate (stringToSendSize - 8) (0 : UInt8)).drop strLn.strlen)).length ≤
        stringToSendSize ↔ strLn.strlen ≤ 31 := by
    have hpos : (position idxRow idxCol).length = 7 := rfl
    simp only [List.length_append, List.length_cons, List.length_drop, List.length_replicate, hpos,
      stringToSendSize, CString.strlen]
    omega
  constructor
  · intro hagree
    -- a longer string runs past the end of the buffer
    have hinside := hagree.inside
    simp only [clsWriteStringAtPos, hbits, if_true, hbuffer] at hinside
    exact hsize.mp hinside
  · intro hlen
    have htake := take_position strLn idxRow (0 :: (List.replicate (stringToSendSize - 8) 0).drop
      strLn.strlen) (toNat_length strLn h.2 hlen)
    have hpython := writeStringAtPos_eq port strLn h
    refine ⟨?_, ?_, ?_, ?_⟩
    · simp only [clsWriteStringAtPos, hbits, if_true, hbuffer, printed, if_pos h]
      rw [htake]
    · rw [hpython]
    · rw [hpython]
      simp only [clsWriteStringAtPos, hbits, if_true]
      rfl
    · simp only [clsWriteStringAtPos, hbits, if_true, hbuffer]
      exact hsize.mpr hlen

end

/-- The three C functions agree with their Python methods. -/
def AllAgree (idxRow idxCol : UInt8) (strLn : CString) : Prop :=
  Agree .i2c I2c.clsWriteStringAtPos I2c.writeStringAtPos idxRow idxCol strLn ∧
  Agree .spi Spi.clsWriteStringAtPos Spi.writeStringAtPos idxRow idxCol strLn ∧
  Agree .uart Uart.clsWriteStringAtPos Uart.writeStringAtPos idxRow idxCol strLn

/-- **The drivers in C and in Python, exactly.** For every row, column and string, each C function
    prints what the Python method prints and stays inside its buffer if and only if the string has
    at most 31 bytes, or the position is not on the display. -/
theorem allAgree_iff (idxRow idxCol : UInt8) (strLn : CString) :
    AllAgree idxRow idxCol strLn ↔ (idxRow ≤ 2 ∧ idxCol ≤ 39 → strLn.strlen ≤ 31) := by
  by_cases h : idxRow ≤ 2 ∧ idxCol ≤ 39
  · have hport := fun port => agree_iff_of_onDisplay port strLn h
    constructor
    · intro hall _
      exact (hport .i2c).mp hall.1
    · intro hlen
      exact ⟨(hport .i2c).mpr (hlen h), (hport .spi).mpr (hlen h), (hport .uart).mpr (hlen h)⟩
  · have hport := fun port => agree_of_offDisplay port strLn h
    exact iff_of_true ⟨hport .i2c, hport .spi, hport .uart⟩ (fun hon => absurd hon h)

/-- A string of 32 bytes at the start of a line, which has 40: its NUL is stored behind the
    buffer. -/
theorem long_string_overruns :
    ¬ Agree .i2c I2c.clsWriteStringAtPos I2c.writeStringAtPos 0 0
        ⟨List.replicate 32 0x41, by decide⟩ ∧
      ¬ Agree .spi Spi.clsWriteStringAtPos Spi.writeStringAtPos 0 0
        ⟨List.replicate 32 0x41, by decide⟩ ∧
      ¬ Agree .uart Uart.clsWriteStringAtPos Uart.writeStringAtPos 0 0
        ⟨List.replicate 32 0x41, by decide⟩ := by
  refine ⟨fun h => ?_, fun h => ?_, fun h => ?_⟩
  all_goals exact absurd h.inside (by decide)

end ZynqLinux.Pmod
