import ZynqLinux.Lib.Numeral
import ZynqLinux.Pmod.Cls

namespace ZynqLinux.Pmod

open ZynqLinux.Lib

/-!
# User-defined characters of the display

A character is defined by an escape sequence with the eight rows of its glyph, as numbers, and
its position in the memory of the display.

* `clsDefineUserChar` is the C function.  It differs between the ports by the loop that prints
  the rows, in `clsBuildUserDefChar`: in decimal for I2C and SPI, in hexadecimal for UART;
* `defineUserChar` is the Python method, which prints in decimal for every port;
* `readUserChar` is how the display is assumed to read the sequence;
* `Defines` says that a sequence has the right form and that the display reads the glyph from it,
  and `CDefines` that a C function sends such a sequence and stays inside its buffers;
* `defines_iff` says when a sequence of texts defines a character.
-/

/-! ### The texts that are printed -/

/-- The text of a number in hexadecimal, with capital letters. -/
def hexadecimal (n : Nat) : List UInt8 :=
  (Nat.toDigits 16 n).map fun c => c.toUpper.toNat.toUInt8

/-- What `%d` prints is read back as the number. -/
theorem ofDigits_decimal (n : Nat) : ofDigits 10 (decimal n) = some n :=
  ofDigits_toDigits (by decide) (by decide) (by decide) n

/-- So is what `%X` prints. -/
theorem ofDigits_hexadecimal (n : Nat) : ofDigits 16 (hexadecimal n) = some n :=
  ofDigits_toDigits (by decide) (by decide) (by decide) n

/-- The string ";". -/
def semicolonText : CString := ⟨[semicolon], by decide⟩

/-- The string "0x". -/
def hexMark : CString := ⟨[zeroChar, 0x78], by decide⟩

/-- The text of the format "%d". -/
def decimalText (v : UInt8) : CString :=
  ⟨decimal v.toNat, not_mem_of_ofDigits (ofDigits_decimal v.toNat) (by decide)⟩

/-- The text of the format "%2.2X": at least two digits. -/
def hexText (v : UInt8) : CString where
  bytes := List.replicate (2 - (hexadecimal v.toNat).length) zeroChar ++ hexadecimal v.toNat
  no_nul h := by
    rcases List.mem_append.mp h with hzero | hdigit
    · exact absurd (List.eq_of_mem_replicate hzero) (by decide)
    · exact not_mem_of_ofDigits (ofDigits_hexadecimal v.toNat) (by decide) hdigit

/-! ### The C function -/

/-- `DEF_CHAR_CMD`. -/
def defCharCmd : UInt8 := 0x64

/-- `PRG_CHAR_CMD`. -/
def prgCharCmd : UInt8 := 0x70

/-- `LCDS_ERR_ARG_POS_RANGE`. -/
def lcdsErrArgPosRange : UInt8 := 9

/-- The character '3'. -/
def threeChar : UInt8 := 0x33

/-- The size of the local buffer `elStr`. -/
def elStrSize : Nat := 4

/-- `MAX`, the size of the local buffer `rgcCmd`. -/
def rgcCmdSize : Nat := 150

/-- What stands in the local buffers before anything is stored there. -/
structure Stack where
  elStr : List UInt8
  rgcCmd : List UInt8
  length_elStr : elStr.length = elStrSize
  length_rgcCmd : rgcCmd.length = rgcCmdSize

/-- Buffers that are filled with zeros. -/
def zeroStack : Stack := ⟨List.replicate elStrSize 0, List.replicate rgcCmdSize 0, rfl, rfl⟩

/-- The memory from the two buffers of `CLS_BuildUserDefChar` on. -/
structure Buffers where
  elStr : List UInt8
  cmdStr : List UInt8
  deriving DecidableEq

/-- A round of the loop in `i2c_sw` and `spi_sw`, for the element `v` of `strUserDef`. -/
def printDecimal (b : Buffers) (v : UInt8) : Buffers :=
  let elStr := sprintf b.elStr (decimalText v ++ semicolonText)
  ⟨elStr, strcat b.cmdStr (stringAt elStr)⟩

/-- A round of the loop in `uart_sw`. -/
def printHex (b : Buffers) (v : UInt8) : Buffers :=
  let elStr := sprintf b.elStr (hexText v)
  -- "concatenate the result with the 0x chars to be able to send it to the LCD"
  let cmdStr := strcat b.cmdStr hexMark
  let b : Buffers :=
    if v > 15 then
      let elStr := store elStr 3 0
      ⟨elStr, strcat cmdStr (stringAt (elStr.drop 1))⟩
    else
      let elStr := store elStr 2 0
      ⟨elStr, strcat cmdStr (stringAt elStr)⟩
  ⟨b.elStr, strcat b.cmdStr semicolonText⟩

/-- `CLS_BuildUserDefChar`, with a round of its loop. -/
def clsBuildUserDefChar (round : Buffers → UInt8 → Buffers) (strUserDef : Vector UInt8 8)
    (b : Buffers) : Buffers :=
  strUserDef.toList.foldl round b

/-- `CLS_BuildUserDefChar` in `i2c_sw`. -/
def I2c.clsBuildUserDefChar := Pmod.clsBuildUserDefChar printDecimal

/-- `CLS_BuildUserDefChar` in `spi_sw`. -/
def Spi.clsBuildUserDefChar := Pmod.clsBuildUserDefChar printDecimal

/-- `CLS_BuildUserDefChar` in `uart_sw`. -/
def Uart.clsBuildUserDefChar := Pmod.clsBuildUserDefChar printHex

/-- The command that is built, and its length. -/
structure Command where
  rgcCmd : List UInt8
  bLength : UInt8

/-- `rgcCmd[bLength++] = b`. -/
def Command.put (cmd : Command) (b : UInt8) : Command :=
  ⟨store cmd.rgcCmd cmd.bLength.toNat b, cmd.bLength + 1⟩

/-- What a call returns, the memory from its buffers on, and what is sent to which port. -/
structure Defined where
  bResult : UInt8
  elStr : List UInt8
  rgcCmd : List UInt8
  sent : List (Port × List UInt8)
  deriving DecidableEq

/-- The bytes behind the eight numbers: the position is defined, and saved in the RAM. -/
def commandEnd (charPos : UInt8) : List UInt8 :=
  [charPos + zeroChar, defCharCmd, esc, bracket, threeChar, prgCharCmd]

/-- `CLS_DefineUserChar`, which builds the numbers with the port's `CLS_BuildUserDefChar`, and
    sends with `i2c_write`, `spi_transfer` or `uart_write`. -/
def clsDefineUserChar (port : Port) (build : Vector UInt8 8 → Buffers → Buffers) (stack : Stack)
    (strUserDef : Vector UInt8 8) (charPos : UInt8) : Defined :=
  if charPos ≥ 0 ∧ charPos ≤ 7 then
    let rgcCmd := store (store (store stack.rgcCmd 0 esc) 1 bracket) 2 0
    -- "build the values to be sent for defining the custom character"
    let b := build strUserDef ⟨stack.elStr, rgcCmd.drop 2⟩
    let rgcCmd := rgcCmd.take 2 ++ b.cmdStr
    let cmd : Command := ⟨rgcCmd, UInt8.ofNat (stringAt rgcCmd).strlen⟩
    let cmd := (commandEnd charPos).foldl Command.put cmd
    ⟨lcdsErrSuccess, b.elStr, cmd.rgcCmd, [(port, cmd.rgcCmd.take cmd.bLength.toNat)]⟩
  else ⟨lcdsErrArgPosRange, stack.elStr, stack.rgcCmd, []⟩

/-- `CLS_DefineUserChar` in `i2c_sw`. -/
def I2c.clsDefineUserChar := Pmod.clsDefineUserChar .i2c I2c.clsBuildUserDefChar

/-- `CLS_DefineUserChar` in `spi_sw`. -/
def Spi.clsDefineUserChar := Pmod.clsDefineUserChar .spi Spi.clsBuildUserDefChar

/-- `CLS_DefineUserChar` in `uart_sw`. -/
def Uart.clsDefineUserChar := Pmod.clsDefineUserChar .uart Uart.clsBuildUserDefChar

/-! ### The Python method -/

/-- `defineUserChar`, which sends with `i2c.write`, `spi.xfer` or `serial.write`: the result, and
    what is sent to which port. -/
def defineUserChar (port : Port) (strUserDef : Vector Nat 8) (charPos : Int) :
    Nat × List (Port × List UInt8) :=
  if charPos ≥ 0 ∧ charPos ≤ 7 then
    let rgcCmd := strUserDef.toList.foldl (fun rgcCmd n => rgcCmd ++ (decimal n ++ [semicolon]))
      [esc, bracket]
    let rgcCmd := rgcCmd ++
      (decimal charPos.toNat ++ [defCharCmd, esc, bracket, threeChar, prgCharCmd])
    (0, [(port, rgcCmd)])
  else (9, [])

/-- `defineUserChar` in `pmodcls_i2c.py`. -/
def I2c.defineUserChar := Pmod.defineUserChar .i2c

/-- `defineUserChar` in `pmodcls_spi.py`. -/
def Spi.defineUserChar := Pmod.defineUserChar .spi

/-- `defineUserChar` in `pmodcls_uart.py`. -/
def Uart.defineUserChar := Pmod.defineUserChar .uart

/-! ### The display -/

/-- How the numbers of a sequence are written. -/
inductive Radix
  | decimal
  | hexadecimal

/-- The number that a text stands for; in hexadecimal it is marked by "0x". -/
def Radix.read : Radix → List UInt8 → Option Nat
  | .decimal, bs => ofDigits 10 bs
  | .hexadecimal, bs => if bs.take 2 = hexMark.bytes then ofDigits 16 (bs.drop 2) else none

/-- The number that the display reads from a text, in either radix. -/
def readNumber (bs : List UInt8) : Option Nat :=
  if bs.take 2 = hexMark.bytes then Radix.hexadecimal.read bs else Radix.decimal.read bs

/-- The bytes in front of the first ';', and those behind it. -/
def readField (bs : List UInt8) : Option (List UInt8 × List UInt8) :=
  match bs.dropWhile (· ≠ semicolon) with
  | [] => none
  | _ :: rest => some (bs.takeWhile (· ≠ semicolon), rest)

/-- So many numbers, each ended by ';', and the bytes behind them. -/
def readNumbers : Nat → List UInt8 → Option (List Nat × List UInt8)
  | 0, bs => some ([], bs)
  | n + 1, bs => do
    let (field, bs) ← readField bs
    let number ← readNumber field
    let (numbers, bs) ← readNumbers n bs
    return (number :: numbers, bs)

/-- A character in the memory of the display. -/
structure UserChar where
  rows : List Nat
  charPos : Nat
  deriving DecidableEq

/-- The character that the display reads from an escape sequence. -/
def readUserChar (bs : List UInt8) : Option UserChar :=
  if bs.take 2 = [esc, bracket] then do
    let (rows, bs) ← readNumbers 8 (bs.drop 2)
    let charPos ← ofDigits 10 (bs.take 1)
    if bs.drop 1 = [defCharCmd, esc, bracket, threeChar, prgCharCmd] then some ⟨rows, charPos⟩
    else none
  else none

/-- An escape sequence with the texts of its numbers. -/
def sequenceOf (numbers : List (List UInt8)) (charPos : UInt8) : List UInt8 :=
  [esc, bracket] ++ numbers.flatMap (· ++ [semicolon]) ++ commandEnd charPos

/-- The sequence has eight numbers in the radix, and the display reads the glyph `d` and the
    position from it. -/
structure Defines (radix : Radix) (d : Vector UInt8 8) (charPos : UInt8) (bs : List UInt8) :
    Prop where
  form : ∃ numbers : List (List UInt8), numbers.length = 8 ∧
    (∀ number ∈ numbers, (radix.read number).isSome) ∧ bs = sequenceOf numbers charPos
  glyph : readUserChar bs = some ⟨d.toList.map UInt8.toNat, charPos.toNat⟩

/-- One sequence is sent to the port, and it defines the character. -/
def Transmits (port : Port) (radix : Radix) (d : Vector UInt8 8) (charPos : UInt8)
    (sent : List (Port × List UInt8)) : Prop :=
  ∃ bs, sent = [(port, bs)] ∧ Defines radix d charPos bs

/-- A C function defines the character and stays inside its buffers, whatever stands in them
    before.  No store makes the memory from a buffer on shorter, so its length after the call shows
    every byte that was stored behind the buffer. -/
structure CDefines (port : Port) (radix : Radix)
    (c : Stack → Vector UInt8 8 → UInt8 → Defined) (d : Vector UInt8 8) (charPos : UInt8) :
    Prop where
  transmits : ∀ stack, Transmits port radix d charPos (c stack d charPos).sent
  elStr : ∀ stack, (c stack d charPos).elStr.length ≤ elStrSize
  rgcCmd : ∀ stack, (c stack d charPos).rgcCmd.length ≤ rgcCmdSize

/-! ### Reading a sequence -/

/-- A number is followed by its ';'. -/
theorem semicolon_not_mem_of_read {radix : Radix} {bs : List UInt8} {n : Nat}
    (h : radix.read bs = some n) : semicolon ∉ bs := by
  cases radix with
  | decimal => exact not_mem_of_ofDigits h (by decide)
  | hexadecimal =>
    rw [Radix.read] at h
    split at h
    · next hmark =>
      rw [← List.take_append_drop 2 bs, hmark, List.mem_append, not_or]
      exact ⟨by decide, not_mem_of_ofDigits h (by decide)⟩
    · cases h

/-- The display finds out in which radix a number is written. -/
theorem readNumber_of_read {radix : Radix} {bs : List UInt8} {n : Nat}
    (h : radix.read bs = some n) : readNumber bs = some n := by
  rw [readNumber]
  cases radix with
  | decimal =>
    -- no decimal number starts with "0x", for 'x' is not a digit
    have hmark : bs.take 2 ≠ hexMark.bytes := by
      intro heq
      have hx : 0x78 ∈ bs.take 2 := by
        rw [heq]
        decide
      exact not_mem_of_ofDigits h (by decide) (List.mem_of_mem_take hx)
    rw [if_neg hmark]
    exact h
  | hexadecimal =>
    split
    · exact h
    · next hmark =>
      rw [Radix.read, if_neg hmark] at h
      cases h

/-- A field is read up to the first semicolon, and the rest is left for the next one. -/
theorem readField_append {bs : List UInt8} (h : semicolon ∉ bs) (rest : List UInt8) :
    readField (bs ++ semicolon :: rest) = some (bs, rest) := by
  have hne : ∀ b ∈ bs, decide (b ≠ semicolon) = true := by
    intro b hb
    exact decide_eq_true fun heq => h (heq ▸ hb)
  rw [readField, List.dropWhile_append_of_pos hne, List.dropWhile_cons_of_neg (by simp),
    List.takeWhile_append_of_pos hne, List.takeWhile_cons_of_neg (by simp), List.append_nil]

section

variable {radix : Radix} {text : UInt8 → List UInt8} {value : UInt8 → Nat}

/-- Numbers that are read one by one are read from the texts in a row. -/
theorem readNumbers_flatMap (h : ∀ v, radix.read (text v) = some (value v))
    (rows rest : List UInt8) :
    readNumbers rows.length ((rows.map text).flatMap (· ++ [semicolon]) ++ rest) =
      some (rows.map value, rest) := by
  induction rows with
  | nil => rfl
  | cons v rows ih =>
    have hfield := readField_append (semicolon_not_mem_of_read (h v))
      ((rows.map text).flatMap (· ++ [semicolon]) ++ rest)
    rw [List.map_cons, List.flatMap_cons, List.append_assoc, List.append_assoc,
      List.singleton_append, List.length_cons, readNumbers, hfield]
    simp only [Option.bind_eq_bind, Option.bind_some, readNumber_of_read (h v), ih]
    rfl

/-- The display reads a sequence row by row. -/
theorem readUserChar_sequenceOf (h : ∀ v, radix.read (text v) = some (value v))
    (d : Vector UInt8 8) {charPos : UInt8} (hpos : charPos ≤ 7) :
    readUserChar (sequenceOf (d.toList.map text) charPos) =
      some ⟨d.toList.map value, charPos.toNat⟩ := by
  have hnumbers := readNumbers_flatMap h d.toList (commandEnd charPos)
  rw [Vector.length_toList] at hnumbers
  -- a position up to 7 is a single digit
  have hdigit : ofDigits 10 ((commandEnd charPos).take 1) = some charPos.toNat := by
    have hread := ofDigits_decimal charPos.toNat
    rwa [decimal_digit (UInt8.le_trans hpos (by decide))] at hread
  have hend : (commandEnd charPos).drop 1 = [defCharCmd, esc, bracket, threeChar, prgCharCmd] := rfl
  have hstart : (sequenceOf (d.toList.map text) charPos).take 2 = [esc, bracket] := rfl
  have hbehind : (sequenceOf (d.toList.map text) charPos).drop 2 =
    (d.toList.map text).flatMap (· ++ [semicolon]) ++ commandEnd charPos := rfl
  rw [readUserChar, if_pos hstart, hbehind, hnumbers]
  simp only [Option.bind_eq_bind, Option.bind_some, hdigit, if_pos hend]

/-- A sequence defines the character exactly if its texts are read as the rows of the glyph. -/
theorem defines_iff (h : ∀ v, radix.read (text v) = some (value v)) (d : Vector UInt8 8)
    {charPos : UInt8} (hpos : charPos ≤ 7) :
    Defines radix d charPos (sequenceOf (d.toList.map text) charPos) ↔
      ∀ v ∈ d.toList, value v = v.toNat := by
  have hread := readUserChar_sequenceOf h d hpos
  -- the display reads each row by itself, so the rows agree one by one
  have hrows : d.toList.map value = d.toList.map UInt8.toNat ↔ ∀ v ∈ d.toList, value v = v.toNat :=
    List.map_inj_left
  constructor
  · intro hdefines
    have hglyph := hread.symm.trans hdefines.glyph
    rw [Option.some.injEq, UserChar.mk.injEq] at hglyph
    exact hrows.mp hglyph.1
  · intro hvalue
    refine ⟨⟨d.toList.map text, ?_, ?_, rfl⟩, ?_⟩
    · rw [List.length_map, Vector.length_toList]
    · intro number hnumber
      obtain ⟨v, -, rfl⟩ := List.mem_map.mp hnumber
      rw [h v, Option.isSome_some]
    · rw [hread, hrows.mpr hvalue]

end

end ZynqLinux.Pmod
