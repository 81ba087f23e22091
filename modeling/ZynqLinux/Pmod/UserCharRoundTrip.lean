import Mathlib.Algebra.Group.Nat.Defs
import ZynqLinux.Pmod.UserChar

namespace ZynqLinux.Pmod

open ZynqLinux.Lib

/-!
# User-defined characters, from the C function to the display

* `Prints` says what a round of the loop in `clsBuildUserDefChar` appends to the command, and
  `clsDefineUserChar_spec` what the whole call sends and stores then;
* `cDefines_decimal_iff`: I2C and SPI send the glyph as it is, but rows from 100 on do not fit
  `elStr`;
* `readUserChar_uart`: the display reads the low four bits of each row from UART, and so
  (`cDefines_uart_iff`) the glyph arrives only if no row is above 15;
* `roundTrips_iff` puts the ports and both languages together.
-/

/-! ### The rounds of the loop -/

/-- A round of the loop appends the text of a number and a ';', and the text is short. -/
structure Prints (round : Buffers → UInt8 → Buffers) (number : UInt8 → CString) : Prop where
  cmdStr : ∀ elStr s rest v, (round ⟨elStr, s.inBuffer rest⟩ v).cmdStr =
    (s ++ (number v ++ semicolonText)).inBuffer (rest.drop (number v ++ semicolonText).strlen)
  strlen_le : ∀ v, (number v).strlen ≤ 4

/-- The decimal text of a byte has at most `n` characters exactly if the byte is below the
    power of ten. -/
theorem strlen_decimalText_le_iff (v : UInt8) {n : Nat} (hn : 0 < n) :
    (decimalText v).strlen ≤ n ↔ v.toNat < 10 ^ n := by
  have hstrlen : (decimalText v).strlen = (Nat.toDigits 10 v.toNat).length := List.length_map _
  rw [hstrlen]
  exact Nat.length_toDigits_le_iff (by decide) hn

/-- I2C and SPI print a row in decimal, with up to three digits and the semicolon. -/
theorem prints_decimal : Prints printDecimal decimalText where
  cmdStr elStr s rest v := by
    simp only [printDecimal]
    rw [sprintf, stringAt_inBuffer, strcat_inBuffer]
  strlen_le v :=
    (strlen_decimalText_le_iff v (by decide)).mpr (Nat.lt_of_lt_of_le (UInt8.toNat_lt v) (by decide))

/-- The hexadecimal digit with a value. -/
def hexDigit (n : Nat) : UInt8 := n.digitChar.toUpper.toNat.toUInt8

/-- Each hexadecimal digit stands for its value. -/
theorem digitValue_hexDigit : ∀ n < 16, digitValue (hexDigit n) = some n := by decide

/-- The format "%2.2X" prints the two digits of a byte. -/
theorem hexText_bytes (v : UInt8) :
    (hexText v).bytes = [hexDigit (v.toNat / 16), hexDigit (v.toNat % 16)] := by
  have hbyte : v.toNat < 256 := UInt8.toNat_lt v
  show List.replicate (2 - (hexadecimal v.toNat).length) zeroChar ++ hexadecimal v.toNat = _
  rw [hexadecimal]
  by_cases hv : v.toNat < 16
  · rw [Nat.toDigits_of_lt_base hv, Nat.div_eq_of_lt hv, Nat.mod_eq_of_lt hv]
    rfl
  · have hhigh : v.toNat / 16 < 16 := by omega
    rw [Nat.toDigits_of_base_le (by decide) (Nat.le_of_not_lt hv), Nat.toDigits_of_lt_base hhigh]
    rfl

/-- `%2.2X` prints two digits for every byte. -/
theorem strlen_hexText (v : UInt8) : (hexText v).strlen = 2 := by
  rw [CString.strlen, hexText_bytes]
  rfl

/-- The second digit on its own stands for the low half of the byte. -/
theorem ofDigits_lowDigit (v : UInt8) :
    ofDigits 16 [hexDigit (v.toNat % 16)] = some (v.toNat % 16) := by
  have hlow : v.toNat % 16 < 16 := Nat.mod_lt _ (by decide)
  exact ofDigits_singleton (digitValue_hexDigit _ hlow) hlow

/-- What UART sends of a row above 15: its low digit. -/
def lowDigit (v : UInt8) : CString :=
  ⟨[hexDigit (v.toNat % 16)], not_mem_of_ofDigits (ofDigits_lowDigit v) (by decide)⟩

/-- The text of a row on UART. -/
def uartText (v : UInt8) : CString := hexMark ++ if v > 15 then lowDigit v else hexText v

/-- The NUL of the text stands at `elStr[2]`, and so there is one digit at `elStr + 1`. -/
theorem stringAt_elStr_add_one (elStr : List UInt8) (v : UInt8) :
    stringAt ((store (sprintf elStr (hexText v)) 3 0).drop 1) = lowDigit v := by
  have hbuffer : (store (sprintf elStr (hexText v)) 3 0).drop 1 =
      (lowDigit v).inBuffer (0 :: (elStr.drop 3).drop 1) := by
    simp [store, sprintf, CString.inBuffer, strlen_hexText, hexText_bytes, lowDigit]
  rw [hbuffer, stringAt_inBuffer]

/-- The NUL that is stored at `elStr[2]` stands there already. -/
theorem stringAt_elStr (elStr : List UInt8) (v : UInt8) :
    stringAt (store (sprintf elStr (hexText v)) 2 0) = hexText v := by
  have hbuffer : store (sprintf elStr (hexText v)) 2 0 = (hexText v).inBuffer (elStr.drop 3) := by
    simp [store, sprintf, CString.inBuffer, strlen_hexText, hexText_bytes]
  rw [hbuffer, stringAt_inBuffer]

/-- UART prints the digits of a row after "0x". -/
theorem prints_hex : Prints printHex uartText where
  cmdStr elStr s rest v := by
    have hdigits : (printHex ⟨elStr, s.inBuffer rest⟩ v).cmdStr =
        strcat (strcat (strcat (s.inBuffer rest) hexMark)
          (if v > 15 then lowDigit v else hexText v)) semicolonText := by
      simp only [printHex]
      split
      · rw [stringAt_elStr_add_one]
      · rw [stringAt_elStr]
    rw [hdigits, strcat_inBuffer, strcat_inBuffer, strcat_inBuffer, List.drop_drop, List.drop_drop,
      uartText, CString.strlen_append, CString.strlen_append, CString.append_assoc,
      CString.append_assoc, CString.append_assoc, Nat.add_assoc]
  strlen_le v := by
    rw [uartText, CString.strlen_append]
    split
    · exact Nat.le_succ 3
    · rw [strlen_hexText]
      exact Nat.le_refl 4

/-! ### The whole call -/

/-- The bytes at the end of the command are stored one behind the other, while the length does not
    overflow. -/
theorem foldl_put (bs cmd rest : List UInt8) (h : cmd.length + bs.length < 256) :
    bs.foldl Command.put ⟨cmd ++ rest, UInt8.ofNat cmd.length⟩ =
      ⟨cmd ++ bs ++ rest.drop bs.length, UInt8.ofNat (cmd.length + bs.length)⟩ := by
  induction bs generalizing cmd rest with
  | nil => simp
  | cons b bs ih =>
    rw [List.length_cons] at h
    -- the index fits in its byte, so it does not wrap around
    have hlength : (UInt8.ofNat cmd.length).toNat = cmd.length :=
      UInt8.toNat_ofNat_of_lt' (show cmd.length < 256 by omega)
    have hput : Command.put ⟨cmd ++ rest, UInt8.ofNat cmd.length⟩ b =
        ⟨cmd ++ [b] ++ rest.drop 1, UInt8.ofNat (cmd ++ [b]).length⟩ := by
      simp only [Command.put, hlength, store_append, List.length_append, List.length_singleton,
        UInt8.ofNat_add]
      rfl
    have hlen : (cmd ++ [b]).length = cmd.length + 1 := List.length_append
    rw [List.foldl_cons, hput, ih _ _ (by omega), hlen, List.append_assoc cmd, List.drop_drop,
      List.length_cons, Nat.add_assoc, Nat.add_comm 1, List.singleton_append]

/-- They are sent behind the string in the buffer. -/
theorem foldl_put_inBuffer (s : CString) (rest bs : List UInt8) (h : s.strlen + bs.length < 256) :
    let cmd := bs.foldl Command.put ⟨s.inBuffer rest, UInt8.ofNat s.strlen⟩
    cmd.rgcCmd.take cmd.bLength.toNat = s.bytes ++ bs ∧
      cmd.rgcCmd.length = max (s.inBuffer rest).length (s.strlen + bs.length) := by
  have hput := foldl_put bs s.bytes (0 :: rest) h
  have hlength : (UInt8.ofNat (s.bytes.length + bs.length)).toNat = (s.bytes ++ bs).length := by
    rw [List.length_append]
    exact UInt8.toNat_ofNat_of_lt' h
  intro cmd
  have hcmd : cmd = _ := hput
  rw [hcmd]
  constructor
  · rw [hlength, List.take_left]
  · simp only [List.length_append, List.length_drop, List.length_cons, length_inBuffer,
      CString.strlen]
    omega

/-- The string that a command starts with. -/
def escape : CString := ⟨[esc, bracket], by decide⟩

section

variable {round : Buffers → UInt8 → Buffers} {number : UInt8 → CString}

/-- The numbers of a glyph, each with its ';'. -/
def numbersText (number : UInt8 → CString) (rows : List UInt8) : CString :=
  CString.flatMap rows fun v => number v ++ semicolonText

/-- The text of the eight numbers has at most forty characters, five for each. -/
theorem strlen_numbersText_le (hprints : Prints round number) (d : Vector UInt8 8) :
    (numbersText number d.toList).strlen ≤ 40 := by
  have hlen : ∀ v, (number v ++ semicolonText).strlen ≤ 5 := by
    intro v
    rw [CString.strlen_append]
    exact Nat.succ_le_succ (hprints.strlen_le v)
  have hle := CString.strlen_flatMap_le hlen d.toList
  rwa [Vector.length_toList] at hle

/-- The loop appends the numbers of all rows, one behind the other. -/
theorem foldl_round_cmdStr (hprints : Prints round number) (rows elStr : List UInt8) (s : CString)
    (rest : List UInt8) :
    (rows.foldl round ⟨elStr, s.inBuffer rest⟩).cmdStr =
      (s ++ numbersText number rows).inBuffer (rest.drop (numbersText number rows).strlen) := by
  induction rows generalizing elStr s rest with
  | nil =>
    have hnil : s ++ numbersText number [] = s := by
      ext1
      exact List.append_nil _
    rw [hnil]
    rfl
  | cons v rows ih =>
    -- a round appends its number and leaves something in `elStr`, which the next one overwrites
    have hstep : round ⟨elStr, s.inBuffer rest⟩ v =
        ⟨(round ⟨elStr, s.inBuffer rest⟩ v).elStr, (s ++ (number v ++ semicolonText)).inBuffer
          (rest.drop (number v ++ semicolonText).strlen)⟩ := by
      rw [← hprints.cmdStr]
    have hcons : numbersText number (v :: rows) =
        number v ++ semicolonText ++ numbersText number rows :=
      CString.flatMap_cons _ _ _
    rw [List.foldl_cons, hstep, ih, hcons, List.drop_drop, ← CString.strlen_append,
      CString.append_assoc s]

/-- What a call sends and stores at a position in range. -/
theorem clsDefineUserChar_spec (hprints : Prints round number) (port : Port) (stack : Stack)
    (d : Vector UInt8 8) {charPos : UInt8} (hpos : charPos ≤ 7) :
    let call := clsDefineUserChar port (clsBuildUserDefChar round) stack d charPos
    call.sent = [(port, sequenceOf (d.toList.map fun v => (number v).bytes) charPos)] ∧
      call.elStr = (d.toList.foldl round ⟨stack.elStr, 0 :: stack.rgcCmd.drop 3⟩).elStr ∧
      call.rgcCmd.length = rgcCmdSize := by
  have hrange : charPos ≥ 0 ∧ charPos ≤ 7 := ⟨UInt8.zero_le, hpos⟩
  have hstart : store (store (store stack.rgcCmd 0 esc) 1 bracket) 2 0 =
      esc :: bracket :: 0 :: stack.rgcCmd.drop 3 := by
    simp [store]
  have hsequence : sequenceOf (d.toList.map fun v => (number v).bytes) charPos =
      (escape ++ numbersText number d.toList).bytes ++ commandEnd charPos := by
    rw [sequenceOf, List.flatMap_map]
    rfl
  -- the loop starts with the empty string at `rgcCmd + 2`
  have hbuild := foldl_round_cmdStr hprints d.toList stack.elStr ⟨[], by simp⟩ (stack.rgcCmd.drop 3)
  have hstrlen := strlen_numbersText_le hprints d
  rw [hsequence]
  generalize numbersText number d.toList = rows at hbuild hstrlen ⊢
  generalize hrest : (stack.rgcCmd.drop 3).drop rows.strlen = rest at hbuild
  have hcmd : [esc, bracket] ++
      (d.toList.foldl round ⟨stack.elStr, 0 :: stack.rgcCmd.drop 3⟩).cmdStr =
        (escape ++ rows).inBuffer rest :=
    congrArg ([esc, bracket] ++ ·) hbuild
  have hlength : (escape ++ rows).strlen = 2 + rows.strlen := CString.strlen_append escape rows
  have hend : (commandEnd charPos).length = 6 := rfl
  obtain ⟨hsent, hsize⟩ := foldl_put_inBuffer (escape ++ rows) rest (commandEnd charPos) (by omega)
  simp only [clsDefineUserChar, if_pos hrange, hstart, clsBuildUserDefChar, List.drop_succ_cons,
    List.drop_zero, List.take_succ_cons, List.take_zero, hcmd, stringAt_inBuffer, hsent, hsize]
  refine ⟨trivial, trivial, ?_⟩
  rw [length_inBuffer, ← hrest, List.length_drop, List.length_drop, stack.length_rgcCmd, rgcCmdSize]
  omega

/-- A C function defines the character exactly if the texts are read as the rows, and `elStr` is
    large enough for each of them. -/
theorem cDefines_iff {radix : Radix} {value : UInt8 → Nat} (hprints : Prints round number)
    (hread : ∀ v, radix.read (number v).bytes = some (value v)) (port : Port) (d : Vector UInt8 8)
    {charPos : UInt8} (hpos : charPos ≤ 7) :
    CDefines port radix (clsDefineUserChar port (clsBuildUserDefChar round)) d charPos ↔
      (∀ v ∈ d.toList, value v = v.toNat) ∧ ∀ stack : Stack,
        (d.toList.foldl round ⟨stack.elStr, 0 :: stack.rgcCmd.drop 3⟩).elStr.length ≤ elStrSize := by
  have hspec := fun stack => clsDefineUserChar_spec hprints port stack d hpos
  have hdefines := defines_iff hread d hpos
  constructor
  · intro h
    constructor
    · -- any stack will do to read the values off, since what is sent does not depend on it
      obtain ⟨bs, hsent, hbs⟩ := h.transmits zeroStack
      rw [(hspec zeroStack).1] at hsent
      simp only [List.cons.injEq, Prod.mk.injEq, and_true, true_and] at hsent
      rw [← hsent] at hbs
      exact hdefines.mp hbs
    · intro stack
      rw [← (hspec stack).2.1]
      exact h.elStr stack
  · rintro ⟨hvalue, helStr⟩
    refine ⟨fun stack => ?_, fun stack => ?_, fun stack => ?_⟩
    · exact ⟨_, (hspec stack).1, hdefines.mpr hvalue⟩
    · rw [(hspec stack).2.1]
      exact helStr stack
    · exact Nat.le_of_eq (hspec stack).2.2

end

/-! ### I2C and SPI -/

/-- `elStr` has to hold the longest text, with its ';' and its NUL. -/
theorem length_foldl_printDecimal_le_iff (rows : List UInt8) (b : Buffers) (n : Nat) :
    (rows.foldl printDecimal b).elStr.length ≤ n ↔
      b.elStr.length ≤ n ∧ ∀ v ∈ rows, (decimalText v).strlen + 2 ≤ n := by
  induction rows generalizing b with
  | nil => simp
  | cons v rows ih =>
    have helStr : (printDecimal b v).elStr.length =
        max b.elStr.length ((decimalText v).strlen + 2) := by
      simp only [printDecimal]
      rw [length_sprintf, CString.strlen_append]
      rfl
    rw [List.foldl_cons, ih, helStr, Nat.max_le, List.forall_mem_cons, and_assoc]

/-- The display reads the decimal text of a byte as the byte. -/
theorem read_decimalText (v : UInt8) : Radix.decimal.read (decimalText v).bytes = some v.toNat :=
  ofDigits_decimal v.toNat

/-- In decimal, every glyph arrives, but a row from 100 on does not fit `elStr`. -/
theorem cDefines_decimal_iff (port : Port) (d : Vector UInt8 8) {charPos : UInt8}
    (hpos : charPos ≤ 7) :
    CDefines port .decimal (clsDefineUserChar port (clsBuildUserDefChar printDecimal)) d charPos ↔
      ∀ v ∈ d.toList, v < 100 := by
  -- two digits, the semicolon and the NUL fill `elStr`
  have hfits : ∀ v : UInt8, (decimalText v).strlen + 2 ≤ elStrSize ↔ v < 100 := by
    intro v
    have hlt : v < 100 ↔ v.toNat < 10 ^ 2 := UInt8.lt_iff_toNat_lt
    rw [hlt, ← strlen_decimalText_le_iff v (by decide), elStrSize]
    omega
  rw [cDefines_iff prints_decimal read_decimalText port d hpos]
  simp only [length_foldl_printDecimal_le_iff, hfits]
  constructor
  · intro h
    exact (h.2 zeroStack).2
  · intro h
    exact ⟨fun _ _ => trivial, fun stack => ⟨Nat.le_of_eq stack.length_elStr, h⟩⟩

/-! ### UART -/

/-- UART stays inside `elStr`: two digits, the semicolon and the NUL are four bytes for every
    row. -/
theorem length_foldl_printHex (rows : List UInt8) (b : Buffers) (h : b.elStr.length = elStrSize) :
    (rows.foldl printHex b).elStr.length = elStrSize := by
  induction rows generalizing b with
  | nil => exact h
  | cons v rows ih =>
    have hsprintf : (sprintf b.elStr (hexText v)).length = elStrSize := by
      rw [length_sprintf, h, strlen_hexText]
      rfl
    have hround : (printHex b v).elStr.length = elStrSize := by
      simp only [printHex]
      split
      · rw [length_store (hsprintf ▸ by decide), hsprintf]
      · rw [length_store (hsprintf ▸ by decide), hsprintf]
    exact ih _ hround

/-- The text of a row stands for the low four bits of the row. -/
theorem read_uartText (v : UInt8) :
    Radix.hexadecimal.read (uartText v).bytes = some (v.toNat % 16) := by
  show ofDigits 16 (if v > 15 then lowDigit v else hexText v).bytes = _
  split
  · exact ofDigits_lowDigit v
  · next hv =>
    -- the first of the two digits is a zero
    have hle : v.toNat ≤ 15 := UInt8.le_iff_toNat_le.mp (UInt8.not_lt.mp hv)
    have hlow : v.toNat % 16 < 16 := Nat.mod_lt _ (by decide)
    have hzero : ofDigits 16 [hexDigit 0] = some 0 := by decide
    have hread := ofDigits_append hzero (digitValue_hexDigit _ hlow) hlow
    rw [hexText_bytes, Nat.div_eq_of_lt (Nat.lt_succ_of_le hle)]
    rwa [Nat.mul_zero, Nat.zero_add] at hread

/-- What the display defines when it receives these messages. -/
def received (sent : List (Port × List UInt8)) : List (Option UserChar) :=
  sent.map fun message => readUserChar message.2

/-- From UART the display reads the low four bits of each row, whatever the glyph. -/
theorem readUserChar_uart (stack : Stack) (d : Vector UInt8 8) {charPos : UInt8}
    (hpos : charPos ≤ 7) :
    received (Uart.clsDefineUserChar stack d charPos).sent =
      [some ⟨d.toList.map fun v => v.toNat % 16, charPos.toNat⟩] := by
  have hsent : (Uart.clsDefineUserChar stack d charPos).sent = _ :=
    (clsDefineUserChar_spec prints_hex .uart stack d hpos).1
  rw [hsent, received, List.map_singleton, readUserChar_sequenceOf read_uartText d hpos]

/-- On UART a glyph arrives exactly if its rows have four bits. -/
theorem cDefines_uart_iff (d : Vector UInt8 8) {charPos : UInt8} (hpos : charPos ≤ 7) :
    CDefines .uart .hexadecimal Uart.clsDefineUserChar d charPos ↔ ∀ v ∈ d.toList, v ≤ 15 := by
  have hiff := cDefines_iff prints_hex read_uartText .uart d hpos
  -- UART sends the last hexadecimal digit only, which is all of a row up to 15
  have hmod : ∀ v : UInt8, v.toNat % 16 = v.toNat ↔ v ≤ 15 := by
    intro v
    rw [UInt8.le_iff_toNat_le]
    show _ ↔ v.toNat ≤ 15
    omega
  have helStr : ∀ stack : Stack, (d.toList.foldl printHex
      ⟨stack.elStr, 0 :: stack.rgcCmd.drop 3⟩).elStr.length ≤ elStrSize :=
    fun stack => Nat.le_of_eq (length_foldl_printHex _ _ stack.length_elStr)
  simp only [hmod] at hiff
  exact hiff.trans (and_iff_left helStr)

/-! ### Python -/

/-- Python defines every character, on each of the three ports: its strings have no buffer to
    overrun and no second digit to lose. -/
theorem transmits_defineUserChar (port : Port) (d : Vector UInt8 8) {charPos : UInt8}
    (hpos : charPos ≤ 7) :
    Transmits port .decimal d charPos (defineUserChar port (d.map UInt8.toNat) charPos.toNat).2 := by
  have hle : charPos.toNat ≤ 7 := UInt8.le_iff_toNat_le.mp hpos
  have hrange : (charPos.toNat : Int) ≥ 0 ∧ (charPos.toNat : Int) ≤ 7 := by omega
  have hdigit : charPos ≤ 9 := UInt8.le_trans hpos (by decide)
  refine ⟨sequenceOf (d.toList.map fun v => (decimalText v).bytes) charPos, ?_,
    (defines_iff read_decimalText d hpos).mpr fun _ _ => rfl⟩
  simp only [defineUserChar, if_pos hrange, List.foldl_append_eq_append, Vector.toList_map,
    List.map_map, Int.toNat_natCast, decimal_digit hdigit]
  rw [sequenceOf, List.flatMap_map]
  rfl

/-! ### Both languages -/

/-- Both languages refuse the same positions with the same error, and send nothing then. -/
theorem bResult_eq (port : Port) (build : Vector UInt8 8 → Buffers → Buffers) (stack : Stack)
    (d : Vector UInt8 8) (charPos : UInt8) :
    let c := clsDefineUserChar port build stack d charPos
    let python := defineUserChar port (d.map UInt8.toNat) charPos.toNat
    c.bResult.toNat = python.1 ∧ (c.sent = [] ↔ charPos > 7) ∧ (python.2 = [] ↔ charPos > 7) := by
  have hrange : ((charPos.toNat : Int) ≥ 0 ∧ (charPos.toNat : Int) ≤ 7) ↔
      charPos ≥ 0 ∧ charPos ≤ 7 := by
    have hzero : charPos ≥ 0 := UInt8.zero_le
    have hle : charPos ≤ 7 ↔ charPos.toNat ≤ 7 := UInt8.le_iff_toNat_le
    simp only [hzero, true_and, hle]
    omega
  simp only [clsDefineUserChar, defineUserChar, hrange]
  split
  · next h => simp [UInt8.not_lt.mpr h.2, lcdsErrSuccess]
  · next h =>
    have hgt : charPos > 7 := UInt8.not_le.mp fun hle => h ⟨UInt8.zero_le, hle⟩
    simp [hgt, lcdsErrArgPosRange]

/-- What the six functions send for a character. -/
def transmissions (stack : Stack) (d : Vector UInt8 8) (charPos : UInt8) :
    List (List (Port × List UInt8)) :=
  [(I2c.clsDefineUserChar stack d charPos).sent,
    (Spi.clsDefineUserChar stack d charPos).sent,
    (Uart.clsDefineUserChar stack d charPos).sent,
    (I2c.defineUserChar (d.map UInt8.toNat) charPos.toNat).2,
    (Spi.defineUserChar (d.map UInt8.toNat) charPos.toNat).2,
    (Uart.defineUserChar (d.map UInt8.toNat) charPos.toNat).2]

/-- Each function defines the character, the C functions inside their buffers, and so all of them
    define the same. -/
structure RoundTrips (d : Vector UInt8 8) (charPos : UInt8) : Prop where
  i2c : CDefines .i2c .decimal I2c.clsDefineUserChar d charPos
  spi : CDefines .spi .decimal Spi.clsDefineUserChar d charPos
  uart : CDefines .uart .hexadecimal Uart.clsDefineUserChar d charPos
  i2cPython :
    Transmits .i2c .decimal d charPos (I2c.defineUserChar (d.map UInt8.toNat) charPos.toNat).2
  spiPython :
    Transmits .spi .decimal d charPos (Spi.defineUserChar (d.map UInt8.toNat) charPos.toNat).2
  uartPython :
    Transmits .uart .decimal d charPos (Uart.defineUserChar (d.map UInt8.toNat) charPos.toNat).2
  same : ∀ stack stack', ∀ sent ∈ transmissions stack d charPos,
    ∀ sent' ∈ transmissions stack' d charPos, received sent = received sent'

/-- A transmission that is well formed is received as the numbers and the position that were
    sent. -/
theorem received_of_transmits {port : Port} {radix : Radix} {d : Vector UInt8 8} {charPos : UInt8}
    {sent : List (Port × List UInt8)} (h : Transmits port radix d charPos sent) :
    received sent = [some ⟨d.toList.map UInt8.toNat, charPos.toNat⟩] := by
  obtain ⟨bs, rfl, hbs⟩ := h
  rw [received, List.map_singleton, hbs.glyph]

/-- **The round trip of user-defined characters, exactly.** For every glyph and every position,
    what each port sends in C and in Python has the form of the command and is read back as the
    glyph, and the C functions stay inside `elStr` and `rgcCmd`, if and only if no row of the glyph
    is above 15. -/
theorem roundTrips_iff (d : Vector UInt8 8) (charPos : UInt8) (hpos : charPos ≤ 7) :
    RoundTrips d charPos ↔ ∀ v ∈ d.toList, v ≤ 15 := by
  have huart := cDefines_uart_iff d hpos
  constructor
  · intro h
    -- UART is the port that fails first, from 16 on
    exact huart.mp h.uart
  · intro hrows
    -- rows of up to 15 have two digits in decimal, so `elStr` holds them
    have hlt : ∀ v ∈ d.toList, v < 100 :=
      fun v hv => UInt8.lt_of_le_of_lt (hrows v hv) (by decide)
    have hdecimal := fun port => (cDefines_decimal_iff port d hpos).mpr hlt
    have hpython := fun port => transmits_defineUserChar port d hpos
    have hall : ∀ stack, ∀ sent ∈ transmissions stack d charPos,
        received sent = [some ⟨d.toList.map UInt8.toNat, charPos.toNat⟩] := by
      intro stack sent hsent
      simp only [transmissions, List.mem_cons, List.not_mem_nil, or_false] at hsent
      rcases hsent with rfl | rfl | rfl | rfl | rfl | rfl
      · exact received_of_transmits ((hdecimal .i2c).transmits stack)
      · exact received_of_transmits ((hdecimal .spi).transmits stack)
      · exact received_of_transmits ((huart.mpr hrows).transmits stack)
      · exact received_of_transmits (hpython .i2c)
      · exact received_of_transmits (hpython .spi)
      · exact received_of_transmits (hpython .uart)
    exact ⟨hdecimal .i2c, hdecimal .spi, huart.mpr hrows, hpython .i2c, hpython .spi, hpython .uart,
      fun stack stack' sent hsent sent' hsent' =>
        (hall stack sent hsent).trans (hall stack' sent' hsent').symm⟩

/-- A glyph of four columns, at position 7. -/
theorem roundTrips_small : RoundTrips #v[0, 10, 15, 15, 14, 4, 0, 9] 7 :=
  (roundTrips_iff _ 7 (by decide)).mpr (by simp)

/-- A full row of the display, 31, is sent as "0xF" on UART and read as 15; a row of 100 stores five
    bytes from `elStr` on for I2C and SPI. -/
theorem wide_rows_do_not_arrive :
    ¬ CDefines .uart .hexadecimal Uart.clsDefineUserChar #v[31, 0, 0, 0, 0, 0, 0, 0] 0 ∧
      ¬ CDefines .i2c .decimal I2c.clsDefineUserChar #v[100, 0, 0, 0, 0, 0, 0, 0] 0 ∧
      ¬ CDefines .spi .decimal Spi.clsDefineUserChar #v[100, 0, 0, 0, 0, 0, 0, 0] 0 ∧
      ¬ RoundTrips #v[31, 0, 0, 0, 0, 0, 0, 0] 0 := by
  have huart :
      ¬ CDefines .uart .hexadecimal Uart.clsDefineUserChar #v[31, 0, 0, 0, 0, 0, 0, 0] 0 := by
    intro h
    have hglyph := received_of_transmits (h.transmits zeroStack)
    exact absurd hglyph (by decide)
  refine ⟨huart, fun h => ?_, fun h => ?_, fun h => huart h.uart⟩
  · exact absurd (h.elStr zeroStack) (by decide)
  · exact absurd (h.elStr zeroStack) (by decide)

end ZynqLinux.Pmod
