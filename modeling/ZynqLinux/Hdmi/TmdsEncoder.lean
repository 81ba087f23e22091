import Mathlib.Algebra.Ring.Int.Defs
import ZynqLinux.Lib.Bits
import ZynqLinux.Lib.Differential
import ZynqLinux.Lib.History

namespace ZynqLinux.Hdmi.TmdsEncoder

open ZynqLinux.Lib

/-!
# `TMDS_Encoder.vhd`

The encoder of one channel of a DVI link, in three pipeline stages: the first two turn a byte
into nine bits with few transitions, the third adds a tenth bit that inverts the byte when
this balances the ones and zeros sent so far.  In control periods one of four tokens is sent.

* `Stage1`, `Stage2`, `qOut2` and `cntT2` are the stages, `step` one clock;
* `decode` is a receiver, and `decode_qOut2` the round trip for one word, whatever the counter
  holds;
* `transitions_dataWord` and `transitions_controlToken2` tell data words from tokens by their
  transitions;
* `cntT2_data`: the counter moves by the disparity of the word sent, and stays in its range;
* `sent` is what a run sends, and `sent_forall₂` takes facts of one word to whole runs.

A number of type `signed` or `unsigned` is a bit vector, and its operations wrap.
-/

/-! ### The stages -/

/-- The inputs of a clock. -/
structure In where
  pDataOut : BitVec 8
  pC0 : Bool
  pC1 : Bool
  pVde : Bool
deriving DecidableEq

/-- `sum_bits`. -/
def sumBits {w : Nat} (u : BitVec w) : BitVec 4 :=
  (List.range w).foldl (fun sum i => sum + BitVec.ofNat 4 (u.getLsbD i).toNat) 0

/-- The registers of stage 1. -/
structure Stage1 where
  pVde : Bool
  n1d : BitVec 4
  pDataOut : BitVec 8
  pC0 : Bool
  pC1 : Bool

/-- The registers of stage 2. -/
structure Stage2 where
  n1qM : BitVec 4
  n0qM : BitVec 4
  qM : BitVec 9
  pC0 : Bool
  pC1 : Bool
  pVde : Bool

/-- The process `Stage1`. -/
def stage1 (i : In) : Stage1 := ⟨i.pVde, sumBits i.pDataOut, i.pDataOut, i.pC0, i.pC1⟩

/-- `xnor`. -/
def xnor (a b : Bool) : Bool := !(a ^^ b)

/-- Bits 7 to 0 of `q_m_xor_1` or `q_m_xnor_1`: the `generate` loops. -/
def qMBits (op : Bool → Bool → Bool) (d : BitVec 8) : BitVec 8 :=
  ofBits fun i : Fin 8 => chain op d.getLsbD i

/-- `q_m_xor_1`. -/
def qMXor (d : BitVec 8) : BitVec 9 := 1#1 ++ qMBits Bool.xor d

/-- `q_m_xnor_1`. -/
def qMXnor (d : BitVec 8) : BitVec 9 := 0#1 ++ qMBits xnor d

/-- `q_m_1`. -/
def qM1 (s : Stage1) : BitVec 9 :=
  if s.n1d > 4 || (s.n1d == 4 && s.pDataOut.getLsbD 0 == false) then qMXnor s.pDataOut
  else qMXor s.pDataOut

/-- The process `Stage2`. -/
def stage2 (s : Stage1) : Stage2 where
  n1qM := sumBits ((qM1 s).extractLsb' 0 8)
  n0qM := 8 - sumBits ((qM1 s).extractLsb' 0 8)
  qM := qM1 s
  pC0 := s.pC0
  pC1 := s.pC1
  pVde := s.pVde

/-- `cond_balanced_2`. -/
def condBalanced2 (s : Stage2) (cntT3 : BitVec 5) : Bool := cntT3 == 0 || s.n1qM == 4

/-- `cond_not_balanced_2`. -/
def condNotBalanced2 (s : Stage2) (cntT3 : BitVec 5) : Bool :=
  (BitVec.slt 0 cntT3 && s.n1qM > 4) || (BitVec.slt cntT3 0 && s.n1qM < 4)

/-- `kCtlTkn0` to `kCtlTkn3`. -/
def kCtlTkn0 : BitVec 10 := 0b1101010100
def kCtlTkn1 : BitVec 10 := 0b0010101011
def kCtlTkn2 : BitVec 10 := 0b0101010100
def kCtlTkn3 : BitVec 10 := 0b1010101011

/-- `control_token_2`. -/
def controlToken2 (pC1 pC0 : Bool) : BitVec 10 :=
  if pC1 = false && pC0 = false then kCtlTkn0
  else if pC1 = false && pC0 = true then kCtlTkn1
  else if pC1 = true && pC0 = false then kCtlTkn2
  else kCtlTkn3

/-- `q_m_2(8)` and `q_m_2(7 downto 0)`. -/
def Stage2.qM8 (s : Stage2) : BitVec 1 := s.qM.extractLsb' 8 1
def Stage2.qMLow (s : Stage2) : BitVec 8 := s.qM.extractLsb' 0 8

/-- `q_out_2`. -/
def qOut2 (s : Stage2) (cntT3 : BitVec 5) : BitVec 10 :=
  if s.pVde = false then controlToken2 s.pC1 s.pC0
  else if condBalanced2 s cntT3 && s.qM8 = 0 then ~~~s.qM8 ++ s.qM8 ++ ~~~s.qMLow
  else if condBalanced2 s cntT3 && s.qM8 = 1 then ~~~s.qM8 ++ s.qM8 ++ s.qMLow
  else if condNotBalanced2 s cntT3 then 1#1 ++ s.qM8 ++ ~~~s.qMLow
  else 0#1 ++ s.qM8 ++ s.qMLow

/-- `dc_bias_2`. -/
def dcBias2 (s : Stage2) : BitVec 5 := (0#1 ++ s.n0qM) - (0#1 ++ s.n1qM)

/-- `cnt_t_2`; the three bit operands are extended to five. -/
def cntT2 (s : Stage2) (cntT3 : BitVec 5) : BitVec 5 :=
  -- outside the data period the counter starts over
  if s.pVde = false then 0
  else if condBalanced2 s cntT3 && s.qM8 = 0 then cntT3 + dcBias2 s
  else if condBalanced2 s cntT3 && s.qM8 = 1 then cntT3 - dcBias2 s
  else if condNotBalanced2 s cntT3 then
    cntT3 + (0#1 ++ s.qM8 ++ 0#1).signExtend 5 + dcBias2 s
  else cntT3 - (0#1 ++ ~~~s.qM8 ++ 0#1).signExtend 5 - dcBias2 s

/-- The registers of the encoder. -/
structure State where
  s1 : Stage1
  s2 : Stage2
  cntT3 : BitVec 5
  pDataOutRaw : BitVec 10

/-- One clock. -/
def step (s : State) (i : In) : State :=
  ⟨stage1 i, stage2 s.s1, cntT2 s.s2 s.cntT3, qOut2 s.s2 s.cntT3⟩

/-- The encoder from power-up; only `cnt_t_3` has an initial value. -/
def encoder (u : State) : Machine State In := ⟨{ u with cntT3 := 0 }, step⟩

/-! ### Bits and counts -/

/-- The bits of the first two stages are those of the differential code of the byte. -/
theorem getLsbD_qMBits (op : Bool → Bool → Bool) (d : BitVec 8) {i : Nat} (hi : i < 8) :
    (qMBits op d).getLsbD i = chain op d.getLsbD i := by
  rw [qMBits, getLsbD_ofBits, dif_pos hi]

/-- `sum_bits` counts the ones of a vector: its result of four bits holds the count of up to
    fifteen. -/
theorem toNat_sumBits {w : Nat} (hw : w < 16) (u : BitVec w) :
    (sumBits u).toNat = ones u.getLsbD w := by
  have hfold : ∀ n ≤ w, ((List.range n).foldl
      (fun sum i => sum + BitVec.ofNat 4 (u.getLsbD i).toNat) (0 : BitVec 4)).toNat
        = ones u.getLsbD n := by
    intro n
    induction n with
    | zero => exact fun _ => rfl
    | succ n ih =>
      intro hn
      have hle := ones_add_ones_not u.getLsbD n
      rw [List.range_succ, List.foldl_append, List.foldl_cons, List.foldl_nil, BitVec.toNat_add,
        ih (by omega), ones_succ]
      cases u.getLsbD n <;> simp <;> omega
  exact hfold w (Nat.le_refl w)

/-! ### The words -/

/-- The combination that bit 8 of a word names. -/
def opOf (q8 : Bool) : Bool → Bool → Bool := if q8 then Bool.xor else xnor

/-- Both operations undo themselves, so the code can be decoded whichever one was used. -/
theorem opOf_opOf (q8 a b : Bool) : opOf q8 a (opOf q8 a b) = b := by
  revert q8 a b
  decide

/-- The combination changes the last bit on a one, or on a zero. -/
theorem xor_opOf (q8 a b : Bool) : (a ^^ opOf q8 a b) = (b == q8) := by
  revert q8 a b
  decide

/-- The word with bits 9 and 8 and the byte, inverted if bit 9 says so. -/
def word (inv q8 : Bool) (low : BitVec 8) : BitVec 10 :=
  BitVec.ofBool inv ++ BitVec.ofBool q8 ++ (if inv then ~~~low else low)

/-- The eight low bits of a word are those of the code, inverted or not. -/
theorem getLsbD_word (inv q8 : Bool) (low : BitVec 8) {i : Nat} (hi : i < 8) :
    (word inv q8 low).getLsbD i = (inv ^^ low.getLsbD i) := by
  rw [word, BitVec.getLsbD_append, if_pos hi]
  cases inv with
  | false => simp
  | true => simp [hi]

/-- Bit 8 says which operation the code was made with. -/
@[simp] theorem getLsbD_word_8 (inv q8 : Bool) (low : BitVec 8) :
    (word inv q8 low).getLsbD 8 = q8 := by
  rw [word, BitVec.getLsbD_append, BitVec.getLsbD_append]
  cases q8 <;> rfl

/-- Bit 9 says whether the low bits are inverted. -/
@[simp] theorem getLsbD_word_9 (inv q8 : Bool) (low : BitVec 8) :
    (word inv q8 low).getLsbD 9 = inv := by
  rw [word, BitVec.getLsbD_append, BitVec.getLsbD_append]
  cases inv <;> rfl

/-- Bit 8 of the first two stages: the xor code is used. -/
def useXor (s : Stage1) : Bool :=
  !(s.n1d > 4 || (s.n1d == 4 && s.pDataOut.getLsbD 0 == false))

/-- The source compares the number of ones with four, and looks at bit 0 where they are equal. -/
theorem useXor_iff (s : Stage1) : useXor s = true
    ↔ s.n1d.toNat < 4 ∨ s.n1d.toNat = 4 ∧ s.pDataOut.getLsbD 0 = true := by
  have hgt : (s.n1d > 4) ↔ 4 < s.n1d.toNat := Iff.rfl
  have heq : s.n1d = 4 ↔ s.n1d.toNat = 4 := BitVec.toNat_eq
  rw [useXor, Bool.not_eq_true', Bool.or_eq_false_iff, decide_eq_false_iff_not, hgt,
    Bool.and_eq_false_iff, beq_eq_false_iff_ne, Ne, heq, beq_eq_false_iff_ne, Ne,
    Bool.not_eq_false]
  grind

/-- The two branches of `q_m_1` are one code, with the operation as a parameter. -/
theorem qM1_eq (s : Stage1) :
    qM1 s = BitVec.ofBool (useXor s) ++ qMBits (opOf (useXor s)) s.pDataOut := by
  rw [qM1, useXor]
  cases (s.n1d > 4 || (s.n1d == 4 && s.pDataOut.getLsbD 0 == false)) <;> rfl

/-- After the second stage bit 8 holds the choice of the operation. -/
theorem qM8_stage2 (s : Stage1) : (stage2 s).qM8 = BitVec.ofBool (useXor s) := by
  apply BitVec.eq_of_getLsbD_eq
  intro i hi
  obtain rfl : i = 0 := by omega
  rw [Stage2.qM8, stage2, qM1_eq, BitVec.getLsbD_extractLsb', BitVec.getLsbD_append]
  simp

/-- And the low bits hold the code of the byte made with it. -/
theorem qMLow_stage2 (s : Stage1) :
    (stage2 s).qMLow = qMBits (opOf (useXor s)) s.pDataOut := by
  apply BitVec.eq_of_getLsbD_eq
  intro i hi
  rw [Stage2.qMLow, stage2, qM1_eq, BitVec.getLsbD_extractLsb', BitVec.getLsbD_append]
  simp [hi]

/-- Bit 9: the third stage inverts the byte. -/
def inverted (s : Stage2) (cntT3 : BitVec 5) : Bool :=
  if condBalanced2 s cntT3 then s.qM8 = 0 else condNotBalanced2 s cntT3

/-- In an active period the third stage sends a word of the code, with the inversion that the
    counter asks for. -/
theorem qOut2_eq_word {s : Stage2} (hvde : s.pVde = true) {q8 : Bool}
    (hq8 : s.qM8 = BitVec.ofBool q8) (cntT3 : BitVec 5) :
    qOut2 s cntT3 = word (inverted s cntT3) q8 s.qMLow := by
  rw [qOut2, inverted, hvde, hq8]
  cases condBalanced2 s cntT3 <;> cases condNotBalanced2 s cntT3 <;> cases q8 <;> rfl

/-- The word of a byte, inverted or not. -/
def dataWord (i : In) (inv : Bool) : BitVec 10 :=
  word inv (useXor (stage1 i)) (qMBits (opOf (useXor (stage1 i))) i.pDataOut)

/-- So an input in an active period is sent as the data word of its byte, inverted or not. -/
theorem qOut2_data {i : In} (hvde : i.pVde = true) (cntT3 : BitVec 5) :
    qOut2 (stage2 (stage1 i)) cntT3
      = dataWord i (inverted (stage2 (stage1 i)) cntT3) := by
  rw [qOut2_eq_word hvde (qM8_stage2 _), qMLow_stage2]
  rfl

/-- And an input in a control period as one of the four tokens, whatever the counter holds. -/
theorem qOut2_control {i : In} (hvde : i.pVde = false) (cntT3 : BitVec 5) :
    qOut2 (stage2 (stage1 i)) cntT3 = controlToken2 i.pC1 i.pC0 :=
  if_pos hvde

/-! ### Transitions -/

/-- The code is chosen so that at most three of the seven later bits make it change. -/
theorem transitions_chain_useXor (i : In) :
    transitions (chain (opOf (useXor (stage1 i))) i.pDataOut.getLsbD) 7 ≤ 3 := by
  have hn1 : (stage1 i).n1d.toNat = ones i.pDataOut.getLsbD 8 := toNat_sumBits (by decide) _
  have hfirst : ones i.pDataOut.getLsbD 8
      = ones (fun j => i.pDataOut.getLsbD (j + 1)) 7 + (i.pDataOut.getLsbD 0).toNat :=
    ones_succ' _ 7
  have hnot := ones_add_ones_not (fun j => i.pDataOut.getLsbD (j + 1)) 7
  rw [transitions_chain (xor_opOf _)]
  by_cases hxor : useXor (stage1 i) = true
  · -- at most four ones, and the first bit is one of them if there are four
    have hlow : (stage1 i).n1d.toNat < 4
        ∨ (stage1 i).n1d.toNat = 4 ∧ i.pDataOut.getLsbD 0 = true :=
      (useXor_iff (stage1 i)).mp hxor
    simp only [hxor, beq_true]
    rcases hlow with hlt | ⟨heq, hbit⟩
    · omega
    · rw [hbit, Bool.toNat_true] at hfirst
      omega
  · -- at most four zeros, and the first bit is one of them if there are four
    have hhigh : ¬((stage1 i).n1d.toNat < 4
        ∨ (stage1 i).n1d.toNat = 4 ∧ i.pDataOut.getLsbD 0 = true) :=
      fun h => hxor ((useXor_iff (stage1 i)).mpr h)
    have hge : ¬(stage1 i).n1d.toNat < 4 := fun h => hhigh (.inl h)
    rw [Bool.not_eq_true] at hxor
    simp only [hxor, beq_false]
    cases hbit : i.pDataOut.getLsbD 0 with
    | true =>
      have hne : (stage1 i).n1d.toNat ≠ 4 := fun h => hhigh (.inr ⟨h, hbit⟩)
      rw [hbit, Bool.toNat_true] at hfirst
      omega
    | false =>
      rw [hbit, Bool.toNat_false] at hfirst
      omega

/-- The ten bits of a data word, lowest first: three transitions in the byte and two more. -/
theorem transitions_dataWord (i : In) (inv : Bool) :
    transitions (dataWord i inv).getLsbD 9 ≤ 5 := by
  -- inverting all eight bits moves no transition
  have hlow : transitions (dataWord i inv).getLsbD 7
      = transitions (chain (opOf (useXor (stage1 i))) i.pDataOut.getLsbD) 7 := by
    rw [← transitions_xor inv (chain _ _)]
    apply transitions_congr
    intro j hj
    rw [dataWord, getLsbD_word _ _ _ (by omega), getLsbD_qMBits _ _ (by omega)]
  calc transitions (dataWord i inv).getLsbD 9
      ≤ transitions (dataWord i inv).getLsbD 8 + 1 := transitions_succ_le _ 8
    _ ≤ transitions (dataWord i inv).getLsbD 7 + 1 + 1 :=
        Nat.succ_le_succ (transitions_succ_le _ 7)
    _ ≤ 5 := by
        have hle := transitions_chain_useXor i
        omega

/-- The tokens have many transitions, which is how a receiver finds the word boundary. -/
theorem transitions_controlToken2 (pC1 pC0 : Bool) :
    7 ≤ transitions (controlToken2 pC1 pC0).getLsbD 9 := by
  revert pC1 pC0
  decide

/-- No byte is sent as a token: a data word has too few transitions for one. -/
theorem dataWord_ne_controlToken2 (i : In) (inv pC1 pC0 : Bool) :
    dataWord i inv ≠ controlToken2 pC1 pC0 := by
  intro h
  have hdata := transitions_dataWord i inv
  rw [h] at hdata
  have htoken := transitions_controlToken2 pC1 pC0
  omega

/-! ### The receiver -/

/-- What a word stands for. -/
inductive Symbol where
  | control (pC1 pC0 : Bool)
  | data (byte : BitVec 8)
deriving DecidableEq

/-- What an input stands for. -/
def In.symbol (i : In) : Symbol := if i.pVde then .data i.pDataOut else .control i.pC1 i.pC0

/-- The byte of a word that is no token: bit 9 undoes the third stage, bit 8 the first two. -/
def decodeByte (w : BitVec 10) : BitVec 8 :=
  ofBits fun j : Fin 8 =>
    unchain (opOf (w.getLsbD 8)) (fun k => w.getLsbD 9 ^^ w.getLsbD k) j

/-- A receiver, as DVI has it. -/
def decode (w : BitVec 10) : Symbol :=
  if w = kCtlTkn0 then .control false false
  else if w = kCtlTkn1 then .control false true
  else if w = kCtlTkn2 then .control true false
  else if w = kCtlTkn3 then .control true true
  else .data (decodeByte w)

/-- The receiver knows each token by its ten bits. -/
theorem decode_controlToken2 (pC1 pC0 : Bool) :
    decode (controlToken2 pC1 pC0) = .control pC1 pC0 := by
  cases pC1 <;> cases pC0 <;> rfl

/-- The two marks of the word are enough to read its byte back. -/
theorem decodeByte_dataWord (i : In) (inv : Bool) : decodeByte (dataWord i inv) = i.pDataOut := by
  apply BitVec.eq_of_getLsbD_eq
  intro j hj
  rw [decodeByte, getLsbD_ofBits, dif_pos hj]
  rw [← unchain_chain (opOf_opOf (useXor (stage1 i))) i.pDataOut.getLsbD j]
  rw [dataWord, getLsbD_word_8, getLsbD_word_9]
  apply unchain_congr
  intro k hk
  rw [getLsbD_word _ _ _ (by omega), getLsbD_qMBits _ _ (by omega)]
  cases inv <;> simp

/-- No data word is one of the tokens, so the receiver takes it for data. -/
theorem decode_dataWord (i : In) (inv : Bool) :
    decode (dataWord i inv) = .data i.pDataOut := by
  have h0 : dataWord i inv ≠ kCtlTkn0 := dataWord_ne_controlToken2 i inv false false
  have h1 : dataWord i inv ≠ kCtlTkn1 := dataWord_ne_controlToken2 i inv false true
  have h2 : dataWord i inv ≠ kCtlTkn2 := dataWord_ne_controlToken2 i inv true false
  have h3 : dataWord i inv ≠ kCtlTkn3 := dataWord_ne_controlToken2 i inv true true
  rw [decode, if_neg h0, if_neg h1, if_neg h2, if_neg h3, decodeByte_dataWord]

/-- The receiver reads the input back, whatever the counter holds. -/
theorem decode_qOut2 (i : In) (cntT3 : BitVec 5) :
    decode (qOut2 (stage2 (stage1 i)) cntT3) = i.symbol := by
  cases hvde : i.pVde with
  | true => rw [qOut2_data hvde, decode_dataWord, In.symbol, if_pos hvde]
  | false => rw [qOut2_control hvde, decode_controlToken2, In.symbol, hvde]; rfl

/-! ### The counter -/

/-- Ones minus zeros of a word. -/
def disparity (w : BitVec 10) : Int := 2 * ones w.getLsbD 10 - 10

/-- What the counter holds between two words. -/
def Balanced (cntT3 : BitVec 5) : Prop :=
  -8 ≤ cntT3.toInt ∧ cntT3.toInt ≤ 8 ∧ cntT3.toInt % 2 = 0

instance (cntT3 : BitVec 5) : Decidable (Balanced cntT3) :=
  inferInstanceAs (Decidable (_ ∧ _ ∧ _))

/-- The ones of a word: those of its low bits, inverted or not, and the two marks. -/
theorem ones_word (inv q8 : Bool) (low : BitVec 8) :
    ones (word inv q8 low).getLsbD 10
      = ones (fun j => inv ^^ low.getLsbD j) 8 + q8.toNat + inv.toNat := by
  rw [ones_succ, ones_succ, getLsbD_word_8, getLsbD_word_9]
  rw [ones_congr fun j hj => getLsbD_word inv q8 low hj]

/-- The disparity of a word in the ones of its byte in front of the third stage. -/
theorem disparity_word (inv q8 : Bool) (low : BitVec 8) :
    disparity (word inv q8 low)
      = if inv then (8 + 2 * q8.toNat - 2 * ones low.getLsbD 8 : Int)
        else 2 * q8.toNat + 2 * ones low.getLsbD 8 - 10 := by
  have hnot := ones_add_ones_not low.getLsbD 8
  rw [disparity, ones_word]
  cases inv with
  | false =>
    have hsame : ones (fun j => false ^^ low.getLsbD j) 8 = ones low.getLsbD 8 :=
      ones_congr fun j _ => Bool.false_xor _
    rw [hsame, Bool.toNat_false, if_neg Bool.false_ne_true]
    omega
  | true =>
    -- the inverted byte has a one for each zero
    have hcompl : ones (fun j => true ^^ low.getLsbD j) 8 = ones (fun j => !low.getLsbD j) 8 :=
      ones_congr fun j _ => Bool.true_xor _
    rw [hcompl, Bool.toNat_true, if_pos rfl]
    omega

/-- The counter and bit 9 depend on the number of ones and on bit 8 only. -/
theorem cntT2_congr {s t : Stage2} (hn1 : s.n1qM = t.n1qM) (hn0 : s.n0qM = t.n0qM)
    (hq8 : s.qM8 = t.qM8) (hvde : s.pVde = t.pVde) (cntT3 : BitVec 5) :
    cntT2 s cntT3 = cntT2 t cntT3 ∧ inverted s cntT3 = inverted t cntT3 := by
  unfold cntT2 inverted condBalanced2 condNotBalanced2 dcBias2
  rw [hn1, hn0, hq8, hvde]
  exact ⟨rfl, rfl⟩

/-- A second stage with a given number of ones and bit 8. -/
def ofCount (n1 : BitVec 4) (q8 : Bool) : Stage2 :=
  ⟨n1, 8 - n1, BitVec.ofBool q8 ++ 0#8, false, false, true⟩

/-- Bit 8 of such a stage is the one it is made from. -/
theorem qM8_ofCount (n1 : BitVec 4) (q8 : Bool) : (ofCount n1 q8).qM8 = BitVec.ofBool q8 := by
  show (BitVec.ofBool q8 ++ 0#8).extractLsb' 8 1 = BitVec.ofBool q8
  revert q8
  decide

/-- The counter's arithmetic on every number of ones; its five bits do not overflow. -/
theorem cntT2_ofCount : ∀ (n1 : BitVec 4) (q8 : Bool) (cntT3 : BitVec 5), n1 ≤ 8 →
    Balanced cntT3 → Balanced (cntT2 (ofCount n1 q8) cntT3) ∧ (cntT2 (ofCount n1 q8) cntT3).toInt
      = cntT3.toInt + if inverted (ofCount n1 q8) cntT3
        then (8 + 2 * q8.toNat - 2 * n1.toNat : Int) else 2 * q8.toNat + 2 * n1.toNat - 10 := by
  decide +kernel

/-- A byte changes the counter by the disparity of its word. -/
theorem cntT2_data {i : In} (hvde : i.pVde = true) {cntT3 : BitVec 5} (hbal : Balanced cntT3) :
    Balanced (cntT2 (stage2 (stage1 i)) cntT3) ∧ (cntT2 (stage2 (stage1 i)) cntT3).toInt
      = cntT3.toInt + disparity (qOut2 (stage2 (stage1 i)) cntT3) := by
  have hn1 : (stage2 (stage1 i)).n1qM.toNat = ones (stage2 (stage1 i)).qMLow.getLsbD 8 :=
    toNat_sumBits (by decide) _
  have hle : (stage2 (stage1 i)).n1qM ≤ 8 := by
    have hnot := ones_add_ones_not (stage2 (stage1 i)).qMLow.getLsbD 8
    rw [BitVec.le_def, hn1]
    show _ ≤ 8
    omega
  -- the counter depends on the number of ones only, so a few hundred cases decide it
  obtain ⟨hcnt, hinv⟩ := @cntT2_congr (stage2 (stage1 i))
    (ofCount (stage2 (stage1 i)).n1qM (useXor (stage1 i))) rfl rfl
    (by rw [qM8_stage2, qM8_ofCount]) hvde cntT3
  rw [qOut2_eq_word hvde (qM8_stage2 _), disparity_word, ← hn1, hcnt, hinv]
  exact cntT2_ofCount _ (useXor (stage1 i)) cntT3 hle hbal

/-! ### Whole runs -/

/-- The words on `pDataOutRaw` after each clock of a run. -/
def sent (u : State) (is : List In) : List (BitVec 10) :=
  log (fun past i => [((encoder u).run (past ++ [i])).pDataOutRaw]) is

@[simp] theorem length_sent (u : State) (is : List In) : (sent u is).length = is.length := by
  induction is using List.reverseRecOn with
  | nil => rfl
  | append_singleton is i ih => rw [sent, log_snoc, List.length_append, ← sent, ih]; simp

/-- An input reaches the third stage with the third clock, and meets the counter there. -/
theorem run_three (u : State) (is : List In) (i j k : In) :
    ((encoder u).run (is ++ [i, j, k])).cntT3
        = cntT2 (stage2 (stage1 i)) ((encoder u).run (is ++ [i, j])).cntT3
      ∧ ((encoder u).run (is ++ [i, j, k])).pDataOutRaw
        = qOut2 (stage2 (stage1 i)) ((encoder u).run (is ++ [i, j])).cntT3 := by
  have hij : is ++ [i, j] = is ++ [i] ++ [j] := by simp
  have hijk : is ++ [i, j, k] = is ++ [i] ++ [j] ++ [k] := by simp
  rw [hijk, hij, Machine.run_snoc, Machine.run_snoc (encoder u) (is ++ [i]), Machine.run_snoc]
  exact ⟨rfl, rfl⟩

/-- The word sent with a clock is that of the input two clocks before, made with the counter
    as it is now. -/
theorem sent_three (u : State) (is : List In) (i j k : In) :
    sent u (is ++ [i, j, k]) = sent u (is ++ [i, j])
      ++ [qOut2 (stage2 (stage1 i)) ((encoder u).run (is ++ [i, j])).cntT3] := by
  have hijk : is ++ [i, j, k] = is ++ [i, j] ++ [k] := by simp
  rw [hijk, sent, log_snoc, ← sent, ← hijk, (run_three u is i j k).2]

/-- **Pipeline rule.** After the two words that the registers held, the words of a run are
    those of its inputs, in order, each made with some value of the counter. -/
theorem sent_forall₂ {P : In → BitVec 10 → Prop}
    (hP : ∀ i cntT3, P i (qOut2 (stage2 (stage1 i)) cntT3)) (u : State) (is : List In)
    (j k : In) : List.Forall₂ P is ((sent u (is ++ [j, k])).drop 2) := by
  induction is using List.reverseRecOn generalizing j k with
  | nil => exact .nil
  | append_singleton is i ih =>
    have hijk : is ++ [i] ++ [j, k] = is ++ [i, j, k] := by simp
    rw [hijk, sent_three, List.drop_append_of_le_length (by simp)]
    exact List.rel_append (ih i j) (.cons (hP _ _) .nil)

/-- The receiver reads back what was put in, two clocks later and nothing else. -/
theorem decode_sent (u : State) (is : List In) (j k : In) :
    ((sent u (is ++ [j, k])).drop 2).map decode = is.map In.symbol := by
  have hall := sent_forall₂ (P := fun i w => decode w = i.symbol) decode_qOut2 u is j k
  generalize (sent u (is ++ [j, k])).drop 2 = ws at hall
  induction hall with
  | nil => rfl
  | cons hw _ ih => rw [List.map_cons, List.map_cons, hw, ih]

/-- Bytes are sent with at most five transitions in the ten bits, tokens with at least seven. -/
theorem transitions_sent (u : State) (is : List In) (j k : In) :
    List.Forall₂ (fun i w => if i.pVde = true then transitions w.getLsbD 9 ≤ 5
      else 7 ≤ transitions w.getLsbD 9) is ((sent u (is ++ [j, k])).drop 2) := by
  apply sent_forall₂
  intro i cntT3
  cases hvde : i.pVde with
  | true =>
    rw [if_pos rfl, qOut2_data hvde]
    exact transitions_dataWord i _
  | false =>
    rw [if_neg Bool.false_ne_true, qOut2_control hvde]
    exact transitions_controlToken2 _ _

/-- Since the last token the counter has added up the disparities of the words sent, without
    overflow: at no time do the ones outnumber the zeros, or the zeros the ones, by more than
    eight. -/
theorem disparity_sent (u : State) (pre data : List In) {c : In} (hc : c.pVde = false)
    (hdata : ∀ i ∈ data, i.pVde = true) (j k : In) :
    Balanced ((encoder u).run (pre ++ [c] ++ data ++ [j, k])).cntT3
      ∧ ((encoder u).run (pre ++ [c] ++ data ++ [j, k])).cntT3.toInt
        = (((sent u (pre ++ [c] ++ data ++ [j, k])).drop (pre.length + 3)).map disparity).sum := by
  induction data using List.reverseRecOn generalizing j k with
  | nil =>
    -- the counter is cleared by the control token, three cycles behind its inputs
    have hrun : pre ++ [c] ++ [] ++ [j, k] = pre ++ [c, j, k] := by simp
    have hcnt : ((encoder u).run (pre ++ [c, j, k])).cntT3 = 0 := by
      rw [(run_three u pre c j k).1]
      exact if_pos hc
    rw [hrun, hcnt, List.drop_of_length_le (by simp)]
    exact ⟨by decide, rfl⟩
  | append_singleton data i ih =>
    obtain ⟨hbal, hsum⟩ := ih (fun a ha => hdata a (List.mem_append_left _ ha)) i j
    have hrun : pre ++ [c] ++ (data ++ [i]) ++ [j, k] = pre ++ [c] ++ data ++ [i, j, k] := by simp
    -- the word that comes out now is the one the counter has just been moved by
    have hstep := cntT2_data (hdata i (by simp)) hbal
    rw [hrun, sent_three, (run_three u _ i j k).1]
    rw [List.drop_append_of_le_length (by simp), List.map_append, List.sum_append, ← hsum]
    refine ⟨hstep.1, ?_⟩
    rw [hstep.2, List.map_singleton, List.sum_singleton]

/-- A clock of the blanking period without a sync pulse. -/
def blank : In := ⟨0, false, false, false⟩

/-- The encoder after blanking: its pipeline holds tokens, and the counter stands at zero. -/
def blanked : State := ⟨stage1 blank, stage2 (stage1 blank), 0, controlToken2 false false⟩

/-- A black and a white pixel. -/
def blackWhite : List In := [⟨0, false, false, true⟩, ⟨255, false, false, true⟩]

/-- After a token the black pixel takes the counter to minus eight and the white one to minus
    two: the two words have eight zeros more and six ones more than their opposites. -/
theorem disparity_sent_blackWhite :
    ((sent blanked ([blank] ++ blackWhite ++ [blank, blank])).drop 3).map disparity = [-8, 6]
      ∧ Balanced ((encoder blanked).run ([blank] ++ blackWhite ++ [blank, blank])).cntT3
      ∧ ((encoder blanked).run ([blank] ++ blackWhite ++ [blank, blank])).cntT3.toInt = -2 := by
  have hwords : ((sent blanked ([blank] ++ blackWhite ++ [blank, blank])).drop 3).map disparity
      = [-8, 6] := by
    decide +kernel
  obtain ⟨hbalanced, hsum⟩ :=
    @disparity_sent blanked [] blackWhite blank rfl (by decide) blank blank
  refine ⟨hwords, hbalanced, ?_⟩
  rw [List.nil_append] at hsum
  exact hsum.trans (congrArg List.sum hwords)

end ZynqLinux.Hdmi.TmdsEncoder
