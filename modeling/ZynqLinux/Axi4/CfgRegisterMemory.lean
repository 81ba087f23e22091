import Mathlib.Tactic.Positivity
import ZynqLinux.Axi4.CfgRegister
import ZynqLinux.Lib.StrobedMemory

namespace ZynqLinux.Axi4.CfgRegister

open ZynqLinux.Lib

/-!
# `axi_cfg_register` — a memory with byte strobes

For words of `2 ^ m` bytes and a bank of `n` words, the IP behaves as the abstract
`Memory n w` under every master that has at most one write and one read outstanding:
`cfg_data` is the memory after the accepted writes, and the responses are those of the
memory.  Reads and writes may overlap in any way.

The address decode rests on `clogb2`: `wordIndex_bank` computes the index field and
`le_two_pow_cfgWidth` shows that it reaches every word.
-/

/-- A bank of `n` words of `2 ^ m` bytes, addressed with `A` bits. -/
def bank (m n A : Nat) : Params := ⟨n * (8 * 2 ^ m), 8 * 2 ^ m, A⟩

variable {m n A : Nat}

/-! ### The address decode -/

/-- The index field starts above the `m` bits that select a byte of a word. -/
theorem bank_addrLsb : (bank m n A).addrLsb = m := by
  show clogb2 (8 * 2 ^ m / 8 - 1) = m
  rw [Nat.mul_div_cancel_left _ (by decide), clogb2_two_pow_sub_one]

/-- A bank of `n` words has `CFG_SIZE` equal to `n`, for every size of its words. -/
theorem bank_cfgSize : (bank m n A).cfgSize = n := by
  show n * (8 * 2 ^ m) / (8 * 2 ^ m) = n
  exact Nat.mul_div_cancel _ (by positivity)

/-- The index field reaches every word: it has as many bits as the number of words needs. -/
theorem le_two_pow_cfgWidth : n ≤ 2 ^ (bank m n A).cfgWidth := by
  rw [Params.cfgWidth, bank_cfgSize]
  by_cases hn : n > 1
  · rw [if_pos hn]
    exact le_two_pow_clogb2 (by omega)
  · rw [if_neg hn]
    omega

/-- The word an address selects. -/
def wordOf (m n A : Nat) (addr : BitVec (bank m n A).axiAddrWidth) : Nat :=
  addr.toNat / 2 ^ m % 2 ^ (bank m n A).cfgWidth

/-- The index field of the source, computed: the address divided by the size of a word, around
    the power of two that holds all the words. -/
theorem wordIndex_bank (addr : BitVec (bank m n A).axiAddrWidth) :
    wordIndex addr = wordOf m n A addr := by
  rw [wordIndex, BitVec.extractLsb'_toNat, Nat.shiftRight_eq_div_pow, bank_addrLsb, wordOf]

/-- Every word has an address. -/
theorem exists_wordOf (hA : m + (bank m n A).cfgWidth ≤ A) {j : Nat} (hj : j < n) :
    ∃ addr, wordOf m n A addr = j := by
  have hjw : j < 2 ^ (bank m n A).cfgWidth := lt_of_lt_of_le hj le_two_pow_cfgWidth
  have hlt : j * 2 ^ m < 2 ^ A := by
    calc j * 2 ^ m < 2 ^ (bank m n A).cfgWidth * 2 ^ m :=
          Nat.mul_lt_mul_of_pos_right hjw (Nat.two_pow_pos m)
      _ = 2 ^ (m + (bank m n A).cfgWidth) := by rw [Nat.pow_add, Nat.mul_comm]
      _ ≤ 2 ^ A := Nat.pow_le_pow_right (by decide) hA
  refine ⟨BitVec.ofNat A (j * 2 ^ m), ?_⟩
  show (BitVec.ofNat A (j * 2 ^ m)).toNat / 2 ^ m % 2 ^ (bank m n A).cfgWidth = j
  rw [BitVec.toNat_ofNat, Nat.mod_eq_of_lt hlt, Nat.mul_div_cancel _ (Nat.two_pow_pos m),
    Nat.mod_eq_of_lt hjw]

/-- Two addresses select the same word exactly when they agree on the index field. -/
theorem wordOf_eq_iff (a b : BitVec (bank m n A).axiAddrWidth) :
    wordOf m n A a = wordOf m n A b ↔
      ∀ t, (bank m n A).addrLsb ≤ t → t < (bank m n A).addrLsb + (bank m n A).cfgWidth →
        a.getLsbD t = b.getLsbD t := by
  rw [← wordIndex_bank, ← wordIndex_bank, wordIndex, wordIndex, BitVec.toNat_inj]
  constructor
  · intro h t hlo hhi
    -- equal indices, read bit by bit
    have hbit := congrArg (fun x => x.getLsbD (t - (bank m n A).addrLsb)) h
    simpa [BitVec.getLsbD_extractLsb', show t - (bank m n A).addrLsb < (bank m n A).cfgWidth by omega,
      Nat.add_sub_cancel' hlo] using hbit
  · intro h
    apply BitVec.eq_of_getLsbD_eq
    intro k hk
    simp only [BitVec.getLsbD_extractLsb', hk, decide_true, Bool.true_and]
    exact h _ (by omega) (by omega)

/-! ### The memory the bank stands for -/

/-- The memory after the accepted writes, in the order of acceptance. -/
def memory (is : List (In (bank m n A))) : Memory n (bank m n A).axiDataWidth :=
  (is.filter intWvalidWire).foldl
    (fun mem i => mem.write (wordOf m n A i.sAxiAwaddr) i.sAxiWdata i.sAxiWstrb) Memory.zero

/-- Word `j` of `cfg_data`. -/
def cfgWord (s : State (bank m n A)) (j : Fin n) : BitVec (bank m n A).axiDataWidth :=
  s.intDataWire.extractLsb' (j * (bank m n A).axiDataWidth) (bank m n A).axiDataWidth

/-- A cycle without an accepted write leaves the memory, and one with a write makes that
    write. -/
theorem memory_snoc (is : List (In (bank m n A))) (i : In (bank m n A)) :
    memory (is ++ [i])
      = if intWvalidWire i then
          (memory is).write (wordOf m n A i.sAxiAwaddr) i.sAxiWdata i.sAxiWstrb
        else memory is := by
  rw [memory, List.filter_append, List.foldl_append, ← memory]
  cases hw : intWvalidWire i <;> simp [hw]

/-- The flip-flop of bit `k` of word `j` is where the two `generate` loops put it. -/
theorem getLsbD_intDataNext (s : State (bank m n A)) (i : In (bank m n A)) (j : Fin n) {k : Nat}
    (hk : k < (bank m n A).axiDataWidth) :
    (intDataNext s i).getLsbD (j * (bank m n A).axiDataWidth + k) = fdre s i j k := by
  have hlt : j * (bank m n A).axiDataWidth + k < (bank m n A).cfgDataWidth := by
    calc j * (bank m n A).axiDataWidth + k < (j + 1) * (bank m n A).axiDataWidth := by
          rw [Nat.add_mul, Nat.one_mul]; omega
      _ ≤ n * (bank m n A).axiDataWidth := Nat.mul_le_mul_right _ j.isLt
  -- bit `k` of word `j` is the flip-flop with these two indices
  have hdiv : (j * (bank m n A).axiDataWidth + k) / (bank m n A).axiDataWidth = j := by
    rw [Nat.mul_comm, Nat.mul_add_div (by omega), Nat.div_eq_of_lt hk, Nat.add_zero]
  have hmod : (j * (bank m n A).axiDataWidth + k) % (bank m n A).axiDataWidth = k := by
    rw [Nat.mul_comm, Nat.mul_add_mod, Nat.mod_eq_of_lt hk]
  rw [intDataNext, getLsbD_ofBits, dif_pos hlt]
  simp only [hdiv, hmod]
  rw [if_pos (by rw [bank_cfgSize]; exact j.isLt)]

/-- One clock edge writes to the words of `cfg_data` as to a memory: an accepted write
    replaces the strobed bytes of the word it selects, and nothing else changes them. -/
theorem cfgWord_step (s : State (bank m n A)) (i : In (bank m n A)) :
    cfgWord (step s i)
      = if intWvalidWire i then
          Memory.write (cfgWord s) (wordOf m n A i.sAxiAwaddr) i.sAxiWdata i.sAxiWstrb
        else cfgWord s := by
  funext j
  apply BitVec.eq_of_getLsbD_eq
  intro k hk
  -- bit `k` of word `j` sits in bit `j * axiDataWidth + k` of the register
  have hold : s.intDataWire.getLsbD (j * (bank m n A).axiDataWidth + k)
      = (cfgWord s j).getLsbD k := by
    rw [cfgWord, BitVec.getLsbD_extractLsb']
    simp [hk]
  rw [cfgWord, BitVec.getLsbD_extractLsb']
  show (decide (k < _) && (intDataNext s i).getLsbD _) = _
  rw [getLsbD_intDataNext s i j hk, fdre, hold, intCeWire, wordIndex_bank]
  cases intWvalidWire i with
  | false => simp [hk]
  | true =>
    rw [if_pos rfl, Memory.getLsbD_write _ _ _ _ _ hk]
    simp [hk]

/-- **`cfg_data` is the memory**, after any cycles of any master. -/
theorem cfgWord_after (is : List (In (bank m n A))) : cfgWord (after is) = memory is := by
  induction is using List.reverseRecOn with
  | nil =>
    funext j
    apply BitVec.eq_of_getLsbD_eq
    intro k hk
    have hzero : (after ([] : List (In (bank m n A)))).intDataWire = 0 := rfl
    simp [cfgWord, hzero, memory, Memory.zero]
  | append_singleton is i ih => rw [after_snoc, cfgWord_step, memory_snoc, ih]

/-! ### The two channels under one outstanding transaction each -/

/-- At most one write and one read are outstanding.  A transaction is outstanding from the
    cycle that accepts it to the cycle that takes its response, both included, so a new one
    needs every earlier one answered before its own cycle. -/
def OneOutstanding (is : List (In P)) : Prop :=
  EachCycle (fun past i =>
    (intWvalidWire i = true → writesAccepted past ≤ responsesTaken past) ∧
      (i.sAxiArvalid = true →
        ((readPort P).requested past).length ≤ ((readPort P).answered past).length)) is

/-- One write outstanding: the response line is in step with the writes. -/
theorem oneOutstanding_writes {is : List (In P)} (h : OneOutstanding is) :
    EachPoint (fun past => WriteAnswered past ∧ writesAccepted past ≤ responsesTaken past + 1)
      is := by
  refine eachPoint_of_step ⟨writeAnswered_nil, Nat.zero_le _⟩ ?_ is h
  rintro past i ⟨hans, hle⟩ ⟨hwrite, -⟩
  -- with at most one write outstanding, one that is answered now is the only one, so none is
  -- issued beside it
  have halone : TakenAlone past i := by
    intro hb
    have hv : (after past).intBvalidReg = true := by
      rw [bHandshake, Bool.and_eq_true] at hb
      exact hb.1
    have hlt := hans.1.mp hv
    refine ⟨?_, by omega⟩
    rw [← Bool.not_eq_true]
    intro hw
    exact absurd (hwrite hw) (by omega)
  refine ⟨(writeAnswered_snoc past i hans).mpr halone, ?_⟩
  rw [writesAccepted_snoc, responsesTaken_snoc]
  by_cases hw : intWvalidWire i = true
  · have hle' := hwrite hw
    simp only [hw, Bool.toNat_true]
    omega
  · simp only [hw, Bool.toNat_false]
    omega

/-- One read outstanding: no address comes over a waiting response. -/
theorem oneOutstanding_reads {is : List (In P)} (h : OneOutstanding is) :
    EachCycle (fun past i => ¬ (readPort P).Overlap past i) is := by
  have hpoints : EachPoint (fun past => (readPort P).answered past ++ (readPort P).pending past
      = (readPort P).requested past ∧ EachCycle (fun past i => ¬ (readPort P).Overlap past i) past)
      is := by
    refine eachPoint_of_step ⟨(readPort P).responses_nil, eachCycle_nil _⟩ ?_ is h
    rintro past i ⟨hresp, hc⟩ ⟨-, hread⟩
    have hno : ¬ (readPort P).Overlap past i := by
      rintro ⟨har, hv⟩
      -- the waiting response is a request too many
      have hlen := congrArg List.length hresp
      rw [ReadPort.pending, if_pos hv, List.length_append, List.length_singleton] at hlen
      have hle := hread har
      omega
    exact ⟨((readPort P).responses_snoc past i hresp).mpr hno,
      (eachCycle_snoc _ _ _).mpr ⟨hc, hno⟩⟩
  exact hpoints.last.2

/-! ### The refinement -/

/-- The words a memory gives to the accepted reads, each as it is in the cycle of the
    acceptance. -/
def memoryReads (is : List (In (bank m n A))) : List (Option (BitVec (bank m n A).axiDataWidth)) :=
  log (fun past i =>
    if i.sAxiArvalid then [(memory past).read (wordOf m n A i.sAxiAraddr)] else []) is

/-- The multiplexer selects from the memory, and nothing past its end. -/
theorem intDataMux_after (past : List (In (bank m n A)))
    (addr : BitVec (bank m n A).axiAddrWidth) :
    intDataMux (after past) (wordIndex addr) = (memory past).read (wordOf m n A addr) := by
  rw [wordIndex_bank, intDataMux, Memory.read, bank_cfgSize]
  by_cases hj : wordOf m n A addr < n
  · rw [if_pos hj, dif_pos hj, ← cfgWord_after past]
    rfl
  · rw [if_neg hj, dif_neg hj]

/-- The words that the read channel selects are those that the memory gives, read by read. -/
theorem requested_eq_memoryReads (is : List (In (bank m n A))) :
    (readPort (bank m n A)).requested is = memoryReads is := by
  unfold ReadPort.requested memoryReads
  congr 1
  funext past i
  have hsel : (readPort (bank m n A)).selected ((readPort (bank m n A)).machine.run past) i
      = (memory past).read (wordOf m n A i.sAxiAraddr) := intDataMux_after past i.sAxiAraddr
  rw [hsel]
  rfl

/-- The IP is a memory with byte strobes over a run. -/
structure RefinesMemory (is : List (In (bank m n A))) : Prop where
  /-- `cfg_data` is the memory after the accepted writes. -/
  data : EachPoint (fun past => ∀ j, cfgWord (after past) j = memory past j) is
  /-- Every accepted read has one response, the word the memory gives; the last one may
      still be on the bus. -/
  reads : EachPoint (fun past =>
    (readPort (bank m n A)).answered past ++ (readPort (bank m n A)).pending past
      = memoryReads past) is
  /-- A read response that is not taken stays as it is. -/
  held : EachCycle (fun past i => (after past).read.intRvalidReg = true → i.sAxiRready = false →
    (after (past ++ [i])).read = (after past).read) is
  /-- Every accepted write has one response; the last one may still be on the bus. -/
  writes : EachPoint WriteAnswered is

/-- **Refinement.** Every word has an address, two addresses share a word exactly when they
    agree on the index field, and over every run with one write and one read outstanding
    the IP is the memory. -/
theorem refinesMemory
    (hA : (bank m n A).addrLsb + (bank m n A).cfgWidth ≤ (bank m n A).axiAddrWidth) :
    (∀ j < n, ∃ addr, wordOf m n A addr = j) ∧
    (∀ a b, wordOf m n A a < n → (wordOf m n A a = wordOf m n A b ↔
      ∀ t, (bank m n A).addrLsb ≤ t → t < (bank m n A).addrLsb + (bank m n A).cfgWidth →
        a.getLsbD t = b.getLsbD t)) ∧
    ∀ is : List (In (bank m n A)), OneOutstanding is → RefinesMemory is := by
  refine ⟨fun j hj => exists_wordOf (by rwa [bank_addrLsb] at hA) hj,
    fun a b _ => wordOf_eq_iff a b, ?_⟩
  intro is h
  have hresp := ((readPort (bank m n A)).readResponses_iff is).mpr (oneOutstanding_reads h)
  refine ⟨fun past _ j => congrFun (cfgWord_after past) j, ?_, ?_,
    fun past hp => (oneOutstanding_writes h past hp).1⟩
  · intro past hp
    rw [← requested_eq_memoryReads]
    exact hresp.responses past hp
  · intro past i hp hv hr
    -- the response channel holds a response that is not taken
    obtain ⟨hvalid, hdata⟩ := hresp.stable past i hp hv hr
    exact ReadRegs.ext (hvalid.trans hv.symm) hdata

/-- A write of the low byte of word 1, one cycle later a read of the word with the next
    write, and a cycle that takes both responses. -/
def writeThenRead : List (In (bank 2 3 32)) :=
  [{ sAxiAwaddr := 4, sAxiAwvalid := true, sAxiWdata := 0x12345678, sAxiWstrb := 1,
     sAxiWvalid := true },
   { sAxiBready := true },
   { sAxiAwaddr := 7, sAxiAwvalid := true, sAxiWdata := 0x9A, sAxiWstrb := 1, sAxiWvalid := true,
     sAxiAraddr := 4, sAxiArvalid := true },
   { sAxiBready := true, sAxiRready := true }]

/-- The write of a byte and the read that follows it meet the condition of one transaction
    each, and the read gives the byte. -/
theorem refinesMemory_writeThenRead :
    OneOutstanding writeThenRead ∧ RefinesMemory writeThenRead ∧
      memoryReads writeThenRead = [some 0x78] := by
  have hone : OneOutstanding writeThenRead := by
    unfold OneOutstanding
    decide +kernel
  refine ⟨hone, (refinesMemory (by decide +kernel)).2.2 writeThenRead hone, ?_⟩
  decide +kernel

end ZynqLinux.Axi4.CfgRegister
