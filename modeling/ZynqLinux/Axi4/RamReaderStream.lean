import Mathlib.Tactic.Common
import ZynqLinux.Axi4.RamReader

namespace ZynqLinux.Axi4.RamReader

open ZynqLinux.Lib

/-!
# `axis_ram_reader` — what happens to the stream

`rready` stays high through a whole burst, so the FIFO has to have room for it when the
burst is let in.  The flag the IP goes by, ALMOSTFULL with an offset of 497, is high from
15 words on; it is looked at while idle and at the end of a burst.

The invariant `Roomy` bounds the words in the FIFO by the beats of the current burst: 15
of them may have been there when the burst began, one more arriving in the very cycle the
flag was sampled.  An idle `rlast` of the slave can only close the door early.

`streamConservation` is the result: no word is lost, invented or reordered, and the FIFO
never holds more than 31 of its 512 words.
-/

variable {P : Params}

/-! ### The words that come in and go out -/

/-- The words of the R handshakes. -/
def rWords (is : List (In P)) : List (BitVec P.axiDataWidth) :=
  log (fun past i => if wren (after past) i then [i.mAxiRdata] else []) is

/-- What `m_axis_tdata` shows at each transfer on M_AXIS. -/
def mAxisWords (is : List (In P)) : List (Option (BitVec P.axisTdataWidth)) :=
  log (fun past i =>
    if mAxisTvalid (after past) i && i.mAxisTready then [mAxisTdata (after past)] else []) is

/-- What M_AXIS has to show for a word read from memory. -/
def onMAxis (w : BitVec P.axiDataWidth) : Option (BitVec P.axisTdataWidth) :=
  some (w.setWidth P.axisTdataWidth)

/-- How M_AXIS shows a word of the FIFO. -/
def showWord (w : BitVec 72) : Option (BitVec P.axisTdataWidth) :=
  some ((w.setWidth P.axiDataWidth).setWidth P.axisTdataWidth)

/-- The number of beats taken on R. -/
def beatsTaken (is : List (In P)) : Nat := count (fun past i => wren (after past) i) is

/-- A read slave that sends bursts of 16 beats with `rlast` on the 16th.  Nothing is said
    about when it sends, or about `rlast` while `rvalid` is low. -/
def BurstSlave (is : List (In P)) : Prop :=
  EachCycle (fun past i => i.mAxiRvalid = true →
    (i.mAxiRlast = true ↔ beatsTaken past % 16 = 15)) is

/-- The purpose of the IP, over a run from reset. -/
structure StreamConservation (is : List (In P)) : Prop where
  /-- The write enable is never high on a full FIFO. -/
  write_notFull : EachCycle (fun past i =>
    wren (after past) i = true → (after past).fifo.occupancy < 512) is
  /-- The read enable is never high on an empty FIFO. -/
  read_nonempty : EachCycle (fun past i =>
    intRdenWire (after past) i = true → 0 < (after past).fifo.occupancy) is
  occupancy_le : EachPoint (fun past => (after past).fifo.occupancy ≤ 31) is
  /-- What was read from memory is what was shown on M_AXIS and what the FIFO holds. -/
  conserved : EachPoint (fun past =>
    mAxisWords past ++ (after past).fifo.words.map showWord = (rWords past).map onMAxis) is

/-! ### The occupancy invariant -/

/-- **Room for the burst.** Inside a burst the FIFO holds at most 15 words and the beats of
    the burst. -/
structure Roomy (is : List (In P)) : Prop where
  burst : (after is).regs.intRreadyReg = true →
    (after is).fifo.occupancy ≤ 15 + beatsTaken is % 16
  occupancy_le : (after is).fifo.occupancy ≤ 31

/-- ALMOSTFULL with the offset `13'h1f1` is high from 15 words on: the flag counts from the
    full FIFO downwards. -/
theorem almostFull_iff (s : State P) (i : In P) :
    (coreIn s i).intFullWire = true ↔ 15 ≤ s.fifo.occupancy := by
  have hle := s.fifo.occupancy_le
  simp only [coreIn, Fifo.almostFull, decide_eq_true_eq]
  omega

/-- The IP reads its FIFO only where a word is there, since the read enable is gated with the
    empty flag. -/
theorem intRdenWire_pos (s : State P) (i : In P) (h : intRdenWire s i = true) :
    0 < s.fifo.occupancy := by
  rw [intRdenWire, Bool.and_eq_true, Bool.not_eq_true'] at h
  exact (Fifo.empty_eq_false _).mp h.2

/-- A FIFO with room for the burst is not full. -/
theorem Roomy.notFull {is : List (In P)} (h : Roomy is) : (after is).fifo.full = false := by
  rw [Fifo.full_eq_false]
  have hle := h.occupancy_le
  omega

/-- The words in the FIFO over one cycle: those written less those read, since there is room
    for what is written. -/
theorem Roomy.occupancy_snoc {is : List (In P)} (h : Roomy is) (i : In P) :
    (after (is ++ [i])).fifo.occupancy + (intRdenWire (after is) i).toNat
      = (after is).fifo.occupancy + (wren (after is) i).toNat := by
  rw [after_snoc]
  exact (after is).fifo.clock_occupancy _ _ _ (fun _ => h.notFull) (intRdenWire_pos _ i)

/-- After a clock edge the IP is ready where it was and saw no end of a burst, or where the
    flag was low. -/
theorem ready_cases {is : List (In P)} {i : In P}
    (h : (after (is ++ [i])).regs.intRreadyReg = true) :
    ((after is).regs.intRreadyReg = true ∧
      endSeen (after is).regs (coreIn (after is) i) = false) ∨
    (after is).fifo.occupancy < 15 := by
  have hfull := almostFull_iff (after is) i
  have hrun : (after (is ++ [i])).regs = next (after is).regs (coreIn (after is) i) := by
    rw [after_snoc]
    rfl
  rw [hrun] at h
  -- `RREADY` stays high inside a burst, and rises only when the flag is low
  rcases next_cases (after is).regs (coreIn (after is) i) with
    ⟨-, hnf, -⟩ | ⟨-, -, -, hstop⟩ | ⟨-, -, hnf, -⟩ | ⟨hend, -, hkeep⟩
  · have hlt : ¬ 15 ≤ (after is).fifo.occupancy := by rw [← hfull, hnf]; decide
    exact Or.inr (by omega)
  · exact absurd (hstop.symm.trans h) (by decide)
  · have hlt : ¬ 15 ≤ (after is).fifo.occupancy := by rw [← hfull, hnf]; decide
    exact Or.inr (by omega)
  · exact Or.inl ⟨hkeep ▸ h, hend⟩

/-- The invariant is kept by every cycle of a slave that marks the ends of its bursts. -/
theorem Roomy.snoc {is : List (In P)} (h : Roomy is) (i : In P)
    (hslave : i.mAxiRvalid = true → (i.mAxiRlast = true ↔ beatsTaken is % 16 = 15)) :
    Roomy (is ++ [i]) := by
  have hocc := h.occupancy_snoc i
  have hbeats : beatsTaken (is ++ [i]) = beatsTaken is + (wren (after is) i).toNat :=
    count_snoc _ _ _
  have hone : (wren (after is) i).toNat ≤ 1 := Bool.toNat_le _
  have hmod := Nat.mod_lt (beatsTaken is) (show 0 < 16 by decide)
  refine ⟨fun hr' => ?_, ?_⟩
  · rcases ready_cases hr' with ⟨hrr, hend⟩ | hlow
    · -- inside the burst a word more is a beat more
      have hburst := h.burst hrr
      cases hw : wren (after is) i with
      | false =>
        rw [hw, Bool.toNat_false] at hocc hbeats
        omega
      | true =>
        rw [wren, hrr, Bool.true_and] at hw
        have hne : beatsTaken is % 16 ≠ 15 := by
          intro h15
          rw [endSeen, hrr, Bool.true_and] at hend
          have hlast : i.mAxiRlast = false := hend
          rw [(hslave hw).mpr h15] at hlast
          exact absurd hlast (by decide)
        omega
    · -- the flag was low, so even a word more makes 15 at most
      omega
  · cases hw : wren (after is) i with
    | false =>
      have hle := h.occupancy_le
      rw [hw, Bool.toNat_false] at hocc
      omega
    | true =>
      rw [wren, Bool.and_eq_true] at hw
      have hburst := h.burst hw.1
      omega

/-- In reset the FIFO is empty, and the IP is not ready for data. -/
theorem roomy_nil : Roomy ([] : List (In P)) :=
  ⟨fun _ => Nat.zero_le _, Nat.zero_le _⟩

/-! ### Conservation -/

/-- What the FIFO hands over is what M_AXIS shows in a handshake. -/
theorem read_showWord (s : State P) (i : In P) :
    (s.fifo.read (intRdenWire s i)).map showWord
      = if mAxisTvalid s i && i.mAxisTready then [mAxisTdata s] else [] := by
  have htransfer : (mAxisTvalid s i && i.mAxisTready) = intRdenWire s i := by
    rw [mAxisTvalid, intRdenWire]
    cases i.mAxisTready <;> simp
  rw [htransfer]
  cases hr : intRdenWire s i with
  | false => rfl
  | true =>
    have hread := congrArg (List.map (Option.map fun w : BitVec 72 =>
      (w.setWidth P.axiDataWidth).setWidth P.axisTdataWidth))
      (s.fifo.read_of_pos (intRdenWire_pos s i hr))
    simpa [mAxisTdata, showWord] using hread

/-- Conservation over one cycle with room for the beat. -/
theorem conserved_snoc (is : List (In P)) (i : In P)
    (hw : wren (after is) i = true → (after is).fifo.full = false)
    (hc : mAxisWords is ++ (after is).fifo.words.map showWord = (rWords is).map onMAxis) :
    mAxisWords (is ++ [i]) ++ (after (is ++ [i])).fifo.words.map showWord
      = (rWords (is ++ [i])).map onMAxis := by
  have hword : showWord (i.mAxiRdata.setWidth 72) = onMAxis i.mAxiRdata := by
    rw [showWord, onMAxis, BitVec.setWidth_setWidth_of_le _ P.axiDataWidth_le, BitVec.setWidth_eq]
  have hlaw := (after is).fifo.clock_conserved hc (intRdenWire (after is) i) hword hw
  rw [read_showWord] at hlaw
  rw [mAxisWords, rWords, log_snoc, log_snoc, after_snoc]
  exact hlaw

/-- **Stream conservation.** With every slave that sends bursts of 16 beats and every
    pattern of `m_axis_tready`, the FIFO is not misused, holds at most 31 words, and the
    words on M_AXIS are the words read from memory, in order. -/
theorem streamConservation (is : List (In P)) (hslave : BurstSlave is) :
    StreamConservation is := by
  have hroomy : EachPoint Roomy is :=
    eachPoint_of_step roomy_nil (fun past i h hi => h.snoc i hi) is hslave
  have hnotFull : EachCycle (fun past i =>
      wren (after past) i = true → (after past).fifo.full = false) is :=
    fun past i hp _ => (hroomy.before hp).notFull
  refine ⟨?_, fun past i _ hr => intRdenWire_pos _ i hr,
    fun past hp => (hroomy past hp).occupancy_le, ?_⟩
  · exact fun past i hp hw => (Fifo.full_eq_false _).mp (hnotFull past i hp hw)
  · refine eachPoint_of_step ?_ (fun past i hc hw => conserved_snoc past i hw hc) is hnotFull
    rfl

/-- A cycle with a beat of data `d`, taken by the sink or not. -/
def dataBeat (d : Nat) (last sink : Bool) : In {} := ⟨true, BitVec.ofNat 64 d, last, true, sink⟩

/-- A burst of 16 beats into a sink that takes nothing, ended with an idle `rlast`. -/
def stalledBurst : List (In {}) :=
  [⟨false, 0, false, false, false⟩] ++ (List.range 15).map (dataBeat · false false) ++
    [dataBeat 15 true false, ⟨false, 0, true, false, true⟩]

/-- A burst that arrives while the stream stalls is kept word for word. -/
theorem streamConservation_stalledBurst :
    BurstSlave stalledBurst ∧ StreamConservation stalledBurst := by
  have hslave : BurstSlave stalledBurst := by
    unfold BurstSlave
    decide +kernel
  exact ⟨hslave, streamConservation stalledBurst hslave⟩

end ZynqLinux.Axi4.RamReader
