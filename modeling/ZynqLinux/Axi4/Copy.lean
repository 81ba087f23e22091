import Mathlib.Tactic.Common
import ZynqLinux.Axi4.Packetizer
import ZynqLinux.Axi4.RamReaderAddress
import ZynqLinux.Axi4.RamReaderStream
import ZynqLinux.Axi4.RamWriterAddress
import ZynqLinux.Axi4.RamWriterBurst
import ZynqLinux.Axi4.RamWriterStream

namespace ZynqLinux.Axi4.Copy

open ZynqLinux.Lib

/-!
# The block design of the `axi4` project

`axi4.tcl` joins the three IPs: `ram_reader_0` streams words out of memory, `packetizer_0`
lets a configured number of them through, `ram_writer_0` streams them back into memory.
`cfg_0` holds the control bits that release the resets, and the settings of the three.

* `readerIn`, `packetizerIn` and `writerIn` are the wires between the three in a cycle, `step`
  one clock edge of the design;
* `copier` is the design with its resets released one after the other, as the program does it,
  and `foldl_step_one` and `foldl_step_three` connect the two;
* `accepted_eq` says that the stream goes through the packetizer word by word, and
  `accepted_length_le` that it ends with the configured word.
-/

/-! ### The design -/

theorem four_le_addrWidth : 4 ≤ 32 := by decide

/-- The parameters that the design sets; the others are at their defaults. -/
abbrev readerParams : RamReader.Params where
  addrWidth := 32
  axiDataWidth_le := dataWidth_le_fifoPort

abbrev writerParams : RamWriter.Params where
  addrWidth := 32
  four_le_addrWidth := four_le_addrWidth
  axiDataWidth_le := dataWidth_le_fifoPort
  axisTdataWidth_le := dataWidth_le_fifoPort

abbrev packetizerParams : Packetizer.Params where
  axisTdataWidth := 64

/-- The slices of `cfg_data`: bits 0 and 1 of the control register are the resets of the
    packetizer and of the two others, then the settings of the three. -/
structure Cfg where
  packetizerResetn : Bool
  ramResetn : Bool
  packetizer : BitVec 32
  ramReader : BitVec 32
  ramWriter : BitVec 32

/-- The inputs of a cycle from the two memory ports. -/
structure Bus where
  arready : Bool
  rdata : BitVec 64
  rlast : Bool
  rvalid : Bool
  awready : Bool
  wready : Bool
deriving DecidableEq, Inhabited

/-- The state of the three IPs. -/
structure State where
  packetizer : Packetizer.Regs packetizerParams
  reader : RamReader.State readerParams
  writer : RamWriter.State writerParams

/-- `packetizer_0/S_AXIS` ready, which is `ram_reader_0/M_AXIS` ready. -/
def sAxisTready (s : State) : Bool :=
  Packetizer.sAxisTready s.packetizer { mAxisTready := RamWriter.intTreadyWire s.writer }

/-- The inputs of `ram_reader_0`. -/
def readerIn (s : State) (b : Bus) : RamReader.In readerParams :=
  ⟨b.arready, b.rdata, b.rlast, b.rvalid, sAxisTready s⟩

/-- The inputs of `packetizer_0`; what is on the data wires while no word is shown is left at
    zero, since nothing looks at it then. -/
def packetizerIn (s : State) (b : Bus) : Packetizer.In packetizerParams where
  sAxisTdata := (RamReader.mAxisTdata s.reader).getD 0
  sAxisTvalid := RamReader.mAxisTvalid s.reader (readerIn s b)
  mAxisTready := RamWriter.intTreadyWire s.writer

/-- The inputs of `ram_writer_0`. -/
def writerIn (s : State) (b : Bus) : RamWriter.In writerParams where
  sAxisTvalid := Packetizer.intTvalidWire s.packetizer (packetizerIn s b)
  sAxisTdata := Packetizer.mAxisTdata (packetizerIn s b)
  mAxiAwready := b.awready
  mAxiWready := b.wready

/-- `ram_reader_0/m_axi_araddr`: the base address comes from `cfg_data`. -/
def mAxiAraddr (c : Cfg) (s : State) : BitVec 32 :=
  RamReader.mAxiAraddr (P := readerParams) c.ramReader s.reader.regs

/-- `ram_writer_0/m_axi_awaddr`, likewise. -/
def mAxiAwaddr (c : Cfg) (s : State) : BitVec 32 :=
  RamWriter.mAxiAwaddr (P := writerParams) c.ramWriter s.writer.regs

/-- The state in reset. -/
def resetState : State := ⟨⟨0, false⟩, ⟨RamReader.resetRegs, Fifo.nil⟩, ⟨RamWriter.resetRegs, Fifo.nil⟩⟩

/-- One clock edge of the design. -/
def step (s : State) (i : Cfg × Bus) : State where
  packetizer := if i.1.packetizerResetn then
    Packetizer.next i.1.packetizer s.packetizer (packetizerIn s i.2) else resetState.packetizer
  reader := if i.1.ramResetn then RamReader.step s.reader (readerIn s i.2) else resetState.reader
  writer := if i.1.ramResetn then RamWriter.step s.writer (writerIn s i.2) else resetState.writer

/-! ### The resets, released one after the other -/

/-- One clock edge of the running design, with `N` words to a packet. -/
def stepOn (N : BitVec 32) (s : State) (b : Bus) : State where
  packetizer := Packetizer.next N s.packetizer (packetizerIn s b)
  reader := RamReader.step s.reader (readerIn s b)
  writer := RamWriter.step s.writer (writerIn s b)

/-- The running design, from where the program starts it: the packetizer is open. -/
def copier (N : BitVec 32) : Machine State Bus :=
  ⟨{ resetState with packetizer := ⟨0, true⟩ }, stepOn N⟩

/-- With the control register at zero the design is in reset. -/
theorem step_zero (s : State) {i : Cfg × Bus} (hp : i.1.packetizerResetn = false)
    (hr : i.1.ramResetn = false) : step s i = resetState := by
  rw [step, hp, hr]
  rfl

/-- A closed packetizer in front of its packet opens, whether or not it sees a word. -/
theorem next_start {N : BitVec 32} (hN : 2 ≤ N.toNat) {e : Bool}
    {i : Packetizer.In packetizerParams} (hi : i.sAxisTvalid = false) :
    Packetizer.next N ⟨0, e⟩ i = ⟨0, true⟩ := by
  have hcomp : Packetizer.intCompWire (P := packetizerParams) N ⟨0, e⟩ = true := by
    rw [Packetizer.intCompWire_eq (by omega), decide_eq_true_eq]
    show 0 + 1 < N.toNat
    omega
  have htransfer : (i.mAxisTready && Packetizer.intTvalidWire ⟨0, e⟩ i) = false := by
    rw [Packetizer.intTvalidWire, hi, Bool.and_false, Bool.and_false]
  simp only [Packetizer.next, hcomp, htransfer, Bool.false_and, Bool.and_true]
  cases e <;> rfl

/-- While only the packetizer is released it sees no word, and opens. -/
theorem step_one {N : BitVec 32} (hN : 2 ≤ N.toNat) {e : Bool} {i : Cfg × Bus}
    (hp : i.1.packetizerResetn = true) (hr : i.1.ramResetn = false) (hcfg : i.1.packetizer = N) :
    step { resetState with packetizer := ⟨0, e⟩ } i = (copier N).reset := by
  have hvalid : (packetizerIn { resetState with packetizer := ⟨0, e⟩ } i.2).sAxisTvalid = false :=
    Bool.and_false _
  rw [step, hp, hr, hcfg, if_pos rfl, next_start hN hvalid]
  rfl

/-- While the control register is at one, the packetizer waits open in front of its packet and
    the two others are in reset: the state from which `copier` starts. -/
theorem foldl_step_one {N : BitVec 32} (hN : 2 ≤ N.toNat) {one : List (Cfg × Bus)} (hone : one ≠ [])
    (h1 : ∀ i ∈ one, i.1.packetizerResetn = true ∧ i.1.ramResetn = false ∧ i.1.packetizer = N) :
    one.foldl step resetState = (copier N).reset := by
  induction one using List.reverseRecOn with
  | nil => exact absurd rfl hone
  | append_singleton one i ih =>
    obtain ⟨hp, hr, hcfg⟩ := h1 i (by simp)
    rw [List.foldl_append, List.foldl_cons, List.foldl_nil]
    -- the first of these cycles opens the packetizer, and the others change nothing
    by_cases hnil : one = []
    · rw [hnil]
      exact step_one hN hp hr hcfg
    · rw [ih hnil fun j hj => h1 j (List.mem_append_left _ hj)]
      exact step_one hN hp hr hcfg

/-- While the control register is at three, the design runs as `copier` does. -/
theorem foldl_step_three {N : BitVec 32} (three : List (Cfg × Bus))
    (h3 : ∀ i ∈ three, i.1.packetizerResetn = true ∧ i.1.ramResetn = true ∧ i.1.packetizer = N) :
    three.foldl step (copier N).reset = (copier N).run (three.map Prod.snd) := by
  induction three using List.reverseRecOn with
  | nil => rfl
  | append_singleton three i ih =>
    obtain ⟨hp, hr, hcfg⟩ := h3 i (by simp)
    rw [List.foldl_append, List.foldl_cons, List.foldl_nil,
      ih fun j hj => h3 j (List.mem_append_left _ hj), List.map_append, List.map_singleton,
      Machine.run_snoc, step, hp, hr, hcfg]
    rfl

/-! ### The three IPs along a run -/

section Run

variable (N : BitVec 32)

/-- The state of the running design after the cycles `bs`. -/
def after (bs : List Bus) : State := (copier N).run bs

theorem after_snoc (bs : List Bus) (b : Bus) : after N (bs ++ [b]) = stepOn N (after N bs) b :=
  Machine.run_snoc _ bs b

/-- What `ram_reader_0` sees. -/
def readerIns (bs : List Bus) : List (RamReader.In readerParams) :=
  log (fun past b => [readerIn (after N past) b]) bs

/-- A cycle in which `packetizer_0` sees no word. -/
def noWord : Packetizer.In packetizerParams := ⟨0, false, true⟩

/-- What `packetizer_0` sees, from the cycle in which it opens. -/
def packetizerIns (bs : List Bus) : List (Packetizer.In packetizerParams) :=
  [noWord] ++ log (fun past b => [packetizerIn (after N past) b]) bs

/-- What `ram_writer_0` sees. -/
def writerIns (bs : List Bus) : List (RamWriter.In writerParams) :=
  log (fun past b => [writerIn (after N past) b]) bs

theorem readerIns_snoc (bs : List Bus) (b : Bus) :
    readerIns N (bs ++ [b]) = readerIns N bs ++ [readerIn (after N bs) b] :=
  log_snoc _ bs b

theorem packetizerIns_snoc (bs : List Bus) (b : Bus) :
    packetizerIns N (bs ++ [b]) = packetizerIns N bs ++ [packetizerIn (after N bs) b] := by
  rw [packetizerIns, log_snoc, ← List.append_assoc]
  rfl

theorem writerIns_snoc (bs : List Bus) (b : Bus) :
    writerIns N (bs ++ [b]) = writerIns N bs ++ [writerIn (after N bs) b] :=
  log_snoc _ bs b

/-- Inside the design `ram_reader_0` runs as the IP does on its own, on the wires it sees
    there. -/
theorem after_reader (bs : List Bus) :
    (after N bs).reader = RamReader.after (readerIns N bs) :=
  Machine.run_part (M := copier N) (N := RamReader.axisRamReader readerParams) (f := State.reader)
    (g := readerIn) rfl (fun _ _ => rfl) bs

/-- So does `ram_writer_0`, so what was proved of the IP holds of it in every run of the
    design. -/
theorem after_writer (bs : List Bus) :
    (after N bs).writer = RamWriter.after (writerIns N bs) :=
  Machine.run_part (M := copier N) (N := RamWriter.axisRamWriter writerParams) (f := State.writer)
    (g := writerIn) rfl (fun _ _ => rfl) bs

/-- So does `packetizer_0`, which has seen one cycle more than the two others: the one in
    which it opened. -/
theorem after_packetizer (hN : 2 ≤ N.toNat) (bs : List Bus) :
    (after N bs).packetizer = (Packetizer.axisPacketizer N).run (packetizerIns N bs) := by
  have hstart : (Packetizer.axisPacketizer (P := packetizerParams) N).run [noWord] = ⟨0, true⟩ :=
    @next_start N hN false noWord rfl
  have hopen : (after N bs).packetizer = Machine.run ⟨⟨0, true⟩, Packetizer.next N⟩
      (log (fun past b => [packetizerIn (after N past) b]) bs) :=
    Machine.run_part (M := copier N) (f := State.packetizer) (g := packetizerIn) rfl
      (fun _ _ => rfl) bs
  rw [packetizerIns, Machine.run_append, hstart, hopen]
  rfl

/-! ### The stream through the packetizer -/

/-- The three IPs agree on when a word moves. -/
theorem wren_eq (s : State) (b : Bus) :
    RamWriter.wren s.writer (writerIn s b) = RamReader.intRdenWire s.reader (readerIn s b) := by
  show (_ && (s.packetizer.intEnblReg && ((s.packetizer.intEnblReg && _) && _)))
    = ((s.packetizer.intEnblReg && _) && _)
  cases s.packetizer.intEnblReg <;> cases RamWriter.intTreadyWire s.writer <;>
    cases s.reader.fifo.empty <;> rfl

/-- A word leaves the packetizer in exactly the cycles in which the writer accepts one. -/
theorem transfer_eq (s : State) (b : Bus) :
    Packetizer.transfer s.packetizer (packetizerIn s b) = RamWriter.wren s.writer (writerIn s b) :=
  rfl

/-- A word that moves is shown: the reader has one in its FIFO, so its data output is defined. -/
theorem mAxisTdata_of_rden (s : State) (b : Bus)
    (h : RamReader.intRdenWire s.reader (readerIn s b) = true) :
    RamReader.mAxisTdata s.reader = some (writerIn s b).sAxisTdata := by
  have hpos := RamReader.intRdenWire_pos s.reader (readerIn s b) h
  cases hw : s.reader.fifo.words with
  | nil =>
    rw [Fifo.occupancy, hw] at hpos
    -- a word moves only out of a FIFO that has one
    exact absurd hpos (by simp)
  | cons w ws =>
    have hdata : RamReader.mAxisTdata s.reader
        = some ((w.setWidth readerParams.axiDataWidth).setWidth readerParams.axisTdataWidth) := by
      rw [RamReader.mAxisTdata, Fifo.dout, hw]
      rfl
    show _ = some ((RamReader.mAxisTdata s.reader).getD 0)
    rw [hdata]
    rfl

/-- The writer accepts a word in a cycle exactly if the reader shows one to a ready
    packetizer. -/
theorem accepted_snoc (bs : List Bus) (b : Bus) :
    RamWriter.accepted (writerIns N (bs ++ [b])) = RamWriter.accepted (writerIns N bs)
      ++ if RamReader.intRdenWire (after N bs).reader (readerIn (after N bs) b)
        then [(writerIn (after N bs) b).sAxisTdata] else [] := by
  rw [writerIns_snoc, RamWriter.accepted, log_snoc, ← RamWriter.accepted, ← after_writer, wren_eq]

/-- Every word the reader shows is accepted by the writer at once, and no other. -/
theorem accepted_eq (bs : List Bus) :
    (RamWriter.accepted (writerIns N bs)).map some = RamReader.mAxisWords (readerIns N bs) := by
  induction bs using List.reverseRecOn with
  | nil => rfl
  | append_singleton bs b ih =>
    -- both sides log the same handshake: valid at the reader and ready at the writer
    have hmove : (RamReader.mAxisTvalid (after N bs).reader (readerIn (after N bs) b)
        && (readerIn (after N bs) b).mAxisTready)
          = RamReader.intRdenWire (after N bs).reader (readerIn (after N bs) b) := by
      rw [RamReader.mAxisTvalid, RamReader.intRdenWire]
      cases (readerIn (after N bs) b).mAxisTready <;> simp
    rw [accepted_snoc, List.map_append, ih, readerIns_snoc, RamReader.mAxisWords,
      RamReader.mAxisWords, log_snoc, ← after_reader, hmove]
    cases hr : RamReader.intRdenWire (after N bs).reader (readerIn (after N bs) b) with
    | false => rfl
    | true =>
      rw [if_pos rfl, if_pos rfl, mAxisTdata_of_rden (after N bs) b hr]
      rfl

/-- The packetizer counts the words that the writer accepts. -/
theorem accepted_length (hN : 2 ≤ N.toNat) (bs : List Bus) :
    (RamWriter.accepted (writerIns N bs)).length
      = (Packetizer.words N (packetizerIns N bs)).length := by
  induction bs using List.reverseRecOn with
  | nil => rfl
  | append_singleton bs b ih =>
    rw [packetizerIns_snoc, Packetizer.words_length_snoc, ← ih, ← after_packetizer N hN,
      transfer_eq, wren_eq, accepted_snoc, List.length_append]
    cases RamReader.intRdenWire (after N bs).reader (readerIn (after N bs) b) <;> rfl

/-- At most one packet goes through, because the packetizer of the design stops behind its
    last word. -/
theorem accepted_length_le (hN : 2 ≤ N.toNat) (bs : List Bus) :
    (RamWriter.accepted (writerIns N bs)).length ≤ N.toNat := by
  rw [accepted_length N hN, (Packetizer.steady_run hN _).passed]
  exact Nat.min_le_left _ _

/-- The packetizer is open until the packet is through. -/
theorem enabled_iff (hN : 2 ≤ N.toNat) (bs : List Bus) :
    (after N bs).packetizer.intEnblReg = true
      ↔ (RamWriter.accepted (writerIns N bs)).length < N.toNat := by
  rw [after_packetizer N hN, (Packetizer.steady_run hN _).enabled, accepted_length N hN]
  simp [packetizerIns]

end Run

end ZynqLinux.Axi4.Copy
