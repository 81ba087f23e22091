import ZynqLinux.Axi4.CopyDesign

namespace ZynqLinux.Axi4.Copy

open ZynqLinux.Lib
open CfgRegister (wordOf)

/-!
# The block design of the `axi4` project — the program's copy

`axi4_test.c` asks for packets of whole bursts.  Then the writer runs dry only where the
memory leaves the reader without words, and when the design comes to rest the whole packet is
written.

* `AtRest` is a state that nothing on the bus can change, and `AtRest.written_length` says how
  many words are written there;
* `Starved` is a memory that takes 16 beats and one more while the reader has no word, and
  `underrun_starved` says that no other memory makes the writer run dry;
* `Main` is a run of the program's six writes to `cfg_0`, and `Main.started` says that they
  start the design of `copier` with the program's settings;
* `program_copies` puts these together, over the ports of the whole design.
-/

section Memory

variable (N : BitVec 32) (src dst : BitVec 32) (mem : BitVec 32 → BitVec 64)

/-! ### Where the design comes to rest -/

/-- Nothing on the bus can change the state any more. -/
def AtRest (s : State) : Prop := ∀ b, stepOn N s b = s

section Rest

variable {N} {s : State}

/-- An idle writer with less than a burst in its FIFO stays idle. -/
theorem next_idle {r : RamWriter.Regs writerParams} {i : RamWriter.CoreIn}
    (ha : r.intAwvalidReg = false) (hv : r.intWvalidReg = false) (he : i.intEmptyWire = true) :
    RamWriter.next r i = r := by
  obtain ⟨awvalid, wvalid, addr⟩ := r
  obtain ⟨empty, awready, wready⟩ := i
  obtain rfl : awvalid = false := ha
  obtain rfl : wvalid = false := hv
  obtain rfl : empty = true := he
  simp only [RamWriter.next, RamWriter.intRdenWire]
  generalize RamWriter.intWlastWire _ = wlast
  cases awready <;> cases wready <;> cases wlast <;> rfl

/-- The state in which the packet is through, the reader is full and the writer is idle. -/
theorem atRest_of (hp : s.packetizer.intEnblReg = false)
    (hcomp : Packetizer.intCompWire N s.packetizer = false)
    (hr : s.reader.regs.intArvalidReg = false ∧ s.reader.regs.intRreadyReg = false)
    (hfull : 15 ≤ s.reader.fifo.occupancy)
    (hw : s.writer.regs.intAwvalidReg = false ∧ s.writer.regs.intWvalidReg = false)
    (hempty : s.writer.fifo.occupancy ≤ 15) : AtRest N s := by
  intro b
  -- a closed packetizer takes no word, so nothing moves between the two FIFOs
  have hready : sAxisTready s = false := by
    show (s.packetizer.intEnblReg && _) = false
    rw [hp, Bool.false_and]
  have hmove : RamReader.intRdenWire s.reader (readerIn s b) = false := by
    show (sAxisTready s && _) = false
    rw [hready, Bool.false_and]
  -- the comparison is low too, so the packetizer does not open again
  have hpacketizer : Packetizer.next N s.packetizer (packetizerIn s b) = s.packetizer := by
    simp [Packetizer.next, Packetizer.intTvalidWire, hp, hcomp]
  -- the reader has no room to ask for a burst, and the writer no words to start one
  have hreader : RamReader.step s.reader (readerIn s b) = s.reader := by
    have hregs : RamReader.next s.reader.regs (RamReader.coreIn s.reader (readerIn s b))
        = s.reader.regs := by
      simp [RamReader.next, (RamReader.almostFull_iff s.reader (readerIn s b)).mpr hfull, hr]
    rw [RamReader.step, hregs, RamReader.wren, hr.2, Bool.false_and, hmove, Fifo.clock_idle]
  have hwriter : RamWriter.step s.writer (writerIn s b) = s.writer := by
    have hregs : RamWriter.next s.writer.regs (RamWriter.coreIn s.writer (writerIn s b))
        = s.writer.regs :=
      next_idle hw.1 hw.2 ((RamWriter.almostEmpty_iff s.writer (writerIn s b)).mpr hempty)
    rw [RamWriter.step, hregs, wren_eq, hmove, RamWriter.rden_eq, hw.2, Bool.and_false,
      Fifo.clock_idle]
  rw [stepOn, hpacketizer, hreader, hwriter]

/-- At rest the writer is between its bursts and has less than a burst in its FIFO. -/
theorem AtRest.writer (h : AtRest N s) :
    s.writer.regs.intWvalidReg = false ∧ s.writer.fifo.occupancy ≤ 15 := by
  have hregs (b : Bus) : RamWriter.next s.writer.regs
      (RamWriter.coreIn s.writer (writerIn s b)) = s.writer.regs :=
    congrArg (fun t => t.writer.regs) (h b)
  have hwvalid : s.writer.regs.intWvalidReg = false := by
    rw [← Bool.not_eq_true]
    intro hv
    -- a beat taken would move the address register
    have haddr := congrArg RamWriter.Regs.intAddrReg (hregs ⟨false, 0, false, false, false, true⟩)
    rw [RamWriter.next_intAddrReg, RamWriter.intRdenWire, hv, Bool.and_true] at haddr
    have hne : s.writer.regs.intAddrReg + 1 = s.writer.regs.intAddrReg := haddr
    bv_omega
  have hawvalid : s.writer.regs.intAwvalidReg = false := by
    rw [← Bool.not_eq_true]
    intro ha
    -- an address taken would be gone
    have hnext := congrArg RamWriter.Regs.intAwvalidReg (hregs ⟨false, 0, false, false, true, false⟩)
    rw [RamWriter.next_intAwvalidReg, ha] at hnext
    exact Bool.false_ne_true hnext
  refine ⟨hwvalid, (RamWriter.almostEmpty_iff s.writer (writerIn s default)).mp ?_⟩
  -- otherwise a burst would start
  have hnext := congrArg RamWriter.Regs.intWvalidReg (hregs default)
  rw [RamWriter.next_intWvalidReg, hwvalid, hawvalid] at hnext
  cases he : (RamWriter.coreIn s.writer (writerIn s default)).intEmptyWire with
  | true => rfl
  | false =>
    rw [he] at hnext
    exact absurd hnext (by simp)

/-- At rest the reader has words that nobody takes. -/
theorem AtRest.reader (h : AtRest N s) : 15 ≤ s.reader.fifo.occupancy := by
  have hregs (b : Bus) : RamReader.next s.reader.regs
      (RamReader.coreIn s.reader (readerIn s b)) = s.reader.regs :=
    congrArg (fun t => t.reader.regs) (h b)
  have hrready : s.reader.regs.intRreadyReg = false := by
    rw [← Bool.not_eq_true]
    intro hr
    -- the end of a burst would move the address register
    have haddr := congrArg RamReader.Regs.intAddrReg (hregs ⟨false, 0, true, false, false, false⟩)
    rw [RamReader.next_intAddrReg, RamReader.endSeen, hr] at haddr
    have hne : s.reader.regs.intAddrReg + 16 = s.reader.regs.intAddrReg := haddr
    bv_omega
  rw [← RamReader.almostFull_iff s.reader (readerIn s ⟨true, 0, false, false, false, false⟩)]
  -- otherwise an address would be taken, or a burst started
  have hnext := congrArg RamReader.Regs.intArvalidReg (hregs ⟨true, 0, false, false, false, false⟩)
  cases hfull : (RamReader.coreIn s.reader
      (readerIn s ⟨true, 0, false, false, false, false⟩)).intFullWire with
  | true => rfl
  | false =>
    rw [RamReader.next, hfull, hrready] at hnext
    cases ha : s.reader.regs.intArvalidReg <;> simp [ha, RamReader.coreIn, readerIn] at hnext

/-- So the packetizer is closed: an open one would move a word of the reader into the writer,
    which has room. -/
theorem AtRest.closed (h : AtRest N s) : s.packetizer.intEnblReg = false := by
  have hocc := h.writer.2
  have hpos := h.reader
  rw [← Bool.not_eq_true]
  intro he
  have hready : RamWriter.intTreadyWire s.writer = true := by
    rw [RamWriter.intTreadyWire, (Fifo.full_eq_false _).mpr (by omega)]
    rfl
  have hmove : RamWriter.wren s.writer (writerIn s default) = true := by
    rw [wren_eq, RamReader.intRdenWire, (Fifo.empty_eq_false _).mpr (by omega)]
    show (s.packetizer.intEnblReg && RamWriter.intTreadyWire s.writer && _) = true
    rw [he, hready]
    rfl
  have hrden : RamWriter.rden s.writer (writerIn s default) = false := by
    rw [RamWriter.rden_eq, h.writer.1, Bool.and_false]
  -- a word that moves would change the FIFO of the writer
  have hstep := RamWriter.step_occupancy s.writer (writerIn s default)
    (fun hr => absurd (hrden.symm.trans hr) Bool.false_ne_true)
  have hsame : RamWriter.step s.writer (writerIn s default) = s.writer :=
    congrArg State.writer (h default)
  rw [hsame, hmove, hrden] at hstep
  exact absurd hstep (by simp)

/-- At rest every whole burst of the packet is written, and no other word. -/
theorem AtRest.written_length {bs : List Bus} (hN : 2 ≤ N.toNat) (h : AtRest N (after N bs))
    (hu : ¬ RamWriter.Underrun (writerIns N bs)) :
    (written N dst bs).length = N.toNat - N.toNat % 16 := by
  obtain ⟨hwvalid, hocc⟩ := h.writer
  rw [after_writer] at hwvalid hocc
  have hpacket : (RamWriter.accepted (writerIns N bs)).length = N.toNat := by
    have hle := accepted_length_le N hN bs
    have hclosed := h.closed
    rw [← Bool.not_eq_true, enabled_iff N hN] at hclosed
    omega
  -- the words that are not on the memory side yet are in the FIFO of the writer, fewer than 16
  have hlen := congrArg List.length (wBeats_append hu)
  rw [List.length_append, List.length_map, List.length_map, hpacket] at hlen
  have hbeats := wHandshakes_eq (RamWriter.coreHistory (writerIns N bs))
  rw [RamWriter.after_regs] at hwvalid
  rw [RamWriter.core_aligned _ hwvalid, ← wBeats_length] at hbeats
  rw [Fifo.occupancy] at hocc
  rw [written, List.length_mapIdx]
  omega

end Rest

/-! ### When the writer runs dry -/

/-- The beats taken on W. -/
def beats (bs : List Bus) : Nat := (RamWriter.wBeats (writerIns N bs)).length

/-- While the memory takes 16 beats and then another one, the packet is not through and the
    reader has no word. -/
def Starved (bs : List Bus) : Prop :=
  ∃ past mid j, past ++ mid ++ [j] <+: bs ∧ beats N (past ++ mid) = beats N past + 16
    ∧ beats N (past ++ mid ++ [j]) = beats N past + 17
    ∧ ∀ cs c, cs ++ [c] <+: mid →
      (after N (past ++ cs)).packetizer.intEnblReg = true
        ∧ (after N (past ++ cs)).reader.fifo.occupancy = 0

section Starved

variable {N} {bs : List Bus}

/-- The cycles of the design behind an underrun of the writer. -/
theorem exists_cycles_of_underrun (h : RamWriter.Underrun (writerIns N bs)) :
    ∃ past mid j i mid', past ++ mid ++ [j] <+: bs ∧ j.wready = true
      ∧ log (fun cs c => [writerIn (after N (past ++ cs)) c]) mid = i :: mid'
      ∧ RamWriter.ShortRestart (after N past).writer i ∧ (∀ m ∈ mid', m.sAxisTvalid = false)
      ∧ mid'.countP (·.mAxiWready) = 15 := by
  obtain ⟨past', i, mid', j', ⟨rest, hrest⟩, hrestart, hquiet, hcount, hready⟩ := h
  have hcut : writerIns N bs = past' ++ ((i :: mid') ++ (j' :: rest)) := by
    rw [← hrest]
    simp
  -- the log has an entry for each cycle, so the run is cut where the log is
  obtain ⟨past, ks, rfl, hpast, hks⟩ := exists_append_of_log_single hcut
  obtain ⟨mid, ks', rfl, hmid, hks'⟩ := exists_append_of_log_single hks
  cases ks' with
  | nil => exact absurd hks' (by simp)
  | cons j ks' =>
    have hj : writerIn (after N (past ++ (mid ++ []))) j = j' := (List.cons.inj hks').1
    refine ⟨past, mid, j, i, mid', ⟨ks', by simp⟩, ?_, hmid, ?_, hquiet, hcount⟩
    · rw [← hj] at hready
      exact hready
    · rw [after_writer]
      show RamWriter.ShortRestart (RamWriter.after (writerIns N past)) i
      rw [writerIns, hpast]
      exact hrestart

/-- In them the memory takes the 16 beats of the short burst, and one more. -/
theorem beats_of_shortRestart {past mid : List Bus} {i : RamWriter.In writerParams}
    {mid' : List (RamWriter.In writerParams)}
    (hmid : log (fun cs c => [writerIn (after N (past ++ cs)) c]) mid = i :: mid')
    (hrestart : RamWriter.ShortRestart (after N past).writer i)
    (hquiet : ∀ m ∈ mid', m.sAxisTvalid = false) (hcount : mid'.countP (·.mAxiWready) = 15)
    {j : Bus} (hready : j.wready = true) :
    beats N (past ++ mid) = beats N past + 16
      ∧ beats N (past ++ mid ++ [j]) = beats N past + 17 := by
  have hins : writerIns N (past ++ mid) = writerIns N past ++ [i] ++ mid' := by
    rw [writerIns, log_append, logFrom_eq_log, hmid, List.append_assoc]
    rfl
  rw [after_writer] at hrestart
  have hbeats := RamWriter.length_wBeats_short_burst _ i hrestart mid' hquiet (Nat.le_of_eq hcount)
  obtain ⟨hv, -⟩ := RamWriter.short_burst_runs _ i hrestart mid' hquiet (Nat.le_of_eq hcount)
  have hrd : RamWriter.rden (after N (past ++ mid)).writer (writerIn (after N (past ++ mid)) j)
      = true := by
    rw [after_writer, hins, RamWriter.rden_eq, hv, Bool.and_true]
    exact hready
  rw [hcount, ← hins] at hbeats
  refine ⟨hbeats, ?_⟩
  rw [beats, writerIns_snoc, RamWriter.length_wBeats_snoc, ← after_writer, hrd, hbeats]
  rfl

/-- In front of a short restart the packet is not through, if it is made of whole bursts. -/
theorem enabled_of_shortRestart (hN : 2 ≤ N.toNat) (h16 : N.toNat % 16 = 0) {past : List Bus}
    {i : RamWriter.In writerParams} (hu : ¬ RamWriter.Underrun (writerIns N past))
    (hi : RamWriter.ShortRestart (after N past).writer i) :
    (RamWriter.accepted (writerIns N past)).length < N.toNat := by
  obtain ⟨hlast, hocc, -⟩ := hi
  -- the beats so far are one short of whole bursts, so the words accepted are not the whole
  -- packet
  have h15 := (RamWriter.of_lastBeat hlast).2.2
  have hle := accepted_length_le N hN past
  have hlen := congrArg List.length (wBeats_append hu)
  have hbeats := wHandshakes_eq (RamWriter.coreHistory (writerIns N past))
  rw [after_writer] at hocc h15
  rw [← RamWriter.after_regs, h15, ← wBeats_length] at hbeats
  rw [List.length_append, List.length_map, List.length_map] at hlen
  rw [Fifo.occupancy] at hocc
  omega

/-- While the writer sees no word, nothing is accepted and its FIFO does not fill. -/
theorem quiet_run {past cs : List Bus} (hquiet : ∀ ds d, ds ++ [d] <+: cs →
      (writerIn (after N (past ++ ds)) d).sAxisTvalid = false) :
    RamWriter.accepted (writerIns N (past ++ cs)) = RamWriter.accepted (writerIns N past)
      ∧ (after N (past ++ cs)).writer.fifo.occupancy ≤ (after N past).writer.fifo.occupancy := by
  induction cs using List.reverseRecOn with
  | nil => rw [List.append_nil]; exact ⟨rfl, Nat.le_refl _⟩
  | append_singleton cs c ih =>
    obtain ⟨hacc, hocc⟩ := ih fun ds d hd => hquiet ds d (hd.trans (List.prefix_append _ _))
    -- nothing is offered, so the FIFO of the writer only gives words away
    have hno : RamWriter.wren (after N (past ++ cs)).writer (writerIn (after N (past ++ cs)) c)
        = false := by
      rw [RamWriter.wren, hquiet cs c (List.prefix_refl _), Bool.and_false]
    rw [← List.append_assoc]
    constructor
    · rw [accepted_snoc, ← wren_eq, hno, hacc]
      exact List.append_nil _
    · refine Nat.le_trans ?_ hocc
      rw [after_snoc]
      show (Fifo.clock _ (RamWriter.wren _ _) _ _).occupancy ≤ _
      rw [hno]
      exact Fifo.clock_occupancy_le _ _ _

/-- An open packetizer in front of a writer with room shows every word the reader has. -/
theorem occupancy_of_quiet {s : State} {b : Bus} (he : s.packetizer.intEnblReg = true)
    (hroom : s.writer.fifo.occupancy < 512) (hq : (writerIn s b).sAxisTvalid = false) :
    s.reader.fifo.occupancy = 0 := by
  have hready : RamWriter.intTreadyWire s.writer = true := by
    rw [RamWriter.intTreadyWire, (Fifo.full_eq_false _).mpr hroom]
    rfl
  have hno : RamReader.intRdenWire s.reader (readerIn s b) = false := by
    rw [← wren_eq, RamWriter.wren, hq, Bool.and_false]
  replace hno : (s.packetizer.intEnblReg && RamWriter.intTreadyWire s.writer
    && !s.reader.fifo.empty) = false := hno
  rw [he, hready, Bool.true_and, Bool.true_and, Bool.not_eq_false'] at hno
  simpa [Fifo.empty] using hno

/-- A run that has starved the reader stays one when it goes on. -/
theorem Starved.mono {bs bs' : List Bus} (h : Starved N bs) (hp : bs <+: bs') : Starved N bs' := by
  obtain ⟨past, mid, j, hpre, hrest⟩ := h
  exact ⟨past, mid, j, hpre.trans hp, hrest⟩

/-- **The writer runs dry only on a starved reader**, if the packet is made of whole bursts. -/
theorem underrun_starved (hN : 2 ≤ N.toNat) (h16 : N.toNat % 16 = 0)
    (h : RamWriter.Underrun (writerIns N bs)) : Starved N bs := by
  induction bs using List.reverseRecOn with
  | nil =>
    obtain ⟨past, i, mid, j, hpre, -⟩ := h
    exact absurd hpre (by simp [writerIns])
  | append_singleton bs b ih =>
    -- the first prefix with an underrun carries the argument: in front of it the writer is as it
    -- should be
    by_cases hbefore : RamWriter.Underrun (writerIns N bs)
    · exact (ih hbefore).mono (List.prefix_append _ _)
    · obtain ⟨past, mid, j, i, mid', hpre, hready, hmid, hrestart, hquiet', hcount⟩ :=
        exists_cycles_of_underrun h
      have hpast : past <+: bs := by
        refine List.prefix_of_prefix_length_le ?_ (List.prefix_append bs [b]) ?_
        · exact (List.prefix_append _ _).trans ((List.prefix_append _ _).trans hpre)
        · have hlen := hpre.length_le
          simp only [List.length_append, List.length_singleton] at hlen
          omega
      have hu : ¬ RamWriter.Underrun (writerIns N past) :=
        fun hu => hbefore (hu.mono (log_isPrefix _ hpast))
      have hquiet : ∀ cs c, cs ++ [c] <+: mid →
          (writerIn (after N (past ++ cs)) c).sAxisTvalid = false := by
        intro cs c hc
        have hmem : writerIn (after N (past ++ cs)) c ∈ i :: mid' := by
          rw [← hmid]
          refine (log_isPrefix _ hc).subset ?_
          rw [log_snoc]
          exact List.mem_append_right _ (List.mem_singleton.mpr rfl)
        rcases List.mem_cons.mp hmem with heq | hin
        · rw [heq]
          exact hrestart.2.2
        · exact hquiet' _ hin
      -- the packet ends with a burst, so a FIFO that is short at a restart is short in mid-packet
      have hopen := enabled_of_shortRestart hN h16 hu hrestart
      obtain ⟨hsixteen, hnext⟩ := beats_of_shortRestart hmid hrestart hquiet' hcount hready
      refine ⟨past, mid, j, hpre, hsixteen, hnext, fun cs c hc => ?_⟩
      have hcs : cs <+: mid := (List.prefix_append _ _).trans hc
      obtain ⟨hacc, hocc⟩ := quiet_run fun ds d hd => hquiet ds d (hd.trans hcs)
      have he : (after N (past ++ cs)).packetizer.intEnblReg = true := by
        rw [enabled_iff N hN, hacc]
        exact hopen
      have hroom := hrestart.2.1
      exact ⟨he, occupancy_of_quiet he (by omega) (hquiet cs c hc)⟩

end Starved

end Memory

/-! ### The program -/

/-- The registers of `cfg_0` that `axi4_test.c` names, by their offsets. -/
def controlReg : BitVec 32 := 0x0

def packetizerReg : BitVec 32 := 0x4

def ramReaderReg : BitVec 32 := 0x8

def ramWriterReg : BitVec 32 := 0xC

/-- The design has `cfg_0` at this address. -/
def cfgAddr (offset : BitVec 32) : BitVec 32 := 0x40000000 + offset

/-- `uio_write` on `cfg0`, a store of a whole word: what arrives at `cfg_0`. -/
def uioWrite (offset value : BitVec 32) : LiteWrite := ⟨cfgAddr offset, value, 0xF⟩

/-- `uio_read` on `cfg0`: what the multiplexer of the read channel selects. -/
def uioRead (d : Design) (offset : BitVec 32) : BitVec 32 :=
  (CfgRegister.intDataMux d.cfg (CfgRegister.wordIndex (P := cfgParams) (cfgAddr offset))).getD 0

/-- The cycles in which `main` sets the design up, from `u` on: it writes the base addresses,
    the length of the packet and a zero to the control register, then sets bit 0 of the control
    register and then bit 1, with any number of cycles between these writes.  The last cycle is
    the one in which `cfg_0` accepts the last write. -/
structure Main (u : Design) (N src dst : BitVec 32) where
  setup : List Cycle
  release : List Cycle
  wait : List Cycle
  last : Cycle
  setup_writes : liteWrites setup = [uioWrite ramReaderReg src, uioWrite ramWriterReg dst,
    uioWrite packetizerReg N, uioWrite controlReg 0]
  release_writes : liteWrites release
    = [uioWrite controlReg (uioRead (u.run setup) controlReg ||| 0x1)]
  wait_writes : liteWrites wait = []
  last_writes : liteWrite last
    = [uioWrite controlReg (uioRead (u.run (setup ++ release)) controlReg ||| 0x2)]

/-- The design behind these cycles. -/
def Main.start {u : Design} {N src dst : BitVec 32} (m : Main u N src dst) : Design :=
  u.run (m.setup ++ m.release ++ m.wait ++ [m.last])

section Program

variable {N src dst : BitVec 32}

/-- The words of `cfg_data` that the program uses. -/
structure Configured (control N src dst : BitVec 32) (d : Design) : Prop where
  control : d.words 0 = control
  packetizer : d.words 1 = N
  ramReader : d.words 2 = src
  ramWriter : d.words 3 = dst

/-- A store of the program replaces the word at its offset, and no other. -/
theorem writeWord_uioWrite (mem : Memory 32 32) (offset value : BitVec 32) (j : Fin 32) :
    writeWord mem (uioWrite offset value) j
      = if j.val = wordOf 2 32 32 (cfgAddr offset) then value else mem j := by
  rw [writeWord, uioWrite, Memory.write]
  split
  · exact strobed_allOnes (w := 32) (by decide) _ _
  · rfl

/-- The offsets select the first four words. -/
theorem wordOf_offsets : wordOf 2 32 32 (cfgAddr controlReg) = 0
    ∧ wordOf 2 32 32 (cfgAddr packetizerReg) = 1
    ∧ wordOf 2 32 32 (cfgAddr ramReaderReg) = 2
    ∧ wordOf 2 32 32 (cfgAddr ramWriterReg) = 3 := by
  decide +kernel

namespace Configured

variable {control : BitVec 32} {d : Design} {is : List Cycle} {i : Cycle}

/-- The first four writes of the program set all of them. -/
theorem of_setup (h : liteWrites is = [uioWrite ramReaderReg src, uioWrite ramWriterReg dst,
      uioWrite packetizerReg N, uioWrite controlReg 0]) :
    Configured 0 N src dst (d.run is) := by
  obtain ⟨h0, h1, h2, h3⟩ := wordOf_offsets
  constructor <;> rw [words_run, h] <;>
    simp only [List.foldl_cons, List.foldl_nil, writeWord_uioWrite, h0, h1, h2, h3] <;> rfl

/-- As long as the program does not write, the words stay as they are. -/
theorem quiet (h : Configured control N src dst d) (hq : liteWrites is = []) :
    Configured control N src dst (d.run is) := by
  obtain ⟨hwords, -⟩ := run_quiet d hq
  constructor <;> rw [hwords]
  exacts [h.control, h.packetizer, h.ramReader, h.ramWriter]

/-- A write to the control register changes no other word. -/
theorem write_control (h : Configured control N src dst d) {value : BitVec 32}
    (hi : liteWrite i = [uioWrite controlReg value]) :
    Configured value N src dst (d.step i) := by
  obtain ⟨h0, -⟩ := wordOf_offsets
  constructor <;> rw [words_step, hi, List.foldl_cons, List.foldl_nil, writeWord_uioWrite, h0]
  exacts [rfl, h.packetizer, h.ramReader, h.ramWriter]

/-- What the design makes of these words: the two resets from the control register, and the
    three settings. -/
theorem settings_eq (h : Configured control N src dst d) :
    d.settings = ⟨control.getLsbD 0, control.getLsbD 1, N, src, dst⟩ := by
  rw [Copy.settings_eq, h.control, h.packetizer, h.ramReader, h.ramWriter]

/-- A read of the control register gives what was written there last. -/
theorem uioRead_eq (h : Configured control N src dst d) : uioRead d controlReg = control := by
  have hindex : CfgRegister.wordIndex (P := cfgParams) (cfgAddr controlReg) = 0 :=
    (CfgRegister.wordIndex_bank _).trans wordOf_offsets.1
  rw [uioRead, hindex, ← h.control]
  rfl

end Configured

/-- The cycle with the one write of a list of cycles. -/
theorem exists_of_liteWrites {is : List Cycle} {w : LiteWrite} (h : liteWrites is = [w]) :
    ∃ past i rest, is = past ++ [i] ++ rest ∧ liteWrites past = [] ∧ liteWrite i = [w]
      ∧ liteWrites rest = [] := by
  induction is with
  | nil => exact absurd h (by simp [liteWrites])
  | cons i is ih =>
    replace h : liteWrite i ++ liteWrites is = [w] := h
    rcases List.append_eq_singleton_iff.mp h with ⟨hi, his⟩ | ⟨hi, his⟩
    · obtain ⟨past, j, rest, rfl, hpast, hj, hrest⟩ := ih his
      refine ⟨i :: past, j, rest, by simp, ?_, hj, hrest⟩
      show liteWrite i ++ liteWrites past = []
      rw [hi, hpast]
      rfl
    · exact ⟨[], i, is, by simp, rfl, hi, his⟩

/-- Out of reset with only the packetizer released, the cycles up to the next write leave the
    three IPs where `copier` starts. -/
theorem ips_of_released {d : Design} (hN : 2 ≤ N.toNat) (hips : d.ips = resetState)
    (hsettings : d.settings = ⟨true, false, N, src, dst⟩) {is : List Cycle}
    (hq : liteWrites is = []) (last : Cycle) :
    ((d.run is).step last).ips = (copier N).reset := by
  -- the settings stand still, so every cycle is one with the packetizer out of reset
  have hfold : ((is ++ [last]).map fun c => (d.settings, c.bus)).foldl step resetState
      = (copier N).reset := by
    apply foldl_step_one hN (by simp)
    intro i hi
    obtain ⟨c, -, rfl⟩ := List.mem_map.mp hi
    rw [hsettings]
    exact ⟨rfl, rfl, rfl⟩
  rw [List.map_append, List.foldl_append, ← hips, ← (run_quiet d hq).2] at hfold
  rw [← hfold, ← settings_quiet d hq]
  rfl

/-- The write that sets bit 0 comes out of a design in reset. -/
theorem Configured.exists_release {d : Design} (h : Configured 0 N src dst d) {is : List Cycle}
    (hw : liteWrites is = [uioWrite controlReg (uioRead d controlReg ||| 0x1)]) :
    ∃ d' rest, d.run is = d'.run rest ∧ liteWrites rest = [] ∧ d'.ips = resetState
      ∧ Configured 1 N src dst d' := by
  obtain ⟨past, i, rest, rfl, hpast, hi, hrest⟩ := exists_of_liteWrites hw
  have hbefore := h.quiet hpast
  rw [h.uioRead_eq] at hi
  refine ⟨(d.run past).step i, rest, ?_, hrest, ?_, hbefore.write_control hi⟩
  · rw [Design.run_append, Design.run_snoc]
  · apply step_zero <;> rw [hbefore.settings_eq] <;> rfl

/-- **The program starts the copier.** Whatever the design did before, its six writes leave it
    as `copier` from its reset, with the base addresses in `cfg_data`. -/
theorem Main.started {u : Design} (m : Main u N src dst) (hN : 2 ≤ N.toNat) :
    Started N src dst m.start := by
  obtain ⟨d, rest, hrun, hrest, hreset, hone⟩ :=
    (Configured.of_setup m.setup_writes).exists_release m.release_writes
  rw [← Design.run_append] at hrun
  have hlast := m.last_writes
  rw [hrun, (hone.quiet hrest).uioRead_eq] at hlast
  -- nothing is written between the two writes of the control register
  have hquiet : liteWrites (rest ++ m.wait) = [] := by
    rw [liteWrites_append, hrest, m.wait_writes]
    rfl
  have hstart : m.start = (d.run (rest ++ m.wait)).step m.last := by
    rw [Main.start, Design.run_snoc, Design.run_append, hrun, Design.run_append]
  rw [hstart]
  exact ⟨ips_of_released hN hreset hone.settings_eq hquiet m.last,
    ((hone.quiet hquiet).write_control hlast).settings_eq⟩

/-! ### What the program copies -/

/-- Nothing on the two memory ports can change the three IPs any more. -/
def Design.Rests (d : Design) : Prop := ∀ b, Copy.step d.ips (d.settings, b) = d.ips

/-- While the memory takes 16 beats on W and then another one, the packet is not through and
    the reader has no word. -/
def Starves (d : Design) (is : List Cycle) : Prop :=
  ∃ past mid j, past ++ mid ++ [j] <+: is
    ∧ (wTaken d (past ++ mid)).length = (wTaken d past).length + 16
    ∧ (wTaken d (past ++ mid ++ [j])).length = (wTaken d past).length + 17
    ∧ ∀ cs c, cs ++ [c] <+: mid →
      (d.run (past ++ cs)).ips.packetizer.intEnblReg = true
        ∧ (d.run (past ++ cs)).ips.reader.fifo.occupancy = 0

variable {d : Design} {is : List Cycle}

/-- Nothing on the ports can change the design exactly if nothing on the bus can change
    `copier`. -/
theorem Started.rests_iff (h : Started N src dst d) (hq : liteWrites is = []) :
    (d.run is).Rests ↔ AtRest N (after N (is.map Cycle.bus)) := by
  obtain ⟨hsettings, hips⟩ := h.run hq
  rw [Design.Rests, hsettings, hips]
  rfl

/-- The design takes as many beats on W as `copier` does. -/
theorem Started.beats_eq (h : Started N src dst d) (hq : liteWrites is = []) :
    (wTaken d is).length = beats N (is.map Cycle.bus) := by
  rw [h.wTaken_eq hq, beats]

/-- A starved run of the bus is one of the design. -/
theorem Started.starves (h : Started N src dst d) (hq : liteWrites is = [])
    (hs : Starved N (is.map Cycle.bus)) : Starves d is := by
  obtain ⟨past, mid, j, ⟨rest, hrest⟩, hsixteen, hnext, hall⟩ := hs
  obtain ⟨front, rest', rfl, hfront, -⟩ := List.map_eq_append_iff.mp hrest.symm
  obtain ⟨pm, js, rfl, hpm, hjs⟩ := List.map_eq_append_iff.mp hfront
  obtain ⟨p, m, rfl, rfl, rfl⟩ := List.map_eq_append_iff.mp hpm
  obtain ⟨c, rfl, rfl⟩ := List.map_eq_singleton_iff.mp hjs
  -- the program writes in no part of the run
  have hquiet {l : List Cycle} (hl : l <+: p ++ m ++ [c]) : liteWrites l = [] :=
    liteWrites_of_isPrefix (hl.trans (List.prefix_append _ rest')) hq
  have hpast := hquiet (List.IsPrefix.trans ⟨m, rfl⟩ (List.prefix_append _ [c]))
  refine ⟨p, m, c, List.prefix_append _ rest', ?_, ?_, fun cs e he => ?_⟩
  · rw [h.beats_eq (hquiet (List.prefix_append _ _)), h.beats_eq hpast, List.map_append, hsixteen]
  · rw [h.beats_eq (hquiet (List.prefix_refl _)), h.beats_eq hpast, List.map_append,
      List.map_append]
    exact hnext
  · have hcs : cs <+: m := (List.prefix_append cs [e]).trans he
    have hpcs : p ++ cs <+: p ++ m := (List.prefix_append_right_inj p).mpr hcs
    have hbus : cs.map Cycle.bus ++ [e.bus] <+: m.map Cycle.bus := by
      rw [← List.map_singleton, ← List.map_append]
      exact he.map _
    rw [(h.run (hquiet (hpcs.trans (List.prefix_append _ _)))).2, List.map_append]
    exact hall _ _ hbus

/-- A memory that takes no more than 16 beats starves nobody. -/
theorem not_starves (hw : (wTaken d is).length ≤ 16) : ¬ Starves d is := by
  rintro ⟨past, mid, j, hpre, -, hnext, -⟩
  have hprefix : wTaken d (past ++ mid ++ [j]) <+: wTaken d is := log_isPrefix _ hpre
  have hle := hprefix.length_le
  omega

/-- **The program copies its words.** Whatever the design did before: after the writes of
    `main`, with a packet of whole bursts, what is written are words at `src` written at `dst`,
    in order and at most `N`, as long as the memory serves the reads, takes addresses first and
    does not starve the writer; and where nothing can move any more, they are the `N` words. -/
theorem program_copies {u : Design} (m : Main u N src dst) {mem : BitVec 32 → BitVec 64}
    (hN : 0 < N.toNat) (h16 : N.toNat % 16 = 0) (hq : liteWrites is = [])
    (hserves : Serves m.start mem is) (hfirst : TakesAddressFirst m.start is)
    (hfed : ¬ Starves m.start is) :
    (∃ n ≤ N.toNat, writes m.start is = copyOf src dst mem n)
      ∧ ((m.start.run is).Rests → writes m.start is = copyOf src dst mem N.toNat) := by
  have h2 : 2 ≤ N.toNat := by omega
  have hstart := m.started h2
  -- starving is the only way to an underrun, since the packet is a whole number of bursts
  have hu : ¬ RamWriter.Underrun (writerIns N (is.map Cycle.bus)) :=
    fun hu => hfed (hstart.starves hq (underrun_starved h2 h16 hu))
  have hcopied := @copied_of_not_underrun N src dst mem _ ((hstart.serves_iff hq).mp hserves)
    ((hstart.takesAddressFirst_iff hq).mp hfirst) hu
  rw [hstart.writes_eq hq, hstart.rests_iff hq]
  refine ⟨⟨_, written_length_le h2 hu, hcopied⟩, fun hrest => ?_⟩
  have hlen := hrest.written_length dst h2 hu
  rw [h16, Nat.sub_zero] at hlen
  rw [hlen] at hcopied
  exact hcopied

end Program

/-! ### A packet of one burst -/

/-- A cycle with an idle memory in which the program writes. -/
def writeCycle (w : LiteWrite) : Cycle where
  lite := { sAxiAwaddr := w.awaddr, sAxiAwvalid := true, sAxiWdata := w.wdata,
            sAxiWstrb := w.wstrb, sAxiWvalid := true, sAxiBready := true }
  bus := default

/-- A cycle in which it does not. -/
def busCycle (b : Bus) : Cycle := ⟨{ sAxiBready := true }, b⟩

/-- In cycles that leave the AXI4-Lite port alone the program writes nothing. -/
theorem liteWrites_busCycle (bs : List Bus) : liteWrites (bs.map busCycle) = [] := by
  induction bs with
  | nil => rfl
  | cons b bs ih => exact ih

/-- The settings of a packet of one burst, with a cycle between any two writes. -/
def setupOneBurst : List Cycle :=
  [writeCycle (uioWrite ramReaderReg 0x1E000000), busCycle default,
   writeCycle (uioWrite ramWriterReg 0x1F000000), busCycle default,
   writeCycle (uioWrite packetizerReg 16), busCycle default,
   writeCycle (uioWrite controlReg 0), busCycle default]

def releaseOneBurst : List Cycle := [writeCycle (uioWrite controlReg 1), busCycle default]

section OneBurst

variable (u : Design)

/-- After the first four writes the words are those of a packet of 16 words, with the design
    in reset. -/
theorem configured_setupOneBurst :
    Configured 0 16 0x1E000000 0x1F000000 (u.run setupOneBurst) :=
  Configured.of_setup rfl

/-- Reading the control register and setting bit 0 writes a one there. -/
theorem liteWrites_releaseOneBurst : liteWrites releaseOneBurst
    = [uioWrite controlReg (uioRead (u.run setupOneBurst) controlReg ||| 0x1)] := by
  rw [(configured_setupOneBurst u).uioRead_eq]
  rfl

/-- Reading it again and setting bit 1 writes a three. -/
theorem liteWrite_lastOneBurst : liteWrite (writeCycle (uioWrite controlReg 3))
    = [uioWrite controlReg
        (uioRead (u.run (setupOneBurst ++ releaseOneBurst)) controlReg ||| 0x2)] := by
  obtain ⟨d, rest, hrun, hrest, -, hone⟩ :=
    (configured_setupOneBurst u).exists_release (liteWrites_releaseOneBurst u)
  rw [Design.run_append, hrun, (hone.quiet hrest).uioRead_eq]
  rfl

/-- The program with a packet of one burst. -/
def mainOneBurst : Main u 16 0x1E000000 0x1F000000 where
  setup := setupOneBurst
  release := releaseOneBurst
  wait := [busCycle default]
  last := writeCycle (uioWrite controlReg 3)
  setup_writes := rfl
  release_writes := liteWrites_releaseOneBurst u
  wait_writes := rfl
  last_writes := liteWrite_lastOneBurst u

end OneBurst

/-- The design as it comes out of the reset of the processing system. -/
def powerUp : Design := ⟨CfgRegister.resetState, resetState⟩

/-- The bus of `oneBurstRun`, on which the memory takes every beat at once: the design comes to
    rest with the 16 words copied. -/
theorem program_copies_oneBurst :
    ((mainOneBurst powerUp).start.run (oneBurstRun.map busCycle)).Rests
      ∧ writes (mainOneBurst powerUp).start (oneBurstRun.map busCycle)
        = copyOf 0x1E000000 0x1F000000 ownAddress 16 := by
  have hstart := (mainOneBurst powerUp).started (by decide)
  have hq := liteWrites_busCycle oneBurstRun
  have hbus : (oneBurstRun.map busCycle).map Cycle.bus = oneBurstRun := by
    rw [List.map_map]
    exact List.map_id _
  have hrests : ((mainOneBurst powerUp).start.run (oneBurstRun.map busCycle)).Rests := by
    rw [hstart.rests_iff hq, hbus]
    apply atRest_of <;> decide +kernel
  have hserves : Serves (mainOneBurst powerUp).start ownAddress (oneBurstRun.map busCycle) := by
    rw [hstart.serves_iff hq, hbus]
    exact readsFrom_oneBurstRun
  have hfirst : TakesAddressFirst (mainOneBurst powerUp).start (oneBurstRun.map busCycle) := by
    rw [hstart.takesAddressFirst_iff hq, hbus]
    exact addressFirst_oneBurstRun
  have hfed : ¬ Starves (mainOneBurst powerUp).start (oneBurstRun.map busCycle) := by
    apply not_starves
    rw [hstart.beats_eq hq, hbus]
    decide +kernel
  exact ⟨hrests, (program_copies (mainOneBurst powerUp) (by decide) (by decide) hq hserves hfirst
    hfed).2 hrests⟩

end ZynqLinux.Axi4.Copy
