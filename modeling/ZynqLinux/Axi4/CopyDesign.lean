import ZynqLinux.Axi4.CfgRegisterMemory
import ZynqLinux.Axi4.CopyMemory

namespace ZynqLinux.Axi4.Copy

open ZynqLinux.Lib
open CfgRegister (bank cfgWord intWvalidWire wordOf)

/-!
# The block design of the `axi4` project — with its configuration register

`cfg_0` holds in `cfg_data` what the program writes over AXI4-Lite; five slices of it are the
resets, the length of the packet and the two base addresses of the other IPs.

* `Design` is `cfg_0` together with the three IPs, and `Design.step` its clock edge;
* `arTaken`, `rTaken`, `awTaken` and `wTaken` are what the two memory ports hand over, with the
  addresses made from `cfg_data`;
* `words_run` says that the words of `cfg_data` are what the program wrote last;
* `Started` is the design with its resets released, and the lemmas behind it say that from
  there on it runs as `copier` until the program writes to `cfg_0` again.
-/

/-! ### The design -/

/-- `cfg_0` has its default parameters: 32 words of four bytes. -/
abbrev cfgParams : CfgRegister.Params := bank 2 32 32

/-- The inputs of a cycle: the AXI4-Lite port of `cfg_0` and the two memory ports. -/
structure Cycle where
  lite : CfgRegister.In cfgParams
  bus : Bus

/-- `xlslice_0` to `xlslice_4`. -/
def slices (cfgData : BitVec 1024) : Cfg where
  packetizerResetn := cfgData.getLsbD 0
  ramResetn := cfgData.getLsbD 1
  packetizer := cfgData.extractLsb' 32 32
  ramReader := cfgData.extractLsb' 64 32
  ramWriter := cfgData.extractLsb' 96 32

/-- The state of `cfg_0` and of the three IPs behind it. -/
structure Design where
  cfg : CfgRegister.State cfgParams
  ips : State

namespace Design

/-- What `cfg_data` sets. -/
def settings (d : Design) : Cfg := slices d.cfg.intDataWire

/-- One clock edge.  The IPs see `cfg_data` as it is in front of it. -/
def step (d : Design) (i : Cycle) : Design where
  cfg := CfgRegister.step d.cfg i.lite
  ips := Copy.step d.ips (d.settings, i.bus)

/-- The design after the cycles `is`. -/
def run (d : Design) (is : List Cycle) : Design := Machine.run ⟨d, step⟩ is

theorem run_snoc (d : Design) (is : List Cycle) (i : Cycle) :
    d.run (is ++ [i]) = (d.run is).step i :=
  Machine.run_snoc _ is i

theorem run_append (d : Design) (is js : List Cycle) : d.run (is ++ js) = (d.run is).run js :=
  Machine.run_append _ is js

end Design

/-! ### The memory ports -/

section Ports

variable (d : Design)

/-- The addresses taken on AR. -/
def arTaken (is : List Cycle) : List (BitVec 32) :=
  log (fun past i =>
    if RamReader.arHandshake (d.run past).ips.reader.regs
        (RamReader.coreIn (d.run past).ips.reader (readerIn (d.run past).ips i.bus)) then
      [mAxiAraddr (d.run past).settings (d.run past).ips] else []) is

/-- The number of beats taken on R. -/
def rTaken (is : List Cycle) : Nat :=
  count (fun past i => RamReader.wren (d.run past).ips.reader (readerIn (d.run past).ips i.bus)) is

/-- The addresses taken on AW. -/
def awTaken (is : List Cycle) : List (BitVec 32) :=
  log (fun past i =>
    if RamWriter.awHandshake (d.run past).ips.writer.regs
        (RamWriter.coreIn (d.run past).ips.writer (writerIn (d.run past).ips i.bus)) then
      [mAxiAwaddr (d.run past).settings (d.run past).ips] else []) is

/-- The words taken on W. -/
def wTaken (is : List Cycle) : List (Option (BitVec 64)) :=
  log (fun past i =>
    if RamWriter.rden (d.run past).ips.writer (writerIn (d.run past).ips i.bus) then
      [RamWriter.mAxiWdata (d.run past).ips.writer] else []) is

/-- What is written where: the words on W, and where the addresses on AW send them. -/
def writes (is : List Cycle) : List (Option (BitVec 32) × Option (BitVec 64)) :=
  (wTaken d is).mapIdx fun k w => (beatAddr (awTaken d is) k, w)

end Ports

/-! ### The words of `cfg_data` -/

/-- A write that `cfg_0` accepts: address, data and byte strobes. -/
structure LiteWrite where
  awaddr : BitVec 32
  wdata : BitVec 32
  wstrb : BitVec (32 / 8)
deriving DecidableEq

/-- The write that `cfg_0` accepts in a cycle, if there is one. -/
def liteWrite (i : Cycle) : List LiteWrite :=
  if intWvalidWire i.lite then [⟨i.lite.sAxiAwaddr, i.lite.sAxiWdata, i.lite.sAxiWstrb⟩] else []

/-- The writes that `cfg_0` accepts along the cycles `is`. -/
def liteWrites (is : List Cycle) : List LiteWrite := is.flatMap liteWrite

theorem liteWrites_append (is js : List Cycle) :
    liteWrites (is ++ js) = liteWrites is ++ liteWrites js :=
  List.flatMap_append

theorem liteWrites_snoc (is : List Cycle) (i : Cycle) :
    liteWrites (is ++ [i]) = liteWrites is ++ liteWrite i := by
  rw [liteWrites_append, liteWrites, liteWrites, List.flatMap_singleton]

/-- A write to the words of `cfg_data`. -/
def writeWord (mem : Memory 32 32) (w : LiteWrite) : Memory 32 32 :=
  mem.write (wordOf 2 32 32 w.awaddr) w.wdata w.wstrb

/-- The words of `cfg_data`. -/
def Design.words (d : Design) : Memory 32 32 := cfgWord d.cfg

section Words

variable (d : Design)

/-- A clock edge makes the write that `cfg_0` accepts, if there is one, and changes no other
    word. -/
theorem words_step (i : Cycle) : (d.step i).words = (liteWrite i).foldl writeWord d.words := by
  have hstep : (d.step i).words = _ := CfgRegister.cfgWord_step d.cfg i.lite
  rw [hstep, liteWrite]
  cases intWvalidWire i.lite <;> rfl

/-- The words of `cfg_data` are what was written to them last. -/
theorem words_run (is : List Cycle) : (d.run is).words = (liteWrites is).foldl writeWord d.words := by
  induction is using List.reverseRecOn with
  | nil => rfl
  | append_singleton is i ih =>
    rw [Design.run_snoc, words_step, ih, liteWrites_snoc, List.foldl_append]

/-- The settings are the first four words, with the two resets in word 0. -/
theorem settings_eq : d.settings
    = ⟨(d.words 0).getLsbD 0, (d.words 0).getLsbD 1, d.words 1, d.words 2, d.words 3⟩ := by
  have hbit (k : Nat) (hk : k < 32) : (d.words 0).getLsbD k = d.cfg.intDataWire.getLsbD k := by
    show (d.cfg.intDataWire.extractLsb' (0 * 32) 32).getLsbD k = _
    rw [BitVec.getLsbD_extractLsb', decide_eq_true hk, Nat.zero_mul, Nat.zero_add, Bool.true_and]
  rw [hbit 0 (by decide), hbit 1 (by decide)]
  rfl

end Words

/-- While the program does not write, the settings stay and the three IPs run under them. -/
theorem run_quiet (d : Design) {is : List Cycle} (h : liteWrites is = []) :
    (d.run is).words = d.words
      ∧ (d.run is).ips = (is.map fun i => (d.settings, i.bus)).foldl Copy.step d.ips := by
  induction is using List.reverseRecOn with
  | nil => exact ⟨rfl, rfl⟩
  | append_singleton is i ih =>
    rw [liteWrites_snoc, List.append_eq_nil_iff] at h
    obtain ⟨his, hi⟩ := h
    obtain ⟨hwords, hips⟩ := ih his
    -- no write, so the settings of this cycle are those of the start
    have hsettings : (d.run is).settings = d.settings := by
      rw [settings_eq, settings_eq, hwords]
    rw [Design.run_snoc, words_step, hi, hwords, List.map_append, List.foldl_append, ← hips]
    refine ⟨rfl, ?_⟩
    show Copy.step (d.run is).ips ((d.run is).settings, i.bus) = _
    rw [hsettings]
    rfl

/-- While the program does not write, the resets, the length of the packet and the base
    addresses stay. -/
theorem settings_quiet (d : Design) {is : List Cycle} (h : liteWrites is = []) :
    (d.run is).settings = d.settings := by
  rw [settings_eq, (run_quiet d h).1, ← settings_eq]

/-! ### The running design -/

/-- The design with its resets released: the three IPs are where `copier` starts, and `cfg_data`
    has the length of the packet and the base addresses. -/
structure Started (N src dst : BitVec 32) (d : Design) : Prop where
  ips : d.ips = (copier N).reset
  settings : d.settings = ⟨true, true, N, src, dst⟩

section Started

variable {N src dst : BitVec 32} {d : Design} {is : List Cycle}

/-- Until the program writes again the design runs as `copier` does on its bus. -/
theorem Started.run (h : Started N src dst d) (hq : liteWrites is = []) :
    (d.run is).settings = ⟨true, true, N, src, dst⟩
      ∧ (d.run is).ips = after N (is.map Cycle.bus) := by
  refine ⟨(settings_quiet d hq).trans h.settings, ?_⟩
  rw [(run_quiet d hq).2, h.ips, foldl_step_three _ (by simp [h.settings]), List.map_map]
  rfl

/-- A run without a write has none in its parts either, so the lemmas below apply at each of
    its points. -/
theorem liteWrites_of_isPrefix {past : List Cycle} (hp : past <+: is) (hq : liteWrites is = []) :
    liteWrites past = [] := by
  obtain ⟨rest, rfl⟩ := hp
  rw [liteWrites_append, List.append_eq_nil_iff] at hq
  exact hq.1

/-- What the IPs emit along the run is what `copier` emits on the bus. -/
theorem Started.log_eq {α : Type*} (h : Started N src dst d) (k : Cfg → State → Bus → List α)
    (hq : liteWrites is = []) :
    log (fun past i => k (d.run past).settings (d.run past).ips i.bus) is
      = log (fun past b => k ⟨true, true, N, src, dst⟩ (after N past) b) (is.map Cycle.bus) := by
  induction is using List.reverseRecOn with
  | nil => rfl
  | append_singleton is i ih =>
    have his := liteWrites_of_isPrefix (List.prefix_append is [i]) hq
    obtain ⟨hsettings, hips⟩ := h.run his
    rw [log_snoc, ih his, hsettings, hips, List.map_append, List.map_singleton, log_snoc]

/-- The addresses on AR are made from the base address in `cfg_data`. -/
theorem Started.arTaken_eq (h : Started N src dst d) (hq : liteWrites is = []) :
    arTaken d is = arAddrs N src (is.map Cycle.bus) := by
  have hlog := h.log_eq (fun c s b =>
    if RamReader.arHandshake s.reader.regs (RamReader.coreIn s.reader (readerIn s b)) then
      [mAxiAraddr c s] else []) hq
  -- the registers are a part of the IP, and the IP of the design
  have hpart := Machine.log_part_part (M := copier N) (N := RamReader.axisRamReader readerParams)
    (K := RamReader.core readerParams) (f := State.reader) (g := readerIn)
    (r := RamReader.State.regs) (w := RamReader.coreIn) rfl (fun _ _ => rfl) rfl (fun _ _ => rfl)
    (fun r i => if RamReader.arHandshake r i then [RamReader.mAxiAraddr src r] else [])
    (is.map Cycle.bus)
  exact hlog.trans hpart.symm

/-- So are the addresses on AW. -/
theorem Started.awTaken_eq (h : Started N src dst d) (hq : liteWrites is = []) :
    awTaken d is = awAddrs N dst (is.map Cycle.bus) := by
  have hlog := h.log_eq (fun c s b =>
    if RamWriter.awHandshake s.writer.regs (RamWriter.coreIn s.writer (writerIn s b)) then
      [mAxiAwaddr c s] else []) hq
  have hpart := Machine.log_part_part (M := copier N) (N := RamWriter.axisRamWriter writerParams)
    (K := RamWriter.core writerParams) (f := State.writer) (g := writerIn)
    (r := RamWriter.State.regs) (w := RamWriter.coreIn) rfl (fun _ _ => rfl) rfl (fun _ _ => rfl)
    (fun r i => if RamWriter.awHandshake r i then [RamWriter.mAxiAwaddr dst r] else [])
    (is.map Cycle.bus)
  exact hlog.trans hpart.symm

/-- The beats taken on R are those of the bus of `copier`. -/
theorem Started.rTaken_eq (h : Started N src dst d) (hq : liteWrites is = []) :
    rTaken d is = rBeats N (is.map Cycle.bus) := by
  have hpart := Machine.count_part (M := copier N) (N := RamReader.axisRamReader readerParams)
    (f := State.reader) (g := readerIn) rfl (fun _ _ => rfl) RamReader.wren (is.map Cycle.bus)
  have hlog := h.log_eq (fun _ s b =>
    if RamReader.wren s.reader (readerIn s b) then [()] else []) hq
  exact (congrArg List.length hlog).trans hpart.symm

/-- So are the words taken on W. -/
theorem Started.wTaken_eq (h : Started N src dst d) (hq : liteWrites is = []) :
    wTaken d is = RamWriter.wBeats (writerIns N (is.map Cycle.bus)) := by
  have hpart := Machine.log_part (M := copier N) (N := RamWriter.axisRamWriter writerParams)
    (f := State.writer) (g := writerIn) rfl (fun _ _ => rfl)
    (fun s i => if RamWriter.rden s i then [RamWriter.mAxiWdata s] else []) (is.map Cycle.bus)
  have hlog := h.log_eq (fun _ s b =>
    if RamWriter.rden s.writer (writerIn s b) then [RamWriter.mAxiWdata s.writer] else []) hq
  exact hlog.trans hpart.symm

/-- What the design writes where is what `copier` writes, with the base address that
    `cfg_data` holds. -/
theorem Started.writes_eq (h : Started N src dst d) (hq : liteWrites is = []) :
    writes d is = written N dst (is.map Cycle.bus) := by
  rw [writes, written, h.wTaken_eq hq, h.awTaken_eq hq]

end Started

/-! ### The memory behind the ports -/

section Memory

variable (d : Design) (mem : BitVec 32 → BitVec 64)

/-- The memory answers the bursts it was asked for, and shows `rlast` with the 16th beat of
    each and not otherwise. -/
def Serves (is : List Cycle) : Prop :=
  EachCycle (fun past i =>
    (i.bus.rvalid = true →
      (beatAddr (arTaken d (past ++ [i])) (rTaken d past)).map mem = some i.bus.rdata
        ∧ (i.bus.rlast = true ↔ rTaken d past % 16 = 15))
    ∧ (i.bus.rvalid = false → i.bus.rlast = false)) is

/-- The memory takes no beat of a burst before the address of the burst. -/
def TakesAddressFirst (is : List Cycle) : Prop :=
  EachCycle (fun past i => ¬ RamWriter.EarlyBeat (d.run past).ips.writer.regs
    (RamWriter.coreIn (d.run past).ips.writer (writerIn (d.run past).ips i.bus))) is

variable {d mem} {N src dst : BitVec 32} {is : List Cycle}

/-- A memory serves the design exactly if it serves `copier` on the bus, with bursts from the
    base address that `cfg_data` holds. -/
theorem Started.serves_iff (h : Started N src dst d) (hq : liteWrites is = []) :
    Serves d mem is ↔ ReadsFrom N src mem (is.map Cycle.bus) := by
  rw [ReadsFrom, eachCycle_map]
  apply eachCycle_congr
  intro past i hp
  have hqi := liteWrites_of_isPrefix hp hq
  rw [h.arTaken_eq hqi, h.rTaken_eq (liteWrites_of_isPrefix (List.prefix_append past [i]) hqi),
    List.map_append, List.map_singleton]

/-- The order of addresses and beats is the same in the design and in `copier`. -/
theorem Started.takesAddressFirst_iff (h : Started N src dst d) (hq : liteWrites is = []) :
    TakesAddressFirst d is ↔ AddressFirst N (is.map Cycle.bus) := by
  rw [AddressFirst, eachCycle_map]
  apply eachCycle_congr
  intro past i hp
  have hpast := liteWrites_of_isPrefix ((List.prefix_append past [i]).trans hp) hq
  rw [(h.run hpast).2]

end Memory

end ZynqLinux.Axi4.Copy
