import ZynqLinux.Axi4.Copy

namespace ZynqLinux.Axi4.Copy

open ZynqLinux.Lib

/-!
# The block design of the `axi4` project — what it does to memory

The design between two ports of a memory: what it reads at `src` it writes at `dst`.

* `ReadsFrom` is a memory that answers the bursts asked for, with `rlast` low outside its
  data, `AddressFirst` one that takes no beat of a burst before its address;
* `written` pairs the beats on W with the addresses on AW;
* `copied_of_not_underrun` and `not_copied_of_underrun` say when the words written are the
  words read.
-/

section Memory

variable (N : BitVec 32) (src dst : BitVec 32) (mem : BitVec 32 → BitVec 64)

/-! ### The memory -/

/-- The beats taken on R. -/
def rBeats (bs : List Bus) : Nat := RamReader.beatsTaken (readerIns N bs)

/-- The addresses taken on AR. -/
def arAddrs (bs : List Bus) : List (BitVec 32) :=
  RamReader.arAddresses (P := readerParams) src (RamReader.coreHistory (readerIns N bs))

/-- The addresses taken on AW. -/
def awAddrs (bs : List Bus) : List (BitVec 32) :=
  RamWriter.awAddresses (P := writerParams) dst (RamWriter.coreHistory (writerIns N bs))

/-- Beat `k` of the bursts at the addresses `as`, which have 16 words of 8 bytes. -/
def beatAddr (as : List (BitVec 32)) (k : Nat) : Option (BitVec 32) :=
  as[k / 16]?.map fun a => a + BitVec.ofNat 32 (8 * (k % 16))

/-- The memory answers the bursts it was asked for, and shows `rlast` with the 16th beat of
    each and not otherwise. -/
def ReadsFrom (bs : List Bus) : Prop :=
  EachCycle (fun past b =>
    (b.rvalid = true → (beatAddr (arAddrs N src (past ++ [b])) (rBeats N past)).map mem = some b.rdata
      ∧ (b.rlast = true ↔ rBeats N past % 16 = 15))
    ∧ (b.rvalid = false → b.rlast = false)) bs

/-- The memory takes no beat of a burst before the address of the burst. -/
def AddressFirst (bs : List Bus) : Prop :=
  EachCycle (fun past b => ¬ RamWriter.EarlyBeat (after N past).writer.regs
    (RamWriter.coreIn (after N past).writer (writerIn (after N past) b))) bs

/-- What is written where: the beats on W and their addresses. -/
def written (bs : List Bus) : List (Option (BitVec 32) × Option (BitVec 64)) :=
  (RamWriter.wBeats (writerIns N bs)).mapIdx fun k d => (beatAddr (awAddrs N dst bs) k, d)

/-- The first `n` words at `src` copied to `dst`. -/
def copyOf (n : Nat) : List (Option (BitVec 32) × Option (BitVec 64)) :=
  (List.range n).map fun k =>
    (some (dst + BitVec.ofNat 32 (8 * k)), some (mem (src + BitVec.ofNat 32 (8 * k))))

/-! ### Addresses -/

/-- The addresses of bursts in a row are the addresses of words in a row. -/
theorem beatAddr_eq {base : BitVec 32} {as : List (BitVec 32)}
    (has : ∀ (k : Nat) a, as[k]? = some a → a.toNat = burstAddress 32 3 base k) {k : Nat}
    (hk : k / 16 < as.length) : beatAddr as k = some (base + BitVec.ofNat 32 (8 * k)) := by
  have ha := has (k / 16) as[k / 16] (List.getElem?_eq_getElem hk)
  rw [beatAddr, List.getElem?_eq_getElem hk, Option.map_some]
  congr 1
  apply BitVec.eq_of_toNat_eq
  have hbits := Nat.div_add_mod k 16
  rw [burstAddress] at ha
  rw [BitVec.toNat_add, BitVec.toNat_add, BitVec.toNat_ofNat, BitVec.toNat_ofNat, ha]
  omega

/-- The beats on R, counted from the registers alone or from the whole IP. -/
theorem rBeats_eq (is : List (RamReader.In readerParams)) :
    RamReader.beatsTaken is = RamReader.rBeats readerParams (RamReader.coreHistory is) :=
  (Machine.count_part (M := RamReader.axisRamReader readerParams) (N := RamReader.core readerParams)
    (f := RamReader.State.regs) (g := RamReader.coreIn) rfl (fun _ _ => rfl)
    RamReader.rHandshake is).symm

/-- What the registers of the reader see, cycle by cycle. -/
theorem eachCycle_readerCore (p : List RamReader.CoreIn → RamReader.CoreIn → Prop) (bs : List Bus) :
    EachCycle p (RamReader.coreHistory (readerIns N bs))
      ↔ EachCycle (fun past b => p (RamReader.coreHistory (readerIns N past))
          (RamReader.coreIn (after N past).reader (readerIn (after N past) b))) bs :=
  Machine.eachCycle_part (M := copier N) (N := RamReader.axisRamReader readerParams)
    (f := State.reader) (g := readerIn) rfl (fun _ _ => rfl) RamReader.coreIn p bs

/-- What the registers of the writer see, cycle by cycle. -/
theorem eachCycle_writerCore (p : List RamWriter.CoreIn → RamWriter.CoreIn → Prop) (bs : List Bus) :
    EachCycle p (RamWriter.coreHistory (writerIns N bs))
      ↔ EachCycle (fun past b => p (RamWriter.coreHistory (writerIns N past))
          (RamWriter.coreIn (after N past).writer (writerIn (after N past) b))) bs :=
  Machine.eachCycle_part (M := copier N) (N := RamWriter.axisRamWriter writerParams)
    (f := State.writer) (g := writerIn) rfl (fun _ _ => rfl) RamWriter.coreIn p bs

/-- One more cycle of the design is one more cycle of the reader's registers, under the flag
    that its FIFO shows. -/
theorem readerCore_snoc (bs : List Bus) (b : Bus) :
    RamReader.coreHistory (readerIns N (bs ++ [b])) = RamReader.coreHistory (readerIns N bs)
      ++ [RamReader.coreIn (after N bs).reader (readerIn (after N bs) b)] := by
  rw [readerIns_snoc, RamReader.coreHistory, log_snoc, ← RamReader.coreHistory, ← after_reader]

/-! ### The words read -/

section Read

variable {N src mem} {bs : List Bus}

/-- A memory that answers is a slave with bursts of 16 beats, which is all that the stream of
    the reader needs. -/
theorem ReadsFrom.burstSlave (h : ReadsFrom N src mem bs) : RamReader.BurstSlave (readerIns N bs) := by
  refine (eachCycle_log_single _ _ _).mpr ?_
  intro past b hp hv
  exact ((h past b hp).1 hv).2

/-- A beat has data only if its burst was asked for. -/
theorem ReadsFrom.beat_lt (h : ReadsFrom N src mem bs) {past : List Bus} {b : Bus}
    (hp : past ++ [b] <+: bs) (hv : b.rvalid = true) :
    rBeats N past / 16 < (arAddrs N src (past ++ [b])).length := by
  by_contra hge
  have hdata := ((h past b hp).1 hv).1
  rw [beatAddr, List.getElem?_eq_none (by omega)] at hdata
  exact absurd hdata (by simp)

/-- It is a slave that shows data only for bursts it was asked for, which is what the address
    channel of the reader needs. -/
theorem ReadsFrom.readSlave (h : ReadsFrom N src mem bs) :
    RamReader.ReadSlave readerParams (RamReader.coreHistory (readerIns N bs)) := by
  refine (eachCycle_readerCore N _ bs).mpr ?_
  intro past b hp hv
  have hlt := h.beat_lt hp hv
  rw [← rBeats_eq, ← readerCore_snoc, RamReader.arCount_eq_length src]
  refine ⟨?_, ((h past b hp).1 hv).2⟩
  show rBeats N past < 16 * (arAddrs N src (past ++ [b])).length
  omega

/-- The bursts asked for are at `src`, one behind the other: a memory that keeps `rlast` low
    outside its data ends no burst too early. -/
theorem ReadsFrom.arAddrs_eq (h : ReadsFrom N src mem bs) (k : Nat) (a : BitVec 32)
    (ha : (arAddrs N src bs)[k]? = some a) : a.toNat = burstAddress 32 3 src k := by
  have hidle : EachCycle (fun past i =>
      ¬ RamReader.IdleLast ((RamReader.core readerParams).run past) i)
      (RamReader.coreHistory (readerIns N bs)) := by
    refine (eachCycle_readerCore N _ bs).mpr ?_
    rintro past b hp ⟨-, hv, hl⟩
    have hlow : b.rlast = false := (h past b hp).2 hv
    exact Bool.false_ne_true (hlow.symm.trans hl)
  have hchannel : RamReader.ArChannel (P := readerParams) src
      (RamReader.coreHistory (readerIns N bs)) :=
    RamReader.arChannel_of_no_idleLast src _ h.readSlave hidle
  exact hchannel.address k a ha

/-- The words taken on R are the words at `src`, in order. -/
theorem ReadsFrom.rWords_eq (h : ReadsFrom N src mem bs) :
    RamReader.rWords (readerIns N bs)
      = (List.range (rBeats N bs)).map fun k => mem (src + BitVec.ofNat 32 (8 * k)) := by
  induction bs using List.reverseRecOn with
  | nil => rfl
  | append_singleton bs b ih =>
    have hinit : ReadsFrom N src mem bs := ((eachCycle_snoc _ _ _).mp h).1
    have hbeats : rBeats N (bs ++ [b]) = rBeats N bs
        + (RamReader.wren (after N bs).reader (readerIn (after N bs) b)).toNat := by
      rw [rBeats, readerIns_snoc, RamReader.beatsTaken, count_snoc, ← after_reader]
      rfl
    rw [readerIns_snoc, RamReader.rWords, log_snoc, ← RamReader.rWords, ih hinit, hbeats,
      ← after_reader]
    cases hw : RamReader.wren (after N bs).reader (readerIn (after N bs) b) with
    | false => simp
    | true =>
      have hv : b.rvalid = true := by
        rw [RamReader.wren, Bool.and_eq_true] at hw
        exact hw.2
      have hdata := ((h bs b (List.prefix_refl _)).1 hv).1
      -- the memory answers the beat with the word of its address, which the addresses on AR give
      rw [beatAddr_eq h.arAddrs_eq (h.beat_lt (List.prefix_refl _) hv), Option.map_some] at hdata
      rw [if_pos rfl, Bool.toNat_true, List.range_succ, List.map_append, List.map_singleton,
        Option.some.inj hdata]
      rfl

end Read

/-! ### The words written -/

/-- The reader's words are the words it read, and those it still holds. -/
theorem mAxisWords_isPrefix {is : List (RamReader.In readerParams)} (h : RamReader.BurstSlave is) :
    RamReader.mAxisWords is <+: (RamReader.rWords is).map some := by
  have hroomy : EachPoint RamReader.Roomy is :=
    eachPoint_of_step RamReader.roomy_nil (fun past i hr hi => hr.snoc i hi) is h
  have hconserved : EachPoint (fun past => RamReader.mAxisWords past
      ++ (RamReader.after past).fifo.words.map RamReader.showWord
        = (RamReader.rWords past).map RamReader.onMAxis) is := by
    refine eachPoint_of_step ?_ (fun past i hc hw => RamReader.conserved_snoc past i hw hc) is
      (fun past i hp _ => (hroomy.before hp).notFull)
    rfl
  -- words as wide as the bus are not cut
  have hsame : (RamReader.rWords is).map RamReader.onMAxis = (RamReader.rWords is).map some :=
    List.map_congr_left fun w _ => congrArg some (BitVec.setWidth_eq w)
  rw [← hsame, ← hconserved.last]
  exact List.prefix_append _ _

/-- While the writer is not short of words, what it writes is what it accepted. -/
theorem wBeats_append {is : List (RamWriter.In writerParams)} (hu : ¬ RamWriter.Underrun is) :
    RamWriter.wBeats is ++ (RamWriter.after is).fifo.words.map RamWriter.showWord
      = (RamWriter.accepted is).map some := by
  rw [(RamWriter.streamIntegrity_of_not_underrun is hu).conserved.last]
  exact List.map_congr_left fun w _ => congrArg some (BitVec.setWidth_eq w)

/-- Every beat is in a burst that is complete or under way. -/
theorem wHandshakes_eq (is : List RamWriter.CoreIn) :
    RamWriter.wHandshakes writerParams is = 16 * RamWriter.burstsDone writerParams is
      + RamWriter.beat ((RamWriter.core writerParams).run is) := by
  -- a burst is 16 beats, so the beat within it is what the finished ones leave
  induction is using List.reverseRecOn with
  | nil => rfl
  | append_singleton is i ih =>
    have hbeat : RamWriter.beat ((RamWriter.core writerParams).run (is ++ [i]))
        = if RamWriter.intRdenWire ((RamWriter.core writerParams).run is) i
          then (RamWriter.beat ((RamWriter.core writerParams).run is) + 1) % 16
          else RamWriter.beat ((RamWriter.core writerParams).run is) := by
      rw [Machine.run_snoc]
      exact RamWriter.next_beat _ i
    have hlast := RamWriter.intWlastWire_iff ((RamWriter.core writerParams).run is)
    have hlt := RamWriter.beat_lt ((RamWriter.core writerParams).run is)
    rw [RamWriter.wHandshakes_snoc, RamWriter.burstsDone, count_snoc, ← RamWriter.burstsDone,
      RamWriter.lastBeat, hbeat, ih]
    cases RamWriter.intRdenWire ((RamWriter.core writerParams).run is) i with
    | false => simp
    | true =>
      cases hl : RamWriter.intWlastWire ((RamWriter.core writerParams).run is) with
      | false =>
        -- inside a burst the beat counts up, and behind `WLAST` it starts over
        have hne : RamWriter.beat ((RamWriter.core writerParams).run is) ≠ 15 :=
          fun h15 => Bool.false_ne_true (hl.symm.trans (hlast.mpr h15))
        rw [if_pos rfl, Nat.mod_eq_of_lt (by omega)]
        simp only [Bool.true_and, Bool.toNat_false, Bool.toNat_true]
        omega
      | true =>
        rw [if_pos rfl, hlast.mp hl]
        simp only [Bool.true_and, Bool.toNat_true]
        omega

/-- The beats on W, counted from the registers alone or from the words they carry. -/
theorem wBeats_length (is : List (RamWriter.In writerParams)) :
    (RamWriter.wBeats is).length = RamWriter.wHandshakes writerParams (RamWriter.coreHistory is) := by
  induction is using List.reverseRecOn with
  | nil => rfl
  | append_singleton is i ih =>
    have hcore : RamWriter.coreHistory (is ++ [i])
        = RamWriter.coreHistory is ++ [RamWriter.coreIn (RamWriter.after is) i] :=
      log_snoc _ is i
    rw [hcore, RamWriter.wHandshakes_snoc, ← ih, ← RamWriter.after_regs,
      RamWriter.length_wBeats_snoc]
    rfl

section Write

variable {N dst} {bs : List Bus}

/-- A memory that takes addresses first keeps the invariant of the write address channel, so
    the addresses on AW are those of the bursts. -/
theorem AddressFirst.awInv (h : AddressFirst N bs) :
    RamWriter.AwInv (P := writerParams) dst (RamWriter.coreHistory (writerIns N bs)) := by
  have hearly : EachCycle (fun past i =>
      ¬ RamWriter.EarlyBeat ((RamWriter.core writerParams).run past) i)
      (RamWriter.coreHistory (writerIns N bs)) := by
    refine (eachCycle_writerCore N _ bs).mpr ?_
    intro past b hp
    rw [← RamWriter.after_regs, ← after_writer]
    exact h past b hp
  exact (eachPoint_of_step (RamWriter.awInv_nil dst) (fun past i hi hc => hi.snoc i hc) _ hearly).last

/-- Beat `k` of a run goes to word `k` at `dst`. -/
theorem AddressFirst.beatAddr_eq (h : AddressFirst N bs) {k : Nat}
    (hk : k < (RamWriter.wBeats (writerIns N bs)).length) :
    beatAddr (awAddrs N dst bs) k = some (dst + BitVec.ofNat 32 (8 * k)) := by
  have hinv : RamWriter.AwInv (P := writerParams) dst (RamWriter.coreHistory (writerIns N bs)) :=
    h.awInv
  refine Copy.beatAddr_eq hinv.address ?_
  have hbursts := hinv.bursts
  have halign := RamWriter.core_aligned (P := writerParams) (RamWriter.coreHistory (writerIns N bs))
  have hlt := RamWriter.beat_lt ((RamWriter.core writerParams).run
    (RamWriter.coreHistory (writerIns N bs)))
  rw [wBeats_length, wHandshakes_eq] at hk
  rw [RamWriter.burstsBegun] at hbursts
  show k / 16 < (RamWriter.awAddresses _ _).length
  -- an address that waits has its burst in front of it
  cases ha : ((RamWriter.core writerParams).run
      (RamWriter.coreHistory (writerIns N bs))).intAwvalidReg with
  | true =>
    obtain ⟨hv, hbeat⟩ := hinv.waiting ha
    rw [ha, hv] at hbursts
    simp only [Bool.toNat_true] at hbursts
    omega
  | false =>
    rw [ha, Bool.toNat_false] at hbursts
    cases hv : ((RamWriter.core writerParams).run
        (RamWriter.coreHistory (writerIns N bs))).intWvalidReg with
    | false =>
      have hbeat := halign hv
      rw [hv, Bool.toNat_false] at hbursts
      omega
    | true =>
      rw [hv, Bool.toNat_true] at hbursts
      omega

end Write

section Copied

variable {N src dst mem} {bs : List Bus}

/-- The words written are the words read, in order. -/
theorem wBeats_eq (hread : ReadsFrom N src mem bs) (hu : ¬ RamWriter.Underrun (writerIns N bs)) :
    RamWriter.wBeats (writerIns N bs) = (List.range (RamWriter.wBeats (writerIns N bs)).length).map
      fun k => some (mem (src + BitVec.ofNat 32 (8 * k))) := by
  have hprefix : RamWriter.wBeats (writerIns N bs)
      <+: (RamReader.rWords (readerIns N bs)).map some := by
    refine List.IsPrefix.trans ?_ (mAxisWords_isPrefix hread.burstSlave)
    rw [← accepted_eq, ← wBeats_append hu]
    exact List.prefix_append _ _
  have hlen := hprefix.length_le
  rw [hread.rWords_eq, List.map_map, List.length_map, List.length_range] at hlen
  rw [hread.rWords_eq, List.map_map] at hprefix
  rw [List.prefix_iff_eq_take.mp hprefix]
  rw [← List.map_take, List.take_range, Nat.min_eq_left hlen, List.length_map, List.length_range]
  rfl

/-- As long as the writer does not run dry, the words written are the first words at `src`,
    each at its place behind `dst`. -/
theorem copied_of_not_underrun (hread : ReadsFrom N src mem bs) (hfirst : AddressFirst N bs)
    (hu : ¬ RamWriter.Underrun (writerIns N bs)) :
    written N dst bs = copyOf src dst mem (written N dst bs).length := by
  have hlen : (written N dst bs).length = (RamWriter.wBeats (writerIns N bs)).length :=
    List.length_mapIdx
  apply List.ext_getElem
  · simp [copyOf]
  · intro k hk _
    rw [hlen] at hk
    -- the beat carries the word of its place in the packet, and goes to the address of its place
    have hword : (RamWriter.wBeats (writerIns N bs))[k]
        = some (mem (src + BitVec.ofNat 32 (8 * k))) := by
      have hget := List.getElem_of_eq (wBeats_eq hread hu) hk
      rw [hget, List.getElem_map, List.getElem_range]
    simp only [written, copyOf, List.getElem_mapIdx, List.getElem_map, List.getElem_range]
    rw [hfirst.beatAddr_eq hk, hword]

/-- No more than a packet is written, since no more is accepted. -/
theorem written_length_le (hN : 2 ≤ N.toNat) (hu : ¬ RamWriter.Underrun (writerIns N bs)) :
    (written N dst bs).length ≤ N.toNat := by
  have hlen := congrArg List.length (wBeats_append hu)
  have hle := accepted_length_le N hN bs
  rw [List.length_append, List.length_map, List.length_map] at hlen
  rw [written, List.length_mapIdx]
  omega

/-- A writer that runs dry writes a word that is none. -/
theorem none_mem_wBeats {is : List (RamWriter.In writerParams)} (h : RamWriter.Underrun is) :
    none ∈ RamWriter.wBeats is := by
  obtain ⟨past, i, mid, j, hpre, hrestart, hquiet, hcount, hready⟩ := h
  obtain ⟨hv, hbeat, hshort⟩ :=
    RamWriter.short_burst_runs past i hrestart mid hquiet (Nat.le_of_eq hcount)
  have hrd : RamWriter.rden (RamWriter.after (past ++ [i] ++ mid)) j = true := by
    rw [RamWriter.rden_eq, hv, hready]
    rfl
  -- the 16th beat of a short burst finds the FIFO empty, so it shows no word
  have hempty : (RamWriter.after (past ++ [i] ++ mid)).fifo.words = [] := by
    have h15 := hshort.occupancy
    rw [hbeat, hcount] at h15
    exact List.eq_nil_of_length_eq_zero (by rw [Fifo.occupancy] at h15; omega)
  have hnone : RamWriter.mAxiWdata (RamWriter.after (past ++ [i] ++ mid)) = none := by
    rw [RamWriter.mAxiWdata, Fifo.dout, hempty]
    rfl
  have hlast : none ∈ RamWriter.wBeats (past ++ [i] ++ mid ++ [j]) := by
    rw [RamWriter.wBeats, log_snoc, if_pos hrd, hnone]
    exact List.mem_append_right _ (List.mem_singleton.mpr rfl)
  exact (log_isPrefix _ hpre).subset hlast

/-- Once the writer has run dry, a word that is none is among the words written, so they are
    no copy of any length. -/
theorem not_copied_of_underrun (h : RamWriter.Underrun (writerIns N bs)) (n : Nat) :
    written N dst bs ≠ copyOf src dst mem n := by
  intro heq
  have hdata : (written N dst bs).map Prod.snd = RamWriter.wBeats (writerIns N bs) := by
    apply List.ext_getElem
    · simp [written]
    · intro k _ _
      simp [written]
  have hmem := none_mem_wBeats h
  rw [← hdata, heq, copyOf, List.map_map, List.mem_map] at hmem
  obtain ⟨k, -, hk⟩ := hmem
  exact absurd hk (by simp)

/-- **The design copies, exactly.** With a memory that answers its reads, keeps `rlast` low
    outside its data and takes addresses first: whatever its timing, the words written are the
    words at `src`, in order, written at `dst`, and no more than a packet of them, if and only
    if the writer does not run dry in a burst that it restarted short. -/
theorem copies_iff (hN : 2 ≤ N.toNat) (hread : ReadsFrom N src mem bs) (hfirst : AddressFirst N bs) :
    (∃ n ≤ N.toNat, written N dst bs = copyOf src dst mem n)
      ↔ ¬ RamWriter.Underrun (writerIns N bs) := by
  constructor
  · rintro ⟨n, -, hn⟩ hu
    exact not_copied_of_underrun hu n hn
  · intro hu
    exact ⟨_, written_length_le hN hu, copied_of_not_underrun hread hfirst hu⟩

end Copied

end Memory

/-! ### A packet of one burst -/

/-- The beat of R in cycle `t`: two bursts, of which the second one stays in the reader. -/
def rBeatAt (t : Nat) : Option Nat :=
  if 2 ≤ t ∧ t ≤ 17 then some (t - 2) else if 19 ≤ t ∧ t ≤ 34 then some (t - 3) else none

/-- Cycle `t` of a memory whose words are their own addresses, and which takes what it is given
    at once. -/
def cycleAt (t : Nat) : Bus where
  arready := t == 1 || t == 18
  rdata := BitVec.ofNat 64 ((rBeatAt t).elim 0 fun k => 0x1E000000 + 8 * k)
  rlast := t == 17 || t == 34
  rvalid := (rBeatAt t).isSome
  awready := true
  wready := true

def oneBurstRun : List Bus := (List.range 38).map cycleAt

/-- The words that are their own addresses. -/
def ownAddress (a : BitVec 32) : BitVec 64 := a.setWidth 64

/-- The memory of this run answers the two bursts it is asked for with its words. -/
theorem readsFrom_oneBurstRun : ReadsFrom 16 0x1E000000 ownAddress oneBurstRun := by
  unfold ReadsFrom
  decide +kernel

/-- It takes every address in the cycle in which it is shown, so before the first beat. -/
theorem addressFirst_oneBurstRun : AddressFirst 16 oneBurstRun := by
  unfold AddressFirst RamWriter.EarlyBeat
  decide +kernel

/-- The 16 words arrive: no beat on W is without a word, so there is no underrun. -/
theorem copies_iff_oneBurstRun :
    written 16 0x1F000000 oneBurstRun = copyOf 0x1E000000 0x1F000000 ownAddress 16 := by
  have hu : ¬ RamWriter.Underrun (writerIns 16 oneBurstRun) :=
    fun h => absurd (none_mem_wBeats h) (by decide +kernel)
  obtain ⟨n, -, hn⟩ :=
    (copies_iff (by decide) readsFrom_oneBurstRun addressFirst_oneBurstRun).mpr hu
  have hlen : (RamWriter.wBeats (writerIns 16 oneBurstRun)).length = 16 := by decide +kernel
  have hcount : (written 16 0x1F000000 oneBurstRun).length = n := by
    rw [hn, copyOf, List.length_map, List.length_range]
  rw [written, List.length_mapIdx, hlen] at hcount
  rw [hn, ← hcount]

end ZynqLinux.Axi4.Copy
