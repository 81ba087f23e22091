import Mathlib.Tactic.Common
import ZynqLinux.Axi4.RamWriter

namespace ZynqLinux.Axi4.RamWriter

open ZynqLinux.Lib

/-!
# `axis_ram_writer` — what happens to the stream

A burst of 16 beats is started on the almost-empty flag, which the next-state logic
samples in two situations: while idle, and in the very cycle that takes the last beat of
the burst before.  In the second one the flag still counts the word that is leaving, so
16 words in the FIFO start a burst of which only 15 are left.

* `StreamIntegrity` is what the IP is for: no misuse of the FIFO, and the words that
  leave on W are the words that came in on S_AXIS;
* `Underrun` is the one way it is lost: a burst restarted on 16 words, with no word
  arriving before the memory asks for its 16th beat;
* `streamIntegrity_iff` says that these two are exact opposites.
-/

variable {P : Params}

/-! ### The words that come in and go out -/

/-- The words accepted on S_AXIS. -/
def accepted (is : List (In P)) : List (BitVec P.axisTdataWidth) :=
  log (fun past i => if wren (after past) i then [i.sAxisTdata] else []) is

/-- What `m_axi_wdata` shows at each W handshake. -/
def wBeats (is : List (In P)) : List (Option (BitVec P.axiDataWidth)) :=
  log (fun past i =>
    if rden (after past) i then [mAxiWdata (after past)] else []) is

/-- What the W handshake of an accepted word has to show: the word, on the W bus. -/
def onWBus (w : BitVec P.axisTdataWidth) : Option (BitVec P.axiDataWidth) :=
  some (w.setWidth P.axiDataWidth)

/-- How the W bus shows a word of the FIFO. -/
def showWord (w : BitVec 72) : Option (BitVec P.axiDataWidth) := some (w.setWidth P.axiDataWidth)

/-- The purpose of the IP, over a run from reset. -/
structure StreamIntegrity (is : List (In P)) : Prop where
  /-- The read enable is never high on an empty FIFO. -/
  read_nonempty : EachCycle (fun past i =>
    rden (after past) i = true → 0 < (after past).fifo.occupancy) is
  /-- The write enable is never high on a full FIFO. -/
  write_notFull : EachCycle (fun past i =>
    wren (after past) i = true →
      (after past).fifo.occupancy < 512) is
  /-- The `k`-th W handshake shows the `k`-th accepted word. -/
  beat_eq : ∀ (k : Nat) v, (wBeats is)[k]? = some v → ∃ w, (accepted is)[k]? = some w ∧ v = onWBus w
  /-- Nothing is lost: what is not delivered yet is in the FIFO. -/
  conserved : EachPoint (fun past =>
    wBeats past ++ (after past).fifo.words.map showWord = (accepted past).map onWBus) is

/-- The last beat of a burst is taken with exactly 16 words in the FIFO and no word on
    S_AXIS: the next burst starts at once, on the 15 words that are left. -/
def ShortRestart (s : State P) (i : In P) : Prop :=
  lastBeat s.regs (coreIn s i) = true ∧ s.fifo.occupancy = 16 ∧ i.sAxisTvalid = false

/-- Some burst restarted short sees no word on S_AXIS until the memory has taken 15 beats
    and asks for the 16th. -/
def Underrun (is : List (In P)) : Prop :=
  ∃ past i mid j, past ++ [i] ++ mid ++ [j] <+: is ∧
    ShortRestart (after past) i ∧ (∀ m ∈ mid, m.sAxisTvalid = false) ∧
    mid.countP (·.mAxiWready) = 15 ∧ j.mAxiWready = true

/-- An underrun stays in the run, whatever follows it. -/
theorem Underrun.mono {is js : List (In P)} (h : Underrun is) (hp : is <+: js) : Underrun js := by
  obtain ⟨past, i, mid, j, hpre, hrest⟩ := h
  exact ⟨past, i, mid, j, hpre.trans hp, hrest⟩

/-- The cycles in which the memory asks for a beat, counted one by one. -/
theorem countP_ready_snoc (is : List (In P)) (i : In P) :
    (is ++ [i]).countP (·.mAxiWready) = is.countP (·.mAxiWready) + i.mAxiWready.toNat := by
  cases hr : i.mAxiWready <;> simp [hr]

/-! ### One clock edge -/

/-- A word is accepted only where the FIFO has room, since the ready output is gated with the
    full flag. -/
theorem wren_notFull (s : State P) (i : In P) (h : wren s i = true) : s.fifo.full = false := by
  simp only [wren, intTreadyWire, Bool.and_eq_true, Bool.not_eq_true'] at h
  exact h.1

/-- With a word on offer and room for it, a word is accepted. -/
theorem wren_eq (s : State P) (i : In P) (h : s.fifo.occupancy < 512) :
    wren s i = i.sAxisTvalid := by
  rw [wren, intTreadyWire, (Fifo.full_eq_false _).mpr h]
  rfl

/-- A beat is taken in every cycle in which the memory asks for one while a burst is offered. -/
theorem rden_eq (s : State P) (i : In P) :
    rden s i = (i.mAxiWready && s.regs.intWvalidReg) := rfl

/-- The occupancy after a clock edge that reads no empty FIFO. -/
theorem step_occupancy (s : State P) (i : In P) (h : rden s i = true → 0 < s.fifo.occupancy) :
    (step s i).fifo.occupancy + (rden s i).toNat = s.fifo.occupancy + (wren s i).toNat :=
  s.fifo.clock_occupancy _ _ _ (wren_notFull s i) h

/-- The position inside the burst over one cycle of the IP. -/
theorem step_beat (s : State P) (i : In P) :
    beat (step s i).regs = if rden s i then (beat s.regs + 1) % 16 else beat s.regs :=
  next_beat s.regs (coreIn s i)

/-- ALMOSTEMPTY with the offset `13'hf` is high up to 15 words, so it is low exactly if a
    whole burst is there. -/
theorem almostEmpty_iff (s : State P) (i : In P) :
    (coreIn s i).intEmptyWire = true ↔ s.fifo.occupancy ≤ 15 := by
  simp [coreIn, Fifo.almostEmpty]

/-- A burst goes on until its 16th beat, and past it only on 16 words or more. -/
theorem step_wvalid_of_wvalid (s : State P) (i : In P) (hv : s.regs.intWvalidReg = true) :
    (step s i).regs.intWvalidReg = true ↔
      (i.mAxiWready = true → beat s.regs = 15 → 16 ≤ s.fifo.occupancy) := by
  show (next s.regs (coreIn s i)).intWvalidReg = true ↔ _
  have hempty := almostEmpty_iff s i
  have hlast := intWlastWire_iff s.regs
  have hready : (coreIn s i).mAxiWready = i.mAxiWready := rfl
  rw [next_intWvalidReg, hv, hready]
  cases hr : i.mAxiWready <;> cases he : (coreIn s i).intEmptyWire <;>
    cases hl : intWlastWire s.regs <;> simp [he, hl] at hempty hlast ⊢ <;> omega

/-- A burst starts from idle only on 16 words or more. -/
theorem occupancy_of_start (s : State P) (i : In P) (hv : s.regs.intWvalidReg = false)
    (h : (step s i).regs.intWvalidReg = true) : 16 ≤ s.fifo.occupancy := by
  replace h : (next s.regs (coreIn s i)).intWvalidReg = true := h
  have hempty := almostEmpty_iff s i
  rw [next_intWvalidReg, hv] at h
  cases he : (coreIn s i).intEmptyWire
  · simp only [he, Bool.false_eq_true, false_iff, Nat.not_le] at hempty
    omega
  · simp [he] at h

/-! ### From no underrun to integrity -/

/-- The run ends inside a burst that was restarted short and has had no word since. -/
def ShortBurst (is : List (In P)) : Prop :=
  ∃ past i mid, is = past ++ [i] ++ mid ∧ ShortRestart (after past) i ∧
    (∀ m ∈ mid, m.sAxisTvalid = false) ∧
    mid.countP (·.mAxiWready) = beat (after is).regs ∧
    (after is).fifo.occupancy + beat (after is).regs = 15

/-- Such a burst has one word less than it needs, at each of its beats. -/
theorem ShortBurst.occupancy {is : List (In P)} (h : ShortBurst is) :
    (after is).fifo.occupancy + beat (after is).regs = 15 := by
  obtain ⟨past, i, mid, -, -, -, -, hocc⟩ := h
  exact hocc

/-- **The occupancy invariant.** Inside a burst the FIFO holds the rest of it, or lacks
    one word of it because the burst was restarted short. -/
def Supplied (is : List (In P)) : Prop :=
  (after is).regs.intWvalidReg = true →
    16 ≤ (after is).fifo.occupancy + beat (after is).regs ∨
      ShortBurst is

/-- While the run is supplied and the next cycle completes no underrun, a beat finds a word. -/
theorem occupancy_pos_of_rden {is : List (In P)} {i : In P} (hs : Supplied is)
    (hu : ¬ Underrun (is ++ [i])) (hr : rden (after is) i = true) :
    0 < (after is).fifo.occupancy := by
  rw [rden_eq, Bool.and_eq_true] at hr
  have hb := beat_lt (after is).regs
  rcases hs hr.2 with hfull | ⟨past, j, mid, his, hrestart, hquiet, hcount, hocc⟩
  · omega
  · -- with 15 beats taken and none to come, this cycle would complete an underrun
    by_contra hzero
    apply hu
    exact ⟨past, j, mid, i, his ▸ List.prefix_refl _, hrestart, hquiet, by omega, hr.1⟩

/-- Inside a burst and before its 16th beat, a clock edge moves the beat count by one when
    the memory is ready. -/
theorem step_beat_of_lt (s : State P) (i : In P) (hv : s.regs.intWvalidReg = true)
    (hbeat : i.mAxiWready = true → beat s.regs < 15) :
    beat (step s i).regs = beat s.regs + i.mAxiWready.toNat := by
  rw [step_beat, rden_eq, hv, Bool.and_true]
  cases hr : i.mAxiWready with
  | false => rfl
  | true =>
    have hlt := hbeat hr
    rw [if_pos rfl, Bool.toNat_true]
    omega

/-- A short burst that gets no word stays short until its 16th beat. -/
theorem ShortBurst.snoc {is : List (In P)} {i : In P} (h : ShortBurst is)
    (hv : (after is).regs.intWvalidReg = true) (hi : i.sAxisTvalid = false)
    (hbeat : i.mAxiWready = true → beat (after is).regs < 15) : ShortBurst (is ++ [i]) := by
  obtain ⟨past, j, mid, his, hrestart, hquiet, hcount, hocc⟩ := h
  have hrd : rden (after is) i = i.mAxiWready := by rw [rden_eq, hv, Bool.and_true]
  have hpos : rden (after is) i = true → 0 < (after is).fifo.occupancy := by
    intro hr
    have hlt := hbeat (hrd ▸ hr)
    omega
  have hwr : wren (after is) i = false := by rw [wren_eq _ _ (by omega), hi]
  -- no word comes in, so each beat takes one off the 15 of the restart
  have hocc' := step_occupancy (after is) i hpos
  have hbeat' := step_beat_of_lt (after is) i hv hbeat
  rw [hrd, hwr, Bool.toNat_false] at hocc'
  refine ⟨past, j, mid ++ [i], by rw [his, List.append_assoc (past ++ [j])], hrestart, ?_, ?_, ?_⟩
  · intro m hm
    rcases List.mem_append.mp hm with hm | hm
    · exact hquiet m hm
    · rw [List.mem_singleton.mp hm]; exact hi
  · rw [after_snoc, hbeat', countP_ready_snoc, hcount]
  · rw [after_snoc]
    omega

/-- A burst that is restarted short begins with 15 words. -/
theorem ShortRestart.shortBurst {is : List (In P)} {i : In P} (h : ShortRestart (after is) i) :
    (after (is ++ [i])).regs.intWvalidReg = true ∧ beat (after (is ++ [i])).regs = 0 ∧
      ShortBurst (is ++ [i]) := by
  have ⟨hlast, hocc, hquiet⟩ := h
  rw [lastBeat, Bool.and_eq_true, intWlastWire_iff] at hlast
  have hrd : rden (after is) i = true := hlast.1
  have hv : i.mAxiWready = true ∧ (after is).regs.intWvalidReg = true := by
    rwa [rden_eq, Bool.and_eq_true] at hrd
  have hbeat : beat (step (after is) i).regs = 0 := by
    rw [step_beat, hrd, if_pos rfl, hlast.2]
  have hocc' := step_occupancy (after is) i (by omega)
  rw [hrd, wren_eq _ _ (by omega), hquiet, hocc] at hocc'
  rw [after_snoc]
  refine ⟨(step_wvalid_of_wvalid _ i hv.2).mpr (by omega), hbeat, is, i, [], by simp, h,
    by simp, ?_, ?_⟩
  · rw [after_snoc, hbeat]
    rfl
  · rw [after_snoc, hbeat]
    simpa using hocc'

/-- The last beat of a burst that goes on: the next one has its 16 words, or it is restarted
    short because the flag saw the word that this beat takes. -/
theorem supplied_of_last {is : List (In P)} {i : In P}
    (hv : (after is).regs.intWvalidReg = true) (hr : i.mAxiWready = true)
    (h15 : beat (after is).regs = 15) (h16 : 16 ≤ (after is).fifo.occupancy) :
    16 ≤ (after (is ++ [i])).fifo.occupancy ∨ ShortRestart (after is) i := by
  have hrd : rden (after is) i = true := by rw [rden_eq, hr, hv, Bool.and_self]
  have hocc := step_occupancy (after is) i (by omega)
  rw [hrd, Bool.toNat_true, ← after_snoc] at hocc
  by_cases hfew : 16 ≤ (after (is ++ [i])).fifo.occupancy
  · exact Or.inl hfew
  · -- fewer than 16 behind a last beat that found 16: no word came in with it
    have hw : wren (after is) i = false := by
      cases hw : wren (after is) i with
      | false => rfl
      | true => rw [hw, Bool.toNat_true] at hocc; omega
    rw [hw, Bool.toNat_false] at hocc
    have hl : lastBeat (after is).regs (coreIn (after is) i) = true := by
      rw [lastBeat, Bool.and_eq_true]
      exact ⟨hrd, (intWlastWire_iff _).mpr h15⟩
    exact Or.inr ⟨hl, by omega, by rw [← wren_eq (after is) i (by omega), hw]⟩

/-- The occupancy invariant is kept by a cycle that completes no underrun. -/
theorem Supplied.snoc {is : List (In P)} {i : In P} (hs : Supplied is)
    (hu : ¬ Underrun (is ++ [i])) : Supplied (is ++ [i]) := by
  have hocc := step_occupancy (after is) i (occupancy_pos_of_rden hs hu)
  intro hv'
  rw [after_snoc] at hv' ⊢
  cases hv : (after is).regs.intWvalidReg with
  | false =>
    -- the burst starts from idle: nothing is read, and 16 words are there
    have hstart := occupancy_of_start _ i hv hv'
    have hrd : rden (after is) i = false := by rw [rden_eq, hv, Bool.and_false]
    rw [hrd, Bool.toNat_false] at hocc
    left
    omega
  | true =>
    have hrd : rden (after is) i = i.mAxiWready := by rw [rden_eq, hv, Bool.and_true]
    rw [hrd] at hocc
    by_cases hlast : i.mAxiWready = true ∧ beat (after is).regs = 15
    · -- the last beat: the next burst has one word less than the flag saw
      have h16 := (step_wvalid_of_wvalid _ i hv).mp hv' hlast.1 hlast.2
      rcases supplied_of_last hv hlast.1 hlast.2 h16 with hfull | hshort
      · rw [after_snoc] at hfull
        left
        omega
      · exact Or.inr hshort.shortBurst.2.2
    · -- inside the burst: the rest of it shrinks with the beats that are taken
      have hbeat : i.mAxiWready = true → beat (after is).regs < 15 := by
        intro hr
        have hlt := beat_lt (after is).regs
        have hne : beat (after is).regs ≠ 15 := fun h => hlast ⟨hr, h⟩
        omega
      have hbeat' := step_beat_of_lt _ i hv hbeat
      rcases hs hv with hfull | hshort
      · left; omega
      · have h15 := hshort.occupancy
        cases hw : wren (after is) i with
        | true =>
          rw [hw, Bool.toNat_true] at hocc
          left; omega
        | false =>
          have hi : i.sAxisTvalid = false := by rw [← wren_eq (after is) i (by omega), hw]
          right
          exact hshort.snoc hv hi hbeat

/-- A run without underrun is supplied at every point. -/
theorem supplied_of_not_underrun (is : List (In P)) (h : ¬ Underrun is) : Supplied is := by
  induction is using List.reverseRecOn with
  | nil => intro hv; exact absurd hv Bool.false_ne_true
  | append_singleton is i ih =>
    have hinit : ¬ Underrun is := fun hu => h (hu.mono (List.prefix_append is [i]))
    exact (ih hinit).snoc h

/-- The words a clock edge reads are what `m_axi_wdata` shows. -/
theorem read_showWord (s : State P) (i : In P) (h : rden s i = true → 0 < s.fifo.occupancy) :
    (s.fifo.read (rden s i)).map showWord = if rden s i then [mAxiWdata s] else [] := by
  cases hr : rden s i with
  | false => rfl
  | true =>
    have hread := congrArg (List.map (Option.map (BitVec.setWidth P.axiDataWidth)))
      (s.fifo.read_of_pos (h hr))
    simpa [mAxiWdata, showWord] using hread

/-- Conservation over one cycle that reads no empty FIFO. -/
theorem conserved_snoc (is : List (In P)) (i : In P)
    (h : rden (after is) i = true → 0 < (after is).fifo.occupancy)
    (hc : wBeats is ++ (after is).fifo.words.map showWord = (accepted is).map onWBus) :
    wBeats (is ++ [i]) ++ (after (is ++ [i])).fifo.words.map showWord
      = (accepted (is ++ [i])).map onWBus := by
  have hword : showWord (i.sAxisTdata.setWidth 72) = onWBus i.sAxisTdata := by
    rw [showWord, onWBus, BitVec.setWidth_setWidth_of_le _ P.axiDataWidth_le]
  have hlaw := (after is).fifo.clock_conserved hc (rden (after is) i) hword
    (wren_notFull (after is) i)
  rw [read_showWord _ i h] at hlaw
  rw [wBeats, accepted, log_snoc, log_snoc, after_snoc]
  exact hlaw

/-- What is delivered is an initial part of what was accepted. -/
theorem getElem?_wBeats {is : List (In P)}
    (hc : wBeats is ++ (after is).fifo.words.map showWord = (accepted is).map onWBus) (k : Nat)
    (v : Option (BitVec P.axiDataWidth)) (hv : (wBeats is)[k]? = some v) :
    ∃ w, (accepted is)[k]? = some w ∧ v = onWBus w := by
  have hk : k < (wBeats is).length := (List.getElem?_eq_some_iff.mp hv).1
  have hmap : ((accepted is).map onWBus)[k]? = some v := by
    rw [← hc, List.getElem?_append_left hk, hv]
  rw [List.getElem?_map, Option.map_eq_some_iff] at hmap
  obtain ⟨w, hw, hwv⟩ := hmap
  exact ⟨w, hw, hwv.symm⟩

/-- Without an underrun nothing is read from an empty FIFO, so the words on W are the accepted
    ones, one for one. -/
theorem streamIntegrity_of_not_underrun (is : List (In P)) (h : ¬ Underrun is) :
    StreamIntegrity is := by
  -- no underrun so far, at every point of the run
  have hinit : EachPoint (fun past => ¬ Underrun past) is := fun past hp hu => h (hu.mono hp)
  -- so no beat reads an empty FIFO, and the words are conserved
  have hread : EachCycle (fun past i =>
      rden (after past) i = true → 0 < (after past).fifo.occupancy) is := by
    intro past i hp
    exact occupancy_pos_of_rden (supplied_of_not_underrun past (hinit.before hp)) (hinit _ hp)
  have hconserved : EachPoint (fun past =>
      wBeats past ++ (after past).fifo.words.map showWord = (accepted past).map onWBus) is := by
    refine eachPoint_of_step ?_ (fun past i hc hr => conserved_snoc past i hr hc) is hread
    rfl
  exact {
    read_nonempty := hread
    write_notFull := fun past i _ hw => (Fifo.full_eq_false _).mp (wren_notFull _ i hw)
    beat_eq := getElem?_wBeats hconserved.last
    conserved := hconserved }

/-! ### From an underrun to a read of an empty FIFO -/

/-- A burst restarted short that gets no word has, after `n ≤ 15` beats, `15 - n` words. -/
theorem short_burst_runs (past : List (In P)) (i : In P) (hi : ShortRestart (after past) i)
    (mid : List (In P)) (hquiet : ∀ m ∈ mid, m.sAxisTvalid = false)
    (hcount : mid.countP (·.mAxiWready) ≤ 15) :
    (after (past ++ [i] ++ mid)).regs.intWvalidReg = true ∧
      beat (after (past ++ [i] ++ mid)).regs = mid.countP (·.mAxiWready) ∧
      ShortBurst (past ++ [i] ++ mid) := by
  induction mid using List.reverseRecOn with
  | nil =>
    rw [List.append_nil]
    exact hi.shortBurst
  | append_singleton mid m ih =>
    rw [countP_ready_snoc] at hcount ⊢
    obtain ⟨hv, hbeat, hshort⟩ := ih (fun x hx => hquiet x (List.mem_append_left _ hx)) (by omega)
    -- before the 16th beat the burst goes on
    have hlt : m.mAxiWready = true → beat (after (past ++ [i] ++ mid)).regs < 15 := by
      intro hr
      rw [hr, Bool.toNat_true] at hcount
      omega
    rw [← List.append_assoc]
    refine ⟨?_, ?_, hshort.snoc hv (hquiet m (by simp)) hlt⟩
    · rw [after_snoc, step_wvalid_of_wvalid _ m hv]
      intro hr h15
      have := hlt hr
      omega
    · rw [after_snoc, step_beat_of_lt _ m hv hlt, hbeat]

/-- The beats on W grow by one in every cycle with a handshake. -/
theorem length_wBeats_snoc (is : List (In P)) (i : In P) :
    (wBeats (is ++ [i])).length = (wBeats is).length + (rden (after is) i).toNat := by
  rw [wBeats, log_snoc, ← wBeats, List.length_append]
  cases rden (after is) i <;> rfl

/-- Such a burst is taken as fast as the memory asks for it: the beat that restarted it, and
    one more in each cycle with `wready`. -/
theorem length_wBeats_short_burst (past : List (In P)) (i : In P)
    (hi : ShortRestart (after past) i) (mid : List (In P))
    (hquiet : ∀ m ∈ mid, m.sAxisTvalid = false) (hcount : mid.countP (·.mAxiWready) ≤ 15) :
    (wBeats (past ++ [i] ++ mid)).length
      = (wBeats past).length + 1 + mid.countP (·.mAxiWready) := by
  induction mid using List.reverseRecOn with
  | nil =>
    have hrd : rden (after past) i = true := (of_lastBeat hi.1).1
    rw [List.append_nil, length_wBeats_snoc, hrd]
    rfl
  | append_singleton mid m ih =>
    rw [countP_ready_snoc] at hcount ⊢
    have hquiet' : ∀ x ∈ mid, x.sAxisTvalid = false :=
      fun x hx => hquiet x (List.mem_append_left _ hx)
    obtain ⟨hv, -⟩ := short_burst_runs past i hi mid hquiet' (by omega)
    have hrd : rden (after (past ++ [i] ++ mid)) m = m.mAxiWready := by
      rw [rden_eq, hv, Bool.and_true]
    rw [← List.append_assoc, length_wBeats_snoc, ih hquiet' (by omega), hrd, Nat.add_assoc _ _ _]

/-- An underrun ends in a read of the empty FIFO. -/
theorem not_streamIntegrity_of_underrun {is : List (In P)} (h : Underrun is) :
    ¬ StreamIntegrity is := by
  obtain ⟨past, i, mid, j, hpre, hrestart, hquiet, hcount, hready⟩ := h
  intro hint
  obtain ⟨hv, hbeat, hshort⟩ :=
    short_burst_runs past i hrestart mid hquiet (Nat.le_of_eq hcount)
  have hrd : rden (after (past ++ [i] ++ mid)) j = true := by rw [rden_eq, hv, hready]; rfl
  have hpos := hint.read_nonempty _ j hpre hrd
  have h15 := hshort.occupancy
  omega

/-- **Stream integrity, exactly.** Over every run from reset the stream arrives intact if
    and only if no burst that was restarted short runs dry. -/
theorem streamIntegrity_iff (is : List (In P)) : StreamIntegrity is ↔ ¬ Underrun is := by
  constructor
  · exact fun hint hu => not_streamIntegrity_of_underrun hu hint
  · exact streamIntegrity_of_not_underrun is

/-- A cycle that offers a word to the IP of the `axi4` project while the memory waits. -/
def offer : In {} := ⟨true, 1, true, false⟩

/-- A cycle in which the memory takes a beat and no word is on offer. -/
def take : In {} := ⟨false, 0, true, true⟩

/-- 31 words come in, then the memory takes 32 beats: the second burst is started on the
    15 words that the first one leaves, and its 16th beat reads the empty FIFO. -/
theorem thirtyOne_words_underrun :
    ¬ StreamIntegrity (List.replicate 31 offer ++ List.replicate 32 take) := by
  apply not_streamIntegrity_of_underrun
  refine ⟨List.replicate 31 offer ++ List.replicate 15 take, take, List.replicate 15 take, take,
    ?_, ⟨?_, ?_, rfl⟩, ?_, rfl, rfl⟩
  · exact ⟨[], rfl⟩
  · decide +kernel
  · decide +kernel
  · intro m hm
    rw [List.eq_of_mem_replicate hm]
    rfl

end ZynqLinux.Axi4.RamWriter
