import Mathlib.Tactic.Common
import ZynqLinux.Axi4.RamWriter

namespace ZynqLinux.Axi4.RamWriter

open ZynqLinux.Lib

/-!
# `axis_ram_writer` — the write address channel

`m_axi_awaddr` is computed from `int_addr_reg`, the register that counts the beats of the
W channel.  The address of a burst is therefore only on the bus until the first beat of
the burst is taken, and the memory is free to take that beat first.

Everything here is about `core`, so it holds for every pattern of the almost-empty flag
and with it for every behaviour of the FIFO.

* `AwChannel` is what AXI and the memory layout ask of the channel;
* `EarlyBeat` is a beat of the W channel while the address of its burst is waiting;
* `awChannel_of_no_earlyBeat` and `no_earlyBeat_of_stable` are the two directions of
  the exact condition.
-/

variable {P : Params}

/-! ### What is asked of the channel -/

/-- The addresses handed over on the AW channel. -/
def awAddresses (cfgData : BitVec P.axiAddrWidth) (is : List CoreIn) :
    List (BitVec P.axiAddrWidth) :=
  log (fun past i =>
    if awHandshake ((core P).run past) i then [mAxiAwaddr cfgData ((core P).run past)] else []) is

/-- The bursts whose 16th beat has been taken. -/
def burstsDone (P : Params) (is : List CoreIn) : Nat :=
  count (fun past i => lastBeat ((core P).run past) i) is

/-- The bursts begun on W: the completed ones, and the one in progress. -/
def burstsBegun (P : Params) (is : List CoreIn) : Nat :=
  burstsDone P is + ((core P).run is).intWvalidReg.toNat

/-- The write address channel does its job over a run from reset. -/
structure AwChannel (cfgData : BitVec P.axiAddrWidth) (is : List CoreIn) : Prop where
  /-- An address that is not taken stays on the bus. -/
  stable : EachCycle (fun past i =>
    ((core P).run past).intAwvalidReg = true → i.mAxiAwready = false →
      ((core P).run (past ++ [i])).intAwvalidReg = true ∧
        mAxiAwaddr cfgData ((core P).run (past ++ [i])) = mAxiAwaddr cfgData ((core P).run past)) is
  /-- The `k`-th AW handshake carries the address of the `k`-th burst. -/
  address : ∀ (k : Nat) a, (awAddresses cfgData is)[k]? = some a →
    a.toNat = burstAddress P.addrWidth P.addrSize cfgData k
  /-- Every burst begun on W has its address taken or waiting, and no other. -/
  bursts : EachPoint (fun past =>
    (awAddresses cfgData past).length + ((core P).run past).intAwvalidReg.toNat
      = burstsBegun P past) is

/-- A beat is taken on W while an address waits on AW. -/
def EarlyBeat (r : Regs P) (i : CoreIn) : Prop :=
  r.intAwvalidReg = true ∧ i.mAxiAwready = false ∧ intRdenWire r i = true

/-! ### The invariant of a run without early beats -/

/-- What relates the three registers and the two channels. -/
structure AwInv (cfgData : BitVec P.axiAddrWidth) (is : List CoreIn) : Prop where
  /-- The address register counts the beats. -/
  addr : ((core P).run is).intAddrReg.toNat
    = (16 * burstsDone P is + beat ((core P).run is)) % 2 ^ P.addrWidth
  /-- An address waits only at the start of its burst. -/
  waiting : ((core P).run is).intAwvalidReg = true →
    ((core P).run is).intWvalidReg = true ∧ beat ((core P).run is) = 0
  bursts : (awAddresses cfgData is).length + ((core P).run is).intAwvalidReg.toNat
    = burstsBegun P is
  address : ∀ (k : Nat) a, (awAddresses cfgData is)[k]? = some a →
    a.toNat = burstAddress P.addrWidth P.addrSize cfgData k

/-- The count of the beats goes on as the address register does, whatever the slave does. -/
theorem addr_snoc {is : List CoreIn} (i : CoreIn)
    (h : ((core P).run is).intAddrReg.toNat
      = (16 * burstsDone P is + beat ((core P).run is)) % 2 ^ P.addrWidth) :
    ((core P).run (is ++ [i])).intAddrReg.toNat
      = (16 * burstsDone P (is ++ [i]) + beat ((core P).run (is ++ [i]))) % 2 ^ P.addrWidth := by
  rw [Machine.run_snoc, burstsDone, count_snoc, ← burstsDone]
  generalize (core P).run is = r at h ⊢
  show (next r i).intAddrReg.toNat = (_ + beat (next r i)) % _
  rw [next_beat, next_intAddrReg, lastBeat]
  cases hr : intRdenWire r i with
  | false => simpa using h
  | true =>
    have hlast := intWlastWire_iff r
    have hlt := beat_lt r
    rw [if_pos rfl, if_pos rfl, BitVec.toNat_add, toNat_one, h, Nat.mod_add_mod, Bool.true_and]
    congr 1
    -- the 16th beat closes a burst, any other one moves inside it
    cases hl : intWlastWire r with
    | false =>
      have hne : beat r ≠ 15 := fun h15 => by simp [hlast.mpr h15] at hl
      rw [Bool.toNat_false, Nat.mod_eq_of_lt (by omega)]
      omega
    | true =>
      rw [hlast.mp hl, Bool.toNat_true]
      omega

/-- One more cycle brings at most one more address. -/
theorem awAddresses_length_snoc (cfgData : BitVec P.axiAddrWidth) (is : List CoreIn) (i : CoreIn) :
    (awAddresses cfgData (is ++ [i])).length
      = (awAddresses cfgData is).length + (awHandshake ((core P).run is) i).toNat := by
  rw [awAddresses, log_snoc, List.length_append, ← awAddresses]
  cases awHandshake ((core P).run is) i <;> rfl

/-- An address is taken while its burst is the next one to be counted. -/
theorem AwInv.address_snoc {cfgData : BitVec P.axiAddrWidth} {is : List CoreIn}
    (h : AwInv cfgData is) (i : CoreIn) : ∀ (k : Nat) a,
    (awAddresses cfgData (is ++ [i]))[k]? = some a →
      a.toNat = burstAddress P.addrWidth P.addrSize cfgData k := by
  rw [awAddresses, log_snoc, ← awAddresses]
  cases hs : awHandshake ((core P).run is) i with
  | false => simpa using h.address
  | true =>
    have hv : ((core P).run is).intAwvalidReg = true := by
      rw [awHandshake, Bool.and_eq_true] at hs
      exact hs.1
    have hb := h.bursts
    have hw := h.waiting hv
    -- the index of the new handshake is the number of completed bursts
    rw [burstsBegun, hv, hw.1] at hb
    have hlen : (awAddresses cfgData is).length = burstsDone P is := by omega
    refine forall_getElem?_snoc h.address _ ?_
    rw [hlen]
    exact toNat_wordAddress_burst _ _ _ _ (by rw [h.addr, hw.2, Nat.add_zero])

/-- An address is never waiting when the last beat of a burst is taken. -/
theorem AwInv.idle_of_lastBeat {cfgData : BitVec P.axiAddrWidth} {is : List CoreIn}
    (h : AwInv cfgData is) {i : CoreIn} (hl : lastBeat ((core P).run is) i = true) :
    ((core P).run is).intAwvalidReg = false := by
  by_contra haw
  rw [Bool.not_eq_false] at haw
  have h0 := (h.waiting haw).2
  have h15 := (of_lastBeat hl).2.2
  omega

/-- An address that waits after a clock edge was raised by it, at the start of a burst, or
    waited before and met no early beat. -/
theorem AwInv.waiting_snoc {cfgData : BitVec P.axiAddrWidth} {is : List CoreIn}
    (h : AwInv cfgData is) {i : CoreIn} (hi : ¬ EarlyBeat ((core P).run is) i)
    (hv : ((core P).run (is ++ [i])).intAwvalidReg = true) :
    ((core P).run (is ++ [i])).intWvalidReg = true ∧ beat ((core P).run (is ++ [i])) = 0 := by
  have halign := core_aligned (P := P) is
  have hidle := h.idle_of_lastBeat (i := i)
  have hwait := h.waiting
  rw [Machine.run_snoc] at hv ⊢
  generalize (core P).run is = r at *
  show (next r i).intWvalidReg = true ∧ beat (next r i) = 0
  replace hv : (next r i).intAwvalidReg = true := hv
  rw [next_beat]
  rcases next_cases r i halign with ⟨hl, -, -, hw⟩ | ⟨hl, -, ha, -⟩ | ⟨-, -, hw, -, -, hw'⟩ | ⟨-, ha, hw⟩
  · -- a burst is restarted behind its last beat
    rw [if_pos (of_lastBeat hl).1, (of_lastBeat hl).2.2]
    exact ⟨hw, rfl⟩
  · -- a burst ends: an address still waiting would have been caught by its beats
    rw [ha, hidle hl] at hv
    exact absurd hv (by simp)
  · -- a burst starts from idle
    have hrd : intRdenWire r i = false := by rw [intRdenWire, hw, Bool.and_false]
    rw [hrd, halign hw]
    exact ⟨hw', rfl⟩
  · -- the address keeps waiting, and no beat is taken meanwhile
    rw [ha, Bool.and_eq_true, Bool.not_eq_true'] at hv
    have hrd : intRdenWire r i = false := by
      rw [← Bool.not_eq_true]
      exact fun hrd => hi ⟨hv.1, hv.2, hrd⟩
    rw [hw, hrd]
    exact hwait hv.1

/-- A clock edge keeps the addresses in step with the bursts: an address is raised exactly
    where a burst begins. -/
theorem AwInv.bursts_snoc {cfgData : BitVec P.axiAddrWidth} {is : List CoreIn}
    (h : AwInv cfgData is) (i : CoreIn) :
    (awAddresses cfgData (is ++ [i])).length + ((core P).run (is ++ [i])).intAwvalidReg.toNat
      = burstsBegun P (is ++ [i]) := by
  have halign := core_aligned (P := P) is
  have hidle := h.idle_of_lastBeat (i := i)
  have hb := h.bursts
  rw [burstsBegun] at hb
  rw [awAddresses_length_snoc, burstsBegun, burstsDone, count_snoc, ← burstsDone, Machine.run_snoc]
  generalize (core P).run is = r at *
  show _ + (next r i).intAwvalidReg.toNat = _ + (next r i).intWvalidReg.toNat
  rw [awHandshake]
  rcases next_cases r i halign with
    ⟨hl, -, ha, hw⟩ | ⟨hl, -, ha, hw⟩ | ⟨hl, haw, hww, -, ha, hw⟩ | ⟨hl, ha, hw⟩
  · rw [hidle hl, (of_lastBeat hl).2.1] at hb
    simp only [ha, hw, hl, hidle hl, Bool.false_and, Bool.toNat_false, Bool.toNat_true] at hb ⊢
    omega
  · rw [hidle hl, (of_lastBeat hl).2.1] at hb
    simp only [ha, hw, hl, hidle hl, Bool.false_and, Bool.toNat_false, Bool.toNat_true] at hb ⊢
    omega
  · rw [haw, hww] at hb
    simp only [ha, hw, hl, haw, Bool.false_and, Bool.toNat_false, Bool.toNat_true] at hb ⊢
    omega
  · -- the address is taken or keeps waiting
    have hsplit : (r.intAwvalidReg && i.mAxiAwready).toNat + (r.intAwvalidReg && !i.mAxiAwready).toNat
        = r.intAwvalidReg.toNat := by
      cases r.intAwvalidReg <;> cases i.mAxiAwready <;> rfl
    rw [ha, hw, hl, Bool.toNat_false]
    omega

/-- The invariant is kept by every cycle that takes no early beat. -/
theorem AwInv.snoc {cfgData : BitVec P.axiAddrWidth} {is : List CoreIn}
    (h : AwInv cfgData is) (i : CoreIn) (hi : ¬ EarlyBeat ((core P).run is) i) :
    AwInv cfgData (is ++ [i]) where
  addr := addr_snoc i h.addr
  waiting := h.waiting_snoc hi
  bursts := h.bursts_snoc i
  address := h.address_snoc i

/-- In reset nothing is on the two channels. -/
theorem awInv_nil (cfgData : BitVec P.axiAddrWidth) : AwInv cfgData [] where
  addr := (Nat.zero_mod _).symm
  waiting := fun hv => absurd hv Bool.false_ne_true
  bursts := rfl
  address := fun k a ha => by simp [awAddresses] at ha

/-! ### The exact condition -/

/-- Without early beats the channel does its job: the invariant gives the addresses, and an
    address that is not taken stays with its register. -/
theorem awChannel_of_no_earlyBeat (cfgData : BitVec P.axiAddrWidth) (is : List CoreIn)
    (hc : EachCycle (fun past i => ¬ EarlyBeat ((core P).run past) i) is) :
    AwChannel cfgData is := by
  have hinv : EachPoint (AwInv cfgData) is :=
    eachPoint_of_step (awInv_nil cfgData) (fun past i h hi => h.snoc i hi) is hc
  refine ⟨?_, hinv.last.address, fun past hp => (hinv past hp).bursts⟩
  intro past i hp hv hr
  have hpast := hinv.before hp
  have hi : ¬ EarlyBeat ((core P).run past) i := hc past i hp
  have hwait := hpast.waiting hv
  rw [Machine.run_snoc]
  generalize (core P).run past = r at *
  show (next r i).intAwvalidReg = true ∧ mAxiAwaddr cfgData (next r i) = mAxiAwaddr cfgData r
  have hrd : ¬ intRdenWire r i = true := fun hrd => hi ⟨hv, hr, hrd⟩
  rw [mAxiAwaddr, mAxiAwaddr, next_intAddrReg, if_neg hrd, next_intAwvalidReg, hv, hr]
  exact ⟨by simp, rfl⟩

/-- On a bus that can tell two words apart, an early beat moves the waiting address. -/
theorem no_earlyBeat_of_stable (cfgData : BitVec P.axiAddrWidth)
    (hsize : P.addrSize < P.axiAddrWidth) (is : List CoreIn) (h : AwChannel cfgData is) :
    EachCycle (fun past i => ¬ EarlyBeat ((core P).run past) i) is := by
  rintro past i hp ⟨hv, hr, hrd⟩
  have haddr := (h.stable past i hp hv hr).2
  rw [Machine.run_snoc] at haddr
  replace haddr : mAxiAwaddr cfgData (next ((core P).run past) i) = _ := haddr
  rw [mAxiAwaddr, next_intAddrReg, if_pos hrd] at haddr
  have hw : 0 < P.addrWidth := lt_of_lt_of_le (by decide) P.four_le_addrWidth
  exact wordAddress_succ_ne cfgData _ hw hsize haddr

/-- **The write address channel, exactly.** For every pattern of the almost-empty flag and
    of the two ready inputs the channel does its job in every run that takes no beat of W
    while an address waits on AW, and, on a bus that can tell two words apart, in no other
    run. -/
theorem awChannel_iff (cfgData : BitVec P.axiAddrWidth) (is : List CoreIn) :
    (EachCycle (fun past i => ¬ EarlyBeat ((core P).run past) i) is → AwChannel cfgData is) ∧
      (P.addrSize < P.axiAddrWidth → AwChannel cfgData is →
        EachCycle (fun past i => ¬ EarlyBeat ((core P).run past) i) is) :=
  ⟨awChannel_of_no_earlyBeat cfgData is, fun hsize => no_earlyBeat_of_stable cfgData hsize is⟩

/-- A cycle that offers a word while the memory takes neither an address nor a beat. -/
def fill : In {} := ⟨true, 1, false, false⟩

/-- The memory takes a beat before the address. -/
def beatFirst : In {} := ⟨false, 0, false, true⟩

/-- 17 words start a burst; the memory takes its first beat before its address, and the
    address that is waiting moves on by one word. -/
theorem beat_first_moves_awaddr :
    ¬ AwChannel (P := {}) 0x1F000000#32 (coreHistory (List.replicate 17 fill ++ [beatFirst])) := by
  intro h
  rw [coreHistory, log_snoc, ← coreHistory] at h
  have hstable := h.stable (coreHistory (List.replicate 17 fill))
    (coreIn (after (List.replicate 17 fill)) beatFirst) (List.prefix_refl _) (by decide +kernel) rfl
  exact absurd hstable (by decide +kernel)

end ZynqLinux.Axi4.RamWriter
