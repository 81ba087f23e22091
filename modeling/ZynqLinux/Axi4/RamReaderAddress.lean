import Mathlib.Tactic.Common
import ZynqLinux.Axi4.RamReader

namespace ZynqLinux.Axi4.RamReader

open ZynqLinux.Lib

/-!
# `axis_ram_reader` — the read address channel

The end of a burst is read off `int_rready_reg & m_axi_rlast`, without `m_axi_rvalid`.
AXI leaves `rlast` open while `rvalid` is low, so a slave may end a burst for the IP that
has not ended, or not even begun.

The results are about `core`, so they hold for every pattern of the almost-full flag.

* `ReadSlave` is what AXI promises about the slave;
* `ArChannel` is what the memory layout asks of the channel;
* `IdleLast` is a cycle in which the slave shows `rlast` without data;
* `arChannel_of_no_idleLast` and `no_idleLast_of_arChannel` are the two directions of the
  exact condition.
-/

variable {P : Params}

/-! ### The two channels and the slave -/

/-- The addresses handed over on the AR channel. -/
def arAddresses (cfgData : BitVec P.axiAddrWidth) (is : List CoreIn) :
    List (BitVec P.axiAddrWidth) :=
  log (fun past i =>
    if arHandshake ((core P).run past) i then [mAxiAraddr cfgData ((core P).run past)] else []) is

/-- The number of bursts asked for. -/
def arCount (P : Params) (is : List CoreIn) : Nat :=
  count (fun past i => arHandshake ((core P).run past) i) is

/-- The number of beats taken on R. -/
def rBeats (P : Params) (is : List CoreIn) : Nat :=
  count (fun past i => rHandshake ((core P).run past) i) is

/-- The number of bursts completed: beats taken with `rlast`. -/
def burstsDone (P : Params) (is : List CoreIn) : Nat :=
  count (fun past i => rHandshake ((core P).run past) i && i.mAxiRlast) is

/-- An AXI read slave: it shows data only for bursts it was asked for, and `rlast` with
    the 16th beat of each.  Nothing is said about `rlast` while `rvalid` is low. -/
def ReadSlave (P : Params) (is : List CoreIn) : Prop :=
  EachCycle (fun past i => i.mAxiRvalid = true →
    rBeats P past < 16 * arCount P (past ++ [i]) ∧
      (i.mAxiRlast = true ↔ rBeats P past % 16 = 15)) is

/-- The read address channel does its job over a run from reset. -/
structure ArChannel (cfgData : BitVec P.axiAddrWidth) (is : List CoreIn) : Prop where
  /-- The `k`-th AR handshake carries the address of the `k`-th burst. -/
  address : ∀ (k : Nat) a, (arAddresses cfgData is)[k]? = some a →
    a.toNat = burstAddress P.addrWidth P.addrSize cfgData k
  /-- An address that is not taken stays on the bus. -/
  stable : EachCycle (fun past i =>
    ((core P).run past).intArvalidReg = true → i.mAxiArready = false →
      ((core P).run (past ++ [i])).intArvalidReg = true ∧
        mAxiAraddr cfgData ((core P).run (past ++ [i])) = mAxiAraddr cfgData ((core P).run past)) is
  /-- At most one burst is asked for and not complete. -/
  outstanding : EachPoint (fun past => arCount P past ≤ burstsDone P past + 1) is
  /-- The address register counts the completed bursts. -/
  addr : EachPoint (fun past =>
    ((core P).run past).intAddrReg.toNat = 16 * burstsDone P past % 2 ^ P.addrWidth) is

/-- The slave shows `rlast` without data while the IP is ready for data. -/
def IdleLast (r : Regs P) (i : CoreIn) : Prop :=
  r.intRreadyReg = true ∧ i.mAxiRvalid = false ∧ i.mAxiRlast = true

/-! ### The invariant of a run without idle `rlast` -/

/-- What relates the registers to the bursts asked for, the beats and the bursts done. -/
structure ArInv (cfgData : BitVec P.axiAddrWidth) (is : List CoreIn) : Prop where
  addr : ((core P).run is).intAddrReg.toNat = 16 * burstsDone P is % 2 ^ P.addrWidth
  /-- The beats of the current burst. -/
  beats : 16 * burstsDone P is ≤ rBeats P is ∧ rBeats P is < 16 * burstsDone P is + 16
  /-- While an address waits, every burst asked for is complete. -/
  waiting : ((core P).run is).intArvalidReg = true →
    ((core P).run is).intRreadyReg = true ∧ arCount P is = burstsDone P is ∧
      rBeats P is = 16 * burstsDone P is
  /-- So it is while the IP is not ready for data. -/
  idle : ((core P).run is).intRreadyReg = false →
    arCount P is = burstsDone P is ∧ rBeats P is = 16 * burstsDone P is
  /-- Otherwise one burst is under way. -/
  busy : ((core P).run is).intArvalidReg = false → ((core P).run is).intRreadyReg = true →
    arCount P is = burstsDone P is + 1
  address : ∀ (k : Nat) a, (arAddresses cfgData is)[k]? = some a →
    a.toNat = burstAddress P.addrWidth P.addrSize cfgData k

/-- There are as many addresses on AR as bursts asked for. -/
theorem arCount_eq_length (cfgData : BitVec P.axiAddrWidth) (is : List CoreIn) :
    arCount P is = (arAddresses cfgData is).length := by
  induction is using List.reverseRecOn with
  | nil => rfl
  | append_singleton is i ih =>
    rw [arCount, count_snoc, ← arCount, ih, arAddresses, arAddresses, log_snoc, List.length_append]
    cases arHandshake ((core P).run is) i <;> rfl

/-- An address is taken while its burst is the next one to be counted. -/
theorem ArInv.address_snoc {cfgData : BitVec P.axiAddrWidth} {is : List CoreIn}
    (h : ArInv cfgData is) (i : CoreIn) : ∀ (k : Nat) a,
    (arAddresses cfgData (is ++ [i]))[k]? = some a →
      a.toNat = burstAddress P.addrWidth P.addrSize cfgData k := by
  rw [arAddresses, log_snoc, ← arAddresses]
  cases hs : arHandshake ((core P).run is) i with
  | false => simpa using h.address
  | true =>
    have hv : ((core P).run is).intArvalidReg = true := by
      rw [arHandshake, Bool.and_eq_true] at hs
      exact hs.1
    refine forall_getElem?_snoc h.address _ ?_
    rw [← arCount_eq_length, (h.waiting hv).2.1]
    exact toNat_wordAddress_burst _ _ _ _ h.addr

/-- Without idle `rlast` the IP sees the end of a burst on its 16th beat, and only there. -/
theorem endSeen_iff {is : List CoreIn} {i : CoreIn}
    (hslave : i.mAxiRvalid = true → (i.mAxiRlast = true ↔ rBeats P is % 16 = 15))
    (hi : ¬ IdleLast ((core P).run is) i) :
    endSeen ((core P).run is) i = true ↔
      rHandshake ((core P).run is) i = true ∧ rBeats P is % 16 = 15 := by
  rw [endSeen, rHandshake, Bool.and_eq_true, Bool.and_eq_true]
  constructor
  · rintro ⟨hr, hl⟩
    have hv : i.mAxiRvalid = true := by
      by_contra hv
      -- a last beat that is not valid is what the condition rules out
      exact hi ⟨hr, by simpa using hv, hl⟩
    exact ⟨⟨hr, hv⟩, (hslave hv).mp hl⟩
  · rintro ⟨⟨hr, hv⟩, h15⟩
    exact ⟨hr, (hslave hv).mpr h15⟩

/-- The counters after one more cycle. -/
theorem counts_snoc (is : List CoreIn) (i : CoreIn) :
    arCount P (is ++ [i]) = arCount P is + (arHandshake ((core P).run is) i).toNat ∧
      rBeats P (is ++ [i]) = rBeats P is + (rHandshake ((core P).run is) i).toNat ∧
      burstsDone P (is ++ [i])
        = burstsDone P is + (rHandshake ((core P).run is) i && i.mAxiRlast).toNat :=
  ⟨count_snoc _ _ _, count_snoc _ _ _, count_snoc _ _ _⟩

/-- The 16th beat of a burst: one more burst is complete and none is under way. -/
theorem ArInv.snoc_of_end {cfgData : BitVec P.axiAddrWidth} {is : List CoreIn}
    (h : ArInv cfgData is) {i : CoreIn} (hend : endSeen ((core P).run is) i = true)
    (hr : rHandshake ((core P).run is) i = true) (h15 : rBeats P is % 16 = 15) :
    ((core P).run is).intArvalidReg = false ∧
      burstsDone P (is ++ [i]) = burstsDone P is + 1 ∧
      arCount P (is ++ [i]) = burstsDone P (is ++ [i]) ∧
      rBeats P (is ++ [i]) = 16 * burstsDone P (is ++ [i]) := by
  obtain ⟨har, hrb, hdone⟩ := counts_snoc (P := P) is i
  have hb := h.beats
  have hready : ((core P).run is).intRreadyReg = true := by
    rw [rHandshake, Bool.and_eq_true] at hr
    exact hr.1
  have hlast : i.mAxiRlast = true := by
    rw [endSeen, Bool.and_eq_true] at hend
    exact hend.2
  -- while the address waits no beat of its burst has come, but the last one has
  have hav : ((core P).run is).intArvalidReg = false := by
    by_contra hav
    have hw := h.waiting (by simpa using hav)
    omega
  have hbusy := h.busy hav hready
  rw [arHandshake, hav, Bool.false_and, Bool.toNat_false] at har
  rw [hr, Bool.toNat_true] at hrb
  rw [hr, hlast, Bool.and_self, Bool.toNat_true] at hdone
  exact ⟨hav, by omega, by omega, by omega⟩

/-- A cycle in which the IP sees no end leaves the count of the bursts, and the burst it
    is in goes on. -/
theorem ArInv.snoc_of_not_end {cfgData : BitVec P.axiAddrWidth} {is : List CoreIn}
    (h : ArInv cfgData is) {i : CoreIn} (hend : endSeen ((core P).run is) i = false)
    (hmid : rHandshake ((core P).run is) i = true → rBeats P is % 16 ≠ 15) :
    burstsDone P (is ++ [i]) = burstsDone P is ∧
      16 * burstsDone P is ≤ rBeats P (is ++ [i]) ∧
      rBeats P (is ++ [i]) < 16 * burstsDone P is + 16 := by
  obtain ⟨-, hrb, hdone⟩ := counts_snoc (P := P) is i
  have hb := h.beats
  have hzero : (rHandshake ((core P).run is) i && i.mAxiRlast) = false := by
    rw [endSeen] at hend
    rw [rHandshake, Bool.and_right_comm, hend, Bool.false_and]
  rw [hzero, Bool.toNat_false] at hdone
  cases hr : rHandshake ((core P).run is) i with
  | false =>
    rw [hr, Bool.toNat_false] at hrb
    omega
  | true =>
    -- a beat inside the burst, so there are still fewer than 16 of them
    have hne := hmid hr
    rw [hr, Bool.toNat_true] at hrb
    omega

/-- The address register moves with the count of the bursts. -/
theorem addr_snoc {is : List CoreIn} {i : CoreIn}
    (h : ((core P).run is).intAddrReg.toNat = 16 * burstsDone P is % 2 ^ P.addrWidth)
    (hdone : burstsDone P (is ++ [i])
      = burstsDone P is + (endSeen ((core P).run is) i).toNat) :
    ((core P).run (is ++ [i])).intAddrReg.toNat
      = 16 * burstsDone P (is ++ [i]) % 2 ^ P.addrWidth := by
  rw [hdone, Machine.run_snoc]
  show (next _ i).intAddrReg.toNat = _
  rw [next_intAddrReg]
  cases endSeen ((core P).run is) i with
  | false => simpa using h
  | true =>
    have h16 : (16 : BitVec P.addrWidth).toNat = 16 % 2 ^ P.addrWidth := rfl
    rw [if_pos rfl, BitVec.toNat_add, h, h16, Bool.toNat_true, ← Nat.add_mod]
    rfl

/-- Between bursts, the next one is asked for or the IP is at rest. -/
theorem ArInv.of_complete {cfgData : BitVec P.axiAddrWidth} {is : List CoreIn}
    (haddr : ((core P).run is).intAddrReg.toNat = 16 * burstsDone P is % 2 ^ P.addrWidth)
    (haddress : ∀ (k : Nat) a, (arAddresses cfgData is)[k]? = some a →
      a.toNat = burstAddress P.addrWidth P.addrSize cfgData k)
    (hcount : arCount P is = burstsDone P is) (hbeats : rBeats P is = 16 * burstsDone P is)
    (hsame : ((core P).run is).intArvalidReg = ((core P).run is).intRreadyReg) :
    ArInv cfgData is where
  addr := haddr
  beats := by omega
  waiting ha := ⟨hsame ▸ ha, hcount, hbeats⟩
  idle _ := ⟨hcount, hbeats⟩
  busy ha hr := absurd (ha.symm.trans (hsame.trans hr)) (by decide)
  address := haddress

/-- A cycle in which no burst ends or starts: the address is taken or waits, a beat is taken
    or not. -/
theorem ArInv.snoc_of_stay {cfgData : BitVec P.axiAddrWidth} {is : List CoreIn}
    (h : ArInv cfgData is) {i : CoreIn}
    (hslave : i.mAxiRvalid = true → rBeats P is < 16 * arCount P (is ++ [i]))
    (hend : endSeen ((core P).run is) i = false)
    (hmid : rHandshake ((core P).run is) i = true → rBeats P is % 16 ≠ 15)
    (ha : ((core P).run (is ++ [i])).intArvalidReg =
      (((core P).run is).intArvalidReg && !i.mAxiArready))
    (hw : ((core P).run (is ++ [i])).intRreadyReg = ((core P).run is).intRreadyReg) :
    ArInv cfgData (is ++ [i]) := by
  obtain ⟨har, hrb, -⟩ := counts_snoc (P := P) is i
  obtain ⟨hdone, hlo, hhi⟩ := h.snoc_of_not_end hend hmid
  refine ⟨addr_snoc h.addr (by rw [hdone, hend]; rfl), by omega, ?_, ?_, ?_, h.address_snoc i⟩
  · intro ha'
    rw [ha, Bool.and_eq_true, Bool.not_eq_true'] at ha'
    obtain ⟨hrr, hcount, hbeats⟩ := h.waiting ha'.1
    rw [arHandshake, ha'.2, Bool.and_false, Bool.toNat_false] at har
    -- the slave has nothing to send, so no beat is taken
    have hv : i.mAxiRvalid = false := by
      by_contra hv
      have hlt := hslave (by simpa using hv)
      omega
    rw [rHandshake, hv, Bool.and_false, Bool.toNat_false] at hrb
    exact ⟨hw.trans hrr, by omega, by omega⟩
  · intro hr'
    rw [hw] at hr'
    have hidle := h.idle hr'
    have hav : ((core P).run is).intArvalidReg = false := by
      by_contra hav
      have hrr := (h.waiting (by simpa using hav)).1
      rw [hr'] at hrr
      exact absurd hrr (by simp)
    rw [arHandshake, hav, Bool.false_and, Bool.toNat_false] at har
    rw [rHandshake, hr', Bool.false_and, Bool.toNat_false] at hrb
    exact ⟨by omega, by omega⟩
  · intro ha' hr'
    rw [hw] at hr'
    cases hav : ((core P).run is).intArvalidReg with
    | false =>
      have hbusy := h.busy hav hr'
      rw [arHandshake, hav, Bool.false_and, Bool.toNat_false] at har
      omega
    | true =>
      have hcount := (h.waiting hav).2.1
      rw [ha, hav, Bool.true_and, Bool.not_eq_false'] at ha'
      rw [arHandshake, hav, ha', Bool.and_self, Bool.toNat_true] at har
      omega

/-- The invariant is kept by every cycle in which the slave keeps to AXI and shows no idle
    `rlast`. -/
theorem ArInv.snoc {cfgData : BitVec P.axiAddrWidth} {is : List CoreIn} (h : ArInv cfgData is)
    (i : CoreIn)
    (hslave : i.mAxiRvalid = true → rBeats P is < 16 * arCount P (is ++ [i]) ∧
      (i.mAxiRlast = true ↔ rBeats P is % 16 = 15))
    (hi : ¬ IdleLast ((core P).run is) i) : ArInv cfgData (is ++ [i]) := by
  have hE := endSeen_iff (fun hv => (hslave hv).2) hi
  have hmid : endSeen ((core P).run is) i = false → rHandshake ((core P).run is) i = true →
      rBeats P is % 16 ≠ 15 := by
    intro hend hr h15
    rw [hE.mpr ⟨hr, h15⟩] at hend
    exact absurd hend (by simp)
  have hrun : (core P).run (is ++ [i]) = next ((core P).run is) i := Machine.run_snoc _ _ _
  rcases next_cases ((core P).run is) i with
    ⟨hend, -, ha, hw⟩ | ⟨hend, -, ha, hw⟩ | ⟨hav, hrr, -, ha, hw⟩ | ⟨hend, ha, hw⟩
  all_goals rw [← hrun] at ha hw
  · -- the burst ends and the next one is asked for
    obtain ⟨hr, h15⟩ := hE.mp hend
    obtain ⟨-, hdone, hcount, hbeats⟩ := h.snoc_of_end hend hr h15
    exact .of_complete (addr_snoc h.addr (by rw [hdone, hend]; rfl)) (h.address_snoc i) hcount
      hbeats (ha.trans hw.symm)
  · -- the burst ends and the FIFO is too full for another
    obtain ⟨hr, h15⟩ := hE.mp hend
    obtain ⟨hav, hdone, hcount, hbeats⟩ := h.snoc_of_end hend hr h15
    rw [hav, Bool.false_and] at ha
    exact .of_complete (addr_snoc h.addr (by rw [hdone, hend]; rfl)) (h.address_snoc i) hcount
      hbeats (ha.trans hw.symm)
  · -- a burst is asked for from idle
    have hend : endSeen ((core P).run is) i = false := by rw [endSeen, hrr, Bool.false_and]
    obtain ⟨hdone, -, -⟩ := h.snoc_of_not_end hend (hmid hend)
    obtain ⟨har, hrb, -⟩ := counts_snoc (P := P) is i
    have hidle := h.idle hrr
    rw [arHandshake, hav, Bool.false_and, Bool.toNat_false] at har
    rw [rHandshake, hrr, Bool.false_and, Bool.toNat_false] at hrb
    exact .of_complete (addr_snoc h.addr (by rw [hdone, hend]; rfl)) (h.address_snoc i)
      (by omega) (by omega) (ha.trans hw.symm)
  · -- no burst ends or starts
    exact h.snoc_of_stay (fun hv => (hslave hv).1) hend (hmid hend) ha hw

/-- In reset no burst is asked for and the address register is at zero. -/
theorem arInv_nil (cfgData : BitVec P.axiAddrWidth) : ArInv cfgData [] where
  addr := (Nat.zero_mod _).symm
  beats := ⟨Nat.le_refl _, Nat.zero_lt_succ _⟩
  waiting := fun hv => absurd hv Bool.false_ne_true
  idle := fun _ => ⟨rfl, rfl⟩
  busy := fun _ hr => absurd hr Bool.false_ne_true
  address := fun k a ha => by simp [arAddresses] at ha

/-! ### The exact condition -/

/-- With an AXI slave that shows no idle `rlast` the channel does its job. -/
theorem arChannel_of_no_idleLast (cfgData : BitVec P.axiAddrWidth) (is : List CoreIn)
    (hslave : ReadSlave P is)
    (hc : EachCycle (fun past i => ¬ IdleLast ((core P).run past) i) is) :
    ArChannel cfgData is := by
  have hboth : EachCycle (fun past i =>
      (i.mAxiRvalid = true → rBeats P past < 16 * arCount P (past ++ [i]) ∧
        (i.mAxiRlast = true ↔ rBeats P past % 16 = 15)) ∧
      ¬ IdleLast ((core P).run past) i) is :=
    fun past i hp => ⟨hslave past i hp, hc past i hp⟩
  have hinv : EachPoint (ArInv cfgData) is :=
    eachPoint_of_step (arInv_nil cfgData) (fun past i h hi => h.snoc i hi.1 hi.2) is hboth
  refine ⟨hinv.last.address, ?_, ?_, fun past hp => (hinv past hp).addr⟩
  · intro past i hp hv hr
    have hpast := hinv.before hp
    have hafter := hinv (past ++ [i]) hp
    obtain ⟨hrr, -, hbeats⟩ := hpast.waiting hv
    have hrun : (core P).run (past ++ [i]) = next ((core P).run past) i := Machine.run_snoc _ _ _
    -- nothing is on its way, so the end of a burst cannot be seen here
    have hend : endSeen ((core P).run past) i = false := by
      rw [← Bool.not_eq_true]
      intro hend
      have h15 := ((endSeen_iff (fun hv => (hslave past i hp hv).2) (hc past i hp)).mp hend).2
      omega
    rw [hrun, mAxiAraddr, mAxiAraddr, next_intAddrReg, hend]
    refine ⟨?_, rfl⟩
    rcases next_cases ((core P).run past) i with
      ⟨-, -, ha, -⟩ | ⟨hend', -, -, -⟩ | ⟨-, -, -, ha, -⟩ | ⟨-, ha, -⟩
    · exact ha
    · exact absurd (hend.symm.trans hend') (by decide)
    · exact ha
    · rw [ha, hv, hr]; rfl
  · intro past hp
    have hpast := hinv past hp
    cases hav : ((core P).run past).intArvalidReg with
    | true => have hw := (hpast.waiting hav).2.1; omega
    | false =>
      cases hrr : ((core P).run past).intRreadyReg with
      | true => have hb := hpast.busy hav hrr; omega
      | false => have hidle := (hpast.idle hrr).1; omega

/-- An idle `rlast` moves the address register, if the register can hold the step. -/
theorem no_idleLast_of_arChannel (cfgData : BitVec P.axiAddrWidth) (hwidth : 5 ≤ P.addrWidth)
    (is : List CoreIn) (h : ArChannel cfgData is) :
    EachCycle (fun past i => ¬ IdleLast ((core P).run past) i) is := by
  rintro past i hp ⟨hrr, hrv, hl⟩
  have hbefore := h.addr.before hp
  have hafter := h.addr (past ++ [i]) hp
  have hdone : burstsDone P (past ++ [i]) = burstsDone P past := by
    obtain ⟨-, -, hdone⟩ := counts_snoc (P := P) past i
    rw [hdone, rHandshake, hrv, Bool.and_false, Bool.false_and]
    rfl
  have hend : endSeen ((core P).run past) i = true := by rw [endSeen, hrr, hl]; rfl
  have hrun : (core P).run (past ++ [i]) = next ((core P).run past) i := Machine.run_snoc _ _ _
  have h32 : 2 ^ 5 ≤ 2 ^ P.addrWidth := Nat.pow_le_pow_right (by decide) hwidth
  have h16 : (16 : BitVec P.addrWidth).toNat = 16 :=
    Nat.mod_eq_of_lt (lt_of_lt_of_le (by decide) h32)
  beta_reduce at hbefore hafter
  rw [hrun, next_intAddrReg, if_pos hend, BitVec.toNat_add, h16, hdone, ← hbefore] at hafter
  -- a step of 16 does not come back to where it started
  have hlt := ((core P).run past).intAddrReg.isLt
  generalize ((core P).run past).intAddrReg.toNat = a at hafter hlt
  generalize 2 ^ P.addrWidth = m at hafter hlt h32
  by_cases hm : a + 16 < m
  · rw [Nat.mod_eq_of_lt hm] at hafter
    omega
  · rw [Nat.mod_eq_sub_mod (by omega), Nat.mod_eq_of_lt (by omega)] at hafter
    omega

/-- **The read address channel, exactly.** With every AXI read slave and every pattern of
    the almost-full flag the channel does its job in every run without an idle `rlast` and,
    if the address register can hold the step of 16, in no other run. -/
theorem arChannel_iff (cfgData : BitVec P.axiAddrWidth) (is : List CoreIn)
    (hslave : ReadSlave P is) :
    (EachCycle (fun past i => ¬ IdleLast ((core P).run past) i) is → ArChannel cfgData is) ∧
      (5 ≤ P.addrWidth → ArChannel cfgData is →
        EachCycle (fun past i => ¬ IdleLast ((core P).run past) i) is) :=
  ⟨arChannel_of_no_idleLast cfgData is hslave,
    fun hwidth => no_idleLast_of_arChannel cfgData hwidth is⟩

/-- A cycle in which the slave does nothing. -/
def quiet : In {} := ⟨false, 0, false, false, true⟩

/-- A cycle in which the slave sends a beat. -/
def beat (last : Bool) : In {} := ⟨true, 7, last, true, true⟩

/-- A burst read by an AXI slave that keeps `rlast` low outside its data. -/
def oneBurst : List CoreIn :=
  coreHistory ([quiet, { quiet with mAxiArready := true }] ++ List.replicate 15 (beat false) ++
    [beat true, quiet])

/-- A burst that is asked for, answered with 16 beats and ended by the last of them: the
    channel does its job. -/
theorem arChannel_oneBurst :
    ReadSlave {} oneBurst ∧ ArChannel (P := {}) 0x1E000000#32 oneBurst := by
  have hslave : ReadSlave {} oneBurst := by
    unfold ReadSlave
    decide +kernel
  exact ⟨hslave, (arChannel_iff 0x1E000000#32 oneBurst hslave).1 (by unfold IdleLast; decide +kernel)⟩

/-- An AXI slave that shows `rlast` before it has taken the first address. -/
def idleLastRun : List CoreIn := coreHistory [quiet, { quiet with mAxiRlast := true }]

/-- The waiting address moves on by a burst, and the first burst is never read. -/
theorem idle_rlast_moves_araddr :
    ReadSlave {} idleLastRun ∧ ¬ ArChannel (P := {}) 0x1E000000#32 idleLastRun := by
  constructor
  · unfold ReadSlave
    decide +kernel
  · intro h
    exact absurd h.addr.last (by decide +kernel)

end ZynqLinux.Axi4.RamReader
