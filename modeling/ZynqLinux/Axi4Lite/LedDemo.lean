import Mathlib.Tactic.Common
import ZynqLinux.Lib.History

namespace ZynqLinux.Axi4Lite

open ZynqLinux.Lib

/-!
# The `axi4_lite` LED demo

`axi4_lite_test` copies a switch vector to LEDs: `edge_detect` raises an interrupt when the
vector changes, the program waits for it on a UIO device, re-enables it, reads the vector
from `axi_sts_register` and writes it to `axi_cfg_register`.

* `EdgeDetect.posedge` is `edge_detect.v`, `Uio` the interrupt side of the UIO device, which
  is not part of the repository: it counts and then masks a pulse that comes while it is
  unmasked, and drops or keeps one that comes while it is masked;
* `step` interleaves the clock, the interrupt and the program, one atomic action at a time;
* `Current` says that a value is the switch vector or that a pulse for a newer one is on its
  way, and `Inv` that this holds of the value the program has last seen;
* `leds_current` is the result: as long as the switches do not change in three clocks in a
  row, the demo loses no change of them.

The device tree makes the interrupt of the register an edge-triggered one, so a pulse is a
rising edge of `edge_detected`.  The detector holds its output high for as long as the switches
change in every clock: the changes after the second one share the pulse of the first, and
nothing announces the last of them once the program has sampled the vector
(`third_change_lost`).
-/

variable {N : Nat}

/-! ### The edge detector -/

/-- The registers of `edge_detect.v`, with their declared initial values. -/
structure EdgeDetect (N : Nat) where
  tmp : BitVec N := 0
  edgeDetectedI : Bool := false

/-- The `always @ (posedge clk)` block. -/
def EdgeDetect.posedge (e : EdgeDetect N) (din : BitVec N) : EdgeDetect N :=
  { tmp := din, edgeDetectedI := e.tmp != din }

/-! ### The UIO device -/

/-- The interrupt side of the UIO device: the events counted, those `read` has returned,
    the mask, and a pulse kept pending behind the mask. -/
structure Uio where
  event : Nat := 0
  listened : Nat := 0
  masked : Bool
  kept : Bool := false

/-- An event exists that `read` has not returned yet. -/
def Uio.pending (u : Uio) : Bool := u.event != u.listened

/-- A pulse arrives; `keep` tells what the masked controller does with it. -/
def Uio.pulse (u : Uio) (keep : Bool) : Uio :=
  if u.masked then { u with kept := u.kept || keep }
  else { u with event := u.event + 1, masked := true }

/-- `write(fd, 1)`: unmask, which delivers a pulse that was kept. -/
def Uio.reenable (u : Uio) : Uio :=
  if u.kept then { u with event := u.event + 1, masked := true, kept := false }
  else { u with masked := false }

/-! ### The program and the system -/

/-- The next action of `main`: the first `write(sts0_fd, 1)`, then the four actions of the
    loop; `uioWrite value` is in front of the write of the value read. -/
inductive Pc (N : Nat)
  | start
  | waitForInterrupt
  | reenable
  | uioRead
  | uioWrite (value : BitVec N)
  deriving DecidableEq

/-- The whole system.  `before` is the level of `edge_detected` in the clock before, `taken`
    says that the pulse of the current clock has been taken, `cfg0` is the value last written
    to the cfg register and `handled` the number of interrupts the program has handled. -/
structure State (N : Nat) where
  sws : BitVec N
  detect : EdgeDetect N := {}
  before : Bool := false
  taken : Bool := false
  uio : Uio
  pc : Pc N := .start
  cfg0 : Option (BitVec N) := none
  handled : Nat := 0

/-- One atomic action: a clock edge, after which the switches show `sws`; the interrupt
    controller takes the pulse of the current clock; the program makes its next action. -/
inductive Action (N : Nat)
  | clock (sws : BitVec N) (keep : Bool)
  | interrupt (keep : Bool)
  | program

/-- `edge_detected` has risen with the current clock, and this has not been taken yet: the
    interrupt of the register is edge-triggered, `interrupts = <0x0 0x1d 0x1>`. -/
def rises (s : State N) : Bool := s.detect.edgeDetectedI && !s.before && !s.taken

/-- The pulse of the current clock reaches the UIO device, once. -/
def interrupt (s : State N) (keep : Bool) : State N :=
  if rises s then { s with taken := true, uio := s.uio.pulse keep } else s

/-- A clock edge ends the current pulse, so it is taken now if it has not been before. -/
def clock (s : State N) (sws : BitVec N) (keep : Bool) : State N :=
  let s := interrupt s keep
  -- the detector samples the vector that stood before the edge
  { s with
    detect := s.detect.posedge s.sws, before := s.detect.edgeDetectedI, taken := false,
    sws := sws }

/-- The next action of the program; `read(fd)` blocks while no event is pending, and
    `uio_read` returns the switch vector of the moment. -/
def program (s : State N) : State N :=
  match s.pc with
  | .start => { s with uio := s.uio.reenable, pc := .waitForInterrupt }
  | .waitForInterrupt =>
    if s.uio.pending then
      { s with uio := { s.uio with listened := s.uio.event }, pc := .reenable,
               handled := s.handled + 1 }
    else s
  | .reenable => { s with uio := s.uio.reenable, pc := .uioRead }
  | .uioRead => { s with pc := .uioWrite s.sws }
  | .uioWrite value => { s with cfg0 := some value, pc := .waitForInterrupt }

/-- One action of the system. -/
def step (s : State N) : Action N → State N
  | .clock sws keep  => clock s sws keep
  | .interrupt keep  => interrupt s keep
  | .program         => program s

/-- The demo, with the switches at `sws` and the interrupt masked or not when it starts. -/
def ledDemo (sws : BitVec N) (masked : Bool) : Machine (State N) (Action N) :=
  ⟨{ sws := sws, uio := { masked := masked } }, step⟩

/-! ### Values that are current, or about to be replaced -/

/-- The third change of the switches in three clocks: the two before it are still in the
    detector, the older one as its output and the newer one in front of it. -/
def ThirdChange (s : State N) : Action N → Prop
  | .clock sws _ => s.detect.edgeDetectedI = true ∧ s.detect.tmp ≠ s.sws ∧ sws ≠ s.sws
  | _ => False

/-- `v` is the switch vector, or the detector, its output low, is about to see a change, or
    the output has risen and this has not been taken yet. -/
def Current (s : State N) (v : BitVec N) : Prop :=
  v = s.sws ∨ (s.detect.tmp ≠ s.sws ∧ s.detect.edgeDetectedI = false) ∨ rises s = true

/-- As long as no event is pending, the interrupt is unmasked and `v` is current. -/
def Live (s : State N) (v : BitVec N) : Prop :=
  s.uio.event = s.uio.listened → s.uio.masked = false ∧ Current s v

/-- What holds at every action: between the unmask and the next event no pulse can be lost,
    and the value on its way to the LEDs, or there, is `Live`. -/
structure Inv (s : State N) : Prop where
  listened_le : s.uio.listened ≤ s.uio.event
  starting : s.pc = .start → s.handled = 0
  waiting : s.pc = .waitForInterrupt → 1 ≤ s.handled → ∃ v, s.cfg0 = some v ∧ Live s v
  sampling : s.pc = .uioRead → s.uio.event = s.uio.listened → s.uio.masked = false
  writing : ∀ v, s.pc = .uioWrite v → Live s v

section Live

variable {s : State N} {v : BitVec N}

/-- An event that has been counted stays counted. -/
theorem Uio.listened_le_pulse {u : Uio} (h : u.listened ≤ u.event) (keep : Bool) :
    (u.pulse keep).listened ≤ (u.pulse keep).event := by
  rw [Uio.pulse]
  split
  · exact h
  · exact Nat.le_succ_of_le h

/-- So does one that was kept behind the mask and is delivered by the unmask. -/
theorem Uio.listened_le_reenable {u : Uio} (h : u.listened ≤ u.event) :
    u.reenable.listened ≤ u.reenable.event := by
  rw [Uio.reenable]
  split
  · exact Nat.le_succ_of_le h
  · exact h

/-- A pulse that leaves no event pending met a mask. -/
theorem Uio.masked_of_pulse {u : Uio} (h : u.listened ≤ u.event) {keep : Bool}
    (hev : (u.pulse keep).event = (u.pulse keep).listened) :
    u.event = u.listened ∧ u.masked = true := by
  rw [Uio.pulse] at hev
  split at hev
  · next hm => exact ⟨hev, hm⟩
  · simp only at hev
    omega

/-- After the unmask, either an event is pending or nothing masks the next one. -/
theorem Uio.reenable_unmasked {u : Uio} (h : u.listened ≤ u.event)
    (hev : u.reenable.event = u.reenable.listened) : u.reenable.masked = false := by
  rw [Uio.reenable] at hev ⊢
  split at hev
  · simp only at hev
    omega
  · next hk => simp [hk]

/-- Where no event is pending the interrupt is unmasked, so a pulse would leave an event:
    none pending afterwards means that there was no pulse to take. -/
theorem interrupt_eq_self (hle : s.uio.listened ≤ s.uio.event)
    (hopen : s.uio.event = s.uio.listened → s.uio.masked = false) {keep : Bool}
    (hev : (interrupt s keep).uio.event = (interrupt s keep).uio.listened) :
    interrupt s keep = s := by
  rw [interrupt] at hev ⊢
  split at hev
  · -- a pulse taken without an event met a mask, but there was none
    obtain ⟨hnone, hmasked⟩ := Uio.masked_of_pulse hle hev
    rw [hopen hnone] at hmasked
    exact absurd hmasked Bool.false_ne_true
  · next hpulse => exact if_neg hpulse

/-- Taking a pulse keeps a value live: either an event is pending afterwards, or there was no
    pulse to take. -/
theorem Live.interrupt (hle : s.uio.listened ≤ s.uio.event) (h : Live s v) (keep : Bool) :
    Live (interrupt s keep) v := by
  intro hev
  have heq := interrupt_eq_self hle (fun hnone => (h hnone).1) hev
  rw [heq] at hev ⊢
  exact h hev

/-- After the interrupt there is nothing left to take in this clock. -/
theorem rises_interrupt (s : State N) (keep : Bool) : rises (interrupt s keep) = false := by
  rw [interrupt]
  split
  · rw [rises, Bool.not_true, Bool.and_false]
  · next hrise => simpa using hrise

/-- What the registers are after a clock edge in which nothing was taken. -/
theorem clock_eq {keep : Bool} (h : interrupt s keep = s) (sws : BitVec N) :
    clock s sws keep
      = { s with
          detect := s.detect.posedge s.sws, before := s.detect.edgeDetectedI, taken := false,
          sws := sws } := by
  rw [clock, h]

/-- A clock edge keeps a live value live: the change it brings is now in front of the
    detector, and the one that was there now makes the output rise.  Only a third change in a
    row would find the output high already. -/
theorem Live.clock (hle : s.uio.listened ≤ s.uio.event) (h : Live s v) {sws : BitVec N}
    {keep : Bool} (hthird : ¬ ThirdChange s (.clock sws keep)) : Live (clock s sws keep) v := by
  intro hev
  have heq := interrupt_eq_self hle (fun hnone => (h hnone).1) hev
  have hquiet : rises s = false := by
    rw [← heq]
    exact rises_interrupt s keep
  rw [clock_eq heq] at hev ⊢
  obtain ⟨hunmasked, hcur⟩ := h hev
  refine ⟨hunmasked, ?_⟩
  -- a change in front of a detector with its output low makes the output rise
  have hrise : s.detect.tmp ≠ s.sws → s.detect.edgeDetectedI = false →
      rises { s with
        detect := s.detect.posedge s.sws, before := s.detect.edgeDetectedI, taken := false,
        sws := sws } = true := by
    intro htmp hlow
    simpa [rises, EdgeDetect.posedge, hlow] using htmp
  rcases hcur with hv | ⟨htmp, hlow⟩ | hrises
  · by_cases hsws : sws = s.sws
    · exact .inl (hv.trans hsws.symm)
    · by_cases htmp : s.detect.tmp = s.sws
      · -- `v` is what the detector registers now, and the next edge will see it differ
        exact .inr (.inl ⟨fun heq => hsws heq.symm, by simp [EdgeDetect.posedge, htmp]⟩)
      · have hlow : s.detect.edgeDetectedI = false := by
          by_contra hhigh
          exact hthird ⟨by simpa using hhigh, htmp, hsws⟩
        exact .inr (.inr (hrise htmp hlow))
  · exact .inr (.inr (hrise htmp hlow))
  · exact absurd (hrises.symm.trans hquiet) (by decide)

end Live

/-! ### The invariant over a run -/

section Invariant

variable {s : State N}

/-- Taking a pulse changes neither the program nor the registers. -/
theorem interrupt_frame (s : State N) (keep : Bool) :
    (interrupt s keep).pc = s.pc ∧ (interrupt s keep).cfg0 = s.cfg0 ∧
      (interrupt s keep).handled = s.handled := by
  rw [interrupt]
  split <;> exact ⟨rfl, rfl, rfl⟩

/-- Taking a pulse does not take back an event that has been read. -/
theorem interrupt_listened_le (h : s.uio.listened ≤ s.uio.event) (keep : Bool) :
    (interrupt s keep).uio.listened ≤ (interrupt s keep).uio.event := by
  rw [interrupt]
  split
  · exact Uio.listened_le_pulse h keep
  · exact h

/-- Taking a pulse keeps the invariant, since it changes nothing but the UIO device. -/
theorem Inv.interrupt (h : Inv s) (keep : Bool) : Inv (interrupt s keep) := by
  obtain ⟨hpc, hcfg, hhandled⟩ := interrupt_frame s keep
  refine ⟨interrupt_listened_le h.listened_le keep, ?_, ?_, ?_, ?_⟩
  · rw [hpc, hhandled]
    exact h.starting
  · rw [hpc, hcfg, hhandled]
    intro hwait hone
    obtain ⟨v, hv, hlive⟩ := h.waiting hwait hone
    exact ⟨v, hv, hlive.interrupt h.listened_le keep⟩
  · rw [hpc]
    intro hread hev
    -- a reader that has been listened to is not interrupted
    have heq := interrupt_eq_self h.listened_le (h.sampling hread) hev
    rw [heq] at hev ⊢
    exact h.sampling hread hev
  · rw [hpc]
    intro v hv
    exact (h.writing v hv).interrupt h.listened_le keep

/-- A clock edge keeps the invariant, unless it brings a third change in a row: the pulse in
    front of it is taken first, then the registers move. -/
theorem Inv.clock (h : Inv s) {sws : BitVec N} {keep : Bool}
    (hthird : ¬ ThirdChange s (.clock sws keep)) : Inv (clock s sws keep) := by
  have hi := h.interrupt keep
  obtain ⟨hpc, hcfg, hhandled⟩ := interrupt_frame s keep
  refine ⟨hi.listened_le, hi.starting, ?_, hi.sampling, ?_⟩
  · show (Axi4Lite.interrupt s keep).pc = _ → 1 ≤ (Axi4Lite.interrupt s keep).handled →
      ∃ v, (Axi4Lite.interrupt s keep).cfg0 = some v ∧ _
    rw [hpc, hcfg, hhandled]
    intro hwait hone
    obtain ⟨v, hv, hlive⟩ := h.waiting hwait hone
    exact ⟨v, hv, hlive.clock h.listened_le hthird⟩
  · show ∀ v, (Axi4Lite.interrupt s keep).pc = _ → _
    rw [hpc]
    intro v hv
    exact (h.writing v hv).clock h.listened_le hthird

/-- The program unmasks before it samples the switches, so the sample is live, and stays so
    on its way to the cfg register. -/
theorem Inv.program (h : Inv s) : Inv (program s) := by
  rw [Axi4Lite.program]
  cases hpc : s.pc with
  | start =>
    have hzero := h.starting hpc
    refine ⟨Uio.listened_le_reenable h.listened_le, by simp, fun _ hone => ?_, by simp, by simp⟩
    exact absurd hone (by simp [hzero])
  | waitForInterrupt =>
    simp only
    split
    -- until the unmask nothing is promised: the sample is still to come
    · exact ⟨Nat.le_refl _, by simp, by simp, by simp, by simp⟩
    · exact h
  | reenable =>
    exact ⟨Uio.listened_le_reenable h.listened_le, by simp, by simp,
      fun _ hev => Uio.reenable_unmasked h.listened_le hev, by simp⟩
  | uioRead =>
    -- the sample is the switch vector of this moment, with the interrupt unmasked already
    refine ⟨h.listened_le, by simp, by simp, by simp, ?_⟩
    intro v hv hev
    refine ⟨h.sampling hpc hev, Or.inl ?_⟩
    simpa using hv.symm
  | uioWrite value =>
    refine ⟨h.listened_le, by simp, fun _ _ => ⟨value, rfl, ?_⟩, by simp, by simp⟩
    exact h.writing value hpc

/-- Every action but a third change in a row keeps the invariant. -/
theorem Inv.step (h : Inv s) {a : Action N} (hthird : ¬ ThirdChange s a) : Inv (step s a) := by
  cases a with
  | clock sws keep => exact h.clock hthird
  | interrupt keep => exact h.interrupt keep
  | program => exact h.program

/-- The invariant holds when the program starts, since nothing has been handled and nothing is
    promised yet. -/
theorem inv_start (sws : BitVec N) (masked : Bool) : Inv (ledDemo sws masked).reset :=
  ⟨Nat.le_refl 0, fun _ => rfl, by simp [ledDemo], by simp [ledDemo], by simp [ledDemo]⟩

/-- The switches do not change in three clocks in a row. -/
def NoThirdChange (sws : BitVec N) (masked : Bool) (acts : List (Action N)) : Prop :=
  EachCycle (fun past a => ¬ ThirdChange ((ledDemo sws masked).run past) a) acts

/-- So the invariant holds after every run without a third change in a row. -/
theorem inv_run {sws : BitVec N} {masked : Bool} {acts : List (Action N)}
    (hthird : NoThirdChange sws masked acts) : Inv ((ledDemo sws masked).run acts) :=
  (Machine.eachPoint_of_step (inv_start sws masked) (fun _ _ h ha => h.step ha) acts hthird).last

end Invariant

/-! ### The result -/

/-- The system is at rest: the program is blocked in `read(fd)` with the interrupt unmasked
    and no event pending, and the detector has registered the switch vector and its output
    is low. -/
structure AtRest (s : State N) : Prop where
  blocked : s.pc = .waitForInterrupt
  unmasked : s.uio.masked = false
  noEvent : s.uio.pending = false
  registered : s.detect.tmp = s.sws
  low : s.detect.edgeDetectedI = false

/-- **No switch change is lost** as long as the switches do not change in three clocks in a
    row.  For every start of the demo and every interleaving of clock edges, switch changes,
    interrupts and actions of the program: when the system is at rest and an interrupt has
    been handled, the value last written to the cfg register is the switch vector. -/
theorem leds_current {sws : BitVec N} {masked : Bool} {acts : List (Action N)}
    (hthird : NoThirdChange sws masked acts)
    (hhandled : 1 ≤ ((ledDemo sws masked).run acts).handled)
    (hrest : AtRest ((ledDemo sws masked).run acts)) :
    ((ledDemo sws masked).run acts).cfg0 = some ((ledDemo sws masked).run acts).sws := by
  obtain ⟨v, hv, hlive⟩ := (inv_run hthird).waiting hrest.blocked hhandled
  have hnone : ((ledDemo sws masked).run acts).uio.event =
      ((ledDemo sws masked).run acts).uio.listened := by
    simpa [Uio.pending] using hrest.noEvent
  -- at rest the detector has seen every change, and its output is low
  rcases (hlive hnone).2 with hcur | ⟨htmp, _⟩ | hrises
  · rw [hv, hcur]
  · exact absurd hrest.registered htmp
  · rw [rises, hrest.low] at hrises
    exact absurd hrises Bool.false_ne_true

/-- A switch goes up, bounces twice in a row while the interrupt is masked, and settles. -/
def bounce : List (Action 4) :=
  [.program, .clock 1 false, .clock 0 false, .interrupt false, .program, .clock 0 false,
   .program, .program, .clock 1 false, .program, .clock 1 false, .interrupt false, .program,
   .program, .program, .program, .clock 1 false]

/-- The two bounces in a row are changes one and two; the change to the final vector comes
    later. -/
theorem noThirdChange_bounce : NoThirdChange 0 true bounce := by
  simp only [NoThirdChange, eachCycle_iff_from, bounce, EachCycleFrom, ThirdChange, List.nil_append,
    List.cons_append]
  decide

/-- The demo comes to rest with the final vector on the LEDs, though two of its changes came
    while the interrupt was masked. -/
theorem leds_current_bounce :
    1 ≤ ((ledDemo 0 true).run bounce).handled ∧ AtRest ((ledDemo 0 true).run bounce) ∧
      ((ledDemo 0 true).run bounce).cfg0 = some ((ledDemo 0 true).run bounce).sws := by
  have hhandled : 1 ≤ ((ledDemo 0 true).run bounce).handled := by decide
  have hrest : AtRest ((ledDemo 0 true).run bounce) :=
    ⟨by decide, by decide, by decide, by decide, by decide⟩
  exact ⟨hhandled, hrest, leds_current noThirdChange_bounce hhandled hrest⟩

/-! ### Three changes in a row -/

/-- The detector settles on the switch vector, and the program unmasks the interrupt. -/
def settle (a : BitVec N) : List (Action N) :=
  [.clock a false, .clock a false, .clock a false, .program]

/-- The switches change from `a` over `b` and `c` to `d` in consecutive clocks, and the program
    handles the interrupt of the first change when they show `c`. -/
def inARow (b c d : BitVec N) : List (Action N) :=
  [.clock b false, .clock c false, .interrupt false, .program, .program, .program, .program,
   .clock d false, .clock d false, .clock d false]

/-- After these cycles the detector has registered the vector, whatever it was, and the
    program waits with the interrupt unmasked. -/
theorem run_settle (a : BitVec N) :
    (ledDemo a true).run (settle a)
      = { sws := a, detect := ⟨a, false⟩, uio := { masked := false }, pc := .waitForInterrupt } := by
  by_cases h0 : 0#N = a
  · subst h0
    simp [Machine.run, settle, ledDemo, step, clock, interrupt, program, rises,
      EdgeDetect.posedge, Uio.reenable]
  · -- the detector takes a vector other than 0 for a change
    have hbne : (0#N != a) = true := bne_iff_ne.mpr h0
    simp [Machine.run, settle, ledDemo, step, clock, interrupt, program, rises,
      EdgeDetect.posedge, Uio.pulse, Uio.reenable, hbne]

/-- Whatever three changes follow each other in consecutive clocks, the last one can be lost:
    the output of the detector is high already, so the change raises no interrupt. -/
theorem third_change_lost {a b c d : BitVec N} (hab : a ≠ b) (hbc : b ≠ c) (hcd : c ≠ d) :
    1 ≤ ((ledDemo a true).run (settle a ++ inARow b c d)).handled ∧
      AtRest ((ledDemo a true).run (settle a ++ inARow b c d)) ∧
      ((ledDemo a true).run (settle a ++ inARow b c d)).cfg0 = some c ∧
      ((ledDemo a true).run (settle a ++ inARow b c d)).sws = d := by
  have hrun : (ledDemo a true).run (settle a ++ inARow b c d)
      = { sws := d, detect := ⟨d, false⟩, before := true,
          uio := { event := 1, listened := 1, masked := false }, pc := .waitForInterrupt,
          cfg0 := some c, handled := 1 } := by
    rw [Machine.run_append, run_settle]
    simp [Machine.run, inARow, ledDemo, step, clock, interrupt, program, rises,
      EdgeDetect.posedge, Uio.pulse, Uio.reenable, Uio.pending, hab, hbc, hcd]
  rw [hrun]
  exact ⟨Nat.le_refl 1, ⟨rfl, rfl, rfl, rfl, rfl⟩, rfl, rfl⟩

/-- The switches change in every clock while the program handles the first change, one action
    in a clock. -/
def hurried : List (Action 4) :=
  [.program, .clock 1 false, .clock 2 false, .interrupt false, .program, .clock 3 false,
   .program, .clock 4 false, .program, .clock 5 false, .program, .clock 5 false,
   .clock 5 false]

/-- The demo comes to rest with 4 on the LEDs and 5 on the switches. -/
theorem leds_stale_hurried :
    1 ≤ ((ledDemo 0 true).run hurried).handled ∧ AtRest ((ledDemo 0 true).run hurried) ∧
      ((ledDemo 0 true).run hurried).cfg0 = some 4 ∧ ((ledDemo 0 true).run hurried).sws = 5 :=
  ⟨by decide, ⟨by decide, by decide, by decide, by decide, by decide⟩, by decide, by decide⟩

end ZynqLinux.Axi4Lite
