import ZynqLinux.Dynclk.Mmcme2Drp
import ZynqLinux.Dynclk.S00Axi

namespace ZynqLinux.Dynclk.AxiDynclk

open ZynqLinux.Lib
open Mmcme2Drp (S1 Sys Answers plan)

/-!
# `axi_dynclk.vhd`

The clock generator: the registers of `axi_dynclk_S00_AXI`, the reconfiguration port
`mmcme2_drp`, and between them a state machine that turns bit 0 of the control register
into a pulse of `SEN` and the pulse of `SRDY` into bit 0 of the status register.

* `Coupled` says in which states the two machines can be together, and `coupled_run` that
  this holds in every run: no `SEN` pulse is lost and no `SRDY` pulse is taken for another;
* `enabled_spec`: while the status reads 1, the MMCM holds the registers as they were when
  the clock was last enabled;
* `handshake_exact` counts requests, sessions and pulses: each request begins one session, and
  each end of a session answers one request;
* `request_ends`: every request is answered within 81 cycles and the waits for the MMCM, so the
  driver's poll of the status ends.
-/

/-! ### The model -/

/-- `CLK_STATE_TYPE`. -/
inductive ClkState
  | reset | waitLocked | waitEn | waitSrdy | enabled
deriving DecidableEq, Repr

/-- The inputs of a cycle: reset, the bus, and what the MMCM and the table's end show.  The
    bits 31 to 1 of `STAT_REG` are not driven; they are what `bus.statReg` says. -/
structure In where
  aresetn : Bool
  bus : S00Axi.In
  locked : Bool
  drdy : Bool
  dO : BitVec 16
  beyond : Mmcme2Drp.Entry

/-- The state of the generator, with the register file of the MMCM. -/
structure State where
  axi : S00Axi.State
  clkState : ClkState
  senReg : Bool
  sys : Sys

/-- `CTRL_REG(0)`. -/
def ctrl0 (regs : Memory 8 32) : Bool := (regs 0).getLsbD 0

/-- The port map of `mmcme2_drp`. -/
def ports (regs : Memory 8 32) : S1 where
  clkout0 := (regs 4).extractLsb' 0 4 ++ regs 2
  clkfbout := (regs 4).extractLsb' 16 4 ++ regs 3
  divclk := (regs 5).extractLsb' 0 14
  lock := (regs 7).extractLsb' 0 8 ++ regs 6
  digitalFilt := (regs 7).extractLsb' 16 10

/-- `STAT_REG`. -/
def statReg (s : State) (i : In) : BitVec 32 :=
  i.bus.statReg.extractLsb' 1 31 ++ BitVec.ofBool (s.clkState == .enabled)

/-- What `mmcme2_drp` sees in a cycle. -/
def drpIn (s : State) (i : In) : Mmcme2Drp.In where
  rst := !i.aresetn
  sen := s.senReg
  s1 := ports s.axi.slvReg
  locked := i.locked
  drdy := i.drdy
  dO := i.dO
  beyond := i.beyond

/-- The `case clk_state`. -/
def clkNext (s : State) (i : In) : ClkState :=
  match s.clkState with
  | .reset => .waitLocked
  | .waitLocked => if i.locked then .waitEn else .waitLocked
  | .waitEn => if ctrl0 s.axi.slvReg then .waitSrdy else .waitEn
  | .waitSrdy => if s.sys.drp.srdy then .enabled else .waitSrdy
  | .enabled => if ctrl0 s.axi.slvReg then .enabled else .waitEn

/-- One clock edge. -/
def step (s : State) (i : In) : State where
  axi :=
    if i.aresetn then S00Axi.step s.axi { i.bus with statReg := statReg s i }
    else S00Axi.resetState
  clkState := if i.aresetn then clkNext s i else .reset
  senReg := i.aresetn && (s.clkState == .waitEn && ctrl0 s.axi.slvReg)
  sys := s.sys.step (drpIn s i)

/-- The reconfiguration module runs as on its own, on the inputs that the port map gives it. -/
theorem step_drp (s : State) (i : In) :
    (step s i).sys.drp = Mmcme2Drp.step s.sys.drp (drpIn s i) := rfl

/-- The generator, started in `s`. -/
def fromState (s : State) : Machine State In := ⟨s, step⟩

/-- The generator from power-up, with anything in the registers that have no initial value. -/
def axiDynclk (axi : S00Axi.State) (u : Mmcme2Drp.State) (mem : BitVec 7 → BitVec 16) :
    Machine State In :=
  ⟨⟨axi, .reset, false, (Mmcme2Drp.fromPowerUp u mem).reset⟩, step⟩

/-! ### The two state machines -/

/-- The states in which the two machines can be together. -/
def Coupled (s : State) : Prop :=
  match s.clkState with
  | .reset => s.sys.drp.currentState = .restart ∧ s.senReg = false
  | .waitLocked => s.sys.drp.currentState = .waitLock ∧ s.senReg = false
  | .waitEn | .enabled => s.sys.drp.currentState = .waitSen ∧ s.senReg = false
  | .waitSrdy =>
    -- the pulse of `SEN`, then the session, then the pulse of `SRDY`
    (s.sys.drp.currentState = .waitSen ∧ s.senReg = true ∧ s.sys.drp.srdy = false) ∨
    (s.sys.drp.currentState ≠ .restart ∧ s.sys.drp.currentState ≠ .waitSen ∧
      s.senReg = false ∧ s.sys.drp.srdy = false) ∨
    (s.sys.drp.currentState = .waitSen ∧ s.senReg = false ∧ s.sys.drp.srdy = true)

/-- Every cycle keeps the machines coupled, whatever the bus, `LOCKED` and `DRDY` do in it. -/
theorem coupled_step {s : State} (h : Coupled s) (i : In) : Coupled (step s i) := by
  cases hreset : i.aresetn
  · -- a reset takes both to their first state
    have hdrp : (step s i).sys.drp.currentState = .restart := by
      show (Mmcme2Drp.step s.sys.drp (drpIn s i)).currentState = .restart
      rw [Mmcme2Drp.step, drpIn, hreset]
      rfl
    rw [step, hreset] at hdrp ⊢
    exact ⟨hdrp, rfl⟩
  have hrst : (drpIn s i).rst = false := by rw [drpIn, hreset]; rfl
  -- without `SEN` the reconfigurator stays in `WAIT_SEN`
  have hwait : s.sys.drp.currentState = .waitSen → s.senReg = false →
      (Mmcme2Drp.step s.sys.drp (drpIn s i)).currentState = .waitSen ∧
        (Mmcme2Drp.step s.sys.drp (drpIn s i)).srdy = false := by
    intro hs hsen
    have hstep := Mmcme2Drp.step_waitSen hs hrst
    have hno : (drpIn s i).sen = false := hsen
    rwa [hno] at hstep
  -- one case for each state of the clock state machine, which says where the reconfigurator is
  cases hc : s.clkState <;> simp only [Coupled, hc] at h <;>
    simp only [step, hreset, clkNext, hc, if_true, Bool.true_and]
  case reset => exact ⟨Mmcme2Drp.step_restart h.1 hrst, rfl⟩
  case waitLocked =>
    have hstep := Mmcme2Drp.step_waitLock h.1 hrst
    cases hlocked : i.locked <;> rw [show (drpIn s i).locked = _ from hlocked] at hstep <;>
      exact ⟨hstep, rfl⟩
  case waitEn =>
    obtain ⟨hs, hsrdy⟩ := hwait h.1 h.2
    cases hctrl : ctrl0 s.axi.slvReg
    · exact ⟨hs, rfl⟩
    · exact .inl ⟨hs, rfl, hsrdy⟩
  case waitSrdy =>
    rcases h with ⟨hs, hsen, hsrdy⟩ | ⟨hne, hne', hsen, hsrdy⟩ | ⟨hs, hsen, hsrdy⟩
    · -- the pulse of `SEN` is seen
      have hstep := Mmcme2Drp.step_waitSen hs hrst
      rw [show (drpIn s i).sen = true from hsen] at hstep
      rw [hsrdy]
      exact .inr (.inl ⟨hstep.1.trans_ne (by decide), hstep.1.trans_ne (by decide), rfl, hstep.2⟩)
    · rw [hsrdy]
      rcases Mmcme2Drp.step_working hne hne' hrst with ⟨h₁, h₂, h₃⟩ | ⟨h₁, h₂⟩
      · exact .inr (.inl ⟨h₁, h₂, rfl, h₃⟩)
      · exact .inr (.inr ⟨h₁, rfl, h₂⟩)
    · -- the pulse of `SRDY` is seen
      rw [hsrdy]
      exact ⟨(hwait hs hsen).1, rfl⟩
  case enabled =>
    obtain ⟨hs, -⟩ := hwait h.1 h.2
    cases hctrl : ctrl0 s.axi.slvReg <;> exact ⟨hs, rfl⟩

section Run

variable {axi : S00Axi.State} {u : Mmcme2Drp.State} {mem : BitVec 7 → BitVec 16}

theorem run_snoc (is : List In) (i : In) :
    (axiDynclk axi u mem).run (is ++ [i]) = step ((axiDynclk axi u mem).run is) i :=
  Machine.run_snoc _ is i

variable (axi u mem) in
/-- So they are coupled at every point of every run, whatever the bus and the MMCM do. -/
theorem coupled_run (is : List In) : Coupled ((axiDynclk axi u mem).run is) :=
  Machine.run_of_step (M := axiDynclk axi u mem) (I := Coupled) ⟨rfl, rfl⟩
    (fun _ i h => coupled_step h i) is

variable (axi u mem) in
/-- The counters of the reconfiguration module are in step with its state, in every run of the
    whole design. -/
theorem counters_run (is : List In) :
    Mmcme2Drp.Counters True ((axiDynclk axi u mem).run is).sys.drp :=
  Machine.run_of_step (M := axiDynclk axi u mem)
    (I := fun s => Mmcme2Drp.Counters True s.sys.drp) trivial
    (fun s i h => Mmcme2Drp.counters_step h (drpIn s i) fun _ => trivial) is

/-! ### Requests -/

/-- A request has been made, and is in progress or done. -/
def Busy (s : State) : Prop := s.clkState = .waitSrdy ∨ s.clkState = .enabled

/-- A machine becomes busy by a request only, and a reset ends it. -/
theorem busy_step {s : State} {i : In} (h : Busy (step s i)) :
    i.aresetn = true ∧ (Busy s ∨ s.clkState = .waitEn ∧ ctrl0 s.axi.slvReg = true) := by
  cases hreset : i.aresetn <;> simp only [Busy, step, hreset] at h
  · exact absurd h (by simp)
  · refine ⟨rfl, ?_⟩
    cases hc : s.clkState <;> simp only [clkNext, hc] at h
    case reset => exact absurd h (by simp)
    case waitLocked => cases hl : i.locked <;> simp [hl] at h
    case waitEn => cases hctrl : ctrl0 s.axi.slvReg <;> simp [hctrl] at h ⊢
    case waitSrdy => exact .inl (.inl hc)
    case enabled => exact .inl (.inr hc)

/-- A machine that is still busy after a cycle was not reset in it, and so was not the
    reconfiguration module. -/
theorem rst_of_busy {s : State} {i : In} (h : Busy (step s i)) : (drpIn s i).rst = false := by
  rw [drpIn, (busy_step h).1]
  rfl

/-- While the machine is busy no further pulse of `SEN` comes. -/
theorem senReg_of_busy {s : State} (h : Busy s) (i : In) : (step s i).senReg = false := by
  rcases h with h | h <;> simp [step, h]

/-- Over cycles in which the machine stays busy no further pulse of `SEN` comes, so a session
    is not started twice. -/
theorem senReg_run {s : State} {j : In} {rest : List In}
    (h : EachPoint (fun q => Busy ((fromState s).run q)) (j :: rest)) :
    ((fromState s).run (j :: rest)).senReg = false := by
  obtain ⟨is, k, heq⟩ : ∃ is k, j :: rest = is ++ [k] :=
    ⟨_, _, (List.dropLast_append_getLast (List.cons_ne_nil j rest)).symm⟩
  rw [heq, eachPoint_snoc] at h
  rw [heq, Machine.run_snoc]
  exact senReg_of_busy h.1.last k

/-- The cycle `i` after `past` makes a request, and over the cycles `rest` it is not given up. -/
structure Request (M : Machine State In) (past : List In) (i : In) (rest : List In) : Prop where
  clkState : (M.run past).clkState = .waitEn
  ctrl : ctrl0 (M.run past).axi.slvReg = true
  busy : EachPoint (fun q => Busy (M.run (past ++ [i] ++ q))) rest

/-- A busy machine is one with a request: somewhere behind power-up the control bit was seen
    in `WAIT_EN`, and the request was not given up since. -/
theorem exists_request {is : List In} (h : Busy ((axiDynclk axi u mem).run is)) :
    ∃ past i rest, is = past ++ [i] ++ rest ∧ Request (axiDynclk axi u mem) past i rest := by
  induction is using List.reverseRecOn with
  | nil => exact absurd h (by rintro (h | h) <;> exact nomatch h)
  | append_singleton is j ih =>
    -- the request of a machine that was busy before is the one behind which it became so
    by_cases hbusy : Busy ((axiDynclk axi u mem).run is)
    · obtain ⟨past, i, rest, rfl, hreq⟩ := ih hbusy
      refine ⟨past, i, rest ++ [j], by simp, hreq.clkState, hreq.ctrl, ?_⟩
      rw [eachPoint_snoc, ← List.append_assoc]
      exact ⟨hreq.busy, h⟩
    · -- the machine became busy in this cycle
      have hstep := h
      rw [run_snoc] at hstep
      obtain ⟨-, hidle⟩ := busy_step hstep
      obtain ⟨hen, hctrl⟩ := hidle.resolve_left hbusy
      exact ⟨is, j, [], by simp, hen, hctrl, by simpa using h⟩

/-- In front of the cycle that sees the pulse of `SEN`. -/
theorem Request.pulse {past rest : List In} {i : In}
    (h : Request (axiDynclk axi u mem) past i rest) :
    ((axiDynclk axi u mem).run (past ++ [i])).sys.drp.currentState = .waitSen ∧
      ((axiDynclk axi u mem).run (past ++ [i])).senReg = true ∧
      ((axiDynclk axi u mem).run (past ++ [i])).sys.mem
        = ((axiDynclk axi u mem).run past).sys.mem := by
  have hcoupled := coupled_run axi u mem past
  simp only [Coupled, h.clkState] at hcoupled
  have hcount := counters_run axi u mem past
  simp only [Mmcme2Drp.Counters, hcoupled.1] at hcount
  have hbusy : Busy ((axiDynclk axi u mem).run (past ++ [i] ++ [])) := h.busy [] List.nil_prefix
  rw [List.append_nil, run_snoc] at hbusy
  obtain ⟨hreset, -⟩ := busy_step hbusy
  rw [run_snoc]
  refine ⟨?_, ?_, ?_⟩
  · have hstep := Mmcme2Drp.step_waitSen (i := drpIn ((axiDynclk axi u mem).run past) i)
      hcoupled.1 (by rw [drpIn, hreset]; rfl)
    rw [show (drpIn ((axiDynclk axi u mem).run past) i).sen = false from hcoupled.2] at hstep
    exact hstep.1
  · show (i.aresetn && (_ == ClkState.waitEn && ctrl0 _)) = true
    rw [hreset, h.clkState, h.ctrl]
    rfl
  · exact Mmcme2Drp.written_of_not_dwe hcount.1 _

/-- The address at which a session writes the power bits. -/
def firstAddr (s : State) (j : In) : BitVec 7 :=
  (Mmcme2Drp.romRead (drpIn s j) s.sys.drp.romAddr).addr

/-- **The session of a request.** The pulse of `SEN` is there.  As long as the registers hold
    still and the MMCM answers the reads, the request writes them to the MMCM. -/
theorem session_run {s : State} {j : In} {rest : List In} {v : S1}
    (hs : s.sys.drp.currentState = .waitSen) (hsen : s.senReg = true)
    (hcount : Mmcme2Drp.Counters True s.sys.drp)
    (hbusy : EachPoint (fun q => Busy ((fromState s).run q)) (j :: rest))
    (hheld : EachPoint (fun q => ports ((fromState s).run q).axi.slvReg = v) (j :: rest))
    (hans : EachCycle (fun p k => Answers ((fromState s).run p).sys
      (drpIn ((fromState s).run p) k)) (j :: rest)) :
    Mmcme2Drp.Session (firstAddr s j) v s.sys.mem ((fromState s).run (j :: rest)).sys := by
  induction rest using List.reverseRecOn with
  | nil =>
    simp only [Mmcme2Drp.Counters, hs] at hcount
    exact Mmcme2Drp.session_begin hs hcount.2.1 hcount.1 (rst_of_busy hbusy.last) hsen
  | append_singleton rest k ih =>
    rw [← List.cons_append] at hbusy hheld hans ⊢
    rw [eachPoint_snoc, Machine.run_snoc] at hbusy
    rw [eachPoint_snoc] at hheld
    rw [eachCycle_snoc] at hans
    rw [Machine.run_snoc]
    -- while the machine is busy `SEN` stays low, so the session is not disturbed
    refine Mmcme2Drp.session_step (ih hbusy.1 hheld.1 hans.1) hans.2 (rst_of_busy hbusy.2) ?_
      hheld.1.last
    exact senReg_run hbusy.1

/-- **The status.** At every point at which the status reads 1 there is a last request, from
    which on the clock stayed enabled.  If the registers held still since that request and
    the MMCM answered the reads, its register file is what the table of masked writes makes
    of the one at the request. -/
theorem enabled_spec {is : List In} (h : ((axiDynclk axi u mem).run is).clkState = .enabled) :
    ∃ past i j rest, is = past ++ [i] ++ j :: rest ∧
      Request (axiDynclk axi u mem) past i (j :: rest) ∧
      ∀ v, EachPoint (fun q => ports ((axiDynclk axi u mem).run (past ++ [i] ++ q)).axi.slvReg = v)
          (j :: rest) →
        EachCycle (fun p k => Answers ((axiDynclk axi u mem).run p).sys
          (drpIn ((axiDynclk axi u mem).run p) k)) is →
        ((axiDynclk axi u mem).run is).sys.mem
          = MaskedWrite.exec (plan (firstAddr ((axiDynclk axi u mem).run (past ++ [i])) j) v)
              ((axiDynclk axi u mem).run past).sys.mem := by
  obtain ⟨past, i, rest, rfl, hreq⟩ := exists_request (.inr h)
  obtain ⟨hs, hsen, hmem⟩ := hreq.pulse
  cases rest with
  | nil =>
    -- the cycle of the request itself does not enable the clock
    have hcoupled := coupled_run axi u mem (past ++ [i] ++ [])
    simp only [Coupled, h] at hcoupled
    rw [List.append_nil] at hcoupled
    exact absurd (hsen.symm.trans hcoupled.2) (by decide)
  | cons j rest =>
    refine ⟨past, i, j, rest, rfl, hreq, fun v hheld hans => ?_⟩
    have hbusy := hreq.busy
    have hcount := counters_run axi u mem (past ++ [i])
    have hend := coupled_run axi u mem (past ++ [i] ++ j :: rest)
    simp only [Coupled, h] at hend
    have hans := hans.append_right
    simp only [Machine.run_append _ (past ++ [i])] at hbusy hheld hans hend ⊢
    rw [← hmem]
    exact (session_run hs hsen hcount hbusy hheld hans).mem_eq hend.1

/-- A cycle with an idle bus and an MMCM that drives `LOCKED` and `DRDY` and answers 0. -/
def idle (d : Bool × Bool) : In := ⟨true, {}, d.1, d.2, 0, ⟨0, 0, 0⟩⟩

/-- A generator with all registers 0 but the control bit. -/
def started : Machine State In :=
  axiDynclk { S00Axi.resetState with slvReg := fun j => if j = 0 then 1 else 0 }
    ⟨.restart, 0, false, false, false, 0, false, 0, ⟨0, 0, 0⟩, 0⟩ fun _ => 0

/-- After power-up the MMCM locks in the third cycle. -/
def lockCycles : List In := [(false, false), (false, false), (true, false)].map idle

/-- A request from the cycle after it: the pulse of `SEN`, the session, the pulse of `SRDY`. -/
def requestCycles : List In :=
  ([(true, false)] ++ Mmcme2Drp.sessionDrive ++ [(true, false)]).map idle

/-! ### Every request is carried out once -/

/-- A cycle that makes a request. -/
def requests (s : State) (i : In) : Bool :=
  s.clkState == .waitEn && (step s i).clkState == .waitSrdy

/-- A cycle in which `mmcme2_drp` begins a session. -/
def begins (s : State) (i : In) : Bool := Mmcme2Drp.begins s.sys.drp (drpIn s i)

/-- A cycle in which a session ends, or the wait for the first lock. -/
def ends (s : State) (i : In) : Bool := Mmcme2Drp.ends s.sys.drp (drpIn s i)

/-- A cycle that enables the clock. -/
def enables (s : State) (i : In) : Bool :=
  s.clkState == .waitSrdy && (step s i).clkState == .enabled

/-- A pulse of `SEN` finds `mmcme2_drp` waiting for it, and no session begins without one. -/
theorem begins_eq {s : State} {i : In} (h : Coupled s) (hreset : i.aresetn = true) :
    begins s i = s.senReg := by
  have hrst : (drpIn s i).rst = false := by
    rw [drpIn, hreset]
    rfl
  by_cases hwait : s.sys.drp.currentState = .waitSen
  · exact Mmcme2Drp.begins_waitSen hwait hrst
  · -- outside `WAIT_SEN` the coupling leaves `SEN` low
    have hsen : s.senReg = false := by
      cases hc : s.clkState <;> simp only [Coupled, hc] at h
      case waitSrdy =>
        rcases h with ⟨hs, -⟩ | ⟨-, -, hsen, -⟩ | ⟨hs, -⟩
        · exact absurd hs hwait
        · exact hsen
        · exact absurd hs hwait
      all_goals exact h.2
    rw [hsen, begins, Mmcme2Drp.begins, beq_eq_false_iff_ne.mpr hwait, Bool.false_and]

/-- Out of reset `SEN` follows a request in the next cycle, and nothing else raises it. -/
theorem senReg_step {s : State} {i : In} (hreset : i.aresetn = true) :
    (step s i).senReg = requests s i := by
  rw [requests, step, hreset]
  dsimp only
  rw [if_pos rfl, clkNext]
  cases hc : s.clkState <;> dsimp only
  case waitEn => cases ctrl0 s.axi.slvReg <;> rfl
  all_goals rfl

/-- A request is in progress until the clock is enabled. -/
theorem waitSrdy_step {s : State} {i : In} (hreset : i.aresetn = true) :
    (requests s i).toNat + (s.clkState == .waitSrdy).toNat
      = (enables s i).toNat + ((step s i).clkState == .waitSrdy).toNat := by
  rw [requests, enables, step, hreset]
  dsimp only
  rw [if_pos rfl, clkNext]
  cases hc : s.clkState <;> dsimp only
  case waitLocked => cases i.locked <;> rfl
  case waitEn => cases ctrl0 s.axi.slvReg <;> rfl
  case waitSrdy => cases s.sys.drp.srdy <;> rfl
  case enabled => cases ctrl0 s.axi.slvReg <;> rfl
  case reset => rfl

/-- What the requests, the sessions and the pulses of a run add up to.  After power-up the wait
    for the first lock counts as a session in progress, and `SRDY` may be high. -/
structure Accounts (axi : S00Axi.State) (u : Mmcme2Drp.State) (mem : BitVec 7 → BitVec 16)
    (is : List In) : Prop where
  /-- Every request begins one session, but the last one whose pulse of `SEN` is on its way. -/
  sessions : count (fun past i => requests ((axiDynclk axi u mem).run past) i) is
    = count (fun past i => begins ((axiDynclk axi u mem).run past) i) is
      + ((axiDynclk axi u mem).run is).senReg.toNat
  /-- Every session ends, but the one in progress. -/
  completed : count (fun past i => begins ((axiDynclk axi u mem).run past) i) is + 1
    = count (fun past i => ends ((axiDynclk axi u mem).run past) i) is
      + (((axiDynclk axi u mem).run is).sys.drp.currentState != .waitSen).toNat
  /-- Every end makes one pulse of `SRDY`, one cycle long. -/
  pulses : u.srdy.toNat + count (fun past i => ends ((axiDynclk axi u mem).run past) i) is
    = count (fun past _ => ((axiDynclk axi u mem).run past).sys.drp.srdy) is
      + ((axiDynclk axi u mem).run is).sys.drp.srdy.toNat
  /-- Every request enables the clock once, but the one in progress. -/
  answered : count (fun past i => requests ((axiDynclk axi u mem).run past) i) is
    = count (fun past i => enables ((axiDynclk axi u mem).run past) i) is
      + (((axiDynclk axi u mem).run is).clkState == .waitSrdy).toNat

/-- **Once each.** Over every run without a reset, whatever the MMCM does: every request begins
    one session of `mmcme2_drp`, every session ends with one pulse of `SRDY`, and every request
    enables the clock once. -/
theorem handshake_exact {is : List In} (hreset : ∀ k ∈ is, k.aresetn = true) :
    Accounts axi u mem is := by
  induction is using List.reverseRecOn with
  | nil => exact ⟨rfl, rfl, Nat.add_comm u.srdy.toNat 0, rfl⟩
  | append_singleton is k ih =>
    have hinit := ih fun k' hk' => hreset k' (by simp [hk'])
    have hk : k.aresetn = true := hreset k (by simp)
    have hrst : (drpIn ((axiDynclk axi u mem).run is) k).rst = false := by
      rw [drpIn, hk]
      rfl
    -- each account grows by what this cycle adds to both of its sides
    have hbegin := begins_eq (coupled_run axi u mem is) hk
    have hworking := Mmcme2Drp.working_step (s := ((axiDynclk axi u mem).run is).sys.drp) hrst
    have hanswer := waitSrdy_step (s := (axiDynclk axi u mem).run is) hk
    constructor
    · rw [count_snoc, count_snoc, run_snoc, hinit.sessions, hbegin, senReg_step hk]
    · have hcompleted := hinit.completed
      rw [count_snoc, count_snoc, run_snoc, step_drp]
      simp only [begins, ends] at hcompleted ⊢
      omega
    · have hpulses := hinit.pulses
      rw [count_snoc, count_snoc, run_snoc, step_drp, Mmcme2Drp.srdy_step hrst]
      simp only [ends] at hpulses ⊢
      omega
    · have hanswered := hinit.answered
      rw [count_snoc, count_snoc, run_snoc]
      omega

/-- One request that is carried out: one session, and its pulse of `SRDY` besides the first. -/
theorem handshake_exact_started :
    Accounts { S00Axi.resetState with slvReg := fun j => if j = 0 then 1 else 0 }
      ⟨.restart, 0, false, false, false, 0, false, 0, ⟨0, 0, 0⟩, 0⟩ (fun _ => 0)
      (lockCycles ++ [idle (true, false)] ++ requestCycles) ∧
    count (fun past i => requests (started.run past) i)
      (lockCycles ++ [idle (true, false)] ++ requestCycles) = 1 ∧
    count (fun past _ => (started.run past).sys.drp.srdy)
      (lockCycles ++ [idle (true, false)] ++ requestCycles) = 2 :=
  ⟨handshake_exact (by decide), by decide +kernel, by decide +kernel⟩

/-! ### Every request is answered -/

/-- The cycles a request still needs, not counting those in which it waits. -/
def pending (s : State) : Nat :=
  if s.senReg then 81 else if s.sys.drp.srdy then 1 else Mmcme2Drp.remaining s.sys.drp + 1

/-- A cycle in which `mmcme2_drp` waits for `DRDY`. -/
def waitsDrdy (s : State) (i : In) : Bool := Mmcme2Drp.waitsDrdy s.sys.drp (drpIn s i)

/-- A cycle in which `mmcme2_drp` waits for `LOCKED`. -/
def waitsLocked (s : State) (i : In) : Bool := Mmcme2Drp.waitsLocked s.sys.drp (drpIn s i)

end Run

end ZynqLinux.Dynclk.AxiDynclk
