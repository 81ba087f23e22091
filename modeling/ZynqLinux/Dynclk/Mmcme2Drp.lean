import Mathlib.Tactic.Common
import ZynqLinux.Lib.History
import ZynqLinux.Lib.MaskedWrite

namespace ZynqLinux.Dynclk.Mmcme2Drp

open ZynqLinux.Lib

/-!
# `mmcme2_drp.v`

The reconfiguration port of the clock generator: on a pulse of `SEN` a state machine goes
through a table of thirteen registers of the MMCM and makes one read-modify-write of each,
with the MMCM held in reset, then waits for the lock and pulses `SRDY`.

* `rom`, `next` and `step` are the module;
* `Sys` adds the register file behind the port.  The MMCM is not part of the repository:
  what it drives (`DRDY`, `DO`, `LOCKED`) is an input of the cycle, and `Answers` is the
  assumption on `DO`;
* `session_spec` is the result: whatever the waits, a session leaves the register file as
  the table of masked writes `plan` does, and `session_ends` says that it ends after 79 cycles
  and the waits for `DRDY` and `LOCKED`;
* the table is read one cycle late, so the address of its first entry depends on where
  `rom_addr` stood when `SEN` came: `first_session` and `later_session`.
-/

/-! ### The table -/

/-- The `S1_` ports. -/
structure S1 where
  clkout0 : BitVec 36
  clkfbout : BitVec 36
  divclk : BitVec 14
  lock : BitVec 40
  digitalFilt : BitVec 10
deriving DecidableEq, Repr

/-- A word of the table: the address, the bits to keep, the bits to set. -/
abbrev Entry := MaskedWrite (BitVec 7) 16

/-- `rom`; the first entry stores the power bits. -/
def rom (s1 : S1) : List Entry :=
  [⟨0x28, 0x0000, 0xFFFF⟩,
   -- CLKOUT0 divide and phase
   ⟨0x08, 0x1000, s1.clkout0.extractLsb' 0 16⟩,
   ⟨0x09, 0x8000, s1.clkout0.extractLsb' 16 16⟩,
   -- CLKOUT0 and CLKFBOUT additional frac values
   ⟨0x07, 0xC3FF, 0#2 ++ s1.clkout0.extractLsb' 32 4 ++ 0#10⟩,
   ⟨0x13, 0xC3FF, 0#2 ++ s1.clkfbout.extractLsb' 32 4 ++ 0#10⟩,
   -- the input divider
   ⟨0x16, 0xC000, 0#2 ++ s1.divclk⟩,
   -- CLKFBOUT divide and phase
   ⟨0x14, 0x1000, s1.clkfbout.extractLsb' 0 16⟩,
   ⟨0x15, 0x8000, s1.clkfbout.extractLsb' 16 16⟩,
   -- the lock settings
   ⟨0x18, 0xFC00, 0#6 ++ s1.lock.extractLsb' 20 10⟩,
   ⟨0x19, 0x8000, 0#1 ++ s1.lock.extractLsb' 30 5 ++ s1.lock.extractLsb' 0 10⟩,
   ⟨0x1A, 0x8000, 0#1 ++ s1.lock.extractLsb' 35 5 ++ s1.lock.extractLsb' 10 10⟩,
   -- the filter settings
   ⟨0x4E, 0x66FF, s1.digitalFilt.extractLsb' 9 1 ++ 0#2 ++ s1.digitalFilt.extractLsb' 7 2 ++ 0#2
      ++ s1.digitalFilt.extractLsb' 6 1 ++ 0#8⟩,
   ⟨0x4F, 0x666F, s1.digitalFilt.extractLsb' 5 1 ++ 0#2 ++ s1.digitalFilt.extractLsb' 3 2 ++ 0#2
      ++ s1.digitalFilt.extractLsb' 1 2 ++ 0#2 ++ s1.digitalFilt.extractLsb' 0 1 ++ 0#4⟩]

/-- The table has 13 entries, as many as `STATE_COUNT_CONST` says. -/
@[simp] theorem length_rom (s1 : S1) : (rom s1).length = 13 := rfl

/-! ### The state machine -/

/-- `current_state`. -/
inductive Fsm
  | restart | waitLock | waitSen | address | waitADrdy | bitmask | bitset | write | waitDrdy
deriving DecidableEq, Repr

/-- The registers of the module. -/
structure State where
  currentState : Fsm
  daddr : BitVec 7
  dwe : Bool
  den : Bool
  rstMmcm : Bool
  di : BitVec 16
  srdy : Bool
  romAddr : BitVec 4
  romDo : Entry
  stateCount : BitVec 4
deriving DecidableEq

/-- The inputs of a cycle.  `beyond` is what a read of the table past its end gives, which
    the language leaves open. -/
structure In where
  rst : Bool
  sen : Bool
  s1 : S1
  locked : Bool
  drdy : Bool
  dO : BitVec 16
  beyond : Entry

/-- `STATE_COUNT_CONST`. -/
def stateCountConst : BitVec 4 := 13

/-- `rom[rom_addr]`. -/
def romRead (i : In) (romAddr : BitVec 4) : Entry := (rom i.s1).getD romAddr.toNat i.beyond

/-- The `always @*` block, and the register behind the table: all registers after the clock
    edge, if `RST` is low. -/
def next (s : State) (i : In) : State :=
  let d := { s with srdy := false, dwe := false, den := false, romDo := romRead i s.romAddr }
  match s.currentState with
  | .restart =>
    { d with daddr := 0, di := 0, romAddr := 0, rstMmcm := true, currentState := .waitLock }
  | .waitLock =>
    let d := { d with rstMmcm := false, stateCount := stateCountConst }
    if i.locked then { d with currentState := .waitSen, srdy := true } else d
  -- back to address 0, but `rom_do` shows the entry of the old address for a cycle more
  | .waitSen => if i.sen then { d with romAddr := 0, currentState := .address } else d
  | .address =>
    { d with rstMmcm := true, den := true, daddr := s.romDo.addr, currentState := .waitADrdy }
  | .waitADrdy => if i.drdy then { d with currentState := .bitmask } else d
  | .bitmask => { d with di := s.romDo.mask &&& i.dO, currentState := .bitset }
  | .bitset =>
    { d with di := s.romDo.set ||| s.di, romAddr := s.romAddr + 1, currentState := .write }
  | .write =>
    { d with dwe := true, den := true, stateCount := s.stateCount - 1, currentState := .waitDrdy }
  | .waitDrdy =>
    if i.drdy then
      if s.stateCount > 0 then { d with currentState := .address }
      else { d with currentState := .waitLock }
    else d

/-- One clock edge; the reset is synchronous and of `current_state` only. -/
def step (s : State) (i : In) : State :=
  if i.rst then { next s i with currentState := .restart } else next s i

/-- The registers at power-up: two have initial values, the others may hold anything. -/
def powerUp (s : State) : State :=
  { s with currentState := .restart, stateCount := stateCountConst }

/-! ### One edge, seen from the handshake -/

/-- Out of reset the machine waits for the first lock. -/
theorem step_restart {s : State} {i : In} (hs : s.currentState = .restart) (hrst : i.rst = false) :
    (step s i).currentState = .waitLock := by
  rw [step, hrst, if_neg Bool.false_ne_true, next, hs]

/-- It waits until `LOCKED` is high, at the start and at the end of every session. -/
theorem step_waitLock {s : State} {i : In} (hs : s.currentState = .waitLock)
    (hrst : i.rst = false) :
    (step s i).currentState = if i.locked then .waitSen else .waitLock := by
  rw [step, hrst, if_neg Bool.false_ne_true, next, hs]
  dsimp only
  split <;> rfl

/-- `SEN` is looked at in `WAIT_SEN` only, so a pulse during a session is lost. -/
theorem step_waitSen {s : State} {i : In} (hs : s.currentState = .waitSen) (hrst : i.rst = false) :
    (step s i).currentState = (if i.sen then .address else .waitSen) ∧ (step s i).srdy = false := by
  rw [step, hrst, if_neg Bool.false_ne_true, next, hs]
  dsimp only
  split <;> exact ⟨rfl, rfl⟩

/-- A session goes on, or it ends with a pulse of `SRDY`. -/
theorem step_working {s : State} {i : In} (hrestart : s.currentState ≠ .restart)
    (hsen : s.currentState ≠ .waitSen) (hrst : i.rst = false) :
    ((step s i).currentState ≠ .restart ∧ (step s i).currentState ≠ .waitSen ∧
      (step s i).srdy = false) ∨
    ((step s i).currentState = .waitSen ∧ (step s i).srdy = true) := by
  rw [step, hrst, if_neg Bool.false_ne_true, next]
  -- `SRDY` is raised on the way out of `WAIT_LOCK`, which is the way back to `WAIT_SEN`
  cases hs : s.currentState <;> dsimp only
  case restart => exact absurd hs hrestart
  case waitSen => exact absurd hs hsen
  case waitLock =>
    split
    · exact .inr ⟨rfl, rfl⟩
    · exact .inl ⟨nofun, nofun, rfl⟩
  case waitADrdy => split <;> exact .inl ⟨nofun, nofun, rfl⟩
  case waitDrdy =>
    split
    · split <;> exact .inl ⟨nofun, nofun, rfl⟩
    · exact .inl ⟨nofun, nofun, rfl⟩
  all_goals exact .inl ⟨nofun, nofun, rfl⟩

/-- A cycle in which a session begins. -/
def begins (s : State) (i : In) : Bool :=
  s.currentState == .waitSen && (step s i).currentState == .address

/-- A cycle in which a session ends, or the first wait for the lock after a reset. -/
def ends (s : State) (i : In) : Bool :=
  s.currentState == .waitLock && (step s i).currentState == .waitSen

/-- In `WAIT_SEN` a session begins with the pulse of `SEN`, in a cycle without a reset. -/
theorem begins_waitSen {s : State} {i : In} (hs : s.currentState = .waitSen) (hrst : i.rst = false) :
    begins s i = i.sen := by
  rw [begins, hs, (step_waitSen hs hrst).1]
  cases i.sen <;> rfl

/-- `WAIT_SEN` is left by the begin of a session only, and reached by an end only. -/
theorem working_step {s : State} {i : In} (hrst : i.rst = false) :
    (begins s i).toNat + (s.currentState != .waitSen).toNat
      = (ends s i).toNat + ((step s i).currentState != .waitSen).toNat := by
  rw [begins, ends, step, hrst, if_neg Bool.false_ne_true, next]
  cases hs : s.currentState <;> dsimp only
  case waitLock => cases i.locked <;> rfl
  all_goals
    repeat' split
    all_goals rfl

/-- `SRDY` is high in the cycle after an end. -/
theorem srdy_step {s : State} {i : In} (hrst : i.rst = false) : (step s i).srdy = ends s i := by
  rw [ends, step, hrst, if_neg Bool.false_ne_true, next]
  cases hs : s.currentState <;> dsimp only
  case waitLock => cases i.locked <;> rfl
  all_goals
    repeat' split
    all_goals rfl

/-! ### The port and the register file behind it -/

/-- The module and the register file.  `reading` is the address the port was last asked to
    read, if its last access was a read, and `answered` says that `DRDY` was high in the
    cycle before. -/
structure Sys where
  drp : State
  mem : BitVec 7 → BitVec 16
  reading : Option (BitVec 7)
  answered : Bool

/-- The register file at a clock edge. -/
def written (s : State) (mem : BitVec 7 → BitVec 16) : BitVec 7 → BitVec 16 :=
  if s.den && s.dwe then Function.update mem s.daddr s.di else mem

/-- One clock edge of both. -/
def Sys.step (s : Sys) (i : In) : Sys where
  drp := Mmcme2Drp.step s.drp i
  mem := written s.drp s.mem
  reading := if s.drp.den then (if s.drp.dwe then none else some s.drp.daddr) else s.reading
  answered := i.drdy

/-- The system, started in `s`. -/
def sys (s : Sys) : Machine Sys In := ⟨s, Sys.step⟩

/-- After `DRDY` has answered a read, `DO` shows the register that was read. -/
def Answers (s : Sys) (i : In) : Prop := s.answered = true → ∀ a ∈ s.reading, i.dO = s.mem a

instance (s : Sys) (i : In) : Decidable (Answers s i) :=
  inferInstanceAs (Decidable (s.answered = true → ∀ a ∈ s.reading, i.dO = s.mem a))

/-! ### The counters, over every run -/

/-- What the counters are in each state.  Between two sessions `rom_addr` is where the last
    session left it, or 0 if there was none since the last restart; `fresh` says whether
    that is possible. -/
def Counters (fresh : Prop) (s : State) : Prop :=
  match s.currentState with
  | .restart => fresh
  | .waitLock => s.dwe = false ∧ (fresh ∧ s.romAddr = 0 ∨ s.romAddr = 13)
  | .waitSen => s.dwe = false ∧ s.stateCount = 13 ∧ (fresh ∧ s.romAddr = 0 ∨ s.romAddr = 13)
  | .address | .waitADrdy | .bitmask | .bitset =>
    s.dwe = false ∧ 0 < s.stateCount.toNat ∧ s.romAddr.toNat + s.stateCount.toNat = 13
  | .write => s.dwe = false ∧ 0 < s.stateCount.toNat ∧ s.romAddr.toNat + s.stateCount.toNat = 14
  | .waitDrdy => s.romAddr.toNat + s.stateCount.toNat = 13

/-- The ROM address does not wrap while it is below 15. -/
theorem toNat_add_one {x : BitVec 4} (h : x.toNat < 15) : (x + 1).toNat = x.toNat + 1 := by
  bv_omega

/-- The state counter does not wrap while it is above zero. -/
theorem toNat_sub_one {x : BitVec 4} (h : 0 < x.toNat) : (x - 1).toNat = x.toNat - 1 := by
  bv_omega

/-- Every cycle keeps the counters, unless it is a reset after which no fresh session is
    allowed. -/
theorem counters_step {fresh : Prop} {s : State} (h : Counters fresh s) (i : In)
    (hrst : i.rst = true → fresh) : Counters fresh (step s i) := by
  unfold step
  split
  · next hi => exact hrst hi
  · clear hrst
    unfold next
    cases hs : s.currentState <;> simp only [Counters, hs] at h
    case restart => exact ⟨rfl, .inl ⟨h, rfl⟩⟩
    case waitLock =>
      dsimp only
      split
      · exact ⟨rfl, rfl, h.2⟩
      · exact ⟨rfl, h.2⟩
    case waitSen =>
      dsimp only
      split
      · exact ⟨rfl, by simp [h.2.1]⟩
      · exact ⟨rfl, h.2⟩
    case address => exact ⟨rfl, h.2⟩
    case waitADrdy =>
      dsimp only
      split
      · exact ⟨rfl, h.2⟩
      · exact ⟨rfl, h.2⟩
    case bitmask => exact ⟨rfl, h.2⟩
    case bitset =>
      -- the ROM address goes up in `BITSET`, and the counter down in `WRITE`
      have hadd := toNat_add_one (x := s.romAddr) (by omega)
      exact ⟨rfl, h.2.1, by dsimp only; omega⟩
    case write =>
      have hsub := toNat_sub_one h.2.1
      simp only [Counters]
      omega
    case waitDrdy =>
      dsimp only
      split
      · split
        · next hcount => exact ⟨rfl, BitVec.lt_def.mp hcount, h⟩
        · next hcount =>
          -- the counter has run out: the address is 13 and stays there
          have hzero : s.stateCount.toNat = 0 := by bv_omega
          exact ⟨rfl, .inr (BitVec.eq_of_toNat_eq (by simpa [hzero] using h))⟩
      · exact h

/-! ### A session -/

/-- The table with the address of its first entry replaced. -/
def plan (addr : BitVec 7) (s1 : S1) : List Entry :=
  (rom s1).modifyHead fun e => { e with addr := addr }

/-- A session makes 13 accesses, whatever the address of the first one is. -/
theorem length_plan (addr : BitVec 7) (s1 : S1) : (plan addr s1).length = 13 := rfl

/-- The addresses of the table, after the first. -/
theorem map_addr_tail_rom (s1 : S1) :
    (rom s1).tail.map MaskedWrite.addr
      = [0x08, 0x09, 0x07, 0x13, 0x16, 0x14, 0x15, 0x18, 0x19, 0x1A, 0x4E, 0x4F] := rfl

/-- The first entry of the plan stores the power bits whatever was there. -/
theorem exec_plan (addr : BitVec 7) (s1 : S1) (mem : BitVec 7 → BitVec 16) :
    MaskedWrite.exec (plan addr s1) mem
      = MaskedWrite.exec (rom s1).tail (Function.update mem addr 0xFFFF) := by
  have hplan : plan addr s1 = ⟨addr, 0, 0xFFFF⟩ :: (rom s1).tail := rfl
  rw [hplan, MaskedWrite.exec_cons, MaskedWrite.apply, MaskedWrite.value]
  simp

/-- What the port reads from the table at an index, apart from the first address. -/
theorem romRead_of_plan {addr : BitVec 7} {i : In} {k : BitVec 4} {e : Entry}
    (he : (plan addr i.s1)[k.toNat]? = some e) :
    (romRead i k).mask = e.mask ∧ (romRead i k).set = e.set ∧
      (0 < k.toNat → romRead i k = e) := by
  rw [romRead, List.getD_eq_getElem?_getD]
  cases hk : k.toNat with
  | zero =>
    rw [hk] at he
    -- the plan differs from the ROM in the first entry's address alone
    obtain rfl := Option.some.inj he
    exact ⟨rfl, rfl, fun h => absurd h (Nat.lt_irrefl 0)⟩
  | succ n =>
    rw [hk] at he
    have hrom : (rom i.s1)[n + 1]? = some e := he
    rw [hrom]
    exact ⟨rfl, rfl, fun _ => rfl⟩

/-- Entry `k` of the plan is in progress, and those before it are written. -/
structure Working (addr : BitVec 7) (v : S1) (mem₀ : BitVec 7 → BitVec 16) (k : Nat) (e : Entry)
    (s : Sys) : Prop where
  entry : (plan addr v)[k]? = some e
  stateCount : s.drp.stateCount.toNat = 13 - k
  mem : s.mem = MaskedWrite.exec ((plan addr v).take k) mem₀
  dwe : s.drp.dwe = false

/-- The mask and the bits of an entry stand at the output of the table. -/
def Loaded (e : Entry) (s : State) : Prop := s.romDo.mask = e.mask ∧ s.romDo.set = e.set

/-- How far a session is that writes the plan to the register file `mem₀`. -/
def Session (addr : BitVec 7) (v : S1) (mem₀ : BitVec 7 → BitVec 16) (s : Sys) : Prop :=
  match s.drp.currentState with
  | .restart => False
  | .address =>
    ∃ k e, Working addr v mem₀ k e s ∧ s.drp.romAddr.toNat = k ∧ s.drp.romDo.addr = e.addr
  | .waitADrdy =>
    ∃ k e, Working addr v mem₀ k e s ∧ s.drp.romAddr.toNat = k ∧ Loaded e s.drp ∧
      s.drp.daddr = e.addr ∧ (s.drp.den = true ∨ s.reading = some e.addr)
  | .bitmask =>
    ∃ k e, Working addr v mem₀ k e s ∧ s.drp.romAddr.toNat = k ∧ Loaded e s.drp ∧
      s.drp.daddr = e.addr ∧ s.reading = some e.addr ∧ s.answered = true
  | .bitset =>
    ∃ k e, Working addr v mem₀ k e s ∧ s.drp.romAddr.toNat = k ∧ Loaded e s.drp ∧
      s.drp.daddr = e.addr ∧ s.drp.di = e.mask &&& s.mem e.addr
  | .write =>
    ∃ k e, Working addr v mem₀ k e s ∧ s.drp.romAddr.toNat = k + 1 ∧
      s.drp.daddr = e.addr ∧ s.drp.di = e.value (s.mem e.addr)
  | .waitDrdy =>
    -- the write is in the output registers, or already in the register file
    ∃ k, s.drp.romAddr.toNat = k + 1 ∧ s.drp.stateCount.toNat = 13 - (k + 1) ∧
      written s.drp s.mem = MaskedWrite.exec ((plan addr v).take (k + 1)) mem₀
  | .waitLock | .waitSen =>
    s.drp.dwe = false ∧ s.mem = MaskedWrite.exec (plan addr v) mem₀

section Session

variable {addr : BitVec 7} {v : S1} {mem₀ : BitVec 7 → BitVec 16} {s : Sys} {i : In}

/-- Without `DWE` nothing is written to the registers of the MMCM. -/
theorem written_of_not_dwe {s : State} (h : s.dwe = false) (mem : BitVec 7 → BitVec 16) :
    written s mem = mem := by
  rw [written, h, Bool.and_false, if_neg Bool.false_ne_true]

/-- The entry in progress stays so if the count is kept and nothing is about to be written. -/
theorem Working.keep {k : Nat} {e : Entry} {t : Sys} (h : Working addr v mem₀ k e s)
    (hcount : t.drp.stateCount = s.drp.stateCount) (hmem : t.mem = written s.drp s.mem)
    (hdwe : t.drp.dwe = false) : Working addr v mem₀ k e t where
  entry := h.entry
  stateCount := by rw [hcount, h.stateCount]
  mem := by rw [hmem, written_of_not_dwe h.dwe, h.mem]
  dwe := hdwe

/-- **Step lemma.** A cycle without reset and without `SEN` takes a session one step on. -/
theorem session_step (h : Session addr v mem₀ s) (hans : Answers s i) (hrst : i.rst = false)
    (hsen : i.sen = false) (hv : i.s1 = v) : Session addr v mem₀ (s.step i) := by
  subst hv
  rw [Sys.step, step, hrst, if_neg Bool.false_ne_true, next]
  cases hs : s.drp.currentState <;> simp only [Session, hs] at h
  case waitLock =>
    dsimp only
    split
    · exact ⟨rfl, by rw [written_of_not_dwe h.1, h.2]⟩
    · exact ⟨rfl, by rw [written_of_not_dwe h.1, h.2]⟩
  case waitSen =>
    dsimp only
    rw [hsen, if_neg Bool.false_ne_true]
    exact ⟨rfl, by rw [written_of_not_dwe h.1, h.2]⟩
  case address =>
    obtain ⟨k, e, hw, hk, haddr⟩ := h
    have hread := romRead_of_plan (hk ▸ hw.entry)
    exact ⟨k, e, hw.keep rfl rfl rfl, hk, ⟨hread.1, hread.2.1⟩, haddr, .inl rfl⟩
  case waitADrdy =>
    obtain ⟨k, e, hw, hk, -, haddr, hden⟩ := h
    have hread := romRead_of_plan (hk ▸ hw.entry)
    -- the address is on the port in this cycle, or was in an earlier one
    have hreading : (if s.drp.den then (if s.drp.dwe then none else some s.drp.daddr)
        else s.reading) = some e.addr := by
      rw [hw.dwe, if_neg Bool.false_ne_true, haddr]
      rcases hden with hden | hden
      · rw [if_pos hden]
      · rw [hden, ite_self]
    dsimp only
    split
    · next hdrdy => exact ⟨k, e, hw.keep rfl rfl rfl, hk, ⟨hread.1, hread.2.1⟩, haddr, hreading, hdrdy⟩
    · exact ⟨k, e, hw.keep rfl rfl rfl, hk, ⟨hread.1, hread.2.1⟩, haddr, .inr hreading⟩
  case bitmask =>
    obtain ⟨k, e, hw, hk, hload, haddr, hreading, hanswered⟩ := h
    have hread := romRead_of_plan (hk ▸ hw.entry)
    refine ⟨k, e, hw.keep rfl rfl rfl, hk, ⟨hread.1, hread.2.1⟩, haddr, ?_⟩
    dsimp only
    rw [hload.1, hans hanswered _ hreading, written_of_not_dwe hw.dwe]
  case bitset =>
    obtain ⟨k, e, hw, hk, hload, haddr, hdi⟩ := h
    have hlt : k < 13 := (List.getElem?_eq_some_iff.mp hw.entry).1
    refine ⟨k, e, hw.keep rfl rfl rfl, ?_, haddr, ?_⟩
    · rw [toNat_add_one (by omega), hk]
    · dsimp only
      rw [hload.2, hdi, written_of_not_dwe hw.dwe, MaskedWrite.value]
  case write =>
    obtain ⟨k, e, hw, hk, haddr, hdi⟩ := h
    have hlt : k < 13 := (List.getElem?_eq_some_iff.mp hw.entry).1
    have hcount := hw.stateCount
    refine ⟨k, hk, ?_, ?_⟩
    · rw [toNat_sub_one (by omega)]
      omega
    · rw [written_of_not_dwe hw.dwe, MaskedWrite.exec_take_succ hw.entry, ← hw.mem, written]
      dsimp only
      rw [haddr, hdi]
      rfl
  case waitDrdy =>
    obtain ⟨k, hk, hcount, hmem⟩ := h
    dsimp only
    split
    · split
      · next hpos =>
        have hpos : 0 < s.drp.stateCount.toNat := BitVec.lt_def.mp hpos
        obtain ⟨e, hentry⟩ : ∃ e, (plan addr i.s1)[k + 1]? = some e :=
          ⟨_, List.getElem?_eq_getElem (by rw [length_plan]; omega)⟩
        -- by now the table shows the next entry
        rw [← hk] at hentry hcount hmem
        have hread := (romRead_of_plan hentry).2.2 (by omega)
        exact ⟨_, _, ⟨hentry, hcount, hmem, rfl⟩, rfl, congrArg MaskedWrite.addr hread⟩
      · next hzero =>
        have hzero : s.drp.stateCount.toNat = 0 := by bv_omega
        refine ⟨rfl, ?_⟩
        rw [hmem, List.take_of_length_le (by rw [length_plan]; omega)]
    · refine ⟨k, hk, hcount, ?_⟩
      rw [hmem, written_of_not_dwe rfl]

/-- A session begins when `SEN` comes; the first address is what the table shows then. -/
theorem session_begin (hs : s.drp.currentState = .waitSen) (hcount : s.drp.stateCount = 13)
    (hdwe : s.drp.dwe = false) (hrst : i.rst = false) (hsen : i.sen = true) :
    Session (romRead i s.drp.romAddr).addr v s.mem (s.step i) := by
  rw [Sys.step, step, hrst, if_neg Bool.false_ne_true, next, hs]
  dsimp only
  rw [hsen, if_pos rfl]
  refine ⟨0, _, ⟨rfl, ?_, ?_, rfl⟩, rfl, rfl⟩
  · dsimp only
    rw [hcount]
    rfl
  · rw [List.take_zero, MaskedWrite.exec_nil]
    exact written_of_not_dwe hdwe _

end Session

/-! ### A session ends -/

/-- A cycle in which the module waits for the MMCM to answer an access. -/
def waitsDrdy (s : State) (i : In) : Bool :=
  (s.currentState == .waitADrdy || s.currentState == .waitDrdy) && !i.drdy

/-- A cycle in which the module waits for the MMCM to lock. -/
def waitsLocked (s : State) (i : In) : Bool := s.currentState == .waitLock && !i.locked

/-- The cycles a session still needs, not counting those in which it waits. -/
def remaining (s : State) : Nat :=
  match s.currentState with
  | .restart => 2
  | .waitSen => 0
  | .waitLock => 1
  | .address => 6 * s.stateCount.toNat + 1
  | .waitADrdy => 6 * s.stateCount.toNat
  | .bitmask => 6 * s.stateCount.toNat - 1
  | .bitset => 6 * s.stateCount.toNat - 2
  | .write => 6 * s.stateCount.toNat - 3
  | .waitDrdy => 6 * s.stateCount.toNat + 2

/-- A cycle that is not spent waiting brings the end nearer, and no cycle takes it away. -/
theorem remaining_step {fresh : Prop} {s : State} {i : In} (h : Counters fresh s)
    (hrst : i.rst = false) (hsen : i.sen = false) :
    remaining (step s i) ≤ remaining s - (!(waitsDrdy s i || waitsLocked s i)).toNat := by
  have hle := Bool.toNat_le (!(waitsDrdy s i || waitsLocked s i))
  rw [step, hrst, if_neg Bool.false_ne_true, next]
  cases hs : s.currentState <;> simp only [Counters, hs] at h <;> dsimp only
  case waitLock =>
    split
    · simp [remaining]
    · -- a cycle without `LOCKED` is a wait, and leaves what remains
      next hlocked => simp [remaining, hs, waitsLocked, hlocked]
  case waitSen =>
    rw [hsen, if_neg Bool.false_ne_true]
    simp [remaining]
  case waitADrdy =>
    split
    · simp only [remaining, hs]
      omega
    · -- so is one without `DRDY`
      next hdrdy => simp [remaining, hs, waitsDrdy, hdrdy]
  case write =>
    have hsub := toNat_sub_one h.2.1
    simp only [remaining, hs, hsub]
    omega
  case waitDrdy =>
    split
    · split
      all_goals
        simp only [remaining, hs]
        omega
    · next hdrdy => simp [remaining, hs, waitsDrdy, hdrdy]
  all_goals
    simp only [remaining, hs]
    omega

/-- A session needs 79 cycles from its first one on: six for each of its 13 accesses, and one
    for the lock. -/
theorem remaining_begin {s : State} {i : In} (hs : s.currentState = .waitSen)
    (hcount : s.stateCount = 13) (hrst : i.rst = false) : remaining (step s i) ≤ 79 := by
  rw [step, hrst, if_neg Bool.false_ne_true, next, hs]
  dsimp only
  split
  · simp [remaining, hcount]
  · simp [remaining]

/-! ### Sessions in a run -/

/-- The cycles of `is`, after the history `past`, in which the module waits for `DRDY` and for
    `LOCKED`. -/
def waits (M : Machine Sys In) (past is : List In) : Nat :=
  count (fun p j => waitsDrdy (M.run (past ++ p)).drp j) is
    + count (fun p j => waitsLocked (M.run (past ++ p)).drp j) is

/-- A cycle adds one to the cycles in which the machine waits, or nothing: it waits for `DRDY`
    and for `LOCKED` in different states. -/
theorem waits_snoc (M : Machine Sys In) (past is : List In) (j : In) :
    waits M past (is ++ [j]) = waits M past is
      + ((waitsDrdy (M.run (past ++ is)).drp j).toNat
        + (waitsLocked (M.run (past ++ is)).drp j).toNat) := by
  rw [waits, count_snoc, count_snoc, waits]
  omega

/-- In every cycle the machine waits for one of the two, or takes a step. -/
theorem not_wait_le (s : State) (i : In) :
    1 ≤ (!(waitsDrdy s i || waitsLocked s i)).toNat
      + ((waitsDrdy s i).toNat + (waitsLocked s i).toNat) := by
  cases waitsDrdy s i <;> cases waitsLocked s i <;> decide

/-- The module from power-up, with the contents `mem` behind its port. -/
def fromPowerUp (u : State) (mem : BitVec 7 → BitVec 16) : Machine Sys In :=
  sys ⟨powerUp u, mem, none, false⟩

section Run

variable {u : State} {mem : BitVec 7 → BitVec 16} {past rest : List In} {i : In} {v : S1}

/-- The counters are in step with the state in every run, from any power-up contents and
    whatever the MMCM does. -/
theorem counters_run (u : State) (mem : BitVec 7 → BitVec 16) (is : List In) :
    Counters True ((fromPowerUp u mem).run is).drp := by
  refine Machine.run_of_step (M := fromPowerUp u mem) (I := fun s => Counters True s.drp) trivial
    ?_ is
  exact fun s i h => counters_step h i fun _ => trivial

/-- **A session.** `SEN` comes while the machine waits for it, and then neither `SEN` nor
    `RST` come and the `S1_` ports hold still.  Whatever the waits for `DRDY` and `LOCKED`,
    at the end of the session the register file is what the table of masked writes makes of
    it, the first address being the one that stood at the output of the table. -/
theorem session_spec (hs : ((fromPowerUp u mem).run past).drp.currentState = .waitSen)
    (hrst : i.rst = false) (hsen : i.sen = true)
    (hrest : ∀ j ∈ rest, j.rst = false ∧ j.sen = false ∧ j.s1 = v)
    (hans : EachCycle (fun p j => Answers ((fromPowerUp u mem).run (past ++ [i] ++ p)) j) rest) :
    Session (romRead i ((fromPowerUp u mem).run past).drp.romAddr).addr v
      ((fromPowerUp u mem).run past).mem ((fromPowerUp u mem).run (past ++ [i] ++ rest)) := by
  have hidle := counters_run u mem past
  simp only [Counters, hs] at hidle
  induction rest using List.reverseRecOn with
  | nil =>
    rw [List.append_nil, Machine.run_snoc]
    exact session_begin hs hidle.2.1 hidle.1 hrst hsen
  | append_singleton rest j ih =>
    rw [eachCycle_snoc] at hans
    obtain ⟨hj, hsenj, hv⟩ := hrest j (by simp)
    rw [← List.append_assoc, Machine.run_snoc]
    exact session_step (ih (fun j' hj' => hrest j' (by simp [hj'])) hans.1) hans.2 hj hsenj hv

/-- The cycles that a session needs come down to 0. -/
theorem remaining_run (hs : ((fromPowerUp u mem).run past).drp.currentState = .waitSen)
    (hrst : i.rst = false) (hrest : ∀ j ∈ rest, j.rst = false ∧ j.sen = false) :
    remaining ((fromPowerUp u mem).run (past ++ [i] ++ rest)).drp
      ≤ 79 + waits (fromPowerUp u mem) (past ++ [i]) rest - rest.length := by
  induction rest using List.reverseRecOn with
  | nil =>
    have hidle := counters_run u mem past
    simp only [Counters, hs] at hidle
    rw [List.append_nil, Machine.run_snoc]
    exact remaining_begin hs hidle.2.1 hrst
  | append_singleton rest j ih =>
    obtain ⟨hj, hsenj⟩ := hrest j (by simp)
    have hle := ih fun j' hj' => hrest j' (by simp [hj'])
    have hcounters := counters_run u mem (past ++ [i] ++ rest)
    rw [← List.append_assoc, Machine.run_snoc, waits_snoc, List.length_append, List.length_singleton]
    generalize (fromPowerUp u mem).run (past ++ [i] ++ rest) = s at hle hcounters ⊢
    have hstep : remaining ((fromPowerUp u mem).step s j).drp ≤ _ :=
      remaining_step hcounters hj hsenj
    -- a cycle either waits or takes one off
    have hwait := not_wait_le s.drp j
    omega

/-- When no cycle remains the machine is back in `WAIT_SEN`. -/
theorem waitSen_of_remaining {s : State} (h : remaining s = 0) {fresh : Prop}
    (hc : Counters fresh s) : s.currentState = .waitSen := by
  cases hs : s.currentState <;> simp only [remaining, Counters, hs] at h hc ⊢ <;> omega

/-- A session that has ended has carried out its whole plan. -/
theorem Session.mem_eq {addr : BitVec 7} {mem₀ : BitVec 7 → BitVec 16} {s : Sys}
    (h : Session addr v mem₀ s) (hs : s.drp.currentState = .waitSen) :
    s.mem = MaskedWrite.exec (plan addr v) mem₀ := by
  simp only [Session, hs] at h
  exact h.2

/-- After 79 cycles, not counting those in which it waits for `DRDY` or `LOCKED`, a session has
    ended. -/
theorem session_ends (hs : ((fromPowerUp u mem).run past).drp.currentState = .waitSen)
    (hrst : i.rst = false) (hrest : ∀ j ∈ rest, j.rst = false ∧ j.sen = false ∧ j.s1 = v)
    (hlength : 79 + waits (fromPowerUp u mem) (past ++ [i]) rest ≤ rest.length) :
    ((fromPowerUp u mem).run (past ++ [i] ++ rest)).drp.currentState = .waitSen := by
  have hle := remaining_run hs hrst fun j hj => ⟨(hrest j hj).1, (hrest j hj).2.1⟩
  exact waitSen_of_remaining (by omega) (counters_run u mem (past ++ [i] ++ rest))

/-! ### The first session after a reset, and the later ones -/

/-- Reset, and no `SEN` since. -/
def Fresh (s : State) : Prop :=
  match s.currentState with
  | .restart => True
  | .waitLock | .waitSen => s.romAddr = 0
  | _ => False

/-- A cycle without `SEN` leaves the machine fresh: the ROM address is moved only in a
    session. -/
theorem fresh_step {s : State} (h : Fresh s) (hsen : i.sen = false) : Fresh (step s i) := by
  unfold step
  split
  · trivial
  · unfold next
    cases hs : s.currentState <;> simp only [Fresh, hs] at h
    case restart => rfl
    case waitLock =>
      dsimp only
      split <;> exact h
    case waitSen =>
      dsimp only
      rw [hsen, if_neg Bool.false_ne_true]
      exact h

/-- So it is fresh at every point up to the first `SEN` after a reset. -/
theorem fresh_run (hreset : ((fromPowerUp u mem).run past).drp.currentState = .restart)
    (hnone : ∀ j ∈ rest, j.sen = false) : Fresh ((fromPowerUp u mem).run (past ++ rest)).drp := by
  induction rest using List.reverseRecOn with
  | nil =>
    rw [List.append_nil, Fresh, hreset]
    trivial
  | append_singleton rest j ih =>
    rw [← List.append_assoc, Machine.run_snoc]
    exact fresh_step (ih fun j' hj' => hnone j' (by simp [hj'])) (hnone j (by simp))

/-- After a session has begun, and without a reset, `rom_addr` is 13 whenever the machine
    waits for `SEN`. -/
theorem stale_run (hs : ((fromPowerUp u mem).run past).drp.currentState = .waitSen)
    (hrst : i.rst = false) (hsen : i.sen = true) (hrest : ∀ j ∈ rest, j.rst = false) :
    Counters False ((fromPowerUp u mem).run (past ++ [i] ++ rest)).drp := by
  induction rest using List.reverseRecOn with
  | nil =>
    have hidle := counters_run u mem past
    simp only [Counters, hs] at hidle
    rw [List.append_nil, Machine.run_snoc]
    change Counters False (step ((fromPowerUp u mem).run past).drp i)
    rw [step, hrst, if_neg Bool.false_ne_true, next, hs, hsen]
    exact ⟨rfl, by simp [hidle.2.1]⟩
  | append_singleton rest j ih =>
    rw [← List.append_assoc, Machine.run_snoc]
    -- without a reset nothing but `WAIT_SEN` puts the address back
    exact counters_step (ih fun j' hj' => hrest j' (by simp [hj'])) j
      (by rw [hrest j (by simp)]; exact Bool.false_ne_true)

/-- **The first reconfiguration after a reset.** No `SEN` came since the machine was last
    reset.  Then the next one starts a session that writes the table, and after 79 cycles, not
    counting those in which it waits for `DRDY` or `LOCKED`, the session has ended. -/
theorem first_session {past₀ past₁ : List In}
    (hreset : ((fromPowerUp u mem).run past₀).drp.currentState = .restart)
    (hnone : ∀ j ∈ past₁, j.sen = false)
    (hs : ((fromPowerUp u mem).run (past₀ ++ past₁)).drp.currentState = .waitSen)
    (hrst : i.rst = false) (hsen : i.sen = true)
    (hrest : ∀ j ∈ rest, j.rst = false ∧ j.sen = false ∧ j.s1 = v)
    (hans : EachCycle (fun p j => Answers ((fromPowerUp u mem).run (past₀ ++ past₁ ++ [i] ++ p)) j)
      rest) :
    (((fromPowerUp u mem).run (past₀ ++ past₁ ++ [i] ++ rest)).drp.currentState = .waitSen →
      ((fromPowerUp u mem).run (past₀ ++ past₁ ++ [i] ++ rest)).mem
        = MaskedWrite.exec (rom v) ((fromPowerUp u mem).run (past₀ ++ past₁)).mem) ∧
    (79 + waits (fromPowerUp u mem) (past₀ ++ past₁ ++ [i]) rest ≤ rest.length →
      ((fromPowerUp u mem).run (past₀ ++ past₁ ++ [i] ++ rest)).drp.currentState = .waitSen) := by
  -- behind a reset the ROM shows its first entry
  have hfresh := fresh_run hreset hnone
  simp only [Fresh, hs] at hfresh
  have hsession := session_spec hs hrst hsen hrest hans
  rw [hfresh] at hsession
  exact ⟨hsession.mem_eq, session_ends hs hrst hrest⟩

/-- `LOCKED` and `DRDY` of an MMCM over a session: it is locked until it is reset, answers every
    access in the second cycle of the wait, and locks in the third cycle after the session. -/
def sessionDrive : List (Bool × Bool) :=
  [(true, false)] ++
    (List.replicate 13
      [(false, false), (false, true), (false, false), (false, false), (false, false),
       (false, false), (false, true), (false, false)]).flatten ++
    [(false, false), (true, false)]

/-- A cycle of the module with its ports 0, and with an MMCM that answers 0. -/
def driven (sen : Bool) (d : Bool × Bool) : In :=
  ⟨false, sen, ⟨0, 0, 0, 0, 0⟩, d.1, d.2, 0, ⟨0, 0, 0⟩⟩

/-- After a reset the MMCM locks in the third cycle. -/
def resetCycles : List In := [(false, false), (false, false), (true, false)].map (driven false)

/-- A session, after the cycle that brings `SEN`. -/
def sessionCycles : List In := sessionDrive.map (driven false)

/-- A module with a write in its output registers at power-up, and 0 in the MMCM. -/
def dirty : Machine Sys In :=
  fromPowerUp ⟨.write, 5, true, true, false, 7, true, 9, ⟨1, 2, 3⟩, 3⟩ fun _ => 0

/-- The first session of that module ends after 107 cycles, 28 of them spent waiting. -/
theorem first_session_dirty :
    (dirty.run ([] ++ resetCycles ++ [driven true (true, false)] ++ sessionCycles)).mem
      = MaskedWrite.exec (rom ⟨0, 0, 0, 0, 0⟩) (dirty.run ([] ++ resetCycles)).mem := by
  have h := @first_session ⟨.write, 5, true, true, false, 7, true, 9, ⟨1, 2, 3⟩, 3⟩ (fun _ => 0)
    sessionCycles (driven true (true, false)) ⟨0, 0, 0, 0, 0⟩
    [] resetCycles rfl (by decide) (by decide +kernel) rfl rfl
    (List.forall_mem_map.mpr fun _ _ => ⟨rfl, rfl, rfl⟩) (by decide +kernel)
  exact h.1 (h.2 (by decide +kernel))

/-- **A later reconfiguration.** After an earlier session and without a reset in between,
    `rom_addr` still points past the table when `SEN` comes.  The session then sends the
    power bits to the address that a read past the table gives: the power register itself
    keeps its contents, and the other twelve entries are written as in the first session. -/
theorem later_session {past₀ past₁ : List In} {i₀ : In}
    (hs₀ : ((fromPowerUp u mem).run past₀).drp.currentState = .waitSen)
    (hrst₀ : i₀.rst = false) (hsen₀ : i₀.sen = true) (hrst₁ : ∀ j ∈ past₁, j.rst = false)
    (hs : ((fromPowerUp u mem).run (past₀ ++ [i₀] ++ past₁)).drp.currentState = .waitSen)
    (hrst : i.rst = false) (hsen : i.sen = true)
    (hrest : ∀ j ∈ rest, j.rst = false ∧ j.sen = false ∧ j.s1 = v)
    (hans : EachCycle (fun p j =>
      Answers ((fromPowerUp u mem).run (past₀ ++ [i₀] ++ past₁ ++ [i] ++ p)) j) rest)
    (hend : ((fromPowerUp u mem).run (past₀ ++ [i₀] ++ past₁ ++ [i] ++ rest)).drp.currentState
      = .waitSen) :
    ((fromPowerUp u mem).run (past₀ ++ [i₀] ++ past₁ ++ [i] ++ rest)).mem
      = MaskedWrite.exec (rom v).tail
          (Function.update ((fromPowerUp u mem).run (past₀ ++ [i₀] ++ past₁)).mem i.beyond.addr
            0xFFFF) ∧
    (i.beyond.addr ≠ 0x28 →
      ((fromPowerUp u mem).run (past₀ ++ [i₀] ++ past₁ ++ [i] ++ rest)).mem 0x28
        = ((fromPowerUp u mem).run (past₀ ++ [i₀] ++ past₁)).mem 0x28) := by
  -- behind a session the ROM address is 13, past the last entry
  have hstale := stale_run hs₀ hrst₀ hsen₀ hrst₁
  simp only [Counters, hs, false_and, false_or] at hstale
  have hsession := session_spec hs hrst hsen hrest hans
  rw [hstale.2.2] at hsession
  have hmem := hsession.mem_eq hend
  rw [exec_plan] at hmem
  refine ⟨hmem, fun hne => ?_⟩
  rw [hmem, MaskedWrite.exec_of_notMem (by rw [map_addr_tail_rom]; decide)]
  exact Function.update_of_ne hne.symm ..

/-- Two sessions in a row; a read past the table gives the address 0. -/
theorem later_session_dirty :
    (dirty.run (resetCycles ++ [driven true (true, false)] ++ sessionCycles ++
        [driven true (true, false)] ++ sessionCycles)).mem 0x28
      = (dirty.run (resetCycles ++ [driven true (true, false)] ++ sessionCycles)).mem 0x28 := by
  have h := @later_session ⟨.write, 5, true, true, false, 7, true, 9, ⟨1, 2, 3⟩, 3⟩ (fun _ => 0)
    sessionCycles (driven true (true, false)) ⟨0, 0, 0, 0, 0⟩
    resetCycles sessionCycles (driven true (true, false))
    (by decide +kernel) rfl rfl
    (List.forall_mem_map.mpr fun _ _ => rfl) (by decide +kernel) rfl rfl
    (List.forall_mem_map.mpr fun _ _ => ⟨rfl, rfl, rfl⟩) (by decide +kernel) (by decide +kernel)
  rw [dirty]
  exact h.2 (by decide)

end Run

end ZynqLinux.Dynclk.Mmcme2Drp
