import ZynqLinux.Rpmsg.Device

namespace ZynqLinux.Rpmsg

open ZynqLinux.Lib

/-!
# The wake-up flag of the rpmsg character devices

`block_flag` stands for "the kfifo holds data", but a callback stores it after it has left
the critical section that pushed the data, and every reader resets it whether or not it has
emptied the kfifo.  So flag and kfifo can disagree in both directions.

* `FlagHonest`: whoever relies on the flag finds data.  It holds along every run in which
  the last byte is taken only when nobody relies on the flag (`TakesLastSafely`), and then a
  blocking read never returns 0 (`blocking_read_returns_data`);
* `NoLostWakeup`: a waiting reader and data in the kfifo mean a raised flag or a callback
  about to raise it.  It holds along every run in which a read that leaves data behind
  meets no waiting reader (`LeavesDataSafely`), and then nobody sleeps on data
  (`no_sleep_on_data`).
-/

/-! ### Data behind the flag -/

/-- The flag, a callback in front of its store, and a reader whose test passed all mean that
    the kfifo holds data. -/
structure FlagHonest (s : State) : Prop where
  flag : s.blockFlag = true → s.kfifo.items ≠ []
  publishing : 0 < s.publishing → s.kfifo.items ≠ []
  passed : ∀ r c, s.pc r = .woken c false → s.kfifo.items ≠ []

/-- No empty message is accepted, and a read that takes the last byte of the kfifo meets no
    callback between its unlock and its store of the flag, and no other reader that has
    passed its test and not locked yet. -/
def TakesLastSafely (s : State) (a : Action) : Prop :=
  (∀ m ∈ accepts s a, 0 < m.len) ∧
  (∀ k ∈ copies s a, s.kfifo.items ≠ [] → s.kfifo.items.length ≤ k.2.1.len →
    s.publishing = 0 ∧ ∀ r c, r ≠ k.1 → s.pc r ≠ .woken c false)

section FlagHonest

variable {s : State} {a : Action}

/-- At the start the flag is low, nobody is in a callback and nobody has passed the test. -/
theorem flagHonest_init : FlagHonest State.init where
  flag h := absurd h (by decide)
  publishing h := absurd h (by decide)
  passed r c h := absurd h (by simp [State.init])

/-- A reader past its test has passed it before, or passes it now under a raised flag. -/
theorem passed_of_step {r : Nat} {c : Call} (h : (step s a).pc r = .woken c false) :
    s.pc r = .woken c false ∨ (s.blockFlag = true ∧ a = .test r) := by
  have hmove := step_moves s a r
  rw [h] at hmove
  generalize s.pc r = p at hmove
  cases hmove with
  | stay => exact Or.inl rfl
  | pass _ hflag => exact Or.inr ⟨hflag, rfl⟩

/-- A reader that leaves its critical section is past no test. -/
theorem pc_of_copies {r : Nat} {c : Call} {signalled : Bool}
    (h : copies s a = some (r, c, signalled)) : (step s a).pc r = .idle := by
  rw [step_of_copies h]
  exact Function.update_self _ _ _

theorem not_test_of_copies {r r' : Nat} {c : Call} {signalled : Bool}
    (h : copies s a = some (r, c, signalled)) : a ≠ .test r' := by
  rintro rfl
  exact absurd h (by simp [copies])

/-- Only a callback that has pushed its message raises the flag. -/
theorem publishing_pos_of_raises (h : raises s a = true) : 0 < s.publishing := by
  have hpub := (step_of_raises h).2.2
  omega

/-- A critical section keeps the flag honest when it leaves data, or when nobody is left to
    rely on the flag. -/
theorem FlagHonest.copy (h : FlagHonest s) {r : Nat} {c : Call} {signalled : Bool}
    (hcop : copies s a = some (r, c, signalled))
    (hlast : s.kfifo.items ≠ [] → s.kfifo.items.length ≤ c.len →
      s.publishing = 0 ∧ ∀ r' c', r' ≠ r → s.pc r' ≠ .woken c' false) :
    FlagHonest (step s a) := by
  have hflag : (step s a).blockFlag = false := by rw [step_of_copies hcop]; rfl
  have hpub : (step s a).publishing = s.publishing := by rw [step_of_copies hcop]; rfl
  have hitems : (step s a).kfifo.items = s.kfifo.items.drop c.len := by
    rw [step_of_copies hcop]
    exact s.drop_dataUsed c.len
  -- no one passes the wait in this step, so whoever relies on data did so before
  have hpass : ∀ r' c', (step s a).pc r' = .woken c' false →
      s.pc r' = .woken c' false ∧ r' ≠ r := by
    intro r' c' hwoken
    refine ⟨?_, ?_⟩
    · rcases passed_of_step hwoken with hbefore | ⟨-, htest⟩
      · exact hbefore
      · exact absurd htest (not_test_of_copies hcop)
    · rintro rfl
      rw [pc_of_copies hcop] at hwoken
      exact absurd hwoken (by simp)
  by_cases hempty : s.kfifo.items = []
  · -- nothing was there, and nobody relied on it
    refine ⟨fun h1 => ?_, fun h1 => ?_, fun r' c' h1 => ?_⟩
    · exact absurd h1 (by simp [hflag])
    · exact absurd hempty (h.publishing (hpub ▸ h1))
    · exact absurd hempty (h.passed r' c' (hpass r' c' h1).1)
  · by_cases hall : s.kfifo.items.length ≤ c.len
    · -- the last byte goes
      obtain ⟨hnone, hothers⟩ := hlast hempty hall
      refine ⟨fun h1 => ?_, fun h1 => ?_, fun r' c' h1 => ?_⟩
      · exact absurd h1 (by simp [hflag])
      · omega
      · obtain ⟨hbefore, hne⟩ := hpass r' c' h1
        exact absurd hbefore (hothers r' c' hne)
    · -- bytes are left for whoever relies on them
      have hleft : (step s a).kfifo.items ≠ [] := by
        rw [hitems, ne_eq, List.drop_eq_nil_iff]
        exact hall
      exact ⟨fun _ => hleft, fun _ => hleft, fun _ _ _ => hleft⟩

/-- One action that takes the last byte safely keeps the flag honest. -/
theorem FlagHonest.step (h : FlagHonest s) (hsafe : TakesLastSafely s a) :
    FlagHonest (step s a) := by
  rcases step_kfifo s a with
    ⟨m, hacc, -, hfit, hstep⟩ | ⟨r, c, signalled, -, hcop, -⟩ | ⟨hacc, hcop, hstep⟩
  · -- a message of one byte or more stands in the kfifo now
    have hne : (Rpmsg.step s a).kfifo.items ≠ [] := by
      have hpos := Nat.lt_of_lt_of_le (hsafe.1 m hacc) m.len_le_lenIn
      rw [hstep, BoundedQueue.put_items (by rwa [Message.image_length])]
      refine List.append_ne_nil_of_right_ne_nil _ ?_
      rw [ne_eq, ← List.length_eq_zero_iff, Message.image_length]
      omega
    exact ⟨fun _ => hne, fun _ => hne, fun _ _ _ => hne⟩
  · exact h.copy hcop (hsafe.2 (r, c, signalled) hcop)
  · -- the kfifo is as it was, so each new promise must come from an old one
    have hflag := step_blockFlag s a
    have hpub := step_publishing s a
    rw [hacc] at hpub
    rw [hcop] at hflag
    refine ⟨fun h1 => ?_, fun h1 => ?_, fun r c h1 => ?_⟩
    · rw [hstep]
      rw [h1, Option.isNone_none, Bool.and_true] at hflag
      rcases Bool.or_eq_true_iff.mp hflag.symm with hraise | hold
      · exact h.publishing (publishing_pos_of_raises hraise)
      · exact h.flag hold
    · rw [hstep]
      exact h.publishing (by simp at hpub; omega)
    · rw [hstep]
      rcases passed_of_step h1 with hbefore | ⟨hraised, -⟩
      · exact h.passed r c hbefore
      · exact h.flag hraised

/-- A call that copies without having waited has found data, and one that has waited
    without a signal has passed the test. -/
theorem data_of_copies {r : Nat} {c : Call} (hcop : copies s a = some (r, c, false)) :
    s.kfifo.items ≠ [] ∨ s.pc r = .woken c false := by
  cases a with
  | read r' c' =>
    simp only [copies, Option.ite_none_right_eq_some] at hcop
    exact Or.inl fun hnil => hcop.1.2 (by rw [hnil]; rfl)
  | resume r' =>
    rw [copies] at hcop
    split at hcop
    · next hpc =>
      simp only [Option.some.injEq, Prod.mk.injEq] at hcop
      obtain ⟨rfl, rfl, rfl⟩ := hcop
      exact Or.inr hpc
    · exact absurd hcop (by simp)
  | _ => exact absurd hcop (by simp [copies])

end FlagHonest

/-! ### Blocking reads return data -/

/-- A return of a blocking call that asked for bytes and met no signal. -/
def Return.Blocking (ret : Return) : Prop :=
  ret.call.nonblock = false ∧ 0 < ret.call.len ∧ ret.signalled = false

/-- The blocking calls that have returned have returned a positive count. -/
def NoEndOfFile (acts : List Action) : Prop :=
  ∀ ret ∈ returned acts, ret.Blocking → 0 < ret.count

/-- Under an honest flag a blocking call returns bytes. -/
theorem FlagHonest.count_pos {s : State} {a : Action} (h : FlagHonest s) {ret : Return}
    (hret : returns s a = some ret) (hblock : ret.Blocking) : 0 < ret.count := by
  obtain ⟨hnb, hlen, hsig⟩ := hblock
  cases hcop : copies s a with
  | some k =>
    obtain ⟨r, c, signalled⟩ := k
    rw [returns_of_copies hcop, Option.some.injEq] at hret
    subst hret
    obtain rfl : signalled = false := hsig
    have hdata : s.kfifo.items ≠ [] := by
      rcases data_of_copies hcop with hfound | hwoken
      · exact hfound
      · exact h.passed r c hwoken
    have hpos := List.length_pos_iff.mpr hdata
    show (0 : Int) < ((s.kfifo.items.take (s.dataUsed c.len)).length : Int)
    rw [State.take_dataUsed, List.length_take]
    simp only at hlen
    omega
  | none =>
    -- the only other return is -EAGAIN, from a call that must not block
    unfold returns at hret
    simp only [hcop] at hret
    split at hret
    · simp only [Option.ite_none_right_eq_some, Option.some.injEq] at hret
      obtain ⟨⟨-, hnonblock⟩, rfl⟩ := hret
      rw [hnonblock] at hnb
      exact absurd hnb (by simp)
    · exact absurd hret (by simp)

/-- **No end of file.** In every run in which no empty message is accepted and the last byte
    of the kfifo is taken only while no callback is in front of its store of the flag and no
    other reader is between its test and its lock: every blocking read that returns without
    a signal, of one byte or more, returns a positive count. -/
theorem blocking_read_returns_data (acts : List Action)
    (h : EachCycle (fun past a => TakesLastSafely (device.run past) a) acts) :
    NoEndOfFile acts := by
  apply Machine.forall_log_of_step (f := fun s a => (returns s a).toList)
    (Q := fun ret => ret.Blocking → 0 < ret.count) flagHonest_init
    (fun s a h hsafe => h.step hsafe) _ acts h
  intro s a hhonest _ ret hret
  exact hhonest.count_pos (Option.mem_toList.mp hret)

/-- A message of eight bytes. -/
def eightBytes : Message := .ofBytes [1, 2, 3, 4, 5, 6, 7, 8]

/-- A reader waits, a message comes and wakes it, and it reads the message. -/
def waitAndRead : List Action :=
  [.read 0 { len := 512 }, .test 0, .callback eightBytes, .publish, .test 0, .resume 0]

/-- With one reader thread only the callbacks matter. -/
theorem takesLastSafely_of_one_reader {past : List Action} {a : Action} (r₀ : Nat)
    (hone : ∀ r c, Action.read r c ∈ past ++ [a] → r = r₀)
    (h : (∀ m ∈ accepts (device.run past) a, 0 < m.len) ∧
      ∀ k ∈ copies (device.run past) a, (device.run past).publishing = 0) :
    TakesLastSafely (device.run past) a := by
  refine ⟨h.1, ?_⟩
  rintro ⟨r', c', signalled⟩ hcop _ _
  refine ⟨h.2 _ hcop, fun r c hr hwoken => hr ?_⟩
  have hr₀ := hone r c (List.mem_append_left _ (read_mem_of_call past (by rw [hwoken]; rfl)))
  rw [hr₀, hone r' c' (read_mem_of_copies hcop)]

/-- A reader that waits for its message takes it all in one call, and no call returns without
    data. -/
theorem blocking_read_returns_data_waitAndRead :
    EachCycle (fun past a => TakesLastSafely (device.run past) a) waitAndRead ∧
      NoEndOfFile waitAndRead := by
  have hcheck : EachCycle (fun past a =>
      (∀ m ∈ accepts (device.run past) a, 0 < m.len) ∧
      ∀ k ∈ copies (device.run past) a, (device.run past).publishing = 0) waitAndRead := by
    decide +kernel
  have h : EachCycle (fun past a => TakesLastSafely (device.run past) a) waitAndRead := by
    intro past a hpre
    refine takesLastSafely_of_one_reader 0 (fun r c hread => ?_) (hcheck past a hpre)
    have hmem := hpre.subset hread
    simp only [waitAndRead, List.mem_cons, reduceCtorEq, Action.read.injEq, List.not_mem_nil,
      or_false] at hmem
    exact hmem.1
  exact ⟨h, blocking_read_returns_data waitAndRead h⟩

/-- One reader empties the kfifo between the callback's unlock and its store of the flag;
    its next read finds the flag raised and nothing to read. -/
def staleFlag : List Action :=
  [.callback eightBytes, .read 0 { len := 512 }, .publish, .read 0 { len := 512 }, .test 0,
   .resume 0]

/-- A flag that is stored behind a read that took everything lets the next reader pass, and it
    returns no bytes. -/
theorem staleFlag_returns_zero : ¬ NoEndOfFile staleFlag := by
  intro h
  have hmem : (⟨0, { len := 512 }, false, .ok []⟩ : Return) ∈ returned staleFlag := by
    decide +kernel
  exact absurd (h _ hmem ⟨rfl, by decide, rfl⟩) (by decide)

/-! ### A flag for every waiting reader -/

/-- The reader is in `wait_event_interruptible` and has not passed the test. -/
def Pc.waiting : Pc → Bool
  | .testing _ => true
  | .asleep _ => true
  | _ => false

/-- A sleeper means a lowered flag, and a waiting reader with data in the kfifo means a
    raised flag or a callback about to raise it. -/
structure NoLostWakeup (s : State) : Prop where
  sleeper : ∀ r c, s.pc r = .asleep c → s.blockFlag = false
  waiter : ∀ r, (s.pc r).waiting = true → s.kfifo.items ≠ [] →
    s.blockFlag = true ∨ 0 < s.publishing

/-- A read that leaves bytes in the kfifo meets no reader that waits, unless a callback is in
    front of its store of the flag. -/
def LeavesDataSafely (s : State) (a : Action) : Prop :=
  ∀ k ∈ copies s a, k.2.1.len < s.kfifo.items.length →
    0 < s.publishing ∨ ∀ r, (s.pc r).waiting = false

section NoLostWakeup

variable {s : State} {a : Action}

/-- At the start there is no sleeper and no data. -/
theorem noLostWakeup_init : NoLostWakeup State.init where
  sleeper _ _ _ := rfl
  waiter r h := absurd h (by simp [State.init, Pc.waiting])

/-- A waiting reader was waiting before, or has just found the kfifo empty. -/
theorem waiting_of_step {r : Nat} (h : ((step s a).pc r).waiting = true) :
    (s.pc r).waiting = true ∨ s.kfifo.items = [] := by
  have hmove := step_moves s a r
  generalize s.pc r = p at hmove ⊢
  generalize (step s a).pc r = p' at h hmove
  -- a reader begins to wait only when it has found the kfifo empty
  cases hmove with
  | stay => exact Or.inl h
  | enter _ hempty => exact Or.inr hempty
  | pass => exact absurd h (by simp [Pc.waiting])
  | sleep => exact Or.inl rfl
  | wake => exact Or.inl rfl
  | interrupt => exact absurd h (by simp [Pc.waiting])
  | leave => exact absurd h (by simp [Pc.waiting])

/-- A sleeper was asleep before, and no callback has raised the flag now, or it has just
    found the flag lowered. -/
theorem asleep_of_step {r : Nat} {c : Call} (h : (step s a).pc r = .asleep c) :
    (s.pc r = .asleep c ∨ s.blockFlag = false) ∧ raises s a = false := by
  have hmove := step_moves s a r
  rw [h] at hmove
  generalize s.pc r = p at hmove ⊢
  cases hmove with
  | stay _ _ hraise =>
    refine ⟨Or.inl rfl, ?_⟩
    cases hr : raises s a
    · rfl
    · exact absurd rfl (hraise hr c)
  | sleep _ hflag => exact ⟨Or.inr hflag, rfl⟩

/-- One action that leaves data safely keeps every waiting reader's wake-up. -/
theorem NoLostWakeup.step (h : NoLostWakeup s) (hsafe : LeavesDataSafely s a) :
    NoLostWakeup (step s a) := by
  have hflag := step_blockFlag s a
  have hpub := step_publishing s a
  refine ⟨fun r c hasleep => ?_, fun r hwait hdata => ?_⟩
  · -- a flag that was low and is not raised stays low
    obtain ⟨hbefore, hno⟩ := asleep_of_step hasleep
    rw [hflag, hno, Bool.false_or]
    rcases hbefore with hold | hlow
    · rw [h.sleeper r c hold]
      rfl
    · rw [hlow]
      rfl
  · rcases step_kfifo s a with
      ⟨m, hacc, -, -, -⟩ | ⟨r', c, signalled, hacc, hcop, hstep⟩ | ⟨hacc, hcop, hstep⟩
    · -- the callback that pushed is now in front of its store
      obtain ⟨rfl, -⟩ := step_of_accepts hacc
      rw [hacc] at hpub
      exact Or.inr (by simp [raises] at hpub; omega)
    · -- data is left behind, so either a callback is about to raise the flag or nobody waits
      rw [hstep, BoundedQueue.drop_items, State.drop_dataUsed, ne_eq, List.drop_eq_nil_iff,
        Nat.not_le] at hdata
      have hpub' : (Rpmsg.step s a).publishing = s.publishing := by rw [step_of_copies hcop]; rfl
      rcases hsafe (r', c, signalled) hcop hdata with hcb | hnobody
      · exact Or.inr (hpub' ▸ hcb)
      · rcases waiting_of_step hwait with hold | hempty
        · exact absurd (hnobody r ▸ hold) Bool.false_ne_true
        · exact absurd hdata (by simp [hempty])
    · -- the kfifo is as it was: a store of the flag only turns one promise into the other
      rw [hstep] at hdata
      rw [hacc] at hpub
      rw [hcop, Option.isNone_none, Bool.and_true] at hflag
      rcases waiting_of_step hwait with hold | hempty
      · cases hraise : raises s a
        · rw [hraise] at hflag hpub
          rcases h.waiter r hold hdata with hup | hcb
          · exact Or.inl (by rw [hflag, hup]; rfl)
          · exact Or.inr (by simp at hpub; omega)
        · exact Or.inl (by rw [hflag, hraise]; rfl)
      · exact absurd hempty hdata

end NoLostWakeup

/-! ### No reader sleeps on data -/

/-- Unless a callback is in front of its store of the flag, a sleeper means an empty
    kfifo. -/
def NoSleepOnData (s : State) : Prop :=
  s.publishing = 0 → ∀ r c, s.pc r = .asleep c → s.kfifo.items = []

/-- A reader does not sleep on data for good: the flag is raised already, or a callback is
    about to raise it. -/
theorem NoLostWakeup.noSleepOnData {s : State} (h : NoLostWakeup s) : NoSleepOnData s := by
  intro hnone r c hasleep
  by_contra hdata
  have hlow := h.sleeper r c hasleep
  rcases h.waiter r (by rw [hasleep]; rfl) hdata with hup | hcb
  · exact absurd (hlow ▸ hup) Bool.false_ne_true
  · omega

/-- **No sleep on data.** In every run in which a read that leaves bytes in the kfifo meets
    no waiting reader, unless a callback is in front of its store of the flag: at every
    point, while no callback is there, a sleeping reader means an empty kfifo. -/
theorem no_sleep_on_data (acts : List Action)
    (h : EachCycle (fun past a => LeavesDataSafely (device.run past) a) acts) :
    EachPoint (fun past => NoSleepOnData (device.run past)) acts := by
  have hinv := Machine.eachPoint_of_step noLostWakeup_init (fun s a h hsafe => h.step hsafe) acts h
  exact fun past hpre => (hinv past hpre).noSleepOnData

/-- A message is read in two parts while nobody waits. -/
def readInParts : List Action :=
  [.callback eightBytes, .publish, .read 0 { len := 4 }, .read 1 { len := 4 }]

/-- Neither part is read while another reader waits, so nobody is left to sleep on the rest of
    the message. -/
theorem no_sleep_on_data_readInParts :
    EachCycle (fun past a => LeavesDataSafely (device.run past) a) readInParts ∧
      EachPoint (fun past => NoSleepOnData (device.run past)) readInParts := by
  have h : EachCycle (fun past a => LeavesDataSafely (device.run past) a) readInParts := by
    rw [eachCycle_iff_from]
    refine ⟨?_, ?_, ?_, ?_, trivial⟩
    · exact fun k hk => absurd hk (by simp [copies])
    · exact fun k hk => absurd hk (by simp [copies])
    · -- half of the message stays, but no reader has made a call yet
      refine fun k _ _ => Or.inr fun r => ?_
      rw [pc_idle_of_no_read (by simp)]
      rfl
    · have hall : ∀ k ∈ copies (device.run (readInParts.take 3)) (.read 1 { len := 4 }),
          ¬ k.2.1.len < (device.run (readInParts.take 3)).kfifo.items.length := by
        decide +kernel
      exact fun k hk hlt => absurd hlt (hall k hk)
  exact ⟨h, no_sleep_on_data readInParts h⟩

/-- Two readers sleep; a message wakes both, the first reads half of it and resets the flag,
    and the second goes back to sleep. -/
def lostWakeup : List Action :=
  [.read 0 { len := 4 }, .test 0, .read 1 { len := 4 }, .test 1, .callback eightBytes, .publish,
   .test 0, .resume 0, .test 1]

/-- The reader that takes half of the message resets the flag, so the other one goes back to
    sleep with data in the kfifo and nobody to wake it. -/
theorem lostWakeup_sleeps_on_data : ¬ NoSleepOnData (device.run lostWakeup) := by
  intro h
  have hdata := h (by decide +kernel) 1 { len := 4 } (by decide +kernel)
  exact absurd hdata (by decide +kernel)

end ZynqLinux.Rpmsg
