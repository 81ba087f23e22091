import Mathlib.Algebra.Group.Nat.Defs
import Mathlib.Logic.Function.Basic
import ZynqLinux.Lib.BoundedQueue
import ZynqLinux.Lib.History

namespace ZynqLinux.Rpmsg

open ZynqLinux.Lib

/-!
# The receive side of the rpmsg character devices — the model

`rpmsg_user_dev_driver.c` and `rpmsg_proxy_dev_driver.c` share their receive path: a callback
pushes each message into a kfifo under `sync_lock` and then raises `block_flag`, and
`rpmsg_dev_read` copies bytes out of the kfifo, waiting on the flag when it finds none.

* `Message` is what the rpmsg bus hands to the callback: a receive buffer and a length;
* `State` holds the kfifo, the flag, the callbacks between their unlock and their store of
  the flag, and where each reader thread stands (`Pc`);
* `step` makes one atomic action: a critical section, a store of the flag or a test of it;
  an action whose thread is elsewhere does nothing, so every list of actions is a run;
* `accepts` and `copies` say which actions put into the kfifo and which take from it, and
  `step_kfifo` that these are the only ones.

The kfifo is not part of the repository: it is a byte queue of 2048 bytes.
-/

/-! ### Messages -/

/-- The payload bytes of a receive buffer: 512 bytes less the 16 of the rpmsg header. -/
def rpmsgPayloadSize : Nat := 496

/-- A message as the callback gets it: the bytes of the whole receive buffer, of which the
    first `len` were sent. -/
structure Message where
  data : List UInt8
  len : Nat
  data_length : data.length = rpmsgPayloadSize
  len_le : len ≤ rpmsgPayloadSize

namespace Message

/-- The bytes that were sent. -/
def payload (m : Message) : List UInt8 := m.data.take m.len

/-- `*(int *) data`, on a little-endian machine. -/
def word (m : Message) : Nat :=
  (m.data.getD 0 0).toNat + 2 ^ 8 * (m.data.getD 1 0).toNat +
    2 ^ 16 * (m.data.getD 2 0).toNat + 2 ^ 24 * (m.data.getD 3 0).toNat

/-- `(*(int *) data) == SHUTDOWN_MSG`. -/
def isShutdown (m : Message) : Bool := m.word == 0xEF56A55A

/-- `len_in`: the length rounded up to a multiple of 8. -/
def lenIn (m : Message) : Nat := if m.len % 8 ≠ 0 then (m.len / 8 + 1) * 8 else m.len

/-- The bytes that `kfifo_in(&local->rpmsg_kfifo, data, len_in)` appends. -/
def image (m : Message) : List UInt8 := m.data.take m.lenIn

/-- The rounding stays inside the receive buffer. -/
theorem lenIn_le (m : Message) : m.lenIn ≤ rpmsgPayloadSize := by
  have hle := m.len_le
  rw [lenIn]
  rw [rpmsgPayloadSize] at hle ⊢
  split <;> omega

/-- A message fits in the image that is pushed for it, whose length is its own rounded up to a
    multiple of eight. -/
theorem len_le_lenIn (m : Message) : m.len ≤ m.lenIn := by
  rw [lenIn]
  split <;> omega

@[simp] theorem image_length (m : Message) : m.image.length = m.lenIn := by
  rw [image, List.length_take, m.data_length]
  exact Nat.min_eq_left m.lenIn_le

@[simp] theorem payload_length (m : Message) : m.payload.length = m.len := by
  rw [payload, List.length_take, m.data_length]
  exact Nat.min_eq_left m.len_le

/-- A length that is a multiple of 8 is not rounded. -/
theorem image_eq_payload {m : Message} (h : m.len % 8 = 0) : m.image = m.payload := by
  rw [image, payload, lenIn, if_neg (by simpa using h)]

/-- The bytes sent stand at the front of the image. -/
theorem take_image (m : Message) : m.image.take m.len = m.payload := by
  rw [image, List.take_take, Nat.min_eq_left m.len_le_lenIn, payload]

/-- A message in a receive buffer that holds nothing else. -/
def ofBytes (bytes : List UInt8) (h : bytes.length ≤ rpmsgPayloadSize := by decide) : Message where
  data := bytes ++ List.replicate (rpmsgPayloadSize - bytes.length) 0
  len := bytes.length
  data_length := by
    rw [List.length_append, List.length_replicate]
    omega
  len_le := h

/-- A message of 16 bytes. -/
def sixteen (b : UInt8) : Message :=
  .ofBytes (List.replicate 16 b) (by rw [List.length_replicate]; decide)

end Message

/-! ### Buffers -/

/-- A buffer with its first bytes replaced, as a copy into it leaves it. -/
def overwrite (buf bytes : List UInt8) : List UInt8 := bytes ++ buf.drop bytes.length

/-- Copying over a buffer makes its first bytes those that are copied, however long the buffer
    is. -/
theorem take_overwrite {buf bytes : List UInt8} {n : Nat} (h : n ≤ bytes.length) :
    (overwrite buf bytes).take n = bytes.take n :=
  List.take_append_of_le_length h

/-! ### The device and its readers -/

/-- `RPMSG_KFIFO_SIZE`. -/
def rpmsgKfifoSize : Nat := 512 * 4

/-- The arguments of a call of `rpmsg_dev_read`: the length asked for, and O_NONBLOCK. -/
structure Call where
  len : Nat
  nonblock : Bool := false
  deriving DecidableEq

/-- Where a reader thread stands: in no call; inside `wait_event_interruptible`, about to
    test `block_flag` or asleep after a test that failed; or past the wait and about to lock
    `sync_lock` again, because the test passed or a signal came. -/
inductive Pc
  | idle
  | testing (c : Call)
  | asleep (c : Call)
  | woken (c : Call) (signalled : Bool)
  deriving DecidableEq

/-- The device: `rpmsg_kfifo`, `block_flag`, the number of callbacks between their unlock
    and `block_flag = 1`, and the reader threads. -/
structure State where
  kfifo : BoundedQueue UInt8 rpmsgKfifoSize
  blockFlag : Bool
  publishing : Nat
  pc : Nat → Pc

/-- The state `probe` leaves. -/
def State.init : State := ⟨.nil, false, 0, fun _ => .idle⟩

/-- One atomic action of a callback, or of a reader thread `r`. -/
inductive Action
  | callback (m : Message)
  | publish
  | read (r : Nat) (c : Call)
  | test (r : Nat)
  | signal (r : Nat)
  | resume (r : Nat)

/-- `rpmsg_user_dev_rpmsg_drv_cb` and `rpmsg_proxy_dev_ept_cb` up to the unlock: a shutdown
    message only starts the shutdown, and one that does not fit is dropped. -/
def drvCb (s : State) (m : Message) : State :=
  if m.isShutdown then s
  -- the check and the push stand in one critical section, so no other callback comes between
  else if s.kfifo.avail < m.lenIn then s
  else { s with kfifo := s.kfifo.put m.image, publishing := s.publishing + 1 }

/-- A callback's `block_flag = 1` and `wake_up_interruptible`: sleepers test again. -/
def publish (s : State) : State :=
  if s.publishing = 0 then s
  else
    { s with
      blockFlag := true
      publishing := s.publishing - 1
      -- a reader that has not passed its test yet stays where it is and will see the flag
      pc := fun r =>
        match s.pc r with
        | .asleep c => .testing c
        | p => p }

/-- `data_used = (data_available > len) ? len : data_available`. -/
def State.dataUsed (s : State) (len : Nat) : Nat :=
  if s.kfifo.items.length > len then len else s.kfifo.items.length

/-- Bounding the length by the data available changes nothing about what is copied. -/
theorem State.take_dataUsed (s : State) (len : Nat) :
    s.kfifo.items.take (s.dataUsed len) = s.kfifo.items.take len := by
  rw [State.dataUsed]
  split
  · rfl
  · next h => rw [List.take_length, List.take_of_length_le (Nat.not_lt.mp h)]

/-- Taking what a call uses leaves what lies behind its length: where the kfifo holds less,
    both leave nothing. -/
theorem State.drop_dataUsed (s : State) (len : Nat) :
    s.kfifo.items.drop (s.dataUsed len) = s.kfifo.items.drop len := by
  rw [State.dataUsed]
  split
  · rfl
  · next h => rw [List.drop_length, List.drop_eq_nil_of_le (Nat.not_lt.mp h)]

/-- The end of `rpmsg_dev_read`, in the critical section: reset the flag, copy to the user
    and return. -/
def copyOut (s : State) (r : Nat) (c : Call) : State :=
  { s with
    -- the reset does not ask whether the kfifo is empty
    blockFlag := false
    kfifo := s.kfifo.drop (s.dataUsed c.len)
    pc := Function.update s.pc r .idle }

/-- A call of `rpmsg_dev_read` up to the end of its first critical section: with no data it
    returns -EAGAIN or goes on to the wait, else it copies and returns. -/
def rpmsgDevRead (s : State) (r : Nat) (c : Call) : State :=
  match s.pc r with
  | .idle =>
    if s.kfifo.items.length = 0 then
      if c.nonblock then s else { s with pc := Function.update s.pc r (.testing c) }
    else copyOut s r c
  | _ => s

/-- The condition of `wait_event_interruptible`: past the wait, or asleep. -/
def testFlag (s : State) (r : Nat) : State :=
  match s.pc r with
  | .testing c =>
    { s with pc := Function.update s.pc r (if s.blockFlag then .woken c false else .asleep c) }
  | _ => s

/-- A signal ends the wait; `rpmsg_dev_read` ignores that it did. -/
def signal (s : State) (r : Nat) : State :=
  match s.pc r with
  | .testing c => { s with pc := Function.update s.pc r (.woken c true) }
  | .asleep c => { s with pc := Function.update s.pc r (.woken c true) }
  | _ => s

/-- The second critical section of `rpmsg_dev_read`, after the wait. -/
def resume (s : State) (r : Nat) : State :=
  match s.pc r with
  -- the data available is counted again but not checked: it may be 0
  | .woken c _ => copyOut s r c
  | _ => s

/-- One action of the system. -/
def step (s : State) : Action → State
  | .callback m => drvCb s m
  | .publish    => publish s
  | .read r c   => rpmsgDevRead s r c
  | .test r     => testFlag s r
  | .signal r   => signal s r
  | .resume r   => resume s r

/-- The device with its callbacks and readers, from probe. -/
def device : Machine State Action := ⟨.init, step⟩

/-! ### What an action puts into the kfifo, takes from it and signals -/

/-- The message a callback pushes. -/
def accepts (s : State) : Action → Option Message
  | .callback m => if m.isShutdown || s.kfifo.avail < m.lenIn then none else some m
  | _ => none

/-- The call whose critical section copies to the user, with its thread and whether a signal
    ended its wait. -/
def copies (s : State) : Action → Option (Nat × Call × Bool)
  | .read r c =>
    if s.pc r = .idle ∧ s.kfifo.items.length ≠ 0 then some (r, c, false) else none
  | .resume r =>
    match s.pc r with
    | .woken c signalled => some (r, c, signalled)
    | _ => none
  | _ => none

/-- A callback stores `block_flag = 1`. -/
def raises (s : State) : Action → Bool
  | .publish => decide (0 < s.publishing)
  | _ => false

/-- The return of a call of `rpmsg_dev_read`: its thread and arguments, whether a signal
    ended its wait, and the bytes copied or an error number. -/
structure Return where
  reader : Nat
  call : Call
  signalled : Bool
  result : Except Int (List UInt8)
  deriving DecidableEq

/-- The bytes a call hands to the user. -/
def Return.bytes (ret : Return) : List UInt8 :=
  match ret.result with
  | .ok bytes => bytes
  | .error _ => []

/-- The value a call returns: the number of bytes, or the error number. -/
def Return.count (ret : Return) : Int :=
  match ret.result with
  | .ok bytes => bytes.length
  | .error e => e

/-- `-EAGAIN`. -/
def eagain : Int := -11

/-- The return an action makes: with the bytes it copies, or with -EAGAIN from a call that
    finds no data and must not block. -/
def returns (s : State) (a : Action) : Option Return :=
  match copies s a with
  | some (r, c, signalled) =>
    some ⟨r, c, signalled, .ok (s.kfifo.items.take (s.dataUsed c.len))⟩
  | none =>
    match a with
    | .read r c => if s.pc r = .idle ∧ c.nonblock then some ⟨r, c, false, .error eagain⟩ else none
    | _ => none

/-- An action that puts a message into the kfifo. -/
theorem step_of_accepts {s : State} {a : Action} {m : Message} (h : accepts s a = some m) :
    a = .callback m ∧ m.isShutdown = false ∧ m.lenIn ≤ s.kfifo.avail ∧ copies s a = none ∧
      step s a = { s with kfifo := s.kfifo.put m.image, publishing := s.publishing + 1 } := by
  cases a with
  | callback n =>
    simp only [accepts, Bool.or_eq_true, decide_eq_true_eq, Option.ite_none_left_eq_some,
      not_or, Bool.not_eq_true, Nat.not_lt, Option.some.injEq] at h
    obtain ⟨⟨hshut, hfit⟩, rfl⟩ := h
    refine ⟨rfl, hshut, hfit, rfl, ?_⟩
    show drvCb s n = _
    rw [drvCb, if_neg (by simp [hshut]), if_neg (Nat.not_lt.mpr hfit)]
  | _ => exact absurd h (by simp [accepts])

/-- A callback pushes its message exactly when it is no shutdown message and fits. -/
theorem accepts_callback_iff (s : State) (m : Message) :
    accepts s (.callback m) = some m ↔ m.isShutdown = false ∧ m.lenIn ≤ s.kfifo.avail := by
  simp [accepts]

/-- A callback that pushes nothing changes nothing. -/
theorem step_of_not_accepts {s : State} {m : Message} (h : accepts s (.callback m) = none) :
    step s (.callback m) = s := by
  simp only [accepts, ite_eq_left_iff, reduceCtorEq, imp_false, Decidable.not_not,
    Bool.or_eq_true, decide_eq_true_eq] at h
  show drvCb s m = s
  rw [drvCb]
  split_ifs with hshut hfull
  · rfl
  · rfl
  · exact absurd h (by simp [hshut, hfull])

/-- Every action that copies takes its bytes through the one copy-out from the kfifo to the
    user. -/
theorem step_of_copies {s : State} {a : Action} {r : Nat} {c : Call} {signalled : Bool}
    (h : copies s a = some (r, c, signalled)) : step s a = copyOut s r c := by
  cases a with
  | read r' c' =>
    simp only [copies, Option.ite_none_right_eq_some, Option.some.injEq, Prod.mk.injEq] at h
    obtain ⟨⟨hidle, hdata⟩, rfl, rfl, rfl⟩ := h
    show rpmsgDevRead s r' c' = _
    rw [rpmsgDevRead, hidle]
    exact if_neg hdata
  | resume r' =>
    show resume s r' = _
    rw [copies] at h
    rw [resume]
    split at h
    · simp only [Option.some.injEq, Prod.mk.injEq] at h
      obtain ⟨rfl, rfl, rfl⟩ := h
      rfl
    · exact absurd h (by simp)
  | _ => exact absurd h (by simp [copies])

/-- An action that stores the flag. -/
theorem step_of_raises {s : State} {a : Action} (h : raises s a = true) :
    (step s a).kfifo = s.kfifo ∧ (step s a).blockFlag = true ∧
      (step s a).publishing + 1 = s.publishing := by
  cases a with
  | publish =>
    have hp : 0 < s.publishing := by simpa [raises] using h
    have hstep : step s .publish = publish s := rfl
    rw [hstep, publish, if_neg (Nat.ne_of_gt hp)]
    exact ⟨rfl, rfl, Nat.sub_add_cancel hp⟩
  | _ => exact absurd h (by simp [raises])

/-- Every other action at most moves its thread. -/
theorem step_quiet {s : State} {a : Action} (hacc : accepts s a = none)
    (hcop : copies s a = none) (hraise : raises s a = false) :
    ∃ pc, step s a = { s with pc := pc } := by
  cases a with
  | callback m => exact ⟨s.pc, step_of_not_accepts hacc⟩
  | publish =>
    have hp : s.publishing = 0 := by simpa [raises] using hraise
    exact ⟨s.pc, if_pos hp⟩
  | read r c =>
    show ∃ pc, rpmsgDevRead s r c = _
    rw [rpmsgDevRead]
    split
    · next hidle =>
      split_ifs with hempty hnonblock
      · exact ⟨s.pc, rfl⟩
      · exact ⟨_, rfl⟩
      -- a call that finds data copies
      · exact absurd hcop (by simp [copies, hidle, hempty])
    · exact ⟨s.pc, rfl⟩
  | test r =>
    show ∃ pc, testFlag s r = _
    rw [testFlag]
    split
    · exact ⟨_, rfl⟩
    · exact ⟨s.pc, rfl⟩
  | signal r =>
    show ∃ pc, signal s r = _
    rw [signal]
    split
    · exact ⟨_, rfl⟩
    · exact ⟨_, rfl⟩
    · exact ⟨s.pc, rfl⟩
  | resume r =>
    show ∃ pc, resume s r = _
    rw [resume]
    split
    -- past the wait a call copies, whatever it finds
    · next hpc => exact absurd hcop (by simp [copies, hpc])
    · exact ⟨s.pc, rfl⟩

/-- What an action does to the kfifo: it appends an accepted image, takes the bytes it
    copies to the user, or leaves the kfifo alone. -/
theorem step_kfifo (s : State) (a : Action) :
    (∃ m, accepts s a = some m ∧ copies s a = none ∧ m.lenIn ≤ s.kfifo.avail ∧
      (step s a).kfifo = s.kfifo.put m.image) ∨
    (∃ r c signalled, accepts s a = none ∧ copies s a = some (r, c, signalled) ∧
      (step s a).kfifo = s.kfifo.drop (s.dataUsed c.len)) ∨
    (accepts s a = none ∧ copies s a = none ∧ (step s a).kfifo = s.kfifo) := by
  cases hacc : accepts s a with
  | some m =>
    -- a callback that accepts pushes the padded message
    obtain ⟨-, -, hfit, hcop, hstep⟩ := step_of_accepts hacc
    exact Or.inl ⟨m, rfl, hcop, hfit, by rw [hstep]⟩
  | none =>
    cases hcop : copies s a with
    | some k =>
      obtain ⟨r, c, signalled⟩ := k
      exact Or.inr (Or.inl ⟨r, c, signalled, rfl, rfl, by rw [step_of_copies hcop]; rfl⟩)
    | none =>
      refine Or.inr (Or.inr ⟨rfl, rfl, ?_⟩)
      cases hraise : raises s a with
      | true => exact (step_of_raises hraise).1
      | false =>
        -- everything else moves program counters only
        obtain ⟨pc, hstep⟩ := step_quiet hacc hcop hraise
        rw [hstep]

/-! ### What an action does to the flag -/

/-- The flag is raised by a callback's store, and reset by every critical section that
    copies. -/
theorem step_blockFlag (s : State) (a : Action) :
    (step s a).blockFlag = (raises s a || (s.blockFlag && (copies s a).isNone)) := by
  cases hraise : raises s a with
  | true => exact (step_of_raises hraise).2.1
  | false =>
    cases hcop : copies s a with
    | some k =>
      obtain ⟨r, c, signalled⟩ := k
      rw [step_of_copies hcop]
      simp [copyOut]
    | none =>
      cases hacc : accepts s a with
      | some m =>
        obtain ⟨-, -, -, -, hstep⟩ := step_of_accepts hacc
        rw [hstep]
        simp
      | none =>
        obtain ⟨pc, hstep⟩ := step_quiet hacc hcop hraise
        rw [hstep]
        simp

/-- A callback that pushes is in front of its store until it makes it. -/
theorem step_publishing (s : State) (a : Action) :
    (step s a).publishing + (raises s a).toNat = s.publishing + (accepts s a).isSome.toNat := by
  cases hacc : accepts s a with
  | some m =>
    -- the callback is now between its push and its store
    obtain ⟨rfl, -, -, -, hstep⟩ := step_of_accepts hacc
    rw [hstep]
    rfl
  | none =>
    cases hraise : raises s a with
    | true => exact (step_of_raises hraise).2.2
    | false =>
      cases hcop : copies s a with
      | some k =>
        obtain ⟨r, c, signalled⟩ := k
        rw [step_of_copies hcop]
        rfl
      | none =>
        obtain ⟨pc, hstep⟩ := step_quiet hacc hcop hraise
        rw [hstep]
        rfl

/-! ### What an action does to a reader -/

/-- The moves of the reader `r`: what an action of the system in state `s` makes of its
    program point, with the guard of each move. -/
inductive Moves (s : State) (r : Nat) : Action → Pc → Pc → Prop
  /-- most actions leave the reader where it is; a store of the flag leaves no sleeper -/
  | stay (a : Action) (p : Pc) : (raises s a = true → ∀ c, p ≠ .asleep c) → Moves s r a p p
  /-- a blocking call that finds no data goes on to the wait -/
  | enter (c : Call) : s.kfifo.items = [] → Moves s r (.read r c) .idle (.testing c)
  | pass (c : Call) : s.blockFlag = true → Moves s r (.test r) (.testing c) (.woken c false)
  | sleep (c : Call) : s.blockFlag = false → Moves s r (.test r) (.testing c) (.asleep c)
  | wake (c : Call) : 0 < s.publishing → Moves s r .publish (.asleep c) (.testing c)
  | interrupt (c : Call) (p : Pc) : p = .testing c ∨ p = .asleep c →
      Moves s r (.signal r) p (.woken c true)
  /-- a call returns from the critical section in which it copies -/
  | leave (a : Action) (p : Pc) (c : Call) (signalled : Bool) :
      copies s a = some (r, c, signalled) → Moves s r a p .idle

/-- An action that does not store the flag may leave the reader anywhere. -/
theorem Moves.same {s : State} {r : Nat} {a : Action} {p : Pc} (h : raises s a = false) :
    Moves s r a p p :=
  .stay a p fun hraise => absurd (h ▸ hraise) Bool.false_ne_true

/-- Setting another thread's program point leaves this one's alone. -/
theorem Moves.update {s : State} {r r' : Nat} {a : Action} {p : Pc} (hno : raises s a = false)
    (h : r = r' → Moves s r a (s.pc r) p) :
    Moves s r a (s.pc r) (Function.update s.pc r' p r) := by
  by_cases hr : r = r'
  · rw [hr, Function.update_self, ← hr]
    exact h hr
  · rw [Function.update_of_ne hr]
    exact .same hno

/-- Every action makes one of these moves of each reader, so an invariant of the readers is
    proved move by move. -/
theorem step_moves (s : State) (a : Action) (r : Nat) :
    Moves s r a (s.pc r) ((step s a).pc r) := by
  cases a with
  | callback m =>
    show Moves s r _ _ ((drvCb s m).pc r)
    rw [drvCb]
    split_ifs <;> exact .same rfl
  | publish =>
    show Moves s r _ _ ((publish s).pc r)
    rw [publish]
    split_ifs with hp
    · exact .same (by simp [raises, hp])
    · simp only
      split
      · next c hpc =>
        rw [hpc]
        exact .wake c (Nat.pos_of_ne_zero hp)
      -- the store leaves everybody else in place, and these are no sleepers
      · next hpc => exact .stay _ _ fun _ => hpc
  | read r' c =>
    show Moves s r _ _ ((rpmsgDevRead s r' c).pc r)
    rw [rpmsgDevRead]
    split
    · next hidle =>
      split_ifs with hempty hnonblock
      · exact .same rfl
      · refine Moves.update rfl fun hr => ?_
        rw [hr, hidle]
        exact .enter c (List.eq_nil_of_length_eq_zero hempty)
      · refine Moves.update rfl fun hr => ?_
        rw [hr]
        exact .leave _ _ c false (by simp [copies, hidle, hempty])
    · exact .same rfl
  | test r' =>
    show Moves s r _ _ ((testFlag s r').pc r)
    rw [testFlag]
    split
    · next c hpc =>
      refine Moves.update rfl fun hr => ?_
      rw [hr, hpc]
      cases hflag : s.blockFlag
      · exact .sleep c hflag
      · exact .pass c hflag
    · exact .same rfl
  | signal r' =>
    show Moves s r _ _ ((signal s r').pc r)
    rw [signal]
    split
    · next c hpc =>
      refine Moves.update rfl fun hr => ?_
      rw [hr, hpc]
      exact .interrupt c _ (Or.inl rfl)
    · next c hpc =>
      refine Moves.update rfl fun hr => ?_
      rw [hr, hpc]
      exact .interrupt c _ (Or.inr rfl)
    · exact .same rfl
  | resume r' =>
    show Moves s r _ _ ((resume s r').pc r)
    rw [resume]
    split
    · next c signalled hpc =>
      refine Moves.update rfl fun hr => ?_
      rw [hr]
      exact .leave _ _ c signalled (by simp [copies, hpc])
    · exact .same rfl

/-- The call a reader is in. -/
def Pc.call? : Pc → Option Call
  | .idle => none
  | .testing c => some c
  | .asleep c => some c
  | .woken c _ => some c

/-- A reader is in the call it was in, or in one it makes now. -/
theorem call_of_step {s : State} {a : Action} {r : Nat} {c : Call}
    (h : ((step s a).pc r).call? = some c) : (s.pc r).call? = some c ∨ a = .read r c := by
  have hmove := step_moves s a r
  generalize s.pc r = p at hmove ⊢
  generalize (step s a).pc r = p' at h hmove
  -- a program enters a call by `read` alone; every other move keeps it or leaves
  cases hmove with
  | stay => exact Or.inl h
  | enter c' =>
    have hc : c' = c := Option.some.inj h
    exact Or.inr (by rw [hc])
  | pass => exact Or.inl h
  | sleep => exact Or.inl h
  | wake => exact Or.inl h
  | interrupt _ _ hp =>
    rcases hp with rfl | rfl
    · exact Or.inl h
    · exact Or.inl h
  | leave => exact absurd h (by simp [Pc.call?])

/-- So is the one whose critical section copies. -/
theorem call_of_copies {s : State} {a : Action} {r : Nat} {c : Call} {signalled : Bool}
    (h : copies s a = some (r, c, signalled)) :
    ((s.pc r).call? = some c ∧ a = .resume r) ∨ a = .read r c := by
  cases a with
  | read r' c' =>
    simp only [copies, Option.ite_none_right_eq_some, Option.some.injEq, Prod.mk.injEq] at h
    obtain ⟨-, rfl, rfl, -⟩ := h
    exact Or.inr rfl
  | resume r' =>
    rw [copies] at h
    split at h
    · next hpc =>
      simp only [Option.some.injEq, Prod.mk.injEq] at h
      obtain ⟨rfl, rfl, rfl⟩ := h
      exact Or.inl ⟨by rw [hpc]; rfl, rfl⟩
    · exact absurd h (by simp)
  | _ => exact absurd h (by simp [copies])

/-- A reader is in a call it has made. -/
theorem read_mem_of_call (acts : List Action) {r : Nat} {c : Call}
    (h : ((device.run acts).pc r).call? = some c) : Action.read r c ∈ acts := by
  induction acts using List.reverseRecOn with
  | nil => exact absurd h (by simp [device, Machine.run, State.init, Pc.call?])
  | append_singleton acts a ih =>
    rw [Machine.run_snoc] at h
    rcases call_of_step h with hold | rfl
    · exact List.mem_append_left _ (ih hold)
    · simp

/-- The call that a reader copies for has been made in the run: no reader copies for a call of
    another one. -/
theorem read_mem_of_copies {acts : List Action} {a : Action} {r : Nat} {c : Call}
    {signalled : Bool} (h : copies (device.run acts) a = some (r, c, signalled)) :
    Action.read r c ∈ acts ++ [a] := by
  rcases call_of_copies h with ⟨hold, -⟩ | rfl
  · exact List.mem_append_left _ (read_mem_of_call acts hold)
  · simp

/-- A thread that has made no call is idle. -/
theorem pc_idle_of_no_read {acts : List Action} {r : Nat} (h : ∀ c, Action.read r c ∉ acts) :
    (device.run acts).pc r = .idle := by
  cases hpc : (device.run acts).pc r with
  | idle => rfl
  | testing c => exact absurd (read_mem_of_call acts (by rw [hpc]; rfl)) (h c)
  | asleep c => exact absurd (read_mem_of_call acts (by rw [hpc]; rfl)) (h c)
  | woken c _ => exact absurd (read_mem_of_call acts (by rw [hpc]; rfl)) (h c)

/-! ### What a run accepts and copies -/

/-- The messages accepted so far, in callback order. -/
def accepted (acts : List Action) : List Message :=
  log (fun past a => (accepts (device.run past) a).toList) acts

/-- The returns of `rpmsg_dev_read` so far, in the order of their critical sections. -/
def returned (acts : List Action) : List Return :=
  log (fun past a => (returns (device.run past) a).toList) acts

/-- The bytes handed to the user so far. -/
def delivered (acts : List Action) : List UInt8 := (returned acts).flatMap Return.bytes

@[simp] theorem accepted_snoc (acts : List Action) (a : Action) :
    accepted (acts ++ [a]) = accepted acts ++ (accepts (device.run acts) a).toList :=
  log_snoc _ _ _

@[simp] theorem returned_snoc (acts : List Action) (a : Action) :
    returned (acts ++ [a]) = returned acts ++ (returns (device.run acts) a).toList :=
  log_snoc _ _ _

/-- A call that copies returns in the same action, with the bytes it took from the front of
    the kfifo. -/
theorem returns_of_copies {s : State} {a : Action} {r : Nat} {c : Call} {signalled : Bool}
    (h : copies s a = some (r, c, signalled)) :
    returns s a = some ⟨r, c, signalled, .ok (s.kfifo.items.take (s.dataUsed c.len))⟩ := by
  unfold returns
  simp only [h]

/-- A call that copies nothing out of its critical section hands over no bytes. -/
theorem returns_bytes_of_none {s : State} {a : Action} (h : copies s a = none) :
    (returns s a).toList.flatMap Return.bytes = [] := by
  unfold returns
  simp only [h]
  cases a with
  | read r c =>
    simp only
    split_ifs <;> rfl
  | _ => rfl

theorem delivered_snoc (acts : List Action) (a : Action) :
    delivered (acts ++ [a]) =
      delivered acts ++ (returns (device.run acts) a).toList.flatMap Return.bytes := by
  rw [delivered, returned_snoc, List.flatMap_append]
  rfl

end ZynqLinux.Rpmsg
