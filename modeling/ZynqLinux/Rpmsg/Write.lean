import ZynqLinux.Rpmsg.Device

namespace ZynqLinux.Rpmsg.Write

open ZynqLinux.Lib

/-!
# The transmit side of the rpmsg character devices

`rpmsg_dev_write` copies the user's bytes into `tx_buff`, one buffer for the whole device,
and then hands that buffer to `rpmsg_sendto`.  Nothing keeps another write from copying into
it in between.

* `step` interleaves the two actions of any number of calls, and `completion` is what a call
  has sent and returns when it is over;
* `Staged` says that the buffer still holds the bytes of each call that is in between;
* `own_message_sent` shows that it does in the runs in which no call copies while another is
  in between, and that each call then sends its own bytes.

`rpmsg_sendto` is not part of the repository: it copies the buffer when it is called and
refuses more than 496 bytes.
-/

/-! ### The calls and the buffer -/

/-- `MAX_RPMSG_BUFF_SIZE`. -/
def maxRpmsgBuffSize : Nat := 512

/-- Where a writer thread stands: in no call, or between `copy_from_user` and `rpmsg_sendto`
    in a call with the user buffer `ubuff`. -/
inductive Pc
  | idle
  | copied (ubuff : List UInt8)
  deriving DecidableEq

/-- The device's `tx_buff` and its writer threads. -/
structure State where
  txBuff : List UInt8
  pc : Nat → Pc

/-- What `probe` leaves in `tx_buff`: the init message, then zeros. -/
def State.init : State where
  txBuff := [0x69, 0x6E, 0x69, 0x74, 0x5F, 0x6D, 0x73, 0x67] ++ List.replicate 504 0
  pc := fun _ => .idle

/-- One action of the writer `w`: `copy_from_user` at the start of a call, which may fault
    after some bytes, or `rpmsg_sendto`, which may fail for reasons of its own. -/
inductive Action
  | copy (w : Nat) (ubuff : List UInt8) (fault : Option Nat)
  | send (w : Nat) (fails : Bool)

/-- `size`: the length of the user buffer, at most MAX_RPMSG_BUFF_SIZE. -/
def size (ubuff : List UInt8) : Nat :=
  if ubuff.length < maxRpmsgBuffSize then ubuff.length else maxRpmsgBuffSize

/-- What `copy_from_user(local->tx_buff, ubuff, size)` stores: the user's bytes, with zeros
    from the fault on. -/
def userBytes (ubuff : List UInt8) : Option Nat → List UInt8
  | none   => ubuff.take (size ubuff)
  | some k => (ubuff.take (size ubuff)).take k ++ List.replicate (size ubuff - k) 0

/-- The start of `rpmsg_dev_write`; a fault ends the call. -/
def copyFromUser (s : State) (w : Nat) (ubuff : List UInt8) (fault : Option Nat) : State :=
  match s.pc w with
  | .idle =>
    -- no lock: another call may be in between, and loses its bytes here
    { txBuff := overwrite s.txBuff (userBytes ubuff fault)
      pc := if fault.isSome then s.pc else Function.update s.pc w (.copied ubuff) }
  | .copied _ => s

/-- The end of `rpmsg_dev_write`. -/
def rpmsgSendto (s : State) (w : Nat) : State :=
  match s.pc w with
  | .idle => s
  | .copied _ => { s with pc := Function.update s.pc w .idle }

/-- One action of the system. -/
def step (s : State) : Action → State
  | .copy w ubuff fault => copyFromUser s w ubuff fault
  | .send w _ => rpmsgSendto s w

/-- The device with its writers, from probe. -/
def device : Machine State Action := ⟨.init, step⟩

/-! ### What a call has done when it returns -/

/-- A call that is over: its user buffer, the message it has sent and its return value. -/
structure Completion where
  writer : Nat
  ubuff : List UInt8
  sent : Option (List UInt8)
  ret : Int
  deriving DecidableEq

/-- `rpmsg_sendto` refuses a message. -/
def refused (ubuff : List UInt8) (fails : Bool) : Bool := fails || decide (496 < size ubuff)

/-- The call an action ends: a fault returns -1, a refused message 0, a sent one its size. -/
def completion (s : State) : Action → Option Completion
  | .copy w ubuff (some _) =>
    if s.pc w = .idle then some ⟨w, ubuff, none, -1⟩ else none
  | .copy _ _ none => none
  | .send w fails =>
    match s.pc w with
    | .idle => none
    | .copied ubuff =>
      -- the error is printed, and the call returns 0 for it
      if refused ubuff fails then some ⟨w, ubuff, none, 0⟩
      else some ⟨w, ubuff, some (s.txBuff.take (size ubuff)), size ubuff⟩

/-- The calls that are over. -/
def completed (acts : List Action) : List Completion :=
  log (fun past a => (completion (device.run past) a).toList) acts

/-- A positive count means that one message was sent, with that many bytes of the call's own
    buffer; any other value means that none was. -/
def Completion.Faithful (d : Completion) : Prop :=
  (0 < d.ret → d.sent = some (d.ubuff.take d.ret.toNat)) ∧ (d.ret ≤ 0 → d.sent = none)

instance (d : Completion) : Decidable d.Faithful := inferInstanceAs (Decidable (_ ∧ _))

/-! ### Calls that do not overlap -/

/-- A call copies at least one byte, and only while no other call is between its copy and
    its send. -/
def Alone (s : State) : Action → Prop
  | .copy w ubuff _ => s.pc w = .idle → ubuff ≠ [] ∧ ∀ w', s.pc w' = .idle
  | .send _ _ => True

/-- The buffer holds the bytes of every call between its copy and its send. -/
def Staged (s : State) : Prop :=
  ∀ w ubuff, s.pc w = .copied ubuff →
    ubuff ≠ [] ∧ s.txBuff.take (size ubuff) = ubuff.take (size ubuff)

section Staged

variable {s : State} {a : Action}

/-- At the start no call is between its copy and its send. -/
theorem staged_init : Staged State.init := by
  intro w ubuff hpc
  exact absurd (show Pc.idle = .copied ubuff from hpc) (by simp)

/-- A call does not send more bytes than it was given. -/
theorem size_le (ubuff : List UInt8) : size ubuff ≤ ubuff.length := by
  rw [size]
  split
  · exact Nat.le_refl _
  · next h => exact Nat.not_lt.mp h

theorem size_pos {ubuff : List UInt8} (h : ubuff ≠ []) : 0 < size ubuff := by
  have hpos := List.length_pos_iff.mpr h
  rw [size]
  split
  · exact hpos
  · decide

/-- What has been copied without a fault stands at the front of the buffer. -/
theorem overwrite_take (buf ubuff : List UInt8) :
    (overwrite buf (userBytes ubuff none)).take (size ubuff) = ubuff.take (size ubuff) := by
  have hlen : (userBytes ubuff none).length = size ubuff := by
    show (ubuff.take (size ubuff)).length = size ubuff
    rw [List.length_take]
    exact Nat.min_eq_left (size_le ubuff)
  rw [take_overwrite (Nat.le_of_eq hlen.symm)]
  show (ubuff.take (size ubuff)).take (size ubuff) = _
  rw [List.take_take, Nat.min_self]

/-- A copy that is alone puts the bytes of its own call into the buffer, and disturbs no other
    call. -/
theorem Staged.copy (h : Staged s) {w : Nat} {ubuff : List UInt8} {fault : Option Nat}
    (halone : Alone s (.copy w ubuff fault)) : Staged (copyFromUser s w ubuff fault) := by
  rw [copyFromUser]
  split
  · next hidle =>
    obtain ⟨hne, hothers⟩ := halone hidle
    intro w' ubuff' hpc
    cases fault with
    | some k =>
      -- the fault ends the call, and nobody else is in between
      exact absurd ((hothers w').symm.trans hpc) (by simp)
    | none =>
      simp only [Option.isSome_none, Bool.false_eq_true, if_false] at hpc
      by_cases hw : w' = w
      · -- the call's own bytes stand in the buffer now
        rw [hw, Function.update_self, Pc.copied.injEq] at hpc
        subst hpc
        exact ⟨hne, overwrite_take s.txBuff ubuff⟩
      · rw [Function.update_of_ne hw, hothers w'] at hpc
        exact absurd hpc (by simp)
  · exact h

/-- A send leaves the buffer as it is. -/
theorem Staged.send (h : Staged s) (w : Nat) : Staged (rpmsgSendto s w) := by
  rw [rpmsgSendto]
  split
  · exact h
  · intro w' ubuff' hpc
    change Function.update s.pc w .idle w' = .copied ubuff' at hpc
    by_cases hw : w' = w
    · rw [hw, Function.update_self] at hpc
      exact absurd hpc (by simp)
    · rw [Function.update_of_ne hw] at hpc
      exact h w' ubuff' hpc

/-- One action of a call that is alone keeps the buffer staged. -/
theorem Staged.step (h : Staged s) (halone : Alone s a) : Staged (step s a) := by
  cases a with
  | copy w ubuff fault => exact h.copy halone
  | send w fails => exact h.send w

/-- From a staged buffer every call ends faithfully: the bytes that it sends are its own. -/
theorem Staged.faithful (h : Staged s) {d : Completion} (hd : completion s a = some d) :
    d.Faithful := by
  cases a with
  | copy w ubuff fault =>
    cases fault with
    | none => exact absurd hd (by simp [completion])
    | some k =>
      simp only [completion, Option.ite_none_right_eq_some, Option.some.injEq] at hd
      obtain ⟨-, rfl⟩ := hd
      exact ⟨fun hret => absurd hret (by simp), fun _ => rfl⟩
  | send w fails =>
    rw [completion] at hd
    split at hd
    · exact absurd hd (by simp)
    · next ubuff hpc =>
      -- the shared buffer still holds the bytes of this call, since no other one wrote to it
      obtain ⟨hne, hstaged⟩ := h w ubuff hpc
      have hpos := size_pos hne
      split at hd
      · rw [Option.some.injEq] at hd
        subst hd
        exact ⟨fun hret => absurd hret (by simp), fun _ => rfl⟩
      · rw [Option.some.injEq] at hd
        subst hd
        refine ⟨fun _ => ?_, fun hret => ?_⟩
        · show some _ = some (ubuff.take (size ubuff : Int).toNat)
          rw [Int.toNat_natCast, hstaged]
        · -- a message of no bytes would be sent and return 0
          have hle : (size ubuff : Int) ≤ 0 := hret
          omega

end Staged

/-- **Concurrent writes.** In every run in which each call copies at least one byte, and only
    while no other call is between its copy and its send: a call that returns a positive
    count has sent one message, the first bytes of its own buffer, and a call that returns
    0 or a negative value has sent none. -/
theorem own_message_sent (acts : List Action)
    (h : EachCycle (fun past a => Alone (device.run past) a) acts) :
    ∀ d ∈ completed acts, d.Faithful := by
  apply Machine.forall_log_of_step (f := fun s a => (completion s a).toList)
    (Q := Completion.Faithful) staged_init (fun s a h halone => h.step halone) _ acts h
  intro s a hstaged _ d hd
  exact hstaged.faithful (Option.mem_toList.mp hd)

/-- Two writers, one after the other. -/
def inTurn : List Action :=
  [.copy 0 [1, 1] none, .send 0 false, .copy 1 [2, 2, 2] none, .send 1 false]

/-- Calls that take turns each send their own bytes. -/
theorem own_message_sent_inTurn :
    EachCycle (fun past a => Alone (device.run past) a) inTurn ∧
      ∀ d ∈ completed inTurn, d.Faithful := by
  have h : EachCycle (fun past a => Alone (device.run past) a) inTurn := by
    rw [eachCycle_iff_from]
    refine ⟨fun _ => ⟨by simp, fun _ => rfl⟩, trivial, fun _ => ⟨by simp, fun w => ?_⟩, trivial,
      trivial⟩
    show Function.update (Function.update (fun _ => Pc.idle) 0 (.copied [1, 1])) 0 .idle w = .idle
    simp [Function.update_apply]
  exact ⟨h, own_message_sent inTurn h⟩

/-- The second writer copies before the first one sends. -/
def overlapping : List Action := [.copy 0 [1, 1] none, .copy 1 [2, 2] none, .send 0 false]

/-- A write of no bytes. -/
def emptyWrite : List Action := [.copy 0 [] none, .send 0 false]

/-- The first writer sends the second one's bytes and returns 2; the empty write sends an
    empty message and returns 0. -/
theorem foreign_and_empty_messages :
    (⟨0, [1, 1], some [2, 2], 2⟩ : Completion) ∈ completed overlapping ∧
    ¬ (⟨0, [1, 1], some [2, 2], 2⟩ : Completion).Faithful ∧
    (⟨0, [], some [], 0⟩ : Completion) ∈ completed emptyWrite ∧
    ¬ (⟨0, [], some [], 0⟩ : Completion).Faithful := by
  decide +kernel

end ZynqLinux.Rpmsg.Write
