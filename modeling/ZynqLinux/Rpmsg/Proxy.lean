import Mathlib.Algebra.Group.Int.Defs
import ZynqLinux.Rpmsg.Device

namespace ZynqLinux.Rpmsg.Proxy

open ZynqLinux.Lib

/-!
# The RPC service of `proxy_app`

`proxy_app` serves the requests of a remote processor: it reads the proxy device into one
buffer of 512 bytes and calls `handle_rpc` on the buffer after every read that did not
return "nothing".  The result of the read is kept in an unsigned variable, so -1 counts as
something, and the read takes whatever bytes the kfifo holds, be they of several requests.

* `step` joins the loop, as the only reader, to the model of the driver;
* `started` finds the requests whose bytes have reached the loop, `ExactlyOnce` says that
  `handle_rpc` was invoked once for each of them, in order and on its bytes, and never after
  a read that returned 0 or -1;
* `Serving` is the invariant of the runs that go well, and `exactlyOnce_iff` the exact
  condition: no read fails, and every read that finds data finds one request.
-/

/-! ### The loop -/

/-- `RPC_BUFF_SIZE`. -/
def rpcBuffSize : Nat := 512

/-- The call the loop makes, with a blocking descriptor. -/
def rpcRead : Call := { len := rpcBuffSize }

/-- The driver, the buffer `proxy->rpc`, and whether the loop is still running. -/
structure State where
  dev : Rpmsg.State
  rpc : List UInt8
  running : Bool

/-- An action of the callbacks, or of the loop: the parts of its read, or a read that fails.
    `ok` says whether the loop goes on after `handle_rpc`, if the action leads to it: it
    returned 0 and left `proxy->active` set. -/
inductive Action
  | callback (m : Message)
  | publish
  | read (ok : Bool)
  | test
  | signal
  | resume (ok : Bool)
  | readError (ok : Bool)

/-- The action of the driver that is behind an action. -/
def driverAction (s : State) : Action → Option Rpmsg.Action
  | .callback m  => some (.callback m)
  | .publish     => some .publish
  | .read _      => if s.running then some (.read 0 rpcRead) else none
  | .test        => if s.running then some (.test 0) else none
  | .signal      => if s.running then some (.signal 0) else none
  | .resume _    => if s.running then some (.resume 0) else none
  | .readError _ => none

/-- A `read()` of the loop that returns -1. -/
def failsRead (s : State) : Action → Bool
  | .readError _ => s.running && decide (s.dev.pc 0 = .idle)
  | _ => false

/-- The value and the bytes with which a `read()` of the loop returns. -/
def readReturns (s : State) (a : Action) : Option (Int × List UInt8) :=
  if failsRead s a then some (-1, [])
  else
    ((driverAction s a).bind (returns s.dev)).map fun ret => (ret.count, ret.bytes)

/-- `bytes_rcvd <= 0`, for `unsigned int bytes_rcvd`. -/
def retries (ret : Int) : Bool := decide (ret % 2 ^ 32 ≤ 0)

/-- A call of `handle_rpc`: the result of the read in front of it, and `proxy->rpc`. -/
structure Invocation where
  ret : Int
  rpc : List UInt8
  deriving DecidableEq

/-- The call of `handle_rpc` an action leads to. -/
def invokes (s : State) (a : Action) : Option Invocation :=
  match readReturns s a with
  -- the request is not cut to the bytes read: behind them stands what earlier reads left
  | some (ret, bytes) => if retries ret then none else some ⟨ret, overwrite s.rpc bytes⟩
  | none => none

/-- The loop goes on after `handle_rpc`. -/
def answer : Action → Bool
  | .read ok => ok
  | .resume ok => ok
  | .readError ok => ok
  | _ => true

/-- One action; the loop ends when `handle_rpc` fails or clears `proxy->active`. -/
def step (s : State) (a : Action) : State where
  dev := (driverAction s a).elim s.dev (Rpmsg.step s.dev)
  rpc := (readReturns s a).elim s.rpc fun ret => overwrite s.rpc ret.2
  running := s.running && ((invokes s a).isNone || answer a)

/-- The service, with whatever `malloc` left in the buffer. -/
def proxyApp (rpc : List UInt8) : Machine State Action := ⟨⟨.init, rpc, true⟩, step⟩

/-! ### What an action does -/

/-- The message an action accepts. -/
def accepts (s : State) (a : Action) : Option Message :=
  (driverAction s a).bind (Rpmsg.accepts s.dev)

/-- The loop is in the critical section in which its read copies. -/
def copies (s : State) (a : Action) : Bool :=
  ((driverAction s a).bind (Rpmsg.copies s.dev)).isSome

/-- The loop is in no other call than its own. -/
def OwnCall (s : State) : Prop := ∀ c, (s.dev.pc 0).call? = some c → c = rpcRead

section Action

variable {s : State} {a : Action}

theorem driverAction_read {r : Nat} {c : Call} (h : driverAction s a = some (.read r c)) :
    r = 0 ∧ c = rpcRead := by
  cases a with
  | read ok =>
    simp only [driverAction, Option.ite_none_right_eq_some, Option.some.injEq,
      Rpmsg.Action.read.injEq] at h
    exact ⟨h.2.1.symm, h.2.2.symm⟩
  | _ => exact absurd h (by simp [driverAction])

theorem driverAction_resume {r : Nat} (h : driverAction s a = some (.resume r)) : r = 0 := by
  cases a with
  | resume ok =>
    simp only [driverAction, Option.ite_none_right_eq_some, Option.some.injEq,
      Rpmsg.Action.resume.injEq] at h
    exact h.2.symm
  | _ => exact absurd h (by simp [driverAction])

/-- An action of the loop that is one of the driver changes the device as that action does. -/
theorem step_dev_of_some {b : Rpmsg.Action} (h : driverAction s a = some b) :
    (step s a).dev = Rpmsg.step s.dev b := by
  show (driverAction s a).elim _ _ = _
  rw [h]
  rfl

/-- Any other action of the loop leaves the device. -/
theorem step_dev_of_none (h : driverAction s a = none) : (step s a).dev = s.dev := by
  show (driverAction s a).elim _ _ = _
  rw [h]
  rfl

/-- The loop only ever makes its own call, so no other call appears on its file descriptor. -/
theorem OwnCall.step (h : OwnCall s) (a : Action) : OwnCall (step s a) := by
  intro c hc
  cases hb : driverAction s a with
  | none =>
    rw [step_dev_of_none hb] at hc
    exact h c hc
  | some b =>
    rw [step_dev_of_some hb] at hc
    rcases call_of_step hc with hold | rfl
    · exact h c hold
    · exact (driverAction_read hb).2

/-- A read that fails reaches no driver. -/
theorem driverAction_of_failsRead (h : failsRead s a = true) : driverAction s a = none := by
  cases a with
  | readError ok => rfl
  | _ => exact absurd h (by simp [failsRead])

/-- The loop's call blocks, so it returns only from the critical section that copies. -/
theorem returns_eq_none {b : Rpmsg.Action} (hb : driverAction s a = some b)
    (hcop : Rpmsg.copies s.dev b = none) : returns s.dev b = none := by
  unfold returns
  simp only [hcop]
  split
  · obtain ⟨-, rfl⟩ := driverAction_read hb
    simp [rpcRead]
  · rfl

/-- An action behind which the driver does nothing. -/
theorem driver_idle (h : driverAction s a = none) :
    accepts s a = none ∧ copies s a = false ∧ (step s a).dev.kfifo = s.dev.kfifo := by
  refine ⟨?_, ?_, ?_⟩
  · rw [accepts, h]
    rfl
  · rw [copies, h]
    rfl
  · rw [step_dev_of_none h]

/-- What an action does: it accepts a message, the read of the loop copies and returns, or
    fails, or nothing of this happens. -/
theorem step_cases (hown : OwnCall s) (a : Action) :
    (∃ m, accepts s a = some m ∧ m.lenIn ≤ s.dev.kfifo.avail ∧ copies s a = false ∧
      failsRead s a = false ∧ readReturns s a = none ∧
      (step s a).dev.kfifo = s.dev.kfifo.put m.image) ∨
    (accepts s a = none ∧ copies s a = true ∧ failsRead s a = false ∧
      readReturns s a = some (((s.dev.kfifo.items.take rpcBuffSize).length : Int),
        s.dev.kfifo.items.take rpcBuffSize) ∧
      (step s a).dev.kfifo.items = s.dev.kfifo.items.drop rpcBuffSize) ∨
    (accepts s a = none ∧ copies s a = false ∧ failsRead s a = true ∧
      readReturns s a = some (-1, []) ∧ (step s a).dev.kfifo = s.dev.kfifo) ∨
    (accepts s a = none ∧ copies s a = false ∧ failsRead s a = false ∧
      readReturns s a = none ∧ (step s a).dev.kfifo = s.dev.kfifo) := by
  cases hfail : failsRead s a with
  | true =>
    obtain ⟨hacc, hcop, hkfifo⟩ := driver_idle (driverAction_of_failsRead hfail)
    refine Or.inr (Or.inr (Or.inl ⟨hacc, hcop, rfl, ?_, hkfifo⟩))
    rw [readReturns, hfail]
    rfl
  | false =>
    cases hb : driverAction s a with
    | none =>
      obtain ⟨hacc, hcop, hkfifo⟩ := driver_idle hb
      refine Or.inr (Or.inr (Or.inr ⟨hacc, hcop, rfl, ?_, hkfifo⟩))
      rw [readReturns, hfail, hb]
      rfl
    | some b =>
      -- the driver acts: its own three cases
      rw [accepts, copies, readReturns, hfail, hb, step_dev_of_some hb]
      simp only [Option.bind_some, Bool.false_eq_true, if_false]
      rcases step_kfifo s.dev b with
        ⟨m, hacc, hcop, hfit, hkfifo⟩ | ⟨r, c, signalled, hacc, hcop, hkfifo⟩ |
        ⟨hacc, hcop, hkfifo⟩
      · refine Or.inl ⟨m, hacc, hfit, ?_, trivial, ?_, hkfifo⟩
        · rw [hcop]
          rfl
        · rw [returns_eq_none hb hcop]
          rfl
      · -- the call that copies is the one the loop makes, so 512 bytes are asked for
        have hc : c = rpcRead := by
          rcases call_of_copies hcop with ⟨hold, rfl⟩ | rfl
          · rw [driverAction_resume hb] at hold
            exact hown c hold
          · exact (driverAction_read hb).2
        refine Or.inr (Or.inl ⟨hacc, ?_, trivial, ?_, ?_⟩)
        · rw [hcop]
          rfl
        · rw [returns_of_copies hcop, hc, State.take_dataUsed]
          rfl
        · rw [hkfifo, hc]
          exact s.dev.drop_dataUsed _
      · refine Or.inr (Or.inr (Or.inr ⟨hacc, ?_, trivial, ?_, hkfifo⟩))
        · rw [hcop]
          rfl
        · rw [returns_eq_none hb hcop]
          rfl

end Action

/-! ### The requests of a run and what became of them -/

/-- The requests whose first byte is among the first `n` bytes of their images. -/
def started : List Message → Nat → List Message
  | [], _ => []
  | m :: ms, n => if n = 0 then [] else m :: started ms (n - m.image.length)

/-- The requests accepted so far; a message of no bytes is none. -/
def requests (rpc : List UInt8) (acts : List Action) : List Message :=
  (log (fun past a => (accepts ((proxyApp rpc).run past) a).toList) acts).filter
    fun m => decide (0 < m.len)

/-- The number of bytes the reads of the loop have returned. -/
def taken (rpc : List UInt8) (acts : List Action) : Nat :=
  (log (fun past a => (readReturns ((proxyApp rpc).run past) a).elim [] Prod.snd) acts).length

/-- The calls of `handle_rpc`. -/
def invocations (rpc : List UInt8) (acts : List Action) : List Invocation :=
  log (fun past a => (invokes ((proxyApp rpc).run past) a).toList) acts

/-- The requests delivered to the loop: those of which a read has returned bytes. -/
def delivered (rpc : List UInt8) (acts : List Action) : List Message :=
  started (requests rpc acts) (taken rpc acts)

/-- The requests of which no read has returned bytes. -/
def queued (rpc : List UInt8) (acts : List Action) : List Message :=
  (requests rpc acts).drop (delivered rpc acts).length

/-- `handle_rpc` was invoked on the bytes of the request. -/
def Serves (inv : Invocation) (m : Message) : Prop := inv.rpc.take m.len = m.payload

/-- `handle_rpc` has been invoked once for each request delivered, in arrival order and on
    its bytes, and never after a read that returned 0 or -1. -/
def ExactlyOnce (rpc : List UInt8) (acts : List Action) : Prop :=
  List.Forall₂ Serves (invocations rpc acts) (delivered rpc acts) ∧
  ∀ inv ∈ invocations rpc acts, 0 < inv.ret

/-- The read of the loop does not fail, and when it finds data it finds one request. -/
def OneAtATime (rpc : List UInt8) (past : List Action) (a : Action) : Prop :=
  failsRead ((proxyApp rpc).run past) a = false ∧
  (copies ((proxyApp rpc).run past) a = true →
    ((proxyApp rpc).run past).dev.kfifo.items ≠ [] → (queued rpc past).length = 1)

section Started

theorem started_zero (ms : List Message) : started ms 0 = [] := by
  cases ms <;> rfl

/-- Requests all of whose bytes have been returned are started, the next ones as far as the
    bytes go. -/
theorem started_append {done : List Message} (h : ∀ m ∈ done, 0 < m.len) (rest : List Message)
    (n : Nat) : started (done ++ rest) ((done.flatMap Message.image).length + n) =
      done ++ started rest n := by
  induction done with
  | nil => simp
  | cons m ms ih =>
    have hpos : 0 < m.image.length := by
      rw [Message.image_length]
      exact Nat.lt_of_lt_of_le (h m (by simp)) m.len_le_lenIn
    -- the first request is read out in full, so it counts as started
    rw [List.flatMap_cons, List.length_append, List.cons_append, started, if_neg (by omega),
      show m.image.length + (ms.flatMap Message.image).length + n - m.image.length =
        (ms.flatMap Message.image).length + n by omega,
      ih fun n hn => h n (List.mem_cons_of_mem _ hn)]
    rfl

/-- Once all bytes of some requests are taken, these have been started, and no request behind
    them. -/
theorem started_of_done {done : List Message} (h : ∀ m ∈ done, 0 < m.len) (rest : List Message) :
    started (done ++ rest) (done.flatMap Message.image).length = done := by
  simpa [started_zero] using started_append h rest 0

/-- Bytes beyond the first request start a second one. -/
theorem two_le_length_started {m : Message} (n : Message) (rest : List Message) {k : Nat}
    (hk : m.image.length < k) : 2 ≤ (started (m :: n :: rest) k).length := by
  rw [started, if_neg (by omega), started, if_neg (by omega)]
  simp

end Started

/-! ### The step of a run that goes well -/

section Log

variable (rpc : List UInt8) (acts : List Action) (a : Action)

theorem requests_snoc : requests rpc (acts ++ [a]) = requests rpc acts ++
    (accepts ((proxyApp rpc).run acts) a).toList.filter fun m => decide (0 < m.len) := by
  rw [requests, log_snoc, List.filter_append]
  rfl

theorem taken_snoc : taken rpc (acts ++ [a]) = taken rpc acts +
    ((readReturns ((proxyApp rpc).run acts) a).elim [] Prod.snd).length := by
  rw [taken, log_snoc, List.length_append]
  rfl

theorem invocations_snoc : invocations rpc (acts ++ [a]) = invocations rpc acts ++
    (invokes ((proxyApp rpc).run acts) a).toList :=
  log_snoc _ _ _

end Log

/-- Where a run that goes well stands: the `done` requests have been served, the kfifo holds
    the images of the `rest`. -/
structure Serving (rpc : List UInt8) (acts : List Action) (done rest : List Message) : Prop where
  requests_eq : requests rpc acts = done ++ rest
  taken_eq : taken rpc acts = (done.flatMap Message.image).length
  kfifo_eq : ((proxyApp rpc).run acts).dev.kfifo.items = (rest.map Message.image).flatten
  nonempty : ∀ m ∈ done ++ rest, 0 < m.len
  served : List.Forall₂ Serves (invocations rpc acts) done
  positive : ∀ inv ∈ invocations rpc acts, 0 < inv.ret
  ownCall : OwnCall ((proxyApp rpc).run acts)

section Serving

variable {rpc : List UInt8} {acts : List Action} {done rest : List Message} {a : Action}

/-- In such a run the requests delivered are those that have been served. -/
theorem Serving.delivered_eq (h : Serving rpc acts done rest) : delivered rpc acts = done := by
  rw [delivered, h.requests_eq, h.taken_eq]
  exact started_of_done (fun m hm => h.nonempty m (List.mem_append_left _ hm)) rest

/-- And those queued are the ones whose images the kfifo holds. -/
theorem Serving.queued_eq (h : Serving rpc acts done rest) : queued rpc acts = rest := by
  rw [queued, h.delivered_eq, h.requests_eq, List.drop_left]

/-- So every request is handled exactly once and in order, up to those that still wait. -/
theorem Serving.exactlyOnce (h : Serving rpc acts done rest) : ExactlyOnce rpc acts := by
  rw [ExactlyOnce, h.delivered_eq]
  exact ⟨h.served, h.positive⟩

theorem ownCall_snoc (h : OwnCall ((proxyApp rpc).run acts)) :
    OwnCall ((proxyApp rpc).run (acts ++ [a])) := by
  rw [Machine.run_snoc]
  exact h.step a

/-- An accepted request joins the queue; a message of no bytes leaves no trace. -/
theorem Serving.accept (h : Serving rpc acts done rest) {m : Message}
    (hacc : accepts ((proxyApp rpc).run acts) a = some m)
    (hfit : m.lenIn ≤ ((proxyApp rpc).run acts).dev.kfifo.avail)
    (hret : readReturns ((proxyApp rpc).run acts) a = none)
    (hkfifo : (step ((proxyApp rpc).run acts) a).dev.kfifo =
      ((proxyApp rpc).run acts).dev.kfifo.put m.image) :
    ∃ rest', Serving rpc (acts ++ [a]) done rest' := by
  have hinv : invocations rpc (acts ++ [a]) = invocations rpc acts := by
    rw [invocations_snoc, invokes, hret]
    simp
  have htaken : taken rpc (acts ++ [a]) = taken rpc acts := by
    rw [taken_snoc, hret]
    rfl
  have hitems : ((proxyApp rpc).run (acts ++ [a])).dev.kfifo.items =
      (rest.map Message.image).flatten ++ m.image := by
    rw [Machine.run_snoc]
    show (step _ a).dev.kfifo.items = _
    rw [hkfifo, BoundedQueue.put_items (by rwa [Message.image_length]), h.kfifo_eq]
  refine ⟨rest ++ [m].filter fun m => decide (0 < m.len), ?_, ?_, ?_, ?_, ?_, ?_, ?_⟩
  · rw [requests_snoc, hacc, h.requests_eq, List.append_assoc]
    rfl
  · rw [htaken, h.taken_eq]
  · rw [hitems]
    by_cases hpos : 0 < m.len
    · simp [hpos]
    · -- no bytes are padded to no bytes, so the kfifo does not show the message
      have himage : m.image = [] := by
        rw [← List.length_eq_zero_iff, Message.image_length, Message.lenIn,
          show m.len = 0 by omega]
        rfl
      simp [hpos, himage]
  · intro n hn
    rw [← List.append_assoc, List.mem_append] at hn
    rcases hn with hold | hnew
    · exact h.nonempty n hold
    · exact of_decide_eq_true (List.mem_filter.mp hnew).2
  · rw [hinv]
    exact h.served
  · rw [hinv]
    exact h.positive
  · exact ownCall_snoc h.ownCall

/-- An action that accepts nothing, and whose read returns no bytes if it returns, keeps the
    requests as they are. -/
theorem Serving.skip (h : Serving rpc acts done rest)
    (hacc : accepts ((proxyApp rpc).run acts) a = none)
    (hret : readReturns ((proxyApp rpc).run acts) a = none ∨
      readReturns ((proxyApp rpc).run acts) a = some (0, []))
    (hkfifo : (step ((proxyApp rpc).run acts) a).dev.kfifo.items =
      ((proxyApp rpc).run acts).dev.kfifo.items) :
    Serving rpc (acts ++ [a]) done rest := by
  -- nothing was read, or 0 bytes, and then the loop reads again
  have hinv : invocations rpc (acts ++ [a]) = invocations rpc acts := by
    rw [invocations_snoc, invokes]
    rcases hret with hret | hret
    · rw [hret]
      simp
    · rw [hret]
      simp [retries]
  have htaken : taken rpc (acts ++ [a]) = taken rpc acts := by
    rw [taken_snoc]
    rcases hret with hret | hret <;> rw [hret] <;> rfl
  refine ⟨?_, ?_, ?_, h.nonempty, ?_, ?_, ?_⟩
  · rw [requests_snoc, hacc, h.requests_eq]
    exact List.append_nil _
  · rw [htaken, h.taken_eq]
  · rw [Machine.run_snoc]
    show (step _ a).dev.kfifo.items = _
    rw [hkfifo, h.kfifo_eq]
  · rw [hinv]
    exact h.served
  · rw [hinv]
    exact h.positive
  · exact ownCall_snoc h.ownCall

/-- A read that returns bytes leads to a call of `handle_rpc`. -/
theorem invokes_of_bytes {s : State} {bytes : List UInt8} (hpos : bytes ≠ [])
    (hlen : bytes.length ≤ rpcBuffSize)
    (hret : readReturns s a = some ((bytes.length : Int), bytes)) :
    invokes s a = some ⟨bytes.length, overwrite s.rpc bytes⟩ := by
  have hcount := List.length_pos_iff.mpr hpos
  rw [rpcBuffSize] at hlen
  have hno : retries (bytes.length : Int) = false := by
    rw [retries, decide_eq_false_iff_not]
    omega
  rw [invokes, hret]
  simp [hno]

/-- A read that finds one request serves it. -/
theorem Serving.receive {m : Message} (h : Serving rpc acts done [m])
    (hacc : accepts ((proxyApp rpc).run acts) a = none)
    (hret : readReturns ((proxyApp rpc).run acts) a =
      some (((((proxyApp rpc).run acts).dev.kfifo.items.take rpcBuffSize).length : Int),
        ((proxyApp rpc).run acts).dev.kfifo.items.take rpcBuffSize))
    (hkfifo : (step ((proxyApp rpc).run acts) a).dev.kfifo.items =
      ((proxyApp rpc).run acts).dev.kfifo.items.drop rpcBuffSize) :
    Serving rpc (acts ++ [a]) (done ++ [m]) [] := by
  have hm := h.nonempty m (by simp)
  have hlenIn : m.image.length ≤ rpcBuffSize := by
    rw [Message.image_length]
    exact Nat.le_trans m.lenIn_le (by decide)
  have halone : rpcBuffSize = m.image.length ∨
      ([] : List (List UInt8)) = [] ∧ m.image.length ≤ rpcBuffSize := Or.inr ⟨rfl, hlenIn⟩
  obtain ⟨htake, hdrop⟩ := take_flatten_cons halone
  have hitems : ((proxyApp rpc).run acts).dev.kfifo.items = [m.image].flatten := h.kfifo_eq
  rw [hitems, htake] at hret
  rw [hitems, hdrop] at hkfifo
  -- the read is neither a retry nor short, so the request is handled at once
  have hpos : 0 < m.image.length := by
    rw [Message.image_length]
    exact Nat.lt_of_lt_of_le hm m.len_le_lenIn
  have hinv := invocations_snoc rpc acts a
  rw [invokes_of_bytes (List.length_pos_iff.mp hpos) hlenIn hret, Option.toList_some] at hinv
  refine ⟨?_, ?_, ?_, ?_, ?_, ?_, ?_⟩
  · rw [requests_snoc, hacc, h.requests_eq]
    simp
  · rw [taken_snoc, hret, h.taken_eq, List.flatMap_append]
    simp
  · rw [Machine.run_snoc]
    exact hkfifo
  · intro n hn
    exact h.nonempty n (by simpa using hn)
  · rw [hinv]
    refine List.rel_append h.served (.cons ?_ .nil)
    show (overwrite _ m.image).take m.len = m.payload
    rw [take_overwrite (by rw [Message.image_length]; exact m.len_le_lenIn), Message.take_image]
  · intro inv hmem
    rw [hinv, List.mem_append, List.mem_singleton] at hmem
    rcases hmem with hold | rfl
    · exact h.positive inv hold
    · exact Int.natCast_pos.mpr hpos
  · exact ownCall_snoc h.ownCall

/-- A read that finds two requests serves at most one of them. -/
theorem Serving.not_exactlyOnce_of_two {m n : Message} (h : Serving rpc acts done (m :: n :: rest))
    (hacc : accepts ((proxyApp rpc).run acts) a = none)
    (hret : readReturns ((proxyApp rpc).run acts) a =
      some (((((proxyApp rpc).run acts).dev.kfifo.items.take rpcBuffSize).length : Int),
        ((proxyApp rpc).run acts).dev.kfifo.items.take rpcBuffSize)) :
    ¬ ExactlyOnce rpc (acts ++ [a]) := by
  rintro ⟨hserved, -⟩
  have hlen := hserved.length_eq
  have hinv : (invocations rpc (acts ++ [a])).length ≤ done.length + 1 := by
    rw [invocations_snoc, List.length_append, h.served.length_eq]
    have hone : (invokes ((proxyApp rpc).run acts) a).toList.length ≤ 1 := by
      cases invokes ((proxyApp rpc).run acts) a <;> simp
    omega
  have hn : 0 < n.lenIn :=
    Nat.lt_of_lt_of_le (h.nonempty n (by simp)) n.len_le_lenIn
  have hm : m.lenIn < rpcBuffSize := Nat.lt_of_le_of_lt m.lenIn_le (by decide)
  -- the buffer is longer than any request, so bytes of the second one come along
  have hbytes : m.image.length <
      (((proxyApp rpc).run acts).dev.kfifo.items.take rpcBuffSize).length := by
    rw [h.kfifo_eq, List.length_take, List.map_cons, List.map_cons, List.flatten_cons,
      List.flatten_cons, List.length_append, List.length_append, Message.image_length,
      Message.image_length]
    omega
  have hdel : done.length + 2 ≤ (delivered rpc (acts ++ [a])).length := by
    rw [delivered, requests_snoc, hacc, h.requests_eq, taken_snoc, hret, h.taken_eq]
    simp only [Option.toList_none, List.filter_nil, List.append_nil, Option.elim_some]
    rw [started_append fun m' hm' => h.nonempty m' (List.mem_append_left _ hm'),
      List.length_append]
    have htwo := two_le_length_started n rest hbytes
    omega
  omega

/-- A read that fails leads to a call of `handle_rpc` all the same. -/
theorem not_exactlyOnce_of_fails
    (hret : readReturns ((proxyApp rpc).run acts) a = some (-1, [])) :
    ¬ ExactlyOnce rpc (acts ++ [a]) := by
  rintro ⟨-, hpos⟩
  -- as an unsigned number, -1 is not `<= 0`
  have hinv : invokes ((proxyApp rpc).run acts) a =
      some ⟨-1, overwrite ((proxyApp rpc).run acts).rpc []⟩ := by
    rw [invokes, hret]
    simp [retries]
  have hmem := hpos ⟨-1, overwrite ((proxyApp rpc).run acts).rpc []⟩
    (by rw [invocations_snoc, hinv]; simp)
  exact absurd hmem (by simp)

/-- An action that meets the condition keeps the service going. -/
theorem Serving.step (h : Serving rpc acts done rest) (hone : OneAtATime rpc acts a) :
    ∃ done' rest', Serving rpc (acts ++ [a]) done' rest' := by
  rcases step_cases h.ownCall a with
    ⟨m, hacc, hfit, -, -, hret, hkfifo⟩ | ⟨hacc, hcop, -, hret, hkfifo⟩ |
    ⟨-, -, hfail, -, -⟩ | ⟨hacc, -, -, hret, hkfifo⟩
  · obtain ⟨rest', h'⟩ := h.accept hacc hfit hret hkfifo
    exact ⟨done, rest', h'⟩
  · by_cases hdata : ((proxyApp rpc).run acts).dev.kfifo.items = []
    · -- a read of 0 bytes is retried
      refine ⟨done, rest, h.skip hacc (Or.inr ?_) ?_⟩
      · rw [hret, hdata]
        rfl
      · rw [hkfifo, hdata]
        rfl
    · -- a single request is queued, so the read takes all of it and nothing of another
      have hq := hone.2 hcop hdata
      rw [h.queued_eq] at hq
      obtain ⟨m, rfl⟩ := List.length_eq_one_iff.mp hq
      exact ⟨done ++ [m], [], h.receive hacc hret hkfifo⟩
  · exact absurd (hone.1 ▸ hfail) Bool.false_ne_true
  · exact ⟨done, rest, h.skip hacc (Or.inl hret) (by rw [hkfifo])⟩

/-- An action that does not meet it ends the service. -/
theorem Serving.not_exactlyOnce (h : Serving rpc acts done rest)
    (hnot : ¬ OneAtATime rpc acts a) : ¬ ExactlyOnce rpc (acts ++ [a]) := by
  rcases step_cases h.ownCall a with
    ⟨-, -, -, hcop, hfail, -, -⟩ | ⟨hacc, hcop, hfail, hret, -⟩ |
    ⟨-, -, -, hret, -⟩ | ⟨-, hcop, hfail, -, -⟩
  · exact absurd ⟨hfail, fun hc => absurd (hcop ▸ hc) Bool.false_ne_true⟩ hnot
  · have hmany : ((proxyApp rpc).run acts).dev.kfifo.items ≠ [] ∧ (queued rpc acts).length ≠ 1 := by
      by_contra hcon
      refine hnot ⟨hfail, fun _ hdata => ?_⟩
      by_contra hne
      exact hcon ⟨hdata, hne⟩
    -- data without a request is impossible, and one request is what the condition allows
    rw [h.queued_eq, h.kfifo_eq] at hmany
    match rest, h, hmany with
    | [], _, hmany => exact absurd rfl hmany.1
    | [m], _, hmany => exact absurd rfl hmany.2
    | m :: n :: rest, h, _ => exact h.not_exactlyOnce_of_two hacc hret
  · exact not_exactlyOnce_of_fails hret
  · exact absurd ⟨hfail, fun hc => absurd (hcop ▸ hc) Bool.false_ne_true⟩ hnot

end Serving

/-- A run all of whose actions meet the condition serves its requests. -/
theorem serving_run (rpc : List UInt8) (acts : List Action)
    (h : EachCycle (OneAtATime rpc) acts) : ∃ done rest, Serving rpc acts done rest := by
  have hstart : ∃ done rest, Serving rpc [] done rest := by
    refine ⟨[], [], rfl, rfl, rfl, by simp, .nil, by simp [invocations], fun c hc => ?_⟩
    exact absurd hc (by simp [proxyApp, Machine.run, Rpmsg.State.init, Pc.call?])
  refine (eachPoint_of_step (I := fun past => ∃ done rest, Serving rpc past done rest) hstart
    ?_ acts h).last
  rintro past a ⟨done, rest, hserving⟩ hone
  exact hserving.step hone

/-- **Exactly once, exactly.** Whatever the buffer holds at first and in every interleaving:
    at every point `handle_rpc` has been invoked once for each request delivered to the
    loop, in arrival order and on its bytes, and never after a read that returned 0 or -1,
    if and only if no read of the loop fails and every read that finds data finds one
    request in the kfifo. -/
theorem exactlyOnce_iff (rpc : List UInt8) (acts : List Action) :
    EachPoint (ExactlyOnce rpc) acts ↔ EachCycle (OneAtATime rpc) acts := by
  refine eachPoint_iff_eachCycle ?_ ?_ acts
  · exact ⟨.nil, by simp [invocations]⟩
  · intro past a _ hpast
    obtain ⟨done, rest, hserving⟩ := serving_run rpc past hpast
    constructor
    · intro honce
      -- a step that breaks the condition breaks the property with it, whatever the requests are
      by_contra hnot
      exact hserving.not_exactlyOnce hnot honce
    · intro hone
      obtain ⟨done', rest', h'⟩ := hserving.step hone
      exact h'.exactlyOnce

/-- Two requests of 16 bytes are queued when the loop reads. -/
def twoQueued : List Action :=
  [.callback (.sixteen 1), .callback (.sixteen 2), .read true]

/-- `handle_rpc` is called once for two requests, and it is called after a read that
    failed. -/
theorem requests_lost_and_made_up :
    ¬ ExactlyOnce (List.replicate 512 0) twoQueued ∧
    ¬ ExactlyOnce (List.replicate 512 0) [.readError true] := by
  refine ⟨fun h => ?_, fun h => ?_⟩
  · exact absurd h.1.length_eq (by decide +kernel)
  · exact absurd h.1.length_eq (by decide +kernel)

end ZynqLinux.Rpmsg.Proxy
