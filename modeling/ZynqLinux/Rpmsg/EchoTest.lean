import ZynqLinux.Lib.While

namespace ZynqLinux.Rpmsg.EchoTest

open ZynqLinux.Lib

/-!
# The send loop of `echo_test`

Command 1 of `echo_test` sends payloads of growing size and validates the echo of each.  The
loop that validates a reply counts with the same variable `i` as the loop that sends, so the
number of the next payload is one more than the index at which the validation stopped.

* `Remote` is what the loop gets: the results of its writes and the replies it reads;
* `validate` is the inner loop, `sendLoop` the outer one;
* `startOf` is the value of `i` in front of a pass, and `iterate_pass` the state there;
* `Completes` says that the loop sends all payloads, and `completes_iff` for which replies it
  does.
-/

/-! ### The loops -/

/-- `PAYLOAD_MAX_SIZE`: 512 bytes less the rpmsg header and 24. -/
def payloadMaxSize : Nat := 512 - 16 - 24

/-- `PAYLOAD_MIN_SIZE`. -/
def payloadMinSize : Nat := 1

/-- `NUM_PAYLOADS`. -/
def numPayloads : Nat := payloadMaxSize / payloadMinSize

/-- `struct _payload`, with the data that are sent. -/
structure Payload where
  num : Nat
  size : Nat
  data : List UInt8
  deriving DecidableEq

/-- `r_payload` when a reply has been read: `size` is what the reply declares. -/
structure Reply where
  size : Nat
  data : List UInt8
  size_le : size ≤ payloadMaxSize
  data_length : data.length = payloadMaxSize

/-- The `k`-th write returns `bytesSent k`; the read after it returns the reply `reply k`, at
    once or after some reads that return nothing. -/
structure Remote where
  bytesSent : Nat → Int
  reply : Nat → Reply

/-- "Validate data buffer integrity": the value of `i` after the loop from `i` over the bytes
    that are left, and whether it found a corruption.  A `char` is unsigned on this machine. -/
def validateFrom (i : Nat) : List UInt8 → Nat × Bool
  | []      => (i, false)
  | c :: cs => if c ≠ 0xA5 then (i, true) else validateFrom (i + 1) cs

/-- The loop over the first `size` bytes of a reply. -/
def validate (r : Reply) : Nat × Bool := validateFrom 0 (r.data.take r.size)

/-- The variables of the loop: `i`, `size`, `err_cnt`, whether a write has failed, and the
    payloads sent so far. -/
structure State where
  i : Nat
  size : Nat
  errCnt : Nat
  failed : Bool
  sent : List Payload

/-- `i_payload` in front of the write. -/
def State.payload (s : State) : Payload := ⟨s.i, s.size, List.replicate s.size 0xA5⟩

/-- One pass: send a payload, wait for the reply and validate it. -/
def pass (remote : Remote) (s : State) : State :=
  let k := s.sent.length
  if remote.bytesSent k ≤ 0 then { s with failed := true }
  else
    let v := validate (remote.reply k)
    { s with
      -- the inner loop has left its index in `i`
      i := v.1 + 1
      size := s.size + 1
      errCnt := if v.2 then s.errCnt + 1 else s.errCnt
      sent := s.sent ++ [s.payload] }

/-- The loop goes on. -/
def goesOn (s : State) : Bool := !s.failed && decide (s.i < numPayloads)

/-- `memset` stays inside `i_payload`. -/
def fits (s : State) : Bool := decide (s.size ≤ payloadMaxSize)

/-- The send loop, with what `err_cnt` was before the command. -/
def sendLoop (remote : Remote) (errCnt fuel : Nat) : Option State :=
  whileLoop goesOn (fun s => if fits s then some (pass remote s) else none) fuel
    ⟨0, payloadMinSize, errCnt, false, []⟩

/-- A reply contains a byte other than 0xA5 among its first `size` data bytes. -/
def Reply.corrupt (r : Reply) : Bool := (r.data.take r.size).any (· ≠ 0xA5)

/-- The `k`-th payload that is to be sent. -/
def payload (k : Nat) : Payload := ⟨k, k + 1, List.replicate (k + 1) 0xA5⟩

/-- The loop ends, all payloads have been sent, and the corrupt replies have been counted. -/
def Completes (remote : Remote) (errCnt : Nat) : Prop :=
  ∃ fuel s, sendLoop remote errCnt fuel = some s ∧
    s.sent = (List.range numPayloads).map payload ∧
    s.errCnt = errCnt + (List.range numPayloads).countP fun k => (remote.reply k).corrupt

/-- The validation of a reply stops at the first byte other than 0xA5, or at `size`. -/
def Reply.stop (r : Reply) : Nat := ((r.data.take r.size).takeWhile (· = 0xA5)).length

/-- Every validation stops where the counter of the payloads stands, so that the next payload
    gets the next number; the last one may stop later. -/
def Lockstep (remote : Remote) : Prop :=
  (∀ k < numPayloads - 1, (remote.reply k).stop = k) ∧
    numPayloads - 1 ≤ (remote.reply (numPayloads - 1)).stop

/-! ### The state in front of a pass -/

/-- The loop over the reply counts the leading bytes that are as expected and remembers
    whether any byte is not. -/
theorem validateFrom_eq (i : Nat) (bytes : List UInt8) :
    validateFrom i bytes =
      (i + (bytes.takeWhile (· = 0xA5)).length, bytes.any (· ≠ 0xA5)) := by
  induction bytes generalizing i with
  | nil => rfl
  | cons c cs ih =>
    rw [validateFrom]
    by_cases hc : c = 0xA5
    · rw [if_neg (by simpa using hc), ih]
      simp [hc, Nat.add_assoc, Nat.add_comm 1]
    · rw [if_pos hc]
      simp [hc]

/-- So the check of a reply gives the place where it stops and whether the reply is corrupt. -/
theorem validate_eq (r : Reply) : validate r = (r.stop, r.corrupt) := by
  rw [validate, validateFrom_eq, Nat.zero_add]
  rfl

/-- The value of `i` in front of the `k`-th pass. -/
def startOf (remote : Remote) : Nat → Nat
  | 0     => 0
  | k + 1 => (remote.reply k).stop + 1

/-- While the writes succeed, the loop sends payloads of growing size, whatever their number. -/
theorem iterate_pass {remote : Remote} (hsent : ∀ k, 0 < remote.bytesSent k) (errCnt n : Nat) :
    (pass remote)^[n] ⟨0, payloadMinSize, errCnt, false, []⟩ =
      { i := startOf remote n
        size := n + 1
        errCnt := errCnt + (List.range n).countP fun k => (remote.reply k).corrupt
        failed := false
        sent := (List.range n).map fun k =>
          ⟨startOf remote k, k + 1, List.replicate (k + 1) 0xA5⟩ } := by
  induction n with
  | zero => rfl
  | succ n ih =>
    rw [Function.iterate_succ_apply', ih, pass]
    have hlt := hsent n
    simp only [List.length_map, List.length_range, validate_eq]
    rw [if_neg (by omega)]
    simp [startOf, State.payload, List.range_succ]
    split <;> simp_all [Nat.add_assoc]

/-! ### When the loop sends all payloads -/

/-- The loop completes exactly if `i` counts its passes, and has come to the end after the last
    one. -/
theorem completes_iff_startOf {remote : Remote} (hsent : ∀ k, 0 < remote.bytesSent k)
    (errCnt : Nat) :
    Completes remote errCnt ↔
      (∀ k < numPayloads, startOf remote k = k) ∧
        numPayloads ≤ startOf remote numPayloads := by
  constructor
  · rintro ⟨fuel, s, hloop, hpayloads, -⟩
    -- a run that ends has gone through `n` passes, and the payloads it sent fix `n`
    obtain ⟨n, -, -, hend, rfl⟩ := (whileLoop_eq_some_iff fun _ => rfl).mp hloop
    rw [iterate_pass hsent] at hend hpayloads
    have hn : n = numPayloads := by simpa using congrArg List.length hpayloads
    rw [hn] at hend hpayloads
    refine ⟨fun k hk => ?_, by simpa [goesOn] using hend⟩
    exact congrArg Payload.num (List.map_inj_left.mp hpayloads k (List.mem_range.mpr hk))
  · rintro ⟨hcount, hlast⟩
    refine ⟨numPayloads + 1, _,
      (whileLoop_eq_some_iff fun _ => rfl).mpr ⟨numPayloads, Nat.lt_succ_self _, ?_, ?_, rfl⟩, ?_⟩
    · intro m hm
      rw [iterate_pass hsent]
      refine ⟨by simpa [goesOn, hcount m hm] using hm, ?_⟩
      have hsize : m + 1 ≤ payloadMaxSize := hm
      simpa [fits] using hsize
    · rw [iterate_pass hsent]
      simpa [goesOn] using hlast
    · rw [iterate_pass hsent]
      refine ⟨List.map_congr_left fun k hk => ?_, rfl⟩
      rw [hcount k (List.mem_range.mp hk), payload]

/-- The loop is in step with the remote side exactly if every reply starts where the payload
    before it ended. -/
theorem lockstep_iff_startOf (remote : Remote) :
    Lockstep remote ↔
      (∀ k < numPayloads, startOf remote k = k) ∧
        numPayloads ≤ startOf remote numPayloads := by
  have hnum : numPayloads = (numPayloads - 1) + 1 := rfl
  constructor
  · rintro ⟨hstop, hlast⟩
    refine ⟨fun k hk => ?_, ?_⟩
    · cases k with
      | zero => rfl
      | succ k => rw [startOf, hstop k (by omega)]
    · rw [hnum, startOf]
      omega
  · rintro ⟨hcount, hlast⟩
    refine ⟨fun k hk => ?_, ?_⟩
    · have hnext := hcount (k + 1) (by omega)
      rw [startOf] at hnext
      omega
    · rw [hnum, startOf] at hlast
      omega

/-- **The send loop, exactly.** While the writes succeed, the loop sends the payloads 0 to 471 of
    sizes 1 to 472, counts the corrupt replies and ends if and only if the validation of each
    reply stops at the number of its payload, or later for the last one. -/
theorem completes_iff {remote : Remote} (hsent : ∀ k, 0 < remote.bytesSent k) (errCnt : Nat) :
    Completes remote errCnt ↔ Lockstep remote := by
  rw [completes_iff_startOf hsent, lockstep_iff_startOf]

/-- A remote that replies to the `k`-th payload with `size k` bytes of 0xA5. -/
def cleanReplies (size : Nat → Nat) : Remote where
  bytesSent _ := 480
  reply k :=
    { size := min (size k) payloadMaxSize
      data := List.replicate payloadMaxSize 0xA5
      size_le := Nat.min_le_right _ _
      data_length := List.length_replicate }

/-- A reply with nothing but the expected bytes is checked to its end, or to the end of the
    buffer. -/
theorem stop_cleanReplies (size : Nat → Nat) (k : Nat) :
    ((cleanReplies size).reply k).stop = min (size k) payloadMaxSize := by
  simp [Reply.stop, cleanReplies]

/-- Replies that are one byte short keep the loop in step. -/
theorem completes_short_replies : Completes (cleanReplies id) 0 := by
  refine (completes_iff (fun k => ?_) 0).mpr ⟨fun k hk => ?_, ?_⟩
  · show (0 : Int) < 480
    decide
  · rw [stop_cleanReplies]
    have hle : k < payloadMaxSize := Nat.lt_of_lt_of_le hk (Nat.sub_le _ _)
    exact Nat.min_eq_left (Nat.le_of_lt hle)
  · rw [stop_cleanReplies]
    decide

/-- A remote that echoes every payload as it is: after the first echo, of one byte, the next
    payload has the number 2. -/
theorem perfect_echo_skips : ¬ Completes (cleanReplies (· + 1)) 0 := by
  intro h
  have hsent : ∀ k, 0 < (cleanReplies (· + 1)).bytesSent k := by
    intro k
    show (0 : Int) < 480
    decide
  have hcount : startOf (cleanReplies (· + 1)) 1 = 1 :=
    ((completes_iff_startOf hsent 0).mp h).1 1 (by decide)
  rw [startOf, stop_cleanReplies] at hcount
  exact absurd hcount (by decide)

end ZynqLinux.Rpmsg.EchoTest
