import ZynqLinux.Rpmsg.Device

namespace ZynqLinux.Rpmsg

open ZynqLinux.Lib

/-!
# The receive stream of the rpmsg character devices

What the readers get is a stream of bytes without message boundaries.

* `conserved` is the law of the stream: the bytes handed over, followed by the kfifo, are
  the images of the accepted messages; `receive_stream` adds when a message is accepted;
* `received` are the results of the reads that return bytes, and `queued` the accepted
  messages that no such read stands for yet;
* `Framed` is the invariant of the runs in which the kfifo holds whole messages, and
  `boundaries_kept` shows that in these runs every read returns one message.
-/

/-! ### The byte stream -/

/-- **Conservation.** The bytes handed to the readers, in the order of their critical
    sections, followed by the contents of the kfifo, are the images of the accepted
    messages, in callback order. -/
theorem conserved (acts : List Action) :
    delivered acts ++ (device.run acts).kfifo.items = (accepted acts).flatMap Message.image := by
  induction acts using List.reverseRecOn with
  | nil => rfl
  | append_singleton acts a ih =>
    rw [delivered_snoc, accepted_snoc, List.flatMap_append, Machine.run_snoc]
    show _ ++ (step (device.run acts) a).kfifo.items = _
    -- each step pushes one message, takes bytes from the front, or leaves the kfifo alone
    rcases step_kfifo (device.run acts) a with
      ⟨m, hacc, hcop, hfit, hstep⟩ | ⟨r, c, signalled, hacc, hcop, hstep⟩ | ⟨hacc, hcop, hstep⟩
    · rw [hacc, hstep, returns_bytes_of_none hcop, List.append_nil]
      simpa using BoundedQueue.put_conserved ih m.image (by rwa [Message.image_length])
    · rw [hacc, hstep, returns_of_copies hcop]
      simpa [Return.bytes] using
        BoundedQueue.take_conserved ih ((device.run acts).dataUsed c.len)
    · rw [hacc, hstep, returns_bytes_of_none hcop, List.append_nil]
      simpa using ih

/-- **The receive stream.** In every run: what the reads returned followed by the kfifo is
    the concatenation of the accepted images, the kfifo never holds more than 2048 bytes, a
    message is accepted exactly when it is no shutdown message and its padded length fits
    the free space, and any other message changes neither the kfifo nor `block_flag`. -/
theorem receive_stream (acts : List Action) :
    EachPoint (fun past =>
      delivered past ++ (device.run past).kfifo.items = (accepted past).flatMap Message.image ∧
      (device.run past).kfifo.items.length ≤ 2048) acts ∧
    EachCycle (fun past a => ∀ m, a = .callback m →
      (accepted (past ++ [a]) = accepted past ++ [m] ↔
        m.isShutdown = false ∧ m.lenIn ≤ 2048 - (device.run past).kfifo.items.length) ∧
      (accepted (past ++ [a]) = accepted past ++ [m] ∨
        accepted (past ++ [a]) = accepted past ∧
        (device.run (past ++ [a])).kfifo = (device.run past).kfifo ∧
        (device.run (past ++ [a])).blockFlag = (device.run past).blockFlag)) acts := by
  constructor
  · intro past _
    exact ⟨conserved past, (device.run past).kfifo.bounded⟩
  · rintro past _ _ m rfl
    rw [accepted_snoc, Machine.run_snoc]
    show (_ ↔ _ ∧ m.lenIn ≤ (device.run past).kfifo.avail) ∧
      (_ ∨ _ ∧ (step (device.run past) (.callback m)).kfifo = _ ∧
        (step (device.run past) (.callback m)).blockFlag = _)
    -- a message is taken as a whole or dropped as a whole
    cases hacc : accepts (device.run past) (.callback m) with
    | none =>
      rw [← accepts_callback_iff, hacc, step_of_not_accepts hacc]
      simp
    | some n =>
      obtain ⟨hcb, -⟩ := step_of_accepts hacc
      have hnm : n = m := by simpa using hcb.symm
      rw [← accepts_callback_iff, hacc, hnm]
      simp

/-! ### Message boundaries -/

/-- The results of the reads that return a positive count, in order. -/
def received (acts : List Action) : List (List UInt8) :=
  ((returned acts).map Return.bytes).filter (fun bytes => !bytes.isEmpty)

/-- The accepted messages beyond those the reads that returned bytes stand for. -/
def queued (acts : List Action) : List Message := (accepted acts).drop (received acts).length

/-- Every read passes a buffer at least as long as any message sent. -/
def BuffersFit (acts : List Action) : Prop :=
  ∀ r c m, Action.read r c ∈ acts → Action.callback m ∈ acts → m.len ≤ c.len

/-- A buffer as long as a receive buffer always is. -/
theorem buffersFit_of_le {acts : List Action}
    (h : ∀ r c, Action.read r c ∈ acts → rpmsgPayloadSize ≤ c.len) : BuffersFit acts :=
  fun r c m hread _ => Nat.le_trans m.len_le (h r c hread)

/-- The reads that return bytes return the messages, one each and in order. -/
def BoundariesKept (acts : List Action) : Prop :=
  received acts <+: (accepted acts).map Message.payload

/-- An accepted message needs no padding and is not empty, and a read that finds data finds
    one queued message or asks for exactly the length of the oldest one. -/
def Unmerged (past : List Action) (a : Action) : Prop :=
  (∀ m ∈ accepts (device.run past) a, 0 < m.len ∧ m.len % 8 = 0) ∧
  (∀ k ∈ copies (device.run past) a, (device.run past).kfifo.items ≠ [] →
    (queued past).length = 1 ∨ ∃ m ∈ (queued past).head?, k.2.1.len = m.len)

instance (past : List Action) (a : Action) : Decidable (Unmerged past a) :=
  inferInstanceAs (Decidable (_ ∧ _))

theorem received_snoc (acts : List Action) (a : Action) :
    received (acts ++ [a]) = received acts ++
      ((returns (device.run acts) a).toList.map Return.bytes).filter (fun bytes => !bytes.isEmpty) := by
  simp [received]

/-- An accepted message came with a callback. -/
theorem callback_mem_of_accepted (acts : List Action) {m : Message} (h : m ∈ accepted acts) :
    Action.callback m ∈ acts := by
  induction acts using List.reverseRecOn with
  | nil => exact absurd h (by simp [accepted])
  | append_singleton acts a ih =>
    rw [accepted_snoc, List.mem_append, Option.mem_toList] at h
    rcases h with hold | hnew
    · exact List.mem_append_left _ (ih hold)
    · obtain ⟨rfl, -⟩ := step_of_accepts hnew
      simp

/-- The kfifo holds whole messages: `rest`, accepted behind the `done` ones that have been
    received. -/
structure Framed (acts : List Action) (done rest : List Message) : Prop where
  accepted_eq : accepted acts = done ++ rest
  received_eq : received acts = done.map Message.payload
  kfifo_eq : (device.run acts).kfifo.items = (rest.map Message.image).flatten
  unpadded : ∀ m ∈ done ++ rest, 0 < m.len ∧ m.len % 8 = 0

section Framed

variable {acts : List Action} {done rest : List Message} {a : Action}

/-- The messages that wait are those whose images the kfifo holds. -/
theorem Framed.queued_eq (h : Framed acts done rest) : queued acts = rest := by
  rw [queued, h.accepted_eq, h.received_eq, List.length_map, List.drop_left]

/-- While the kfifo holds whole messages, every read so far has returned one message, whole
    and alone. -/
theorem Framed.boundariesKept (h : Framed acts done rest) : BoundariesKept acts := by
  rw [BoundariesKept, h.accepted_eq, h.received_eq, List.map_append]
  exact List.prefix_append _ _

/-- A message that needs no padding joins the queue whole. -/
theorem Framed.accept (h : Framed acts done rest) {m : Message}
    (hacc : accepts (device.run acts) a = some m) (hm : 0 < m.len ∧ m.len % 8 = 0) :
    Framed (acts ++ [a]) done (rest ++ [m]) := by
  obtain ⟨-, -, hfit, hcop, hstep⟩ := step_of_accepts hacc
  refine ⟨?_, ?_, ?_, ?_⟩
  · rw [accepted_snoc, hacc, h.accepted_eq, List.append_assoc]
    rfl
  · -- a callback returns nothing to a reader
    have hnone : returns (device.run acts) a = none := by
      obtain ⟨rfl, -⟩ := step_of_accepts hacc
      rfl
    rw [received_snoc, hnone, h.received_eq]
    simp
  · rw [Machine.run_snoc]
    show (step (device.run acts) a).kfifo.items = _
    rw [hstep, BoundedQueue.put_items (by rwa [Message.image_length]), h.kfifo_eq]
    simp
  · intro n hn
    rw [← List.append_assoc, List.mem_append] at hn
    rcases hn with hold | hnew
    · exact h.unpadded n hold
    · rwa [List.mem_singleton.mp hnew]

/-- An action that copies no bytes leaves the queue as it is. -/
theorem Framed.skip (h : Framed acts done rest) (hacc : accepts (device.run acts) a = none)
    (hkfifo : (step (device.run acts) a).kfifo.items = (device.run acts).kfifo.items)
    (hret : (returns (device.run acts) a).toList.flatMap Return.bytes = []) :
    Framed (acts ++ [a]) done rest := by
  refine ⟨?_, ?_, ?_, h.unpadded⟩
  · rw [accepted_snoc, hacc, h.accepted_eq]
    exact List.append_nil _
  · rw [received_snoc, h.received_eq]
    cases hr : returns (device.run acts) a with
    | none => simp
    | some ret =>
      rw [hr] at hret
      simp only [Option.toList_some, List.flatMap_singleton] at hret
      simp [hret]
  · rw [Machine.run_snoc]
    show (step (device.run acts) a).kfifo.items = _
    rw [hkfifo, h.kfifo_eq]

/-- A read that asks for the oldest message, or for more when it is alone, receives it. -/
theorem Framed.receive {m : Message} (h : Framed acts done (m :: rest)) {r : Nat} {c : Call}
    {signalled : Bool} (hcop : copies (device.run acts) a = some (r, c, signalled))
    (hacc : accepts (device.run acts) a = none)
    (hlen : c.len = m.len ∨ rest = [] ∧ m.len ≤ c.len) :
    Framed (acts ++ [a]) (done ++ [m]) rest := by
  have hm := h.unpadded m (by simp)
  have himage := Message.image_eq_payload hm.2
  have hsplit : c.len = m.image.length ∨ rest.map Message.image = [] ∧ m.image.length ≤ c.len := by
    rw [himage, Message.payload_length]
    simpa using hlen
  -- the read cuts the queue of images behind the oldest one
  obtain ⟨htake, hdrop⟩ := take_flatten_cons hsplit
  rw [← List.map_cons, ← h.kfifo_eq] at htake hdrop
  refine ⟨?_, ?_, ?_, ?_⟩
  · rw [accepted_snoc, hacc, h.accepted_eq]
    simp
  · have hne : m.payload ≠ [] := by
      intro hnil
      have := m.payload_length
      rw [hnil, List.length_nil] at this
      omega
    rw [received_snoc, returns_of_copies hcop, State.take_dataUsed, htake, himage, h.received_eq]
    simp [Return.bytes, hne]
  · rw [Machine.run_snoc]
    show (step (device.run acts) a).kfifo.items = _
    rw [step_of_copies hcop]
    show (device.run acts).kfifo.items.drop _ = _
    rw [State.drop_dataUsed, hdrop]
  · intro n hn
    exact h.unpadded n (by simpa using hn)

/-- Where data is queued, an oldest message is. -/
theorem Framed.rest_ne_nil (h : Framed acts done rest)
    (hdata : (device.run acts).kfifo.items ≠ []) : ∃ m tail, rest = m :: tail := by
  cases rest with
  | nil => exact absurd h.kfifo_eq hdata
  | cons m tail => exact ⟨m, tail, rfl⟩

end Framed

/-- What a step of a run keeps: the kfifo goes on holding whole messages. -/
theorem framed_step {acts : List Action} {a : Action} (hfit : BuffersFit (acts ++ [a]))
    (h : ∃ done rest, Framed acts done rest) (hun : Unmerged acts a) :
    ∃ done rest, Framed (acts ++ [a]) done rest := by
  obtain ⟨done, rest, h⟩ := h
  rcases step_kfifo (device.run acts) a with
    ⟨m, hacc, -, -, -⟩ | ⟨r, c, signalled, hacc, hcop, hstep⟩ | ⟨hacc, hcop, hstep⟩
  · exact ⟨done, rest ++ [m], h.accept hacc (hun.1 m hacc)⟩
  · by_cases hdata : (device.run acts).kfifo.items = []
    · -- past the wait a call may find nothing and return 0
      refine ⟨done, rest, h.skip hacc ?_ ?_⟩
      · rw [hstep, BoundedQueue.drop_items, hdata, List.drop_nil]
      · rw [returns_of_copies hcop, hdata, List.take_nil]
        rfl
    · obtain ⟨m, tail, rfl⟩ := h.rest_ne_nil hdata
      refine ⟨done ++ [m], tail, h.receive hcop hacc ?_⟩
      have hq := hun.2 (r, c, signalled) hcop hdata
      rw [h.queued_eq] at hq
      rcases hq with hone | ⟨n, hn, hlen⟩
      · -- a single message: here the buffer only has to be long enough
        refine Or.inr ⟨by simpa using hone, ?_⟩
        have hmem : m ∈ accepted acts := by rw [h.accepted_eq]; simp
        exact hfit r c m (read_mem_of_copies hcop)
          (List.mem_append_left _ (callback_mem_of_accepted acts hmem))
      · have hnm : m = n := by simpa using hn
        exact Or.inl (by rw [hnm]; exact hlen)
  · exact ⟨done, rest, h.skip hacc (by rw [hstep]) (returns_bytes_of_none hcop)⟩

/-- **Message boundaries.** In every run whose reads pass buffers at least as long as any
    message, whose accepted messages are not empty and need no padding, and in which a read
    that finds data finds one queued message or asks for exactly the length of the oldest:
    at every point, the reads that returned bytes have returned the accepted messages, one
    each and in arrival order. -/
theorem boundaries_kept (acts : List Action) (hfit : BuffersFit acts)
    (hun : EachCycle Unmerged acts) : EachPoint BoundariesKept acts := by
  have hstart : ∃ done rest, Framed [] done rest := ⟨[], [], rfl, rfl, rfl, by simp⟩
  have hboth : EachCycle (fun past a => BuffersFit (past ++ [a]) ∧ Unmerged past a) acts := by
    intro past a hpre
    refine ⟨fun r c m hread hcb => ?_, hun past a hpre⟩
    exact hfit r c m (hpre.subset hread) (hpre.subset hcb)
  have hframed := eachPoint_of_step (I := fun past => ∃ done rest, Framed past done rest) hstart
    (fun past a h hA => framed_step hA.1 h hA.2) acts hboth
  intro past hpre
  obtain ⟨done, rest, h⟩ := hframed past hpre
  exact h.boundariesKept

/-- Two requests of 16 bytes, each read with a buffer of 512 bytes before the next comes. -/
def oneByOne : List Action :=
  [.callback (.sixteen 1), .read 0 { len := 512 }, .callback (.sixteen 2), .read 0 { len := 512 }]

/-- Messages that are read one by one meet both conditions, and keep their boundaries. -/
theorem boundaries_kept_oneByOne :
    BuffersFit oneByOne ∧ EachCycle Unmerged oneByOne ∧ EachPoint BoundariesKept oneByOne := by
  have hfit : BuffersFit oneByOne := buffersFit_of_le (by simp [oneByOne, rpmsgPayloadSize])
  have hun : EachCycle Unmerged oneByOne := by decide +kernel
  exact ⟨hfit, hun, boundaries_kept oneByOne hfit hun⟩

/-- A message of 5 bytes read with a buffer of 512 bytes. -/
def padded : List Action :=
  [.callback (.ofBytes [1, 2, 3, 4, 5]), .read 0 { len := 512 }]

/-- Two messages of 8 bytes, then a read with a buffer of 512 bytes. -/
def merged : List Action :=
  [.callback (.ofBytes [1, 1, 1, 1, 1, 1, 1, 1]), .callback (.ofBytes [2, 2, 2, 2, 2, 2, 2, 2]),
   .read 0 { len := 512 }]

/-- The first read returns 8 bytes for a message of 5, the second 16 bytes for two messages
    of 8. -/
theorem boundaries_lost :
    (BuffersFit padded ∧ ¬ BoundariesKept padded) ∧ (BuffersFit merged ∧ ¬ BoundariesKept merged) := by
  refine ⟨⟨buffersFit_of_le (by simp [padded, rpmsgPayloadSize]), ?_⟩,
    buffersFit_of_le (by simp [merged, rpmsgPayloadSize]), ?_⟩
  · unfold BoundariesKept
    decide +kernel
  · unfold BoundariesKept
    decide +kernel

end ZynqLinux.Rpmsg
