import ZynqLinux.Rpmsg.Device

namespace ZynqLinux.Rpmsg

open ZynqLinux.Lib

/-!
# Stale bytes of a receive buffer

A receive buffer holds whatever was there before behind the `len` bytes of its message.  The
callback looks at the first four bytes and copies a multiple of eight, whatever `len` is, so
bytes that were never sent can reach a reader or start a shutdown.

* `Action.Agree` relates two runs that differ in stale bytes only, `observations` is what
  their readers and the shutdown helper see of a run;
* `step_agree` shows that a message whose length is a positive multiple of 8 hides its stale
  bytes, and `lengths_of_staleHidden` that any other length does not: `zerosThen` leaks
  through the padding and `staleShutdown` through the shutdown test;
* `staleHidden_iff` puts the two together.
-/

/-- The same length and the same bytes sent. -/
def Message.Agree (m n : Message) : Prop := m.len = n.len ∧ m.payload = n.payload

/-- The same action, up to the stale bytes of a message. -/
inductive Action.Agree : Action → Action → Prop
  | callback {m n : Message} (h : m.Agree n) : Agree (.callback m) (.callback n)
  | same (a : Action) : Agree a a

/-- The callback invokes the shutdown helper. -/
def shutsDown : Action → Bool
  | .callback m => m.isShutdown
  | _ => false

/-- What each action of a run shows: the return of a read, and whether the shutdown helper
    is invoked. -/
def observations (acts : List Action) : List (Option Return × Bool) :=
  log (fun past a => [(returns (device.run past) a, shutsDown a)]) acts

/-- Every message of the run has a length in `L`. -/
def LengthsIn (L : Nat → Prop) (acts : List Action) : Prop :=
  ∀ m, Action.callback m ∈ acts → L m.len

/-- No two runs with message lengths in `L`, alike up to stale bytes, can be told apart. -/
def StaleHidden (L : Nat → Prop) : Prop :=
  ∀ acts acts', List.Forall₂ Action.Agree acts acts' → LengthsIn L acts →
    observations acts = observations acts'

/-! ### Lengths that hide the stale bytes -/

/-- Four bytes sent decide the shutdown test. -/
theorem Message.Agree.isShutdown_eq {m n : Message} (h : m.Agree n) (hlen : 4 ≤ m.len) :
    m.isShutdown = n.isShutdown := by
  have hbyte : ∀ k < 4, m.data.getD k 0 = n.data.getD k 0 := by
    intro k hk
    have hm : m.payload[k]? = m.data[k]? := List.getElem?_take_of_lt (by omega)
    have hn : n.payload[k]? = n.data[k]? := List.getElem?_take_of_lt (by rw [← h.1]; omega)
    rw [List.getD_eq_getElem?_getD, List.getD_eq_getElem?_getD, ← hm, ← hn, h.2]
  rw [Message.isShutdown, Message.isShutdown, Message.word, Message.word, hbyte 0 (by decide),
    hbyte 1 (by decide), hbyte 2 (by decide), hbyte 3 (by decide)]

/-- The callback reads of such a message only what was sent. -/
theorem drvCb_agree {m n : Message} (h : m.Agree n) (hlen : 0 < m.len ∧ m.len % 8 = 0)
    (s : State) : drvCb s m = drvCb s n := by
  have hn : n.len % 8 = 0 := by rw [← h.1]; exact hlen.2
  have himage : m.image = n.image := by
    rw [Message.image_eq_payload hlen.2, Message.image_eq_payload hn, h.2]
  have hlenIn : m.lenIn = n.lenIn := by rw [← m.image_length, ← n.image_length, himage]
  rw [drvCb, drvCb, h.isShutdown_eq (by omega), hlenIn, himage]

/-- One action of two runs that agree in the bytes received: where the lengths leave no
    padding, they step alike and return alike. -/
theorem step_agree {L : Nat → Prop} (hL : ∀ l ≤ rpmsgPayloadSize, L l → 0 < l ∧ l % 8 = 0)
    {a b : Action} (h : a.Agree b) (hlen : ∀ m, a = .callback m → L m.len) (s : State) :
    step s a = step s b ∧ returns s a = returns s b ∧ shutsDown a = shutsDown b := by
  cases h with
  | same => exact ⟨rfl, rfl, rfl⟩
  | @callback m n hmn =>
    -- eight bytes sent at least: enough for the shutdown test, and nothing is padded
    have hpos := hL m.len m.len_le (hlen m rfl)
    exact ⟨drvCb_agree hmn hpos s, rfl, hmn.isShutdown_eq (by omega)⟩

/-- Lengths that are multiples of eight leave no padding, so nobody sees a byte that was not
    received. -/
theorem staleHidden_of_lengths {L : Nat → Prop}
    (hL : ∀ l ≤ rpmsgPayloadSize, L l → 0 < l ∧ l % 8 = 0) : StaleHidden L := by
  intro acts acts' hagree hlens
  have hrel : List.Forall₂
      (fun a b => (∀ m, a = .callback m → L m.len) ∧ a.Agree b) acts acts' := by
    rw [List.forall₂_and_left]
    refine ⟨fun a ha m hm => ?_, hagree⟩
    exact hlens m (hm ▸ ha)
  -- the two runs go through the same states, so one state serves for both returns
  refine log_congr ?_ hrel
  intro past past' a b hpast hab
  have hrun : device.run past = device.run past' :=
    Machine.run_congr (fun s i j hij => (step_agree hL hij.2 hij.1 s).1) hpast
  obtain ⟨-, hret, hshut⟩ := step_agree hL hab.2 hab.1 (device.run past)
  rw [hret, hshut, hrun]

/-! ### Lengths that do not -/

/-- A message of `l` zero bytes in a buffer that holds `x` behind them. -/
def zerosThen (l : Nat) (hl : l ≤ rpmsgPayloadSize) (x : UInt8) : Message where
  data := List.replicate l 0 ++ List.replicate (rpmsgPayloadSize - l) x
  len := l
  data_length := by
    rw [List.length_append, List.length_replicate, List.length_replicate]
    omega
  len_le := hl

/-- The two messages agree in all bytes that are received, and differ in the ones behind. -/
theorem zerosThen_agree (l : Nat) (hl : l ≤ rpmsgPayloadSize) (x y : UInt8) :
    (zerosThen l hl x).Agree (zerosThen l hl y) := by
  have hpayload : ∀ z, (zerosThen l hl z).payload = List.replicate l 0 := by
    intro z
    show (List.replicate l 0 ++ _).take l = _
    rw [List.take_left' List.length_replicate]
  exact ⟨rfl, by rw [hpayload, hpayload]⟩

/-- Its first byte, which was sent, is not that of a shutdown message. -/
theorem zerosThen_isShutdown {l : Nat} (hl : l ≤ rpmsgPayloadSize) (hpos : 0 < l) (x : UInt8) :
    (zerosThen l hl x).isShutdown = false := by
  have hfirst : (zerosThen l hl x).data.getD 0 0 = 0 := by
    show (List.replicate l 0 ++ _).getD 0 0 = 0
    rw [List.getD_eq_getElem?_getD, List.getElem?_append_left (by simpa using hpos)]
    simp [hpos]
  rw [Message.isShutdown, Message.word, hfirst]
  simp only [UInt8.toNat_zero, beq_eq_false_iff_ne]
  omega

/-- The padding of the image holds bytes that were not received, and these differ. -/
theorem zerosThen_image_ne {l : Nat} (hl : l ≤ rpmsgPayloadSize) (hpad : l % 8 ≠ 0) {x y : UInt8}
    (hxy : x ≠ y) : (zerosThen l hl x).image ≠ (zerosThen l hl y).image := by
  intro heq
  have hlt : l < (zerosThen l hl x).lenIn := by
    show l < if l % 8 ≠ 0 then (l / 8 + 1) * 8 else l
    rw [if_pos hpad]
    omega
  have hsize : l < rpmsgPayloadSize := Nat.lt_of_lt_of_le hlt (Message.lenIn_le _)
  -- byte `l` is the first that was not sent, and it is copied
  have hbyte : ∀ z, l < (zerosThen l hl z).lenIn → (zerosThen l hl z).image[l]? = some z := by
    intro z hz
    rw [Message.image, List.getElem?_take_of_lt hz]
    show (List.replicate l 0 ++ List.replicate (rpmsgPayloadSize - l) z)[l]? = some z
    rw [List.getElem?_append_right (by simp)]
    simp only [List.length_replicate, Nat.sub_self, List.getElem?_replicate]
    exact if_pos (by omega)
  have hx := hbyte x hlt
  rw [heq, hbyte y hlt] at hx
  exact hxy (Option.some.inj hx).symm

/-- A read of 512 bytes behind one message returns its image, padding included. -/
theorem observations_callback_read {m : Message} (hshut : m.isShutdown = false) (hpos : 0 < m.len) :
    observations [.callback m, .read 0 { len := 512 }] =
      [(none, false), (some ⟨0, { len := 512 }, false, .ok m.image⟩, false)] := by
  -- the kfifo is empty at first, so every message fits
  have hfit : m.lenIn ≤ (State.init).kfifo.avail := Nat.le_trans m.lenIn_le (by decide)
  have hacc := (accepts_callback_iff State.init m).mpr ⟨hshut, hfit⟩
  obtain ⟨-, -, -, -, hstep⟩ := step_of_accepts hacc
  have hitems : (step State.init (.callback m)).kfifo.items = m.image := by
    rw [hstep, BoundedQueue.put_items (by rwa [Message.image_length])]
    rfl
  have hlen : 0 < m.image.length := by
    rw [Message.image_length]
    exact Nat.lt_of_lt_of_le hpos m.len_le_lenIn
  have hcop : copies (step State.init (.callback m)) (.read 0 { len := 512 }) =
      some (0, { len := 512 }, false) := by
    rw [copies, hitems, if_pos ⟨by rw [hstep]; rfl, Nat.ne_of_gt hlen⟩]
  show [(none, m.isShutdown)] ++
    ([(returns (step State.init (.callback m)) (.read 0 { len := 512 }), false)] ++ []) = _
  rw [returns_of_copies hcop, State.take_dataUsed, hitems, hshut,
    List.take_of_length_le (by rw [Message.image_length]; exact Nat.le_trans m.lenIn_le (by decide))]
  rfl

/-- The shutdown word, in a buffer whose message is empty. -/
def staleShutdown : Message where
  data := [0x5A, 0xA5, 0x56, 0xEF] ++ List.replicate 492 0
  len := 0
  data_length := by
    rw [List.length_append, List.length_replicate]
    rfl
  len_le := by decide

/-- A length that leaves padding shows it: the two runs read different bytes. -/
theorem lengths_of_staleHidden {L : Nat → Prop} (h : StaleHidden L) :
    ∀ l ≤ rpmsgPayloadSize, L l → 0 < l ∧ l % 8 = 0 := by
  intro l hl hL
  have hpos : 0 < l := by
    -- an empty message: the shutdown word is stale, or it is not there
    refine Nat.pos_of_ne_zero fun hzero => ?_
    subst hzero
    have hagree : staleShutdown.Agree (zerosThen 0 (Nat.zero_le _) 0) := ⟨rfl, rfl⟩
    have hsame := h [.callback staleShutdown] [.callback (zerosThen 0 (Nat.zero_le _) 0)]
      (.cons (.callback hagree) .nil) (fun m hm => by simp at hm; rw [hm]; exact hL)
    exact absurd hsame (by decide +kernel)
  refine ⟨hpos, ?_⟩
  -- a padded message: a read behind it returns the stale byte
  by_contra hpad
  have hsame := h [.callback (zerosThen l hl 0), .read 0 { len := 512 }]
    [.callback (zerosThen l hl 1), .read 0 { len := 512 }]
    (.cons (.callback (zerosThen_agree l hl 0 1)) (.cons (.same _) .nil))
    (fun m hm => by simp at hm; rw [hm]; exact hL)
  rw [observations_callback_read (zerosThen_isShutdown hl hpos 0) hpos,
    observations_callback_read (zerosThen_isShutdown hl hpos 1) hpos] at hsame
  simp only [List.cons.injEq, Prod.mk.injEq, Option.some.injEq, Return.mk.injEq,
    Except.ok.injEq, and_true, true_and] at hsame
  exact zerosThen_image_ne hl hpad (by decide) hsame

/-- **Stale bytes, exactly.** Runs whose messages have lengths in `L`, alike up to stale
    bytes, always show the same reads and shutdowns if and only if every length in `L` is a
    positive multiple of 8. -/
theorem staleHidden_iff (L : Nat → Prop) :
    StaleHidden L ↔ ∀ l ≤ rpmsgPayloadSize, L l → 0 < l ∧ l % 8 = 0 :=
  ⟨lengths_of_staleHidden, staleHidden_of_lengths⟩

/-- A message of 5 bytes in a buffer that holds `x` behind them, and a read. -/
def leak (x : UInt8) : List Action :=
  [.callback (zerosThen 5 (by decide) x), .read 0 { len := 512 }]

/-- An empty message in a buffer that held a shutdown message before, or nothing. -/
def emptyMessage (stale : Bool) : List Action :=
  [.callback (if stale then staleShutdown else zerosThen 0 (by decide) 0)]

/-- The read returns the stale byte behind the message, and an empty message shuts Linux
    down. -/
theorem stale_bytes_show :
    (List.Forall₂ Action.Agree (leak 0) (leak 1) ∧ observations (leak 0) ≠ observations (leak 1)) ∧
    (List.Forall₂ Action.Agree (emptyMessage true) (emptyMessage false) ∧
      observations (emptyMessage true) ≠ observations (emptyMessage false)) := by
  refine ⟨⟨.cons (.callback (zerosThen_agree 5 (by decide) 0 1)) (.cons (.same _) .nil), ?_⟩,
    .cons (.callback ⟨rfl, rfl⟩) .nil, ?_⟩
  · decide +kernel
  · decide +kernel

end ZynqLinux.Rpmsg
