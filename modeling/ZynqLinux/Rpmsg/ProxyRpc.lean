import ZynqLinux.Rpmsg.Proxy

namespace ZynqLinux.Rpmsg.Proxy

/-!
# The handlers of the RPC requests

`handle_rpc` looks at the request in `proxy->rpc`, makes the system call that it asks for and
writes a response to the proxy device.  All lengths come from the remote processor, and the
handlers pass them on: what is bounded depends on the request.

* `Request` is the buffer with the bytes of a request in front, and `System` the results of the
  system calls, which are not part of the repository;
* `handleRpc` and the four handlers give the return value and list the calls they make;
* `InBounds` is what one may want of every request: no call is beyond the room there is for it,
  and the return value tells whether the response was accepted;
* `Bounded` says for each part of it for which requests it holds, and `handleRpc_bounded` proves
  this of `handle_rpc`.
-/

/-! ### Requests and responses -/

/-- `sizeof(struct _sys_rpc)`. -/
def sysRpcSize : Nat := 16

/-- A request of `len` bytes at the front of `proxy->rpc`. -/
structure Request where
  rpc : List UInt8
  len : Nat
  rpc_length : rpc.length = rpcBuffSize
  le_len : sysRpcSize ≤ len
  len_le : len ≤ rpcBuffSize

namespace Request

/-- The four bytes from byte `k` on, on a little-endian machine. -/
def wordAt (r : Request) (k : Nat) : Nat :=
  (r.rpc.getD k 0).toNat + 2 ^ 8 * (r.rpc.getD (k + 1) 0).toNat +
    2 ^ 16 * (r.rpc.getD (k + 2) 0).toNat + 2 ^ 24 * (r.rpc.getD (k + 3) 0).toNat

/-- `(int)(rpc->id)`. -/
def id (r : Request) : Int := (r.wordAt 0 : Int).bmod (2 ^ 32)

/-- `rpc->sys_call_args.int_field1`. -/
def intField1 (r : Request) : Int := (r.wordAt 4 : Int).bmod (2 ^ 32)

/-- `rpc->sys_call_args.int_field2`. -/
def intField2 (r : Request) : Int := (r.wordAt 8 : Int).bmod (2 ^ 32)

/-- `rpc->sys_call_args.data`, to the end of the buffer. -/
def data (r : Request) : List UInt8 := r.rpc.drop sysRpcSize

/-- A request in a buffer that holds nothing else. -/
def ofBytes (bytes : List UInt8) (hmin : sysRpcSize ≤ bytes.length := by decide)
    (hmax : bytes.length ≤ rpcBuffSize := by decide) : Request where
  rpc := bytes ++ List.replicate (rpcBuffSize - bytes.length) 0
  len := bytes.length
  rpc_length := by
    rw [List.length_append, List.length_replicate]
    omega
  le_len := hmin
  len_le := hmax

end Request

/-- A response in `proxy->rpc_response`, a `struct _sys_rpc` with its data. -/
structure SysRpc where
  id : Int
  intField1 : Int
  intField2 : Int
  dataLen : Nat
  data : List UInt8
  deriving DecidableEq

/-- The bytes of the complete response. -/
def SysRpc.size (response : SysRpc) : Nat := sysRpcSize + response.data.length

/-! ### The system calls -/

/-- An `int` as the `size_t` of a call. -/
def sizeT (n : Int) : Nat := (n % 2 ^ 32).toNat

/-- The most that one `read()` returns. -/
def maxRwCount : Nat := 0x7ffff000

/-- What the system calls return: `open` for a path, flags and a mode, `close` for a descriptor,
    `read` for a descriptor and a count (-1, or the bytes read), `write` of the data of a request
    for a descriptor and a count, and `write` of a response to the proxy device. -/
structure System where
  openFile : List UInt8 → Int → Int → Int
  closeFile : Int → Int
  readFile : Int → Nat → Option (List UInt8)
  writeFile : Int → Nat → Int
  respond : SysRpc → Nat → Int
  readFile_le : ∀ fd count bytes, readFile fd count = some bytes →
    bytes.length ≤ min count maxRwCount

/-- A call that a handler makes.  What `malloc` returns is not checked. -/
inductive Syscall
  | malloc (size : Nat)
  | openFile (path : List UInt8) (flags mode : Int)
  | closeFile (fd : Int)
  | readFile (fd : Int) (count : Nat)
  | writeFile (fd : Int) (count : Nat)
  | respond (response : SysRpc) (count : Nat)
  deriving DecidableEq

/-- What a handler returns, `proxy->active` after it, and the calls it has made. -/
structure Handled where
  retval : Int
  active : Bool
  calls : List Syscall

/-! ### The handlers -/

def openSyscallId : Int := 1

def closeSyscallId : Int := 2

def writeSyscallId : Int := 3

def readSyscallId : Int := 4

/-- "Transmit rpc response": the last part of every handler. -/
def transmit (sys : System) (calls : List Syscall) (response : SysRpc) (count : Nat) : Handled :=
  let bytesWritten := sys.respond response count
  ⟨if bytesWritten ≠ count then -1 else 0, true, calls ++ [.respond response count]⟩

/-- `handle_open`. -/
def handleOpen (sys : System) (r : Request) : Handled :=
  let fd := sys.openFile r.data r.intField1 r.intField2
  transmit sys [.openFile r.data r.intField1 r.intField2] ⟨openSyscallId, fd, 0, 0, []⟩ sysRpcSize

/-- `handle_close`. -/
def handleClose (sys : System) (r : Request) : Handled :=
  let retval := sys.closeFile r.intField1
  transmit sys [.closeFile r.intField1] ⟨closeSyscallId, retval, 0, 0, []⟩ sysRpcSize

/-- The count that `handle_read` asks for: 512 from standard input. -/
def readCount (r : Request) : Nat := if r.intField1 = 0 then 512 else sizeT r.intField2

/-- `bytes_read`: what `read()` returns. -/
def bytesRead (buff : Option (List UInt8)) : Int := buff.elim (-1) fun bytes => bytes.length

/-- "Construct rpc response" of `handle_read`. -/
def readResponse (buff : Option (List UInt8)) : SysRpc where
  id := readSyscallId
  intField1 := bytesRead buff
  intField2 := 0
  dataLen := sizeT (bytesRead buff)
  data := if 0 < bytesRead buff then buff.getD [] else []

/-- `handle_read`. -/
def handleRead (sys : System) (r : Request) : Handled :=
  let buff := sys.readFile r.intField1 (readCount r)
  let payloadSize := sysRpcSize + if 0 < bytesRead buff then (bytesRead buff).toNat else 0
  transmit sys [.malloc (sizeT r.intField2), .readFile r.intField1 (readCount r)]
    (readResponse buff) payloadSize

/-- `handle_write`. -/
def handleWrite (sys : System) (r : Request) : Handled :=
  let bytesWritten := sys.writeFile r.intField1 (sizeT r.intField2)
  transmit sys [.writeFile r.intField1 (sizeT r.intField2)] ⟨writeSyscallId, bytesWritten, 0, 0, []⟩
    sysRpcSize

/-- `RPC_CHANNEL_READY_TO_CLOSE`. -/
def rpcChannelReadyToClose : List UInt8 :=
  "rpc_channel_ready_to_close".toList.map fun c => c.toNat.toUInt8

/-- `!strcmp(data, RPC_CHANNEL_READY_TO_CLOSE)`: the string ends in the buffer. -/
def Request.isCloseNotice (r : Request) : Bool :=
  r.rpc.takeWhile (· ≠ 0) = rpcChannelReadyToClose

/-- `handle_rpc`. -/
def handleRpc (sys : System) (r : Request) : Handled :=
  if r.isCloseNotice then ⟨0, false, []⟩
  else if r.id = openSyscallId then handleOpen sys r
  else if r.id = closeSyscallId then handleClose sys r
  else if r.id = readSyscallId then handleRead sys r
  else if r.id = writeSyscallId then handleWrite sys r
  else ⟨-1, true, []⟩

/-! ### The bounds -/

/-- The complete response was accepted by the device. -/
def Accepted (sys : System) (calls : List Syscall) : Prop :=
  ∃ response : SysRpc, .respond response response.size ∈ calls ∧
    sys.respond response response.size = response.size

/-- What a caller may want of the handlers, whatever the request: `handle_read` reads no more than
    it has allocated, the response fits `proxy->rpc_response`, `handle_write` writes no more than
    the request holds, and 0 is returned exactly if the response was accepted. -/
structure InBounds (sys : System) (r : Request) (h : Handled) : Prop where
  read_le : ∀ fd count, .readFile fd count ∈ h.calls → ∃ size, .malloc size ∈ h.calls ∧ count ≤ size
  respond_le : ∀ response count, .respond response count ∈ h.calls → count ≤ rpcBuffSize
  write_le : ∀ fd count, .writeFile fd count ∈ h.calls → count ≤ r.len - sysRpcSize
  retval : h.retval = 0 ↔ Accepted sys h.calls

/-- `handle_rpc` passes the request to `handle_read`. -/
def Request.Reads (r : Request) : Prop := r.isCloseNotice = false ∧ r.id = readSyscallId

/-- `handle_rpc` passes the request to `handle_write`. -/
def Request.Writes (r : Request) : Prop := r.isCloseNotice = false ∧ r.id = writeSyscallId

/-- For which requests the handlers stay in each of these bounds: a read from standard input
    needs a buffer of 512 bytes, the bytes read must leave room for the header of the response,
    and a request must have as many bytes to write as it says.  The return value is 0 also for
    the close notice, which has no response. -/
structure Bounded (sys : System) (r : Request) (h : Handled) : Prop where
  read_le :
    (∀ fd count, .readFile fd count ∈ h.calls → ∃ size, .malloc size ∈ h.calls ∧ count ≤ size) ↔
      (r.Reads → r.intField1 = 0 → 512 ≤ sizeT r.intField2)
  respond_le :
    (∀ response count, .respond response count ∈ h.calls → count ≤ rpcBuffSize) ↔
      (r.Reads →
        bytesRead (sys.readFile r.intField1 (readCount r)) ≤ (rpcBuffSize - sysRpcSize : Nat))
  write_le :
    (∀ fd count, .writeFile fd count ∈ h.calls → count ≤ r.len - sysRpcSize) ↔
      (r.Writes → 0 ≤ r.intField2 ∧ r.intField2 ≤ (r.len - sysRpcSize : Nat))
  retval : h.retval = 0 ↔ Accepted sys h.calls ∨ r.isCloseNotice = true

section transmit

variable {sys : System} {calls : List Syscall} {response : SysRpc} {count : Nat}

/-- A handler returns 0 exactly if the device took as many bytes as it was given. -/
theorem transmit_retval :
    (transmit sys calls response count).retval = 0 ↔ sys.respond response count = count := by
  simp [transmit]

@[simp] theorem mem_transmit {c : Syscall} :
    c ∈ (transmit sys calls response count).calls ↔ c ∈ calls ∨ c = .respond response count := by
  simp [transmit]

/-- A handler that transmits its complete response, and no other, returns 0 exactly if it was
    accepted. -/
theorem transmit_accepted (hsize : count = response.size)
    (hcalls : ∀ resp n, .respond resp n ∉ calls) :
    (transmit sys calls response count).retval = 0 ↔
      Accepted sys (transmit sys calls response count).calls := by
  rw [transmit_retval]
  constructor
  · intro h
    exact ⟨response, by simp [hsize], by rw [← hsize]; exact h⟩
  · rintro ⟨resp, hmem, hres⟩
    rw [mem_transmit] at hmem
    rcases hmem with hmem | heq
    · exact absurd hmem (hcalls _ _)
    · obtain ⟨rfl, -⟩ := Syscall.respond.inj heq
      rw [hsize]
      exact hres

end transmit

section handlers

variable {sys : System} {r : Request}

/-- `int_field2` as a count is within a small bound only if it is not negative. -/
theorem sizeT_intField2_le_iff {m : Nat} (hm : m ≤ rpcBuffSize) :
    sizeT r.intField2 ≤ m ↔ 0 ≤ r.intField2 ∧ r.intField2 ≤ m := by
  have hlo : -(2 ^ 31 : Int) ≤ r.intField2 := Int.le_bmod (by decide)
  have hhi : r.intField2 < 2 ^ 31 := Int.bmod_lt (by decide)
  rw [sizeT]
  rw [rpcBuffSize] at hm
  omega

/-- A handler that makes no read, and whose responses fit. -/
theorem bounded_of_not_reads {h : Handled} (hreads : ¬ r.Reads)
    (hread : ∀ fd n, .readFile fd n ∉ h.calls)
    (hrespond : ∀ response n, .respond response n ∈ h.calls → n ≤ rpcBuffSize)
    (hwrite : (∀ fd count, .writeFile fd count ∈ h.calls → count ≤ r.len - sysRpcSize) ↔
      (r.Writes → 0 ≤ r.intField2 ∧ r.intField2 ≤ (r.len - sysRpcSize : Nat)))
    (hretval : h.retval = 0 ↔ Accepted sys h.calls ∨ r.isCloseNotice = true) : Bounded sys r h where
  read_le := iff_of_true (fun fd count hmem => absurd hmem (hread fd count))
    fun h => absurd h hreads
  respond_le := iff_of_true hrespond fun h => absurd h hreads
  write_le := hwrite
  retval := hretval

/-- The return value of a handler that transmits its complete response. -/
theorem retval_transmit {calls : List Syscall} {response : SysRpc}
    (hclose : r.isCloseNotice = false) (hcalls : ∀ resp n, .respond resp n ∉ calls) :
    (transmit sys calls response response.size).retval = 0 ↔
      Accepted sys (transmit sys calls response response.size).calls ∨ r.isCloseNotice = true := by
  rw [transmit_accepted rfl hcalls, hclose]
  simp

/-- A handler that reads nothing, and whose response is only the header. -/
theorem bounded_header {calls : List Syscall} {response : SysRpc}
    (hclose : r.isCloseNotice = false) (hreads : ¬ r.Reads) (hdata : response.data = [])
    (hcalls : ∀ resp n, .respond resp n ∉ calls) (hread : ∀ fd n, .readFile fd n ∉ calls)
    (hwrite : (∀ fd count, .writeFile fd count ∈ calls → count ≤ r.len - sysRpcSize) ↔
      (r.Writes → 0 ≤ r.intField2 ∧ r.intField2 ≤ (r.len - sysRpcSize : Nat))) :
    Bounded sys r (transmit sys calls response sysRpcSize) := by
  have hsize : response.size = sysRpcSize := by
    rw [SysRpc.size, hdata]
    rfl
  rw [← hsize]
  refine bounded_of_not_reads hreads ?_ ?_ ?_ (retval_transmit hclose hcalls)
  · simpa using hread
  · intro resp n hmem
    obtain ⟨-, rfl⟩ : resp = response ∧ n = response.size := by simpa [hcalls] using hmem
    rw [hsize]
    decide
  · simpa using hwrite

/-- The response of an open request is a header, which fits, and nothing is read or written
    for it. -/
theorem handleOpen_bounded (hclose : r.isCloseNotice = false) (hid : r.id = openSyscallId) :
    Bounded sys r (handleOpen sys r) :=
  bounded_header hclose (fun h => absurd (hid.symm.trans h.2) (by decide)) rfl (by simp) (by simp)
    (iff_of_true (by simp) fun h => absurd (hid.symm.trans h.2) (by decide))

/-- So it is for a close request. -/
theorem handleClose_bounded (hclose : r.isCloseNotice = false) (hid : r.id = closeSyscallId) :
    Bounded sys r (handleClose sys r) :=
  bounded_header hclose (fun h => absurd (hid.symm.trans h.2) (by decide)) rfl (by simp) (by simp)
    (iff_of_true (by simp) fun h => absurd (hid.symm.trans h.2) (by decide))

/-- A write request hands its count to `write()` as it is, so it stays within the request
    exactly if the count does. -/
theorem handleWrite_bounded (hclose : r.isCloseNotice = false) (hid : r.id = writeSyscallId) :
    Bounded sys r (handleWrite sys r) := by
  refine bounded_header hclose (fun h => absurd (hid.symm.trans h.2) (by decide)) rfl (by simp)
    (by simp) ?_
  have hm : r.len - sysRpcSize ≤ rpcBuffSize := (Nat.sub_le _ _).trans r.len_le
  rw [← sizeT_intField2_le_iff hm]
  constructor
  · intro h _
    exact h r.intField1 (sizeT r.intField2) (by simp)
  · intro h fd count hmem
    have hcount : fd = r.intField1 ∧ count = sizeT r.intField2 := by simpa using hmem
    rw [hcount.2]
    exact h ⟨hclose, hid⟩

/-- The size that `handle_read` transmits is the one of its response. -/
theorem readResponse_size (buff : Option (List UInt8)) :
    sysRpcSize + (if 0 < bytesRead buff then (bytesRead buff).toNat else 0) =
      (readResponse buff).size := by
  rw [SysRpc.size, readResponse]
  by_cases hpos : 0 < bytesRead buff
  · rw [if_pos hpos]
    simp only [if_pos hpos]
    cases buff with
    | none => exact absurd hpos (by decide)
    | some bytes => rfl
  · rw [if_neg hpos]
    simp only [if_neg hpos]
    rfl

/-- `read()` returns no more than it was asked for. -/
theorem bytesRead_le (sys : System) (r : Request) :
    bytesRead (sys.readFile r.intField1 (readCount r)) ≤ readCount r := by
  cases hbuff : sys.readFile r.intField1 (readCount r) with
  | none =>
    rw [bytesRead, Option.elim_none]
    omega
  | some bytes =>
    have hle := sys.readFile_le _ _ bytes hbuff
    rw [bytesRead, Option.elim_some]
    omega

/-- The call that `handle_read` makes after the `malloc`, and the bytes that it may return. -/
theorem handleRead_bounded (hclose : r.isCloseNotice = false) (hid : r.id = readSyscallId) :
    Bounded sys r (handleRead sys r) := by
  have hreads : r.Reads := ⟨hclose, hid⟩
  rw [handleRead]
  simp only [readResponse_size]
  constructor
  · constructor
    · intro h _ hstdin
      obtain ⟨size, hmalloc, hle⟩ := h r.intField1 (readCount r) (by simp)
      have hsize : size = sizeT r.intField2 := by simpa using hmalloc
      rwa [hsize, readCount, if_pos hstdin] at hle
    · intro h fd count hmem
      have hcount : fd = r.intField1 ∧ count = readCount r := by simpa using hmem
      refine ⟨sizeT r.intField2, by simp, ?_⟩
      rw [hcount.2, readCount]
      split
      · exact h hreads ‹_›
      · exact le_refl _
  · -- the size of the response is that of the header and of the bytes read
    have hsize := readResponse_size (sys.readFile r.intField1 (readCount r))
    rw [sysRpcSize] at hsize
    constructor
    · intro h _
      have hle := h _ _ (mem_transmit.mpr (.inr rfl))
      rw [rpcBuffSize] at hle
      rw [rpcBuffSize, sysRpcSize]
      split at hsize <;> omega
    · intro h resp count hmem
      obtain ⟨-, rfl⟩ := Syscall.respond.inj ((mem_transmit.mp hmem).resolve_left (by simp))
      have hle := h hreads
      rw [rpcBuffSize, sysRpcSize] at hle
      rw [rpcBuffSize]
      split at hsize <;> omega
  · exact iff_of_true (by simp) fun h => absurd (hid.symm.trans h.2) (by decide)
  · exact retval_transmit hclose (by simp)

/-- A read request that is no close notice goes to `handle_read`. -/
theorem handleRpc_of_read (hclose : r.isCloseNotice = false) (hid : r.id = readSyscallId) :
    handleRpc sys r = handleRead sys r := by
  rw [handleRpc, hclose, hid]
  rfl

/-- And a write request to `handle_write`. -/
theorem handleRpc_of_write (hclose : r.isCloseNotice = false) (hid : r.id = writeSyscallId) :
    handleRpc sys r = handleWrite sys r := by
  rw [handleRpc, hclose, hid]
  rfl

/-- `handle_rpc` makes no call for the close notice and for an unknown id. -/
theorem bounded_of_nil {retval : Int} {active : Bool} (hreads : ¬ r.Reads) (hwrites : ¬ r.Writes)
    (hretval : retval = 0 ↔ r.isCloseNotice = true) : Bounded sys r ⟨retval, active, []⟩ :=
  bounded_of_not_reads hreads (by simp) (by simp)
    (iff_of_true (by simp) fun h => absurd h hwrites) (by simpa [Accepted] using hretval)

/-- **The bounds of the handlers.** For every request and whatever the system calls return:
    `handle_read` asks for no more than it has allocated except for a read from standard input
    into less than 512 bytes, the response fits exactly if the bytes read leave room for the
    header, `handle_write` writes no more than the request holds exactly if the request says so,
    and 0 is returned exactly if the complete response was accepted or the request is the close
    notice. -/
theorem handleRpc_bounded (sys : System) (r : Request) : Bounded sys r (handleRpc sys r) := by
  rw [handleRpc]
  split_ifs with hclose hopen hcloseId hread hwrite
  · have hnot : r.isCloseNotice ≠ false := by simp [hclose]
    exact bounded_of_nil (fun h => hnot h.1) (fun h => hnot h.1) (iff_of_true rfl hclose)
  · exact handleOpen_bounded (by simpa using hclose) hopen
  · exact handleClose_bounded (by simpa using hclose) hcloseId
  · exact handleRead_bounded (by simpa using hclose) hread
  · exact handleWrite_bounded (by simpa using hclose) hwrite
  · exact bounded_of_nil (fun h => hread h.2) (fun h => hwrite h.2) (iff_of_false (by decide) hclose)

/-- A count that leaves room for the header is enough for the response to fit, and for a read
    from standard input the count is 512. -/
theorem respond_le_of_readCount (hcount : readCount r ≤ rpcBuffSize - sysRpcSize) :
    bytesRead (sys.readFile r.intField1 (readCount r)) ≤ (rpcBuffSize - sysRpcSize : Nat) :=
  Int.le_trans (bytesRead_le sys r) (Int.ofNat_le.mpr hcount)

end handlers

/-- A system whose calls all succeed, and whose files never end. -/
def endless : System where
  openFile _ _ _ := 3
  closeFile _ := 0
  readFile _ count := some (List.replicate (min count maxRwCount) 0)
  writeFile _ count := count
  respond _ count := count
  readFile_le := by
    intro fd count bytes h
    rw [← Option.some.inj h, List.length_replicate]

/-- A request with no data: `low` and `high` are the two low bytes of `int_field2`. -/
def header (id intField1 low high : UInt8) : Request :=
  .ofBytes [id, 0, 0, 0, intField1, 0, 0, 0, low, high, 0, 0, 0, 0, 0, 0] (le_refl 16)
    (by simp [rpcBuffSize])

/-- The close notice. -/
def closeNotice : Request := .ofBytes (rpcChannelReadyToClose ++ [0])

/-- The close notice returns 0 without a response; a read of one byte from standard input asks
    for 512; the response to a read of 512 bytes has 528; and a write passes one byte of a request
    that has none. -/
theorem not_in_bounds :
    ¬ InBounds endless closeNotice (handleRpc endless closeNotice) ∧
    ¬ InBounds endless (header 4 0 1 0) (handleRpc endless (header 4 0 1 0)) ∧
    ¬ InBounds endless (header 4 3 0 2) (handleRpc endless (header 4 3 0 2)) ∧
    ¬ InBounds endless (header 3 1 1 0) (handleRpc endless (header 3 1 1 0)) := by
  refine ⟨fun h => ?_, fun h => ?_, fun h => ?_, fun h => ?_⟩
  · -- the close notice gets no response
    have hnone : handleRpc endless closeNotice = ⟨0, false, []⟩ := by
      rw [handleRpc, if_pos (by decide +kernel)]
    obtain ⟨response, hmem, -⟩ := h.retval.mp (by rw [hnone])
    rw [hnone] at hmem
    exact absurd hmem (by simp)
  · rw [handleRpc_of_read (by decide +kernel) (by decide +kernel)] at h
    -- one byte is allocated, and 512 are read into it
    obtain ⟨size, hmalloc, hle⟩ := h.read_le 0 512 (by decide +kernel)
    have hsize : size = sizeT (header 4 0 1 0).intField2 := by simpa [handleRead] using hmalloc
    rw [hsize] at hle
    exact absurd hle (by decide +kernel)
  · rw [handleRpc_of_read (by decide +kernel) (by decide +kernel)] at h
    -- a response with 512 bytes of data is longer than the buffer of the remote side
    have hle := h.respond_le (readResponse (some (List.replicate 512 0))) 528 (by decide +kernel)
    exact absurd hle (by decide)
  · rw [handleRpc_of_write (by decide +kernel) (by decide +kernel)] at h
    -- a request of a header alone has no byte to write
    have hle := h.write_le 1 1 (by decide +kernel)
    exact absurd hle (by decide)

end ZynqLinux.Rpmsg.Proxy
