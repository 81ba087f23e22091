import Mathlib.Tactic.TypeStar

namespace ZynqLinux.Lib

/-!
# First-word-fall-through queues

A synchronous queue of at most `depth` words with a write port and a read port on one
clock.  The oldest word stands on the data output without having been asked for
(`dout`); a read drops it, a write appends a word.  A read of an empty queue and a write
of a full one are ignored, as a hardware FIFO does behind its error flags.

`clock_words` is the conservation law of one clock edge, `clock_conserved` the same for the
whole stream through the queue, and `clock_occupancy` the counting form; they hold when
no port is misused.
-/

variable {α : Type*} {depth : Nat}

/-- A queue that holds at most `depth` words, oldest first. -/
structure Fifo (α : Type*) (depth : Nat) where
  words : List α
  bounded : words.length ≤ depth

namespace Fifo

/-- The queue as reset leaves it. -/
def nil : Fifo α depth := ⟨[], Nat.zero_le depth⟩

/-- The number of words held. -/
def occupancy (q : Fifo α depth) : Nat := q.words.length

/-- The queue holds `depth` words. -/
def full (q : Fifo α depth) : Bool := q.occupancy == depth

/-- The queue holds no word. -/
def empty (q : Fifo α depth) : Bool := q.occupancy == 0

/-- The queue holds at most `offset` words. -/
def almostEmpty (offset : Nat) (q : Fifo α depth) : Bool := decide (q.occupancy ≤ offset)

/-- At most `offset` further words fit in the queue. -/
def almostFull (offset : Nat) (q : Fifo α depth) : Bool := decide (depth - q.occupancy ≤ offset)

/-- The data output: the oldest word, undefined on an empty queue. -/
def dout (q : Fifo α depth) : Option α := q.words.head?

/-- The words held after a clock edge with the given write and read enables. -/
def nextWords (q : Fifo α depth) (wren : Bool) (di : α) (rden : Bool) : List α :=
  (if rden then q.words.tail else q.words) ++ (if wren && !q.full then [di] else [])

/-- A clock edge does not take the queue over its depth, since a write to a full queue is
    dropped. -/
theorem nextWords_length_le (q : Fifo α depth) (wren : Bool) (di : α) (rden : Bool) :
    (q.nextWords wren di rden).length ≤ depth := by
  have hq := q.bounded
  have htail : q.words.tail.length ≤ q.words.length := by simp
  have hfull : q.full = (q.words.length == depth) := rfl
  cases hf : q.full
  · have hlt : q.words.length < depth := by
      rw [hf] at hfull
      have hne : q.words.length ≠ depth := by simpa using hfull.symm
      omega
    cases wren <;> cases rden <;> simp [nextWords, hf] <;> omega
  · cases wren <;> cases rden <;> simp [nextWords, hf] <;> omega

/-- One clock edge. -/
def clock (q : Fifo α depth) (wren : Bool) (di : α) (rden : Bool) : Fifo α depth :=
  ⟨q.nextWords wren di rden, q.nextWords_length_le wren di rden⟩

/-- The queue never holds more words than its depth: the bound is a part of it. -/
theorem occupancy_le (q : Fifo α depth) : q.occupancy ≤ depth := q.bounded

/-- The full flag is low exactly if there is room for a word. -/
@[simp] theorem full_eq_false (q : Fifo α depth) : q.full = false ↔ q.occupancy < depth := by
  have hq := q.occupancy_le
  rw [full, beq_eq_false_iff_ne]
  omega

/-- The empty flag is low exactly if there is a word. -/
@[simp] theorem empty_eq_false (q : Fifo α depth) : q.empty = false ↔ 0 < q.occupancy := by
  rw [empty, beq_eq_false_iff_ne]
  omega

/-- The words read in a clock edge. -/
def read (q : Fifo α depth) (rden : Bool) : List α := if rden then q.words.take 1 else []

/-- The data output is what a read takes. -/
theorem read_of_pos (q : Fifo α depth) (h : 0 < q.occupancy) :
    (q.read true).map some = [q.dout] := by
  rw [occupancy] at h
  cases hw : q.words with
  | nil => simp [hw] at h
  | cons w ws => simp [read, dout, hw]

/-- **Conservation.** Over a clock edge that does not write a full queue, what was held
    and what is written is what is read and what is held after it. -/
theorem clock_words (q : Fifo α depth) (wren : Bool) (di : α) (rden : Bool)
    (hw : wren = true → q.full = false) :
    q.words ++ (if wren then [di] else []) = q.read rden ++ (q.clock wren di rden).words := by
  have hdrop : q.words = q.words.take 1 ++ q.words.tail := by
    rw [← List.drop_one, List.take_append_drop]
  -- a write that is not blocked is carried out
  have hwr : (wren && !q.full) = wren := by
    cases wren with
    | false => rfl
    | true => simp [hw rfl]
  show _ = q.read rden ++ ((if rden then q.words.tail else q.words) ++
    (if wren && !q.full then [di] else []))
  rw [hwr]
  cases rden with
  | false => rfl
  | true =>
    show _ = q.words.take 1 ++ (q.words.tail ++ _)
    rw [← List.append_assoc, ← hdrop]

/-- **Conservation of the stream.** If what left the queue and what it holds is what came in,
    it is so after a clock edge; `f` and `g` are how the two ends look at the words. -/
theorem clock_conserved {β γ : Type*} (q : Fifo α depth) {f : α → β} {g : γ → β}
    {outs : List β} {ins : List γ} (hc : outs ++ q.words.map f = ins.map g)
    {wren : Bool} (rden : Bool) {di : α} {d : γ} (hdi : f di = g d) (hw : wren = true → q.full = false) :
    outs ++ (q.read rden).map f ++ (q.clock wren di rden).words.map f
      = (ins ++ if wren then [d] else []).map g := by
  have hwrite : (if wren then [di] else []).map f = (if wren then [d] else []).map g := by
    cases wren with
    | false => rfl
    | true => simp only [if_true, List.map_cons, List.map_nil, hdi]
  rw [List.append_assoc, ← List.map_append, ← q.clock_words wren di rden hw, List.map_append,
    ← List.append_assoc, hc, hwrite, List.map_append]

/-- The counting form of `clock_words`, for a clock edge that misuses neither port. -/
theorem clock_occupancy (q : Fifo α depth) (wren : Bool) (di : α) (rden : Bool)
    (hw : wren = true → q.full = false) (hr : rden = true → 0 < q.occupancy) :
    (q.clock wren di rden).occupancy + rden.toNat = q.occupancy + wren.toNat := by
  have hlen := congrArg List.length (q.clock_words wren di rden hw)
  have hread : (q.read rden).length = rden.toNat := by
    cases rden with
    | false => rfl
    | true =>
      have hpos : 0 < q.words.length := hr rfl
      simp [read]
      omega
  have hwrite : (if wren then [di] else []).length = wren.toNat := by cases wren <;> rfl
  rw [List.length_append, List.length_append, hread, hwrite] at hlen
  simp only [occupancy]
  omega

/-- A queue that is neither written nor read stays as it is. -/
theorem clock_idle (q : Fifo α depth) (di : α) : q.clock false di false = q := by
  obtain ⟨words, hle⟩ := q
  rw [clock]
  congr 1
  exact List.append_nil _

/-- A queue that is not written does not grow. -/
theorem clock_occupancy_le (q : Fifo α depth) (di : α) (rden : Bool) :
    (q.clock false di rden).occupancy ≤ q.occupancy := by
  show ((if rden then q.words.tail else q.words) ++ []).length ≤ q.words.length
  rw [List.append_nil]
  cases rden with
  | false => exact Nat.le_refl _
  | true => simp

end Fifo

end ZynqLinux.Lib
