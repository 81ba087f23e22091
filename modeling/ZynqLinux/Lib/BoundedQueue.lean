import Mathlib.Tactic.Common

namespace ZynqLinux.Lib

/-!
# Bounded queues filled and emptied in runs of items

A queue of at most `cap` items to which a run of items is appended as far as it fits and
from which a run of the oldest items is taken, as a byte queue between a driver and its
readers.

* `put_items`, `drop_items` say what the two operations leave;
* `put_conserved` and `take_conserved` are the conservation law of a stream through the
  queue: what has been taken followed by what is held is what has been put;
* `take_flatten_cons` is about a queue that holds whole blocks: a take that asks for the
  oldest block, or for more when it is alone, returns exactly that block.
-/

variable {α : Type*} {cap : Nat}

/-- A queue that holds at most `cap` items, oldest first. -/
structure BoundedQueue (α : Type*) (cap : Nat) where
  items : List α
  bounded : items.length ≤ cap

namespace BoundedQueue

/-- The queue that holds nothing. -/
def nil : BoundedQueue α cap := ⟨[], Nat.zero_le cap⟩

/-- The number of items that still fit. -/
def avail (q : BoundedQueue α cap) : Nat := cap - q.items.length

/-- Append the items of `xs` that fit. -/
def put (q : BoundedQueue α cap) (xs : List α) : BoundedQueue α cap where
  items := q.items ++ xs.take q.avail
  bounded := by
    have hq := q.bounded
    have hx : (xs.take q.avail).length ≤ cap - q.items.length := by
      rw [List.length_take]
      exact Nat.min_le_left _ _
    rw [List.length_append]
    omega

/-- Remove the oldest `n` items. -/
def drop (q : BoundedQueue α cap) (n : Nat) : BoundedQueue α cap where
  items := q.items.drop n
  bounded := by
    have hq := q.bounded
    rw [List.length_drop]
    omega

@[simp] theorem drop_items (q : BoundedQueue α cap) (n : Nat) :
    (q.drop n).items = q.items.drop n := rfl

/-- A run of items that fits is appended whole. -/
theorem put_items {q : BoundedQueue α cap} {xs : List α} (hfit : xs.length ≤ q.avail) :
    (q.put xs).items = q.items ++ xs := by
  show q.items ++ xs.take q.avail = q.items ++ xs
  rw [List.take_of_length_le hfit]

/-! ### The stream through a queue -/

section Conservation

variable {q : BoundedQueue α cap} {ins outs : List α}

/-- Putting items that fit keeps the items that went in equal to those that came out and those
    in the queue. -/
theorem put_conserved (h : outs ++ q.items = ins) (xs : List α) (hfit : xs.length ≤ q.avail) :
    outs ++ (q.put xs).items = ins ++ xs := by
  rw [put_items hfit, ← List.append_assoc, h]

/-- So does taking items from the front. -/
theorem take_conserved (h : outs ++ q.items = ins) (n : Nat) :
    (outs ++ q.items.take n) ++ (q.drop n).items = ins := by
  rw [List.append_assoc, drop_items, List.take_append_drop, h]

end Conservation

end BoundedQueue

/-! ### Queues of whole blocks -/

/-- Taking the length of the oldest block, or more when it is the only one, splits the
    blocks behind it. -/
theorem take_flatten_cons {b : List α} {bs : List (List α)} {n : Nat}
    (h : n = b.length ∨ bs = [] ∧ b.length ≤ n) :
    (b :: bs).flatten.take n = b ∧ (b :: bs).flatten.drop n = bs.flatten := by
  rcases h with rfl | ⟨rfl, hle⟩
  · simp
  · simp [hle, List.take_of_length_le hle]

end ZynqLinux.Lib
