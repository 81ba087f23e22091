import ZynqLinux.Lib.History

namespace ZynqLinux.Lib

/-!
# Mailboxes of one place

A response register: what is put there stays until it is taken, and what is put while the
place is taken is dropped.

* `Mailbox.delivered_iff`: everything put is delivered, once and in order, if and only if
  nothing is put into a full mailbox.
-/

variable {σ ι α : Type*}

/-- A machine with a mailbox: what its place holds, what a cycle puts there and whether it
    takes the contents out. -/
structure Mailbox (σ ι α : Type*) where
  machine : Machine σ ι
  slot : σ → Option α
  put : σ → ι → Option α
  take : σ → ι → Bool
  slot_reset : slot machine.reset = none
  slot_step : ∀ s i, slot (machine.step s i)
    = (slot s).elim (put s i) fun x => if take s i then none else some x

namespace Mailbox

variable (B : Mailbox σ ι α)

/-- Everything that was put. -/
def posted (is : List ι) : List α := log (fun past i => (B.put (B.machine.run past) i).toList) is

/-- What a cycle takes out. -/
def taken (s : σ) (i : ι) : List α := if B.take s i then (B.slot s).toList else []

/-- Everything that was taken out. -/
def delivered (is : List ι) : List α := log (fun past i => B.taken (B.machine.run past) i) is

/-- What was put was delivered, or is the one letter in the mailbox. -/
def Accounted (past : List ι) : Prop :=
  B.delivered past ++ (B.slot (B.machine.run past)).toList = B.posted past

/-- A cycle puts nothing into a full mailbox. -/
def NoOverrun (past : List ι) (i : ι) : Prop :=
  (B.slot (B.machine.run past)).isSome = true → B.put (B.machine.run past) i = none

instance (past : List ι) (i : ι) : Decidable (B.NoOverrun past i) :=
  inferInstanceAs (Decidable (_ → B.put (B.machine.run past) i = none))

/-- A cycle keeps what was posted equal to what was delivered and what waits, exactly if it
    drops nothing. -/
theorem accounted_snoc (is : List ι) (i : ι) (h : B.Accounted is) :
    B.Accounted (is ++ [i]) ↔ B.NoOverrun is i := by
  rw [Accounted, delivered, posted, log_snoc, log_snoc, ← delivered, ← posted, ← h,
    Machine.run_snoc, B.slot_step, taken, NoOverrun]
  generalize B.machine.run is = s
  -- a letter that is dropped makes the lists differ in length
  cases B.slot s <;> cases B.put s i <;> cases B.take s i <;> simp

/-- **Deliveries, exactly.** -/
theorem delivered_iff (is : List ι) : EachPoint B.Accounted is ↔ EachCycle B.NoOverrun is := by
  refine eachPoint_iff_eachCycle ?_ (fun past i hpast _ => B.accounted_snoc past i hpast.last) is
  show _ ++ (B.slot B.machine.reset).toList = _
  rw [B.slot_reset]
  rfl

end Mailbox

end ZynqLinux.Lib
