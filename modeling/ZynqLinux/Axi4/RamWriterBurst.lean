import Mathlib.Tactic.Common
import ZynqLinux.Axi4.RamWriter

namespace ZynqLinux.Axi4.RamWriter

open ZynqLinux.Lib

/-!
# `axis_ram_writer` — the bursts on the write data channel

The IP has no counter for the beats of a burst: `m_axi_wlast` is read off the low four bits
of `int_addr_reg`, which counts the beats of all bursts, and is high whether or not a beat is
offered.  The bursts have 16 beats all the same.

* `intAddrReg_eq` says that the register counts the beats, around its width;
* `beat_eq` gives the position inside a burst from that count;
* `BurstStructure` collects what AXI asks of the bursts, and `burstStructure` proves it of
  every run of `core`, so for every pattern of the almost-empty flag.
-/

variable {P : Params}

/-- The beats taken on W so far. -/
def wHandshakes (P : Params) (is : List CoreIn) : Nat :=
  count (fun past i => intRdenWire ((core P).run past) i) is

/-- `assign m_axi_wlast = int_wlast_wire`. -/
def mAxiWlast (r : Regs P) : Bool := intWlastWire r

theorem wHandshakes_snoc (is : List CoreIn) (i : CoreIn) :
    wHandshakes P (is ++ [i]) = wHandshakes P is + (intRdenWire ((core P).run is) i).toNat :=
  count_snoc _ _ _

/-- The address register counts the beats, around its width. -/
theorem intAddrReg_eq (is : List CoreIn) :
    ((core P).run is).intAddrReg.toNat = wHandshakes P is % 2 ^ P.addrWidth := by
  induction is using List.reverseRecOn with
  | nil => exact (Nat.zero_mod _).symm
  | append_singleton is i ih =>
    rw [wHandshakes_snoc, Machine.run_snoc]
    show (next _ i).intAddrReg.toNat = _
    rw [next_intAddrReg]
    cases intRdenWire ((core P).run is) i with
    | false => exact ih
    | true => rw [if_pos rfl, BitVec.toNat_add, toNat_one, ih, Nat.mod_add_mod, Bool.toNat_true]

/-- The position inside a burst does not see the wrap: the width holds whole bursts. -/
theorem beat_eq (is : List CoreIn) : beat ((core P).run is) = wHandshakes P is % 16 := by
  rw [beat, intAddrReg_eq, Nat.mod_mod_of_dvd _ (sixteen_dvd P)]

/-- A beat offered on W stays on offer until the last beat of its burst is taken. -/
theorem next_wvalid_of_not_lastBeat {r : Regs P} {i : CoreIn} (hv : r.intWvalidReg = true)
    (h : lastBeat r i = false) : (next r i).intWvalidReg = true := by
  rw [lastBeat, intRdenWire, hv, Bool.and_true] at h
  rw [next_intWvalidReg, h, hv]
  rfl

/-- What is asked of the bursts over a run from reset. -/
structure BurstStructure (P : Params) (is : List CoreIn) : Prop where
  /-- The address register counts the beats. -/
  addr : EachPoint (fun past =>
    ((core P).run past).intAddrReg.toNat = wHandshakes P past % 2 ^ P.addrWidth) is
  /-- Outside a burst it stands at the start of one. -/
  aligned : EachPoint (fun past =>
    ((core P).run past).intWvalidReg = false → 16 ∣ ((core P).run past).intAddrReg.toNat) is
  /-- So the condition that the source does not gate with `wvalid` is not met there. -/
  ungated : EachCycle (fun past i =>
    ((core P).run past).intWvalidReg = false →
      (i.mAxiWready && intWlastWire ((core P).run past)) = false) is
  /-- The beats that end a burst are the 16th, the 32nd and so on. -/
  wlast : EachCycle (fun past i =>
    intRdenWire ((core P).run past) i = true →
      (mAxiWlast ((core P).run past) = true ↔ 16 ∣ wHandshakes P past + 1)) is
  /-- A burst is offered without a pause until its 16th beat is taken. -/
  stays : EachCycle (fun past i =>
    ((core P).run past).intWvalidReg = true →
      ¬ (intRdenWire ((core P).run past) i = true ∧ 16 ∣ wHandshakes P past + 1) →
      ((core P).run (past ++ [i])).intWvalidReg = true) is

/-- `m_axi_wlast` is high where the next beat to be taken is the last one of a burst. -/
theorem intWlastWire_iff_dvd (is : List CoreIn) :
    intWlastWire ((core P).run is) = true ↔ 16 ∣ wHandshakes P is + 1 := by
  rw [intWlastWire_iff, beat_eq, Nat.dvd_iff_mod_eq_zero]
  omega

/-- **Burst structure.** In every run from reset, for every pattern of the almost-empty flag
    and of the two ready inputs: the address register counts the beats, it is aligned outside
    the bursts, every 16th beat and no other is marked, and a burst is offered until its 16th
    beat is taken. -/
theorem burstStructure (P : Params) (is : List CoreIn) : BurstStructure P is where
  addr := fun past _ => intAddrReg_eq past
  aligned := by
    intro past _ hv
    exact Nat.dvd_of_mod_eq_zero (core_aligned past hv)
  ungated := by
    intro past i _ hv
    have hne : ¬ intWlastWire ((core P).run past) = true := by
      rw [intWlastWire_iff, core_aligned past hv]
      decide
    rw [Bool.not_eq_true] at hne
    rw [hne, Bool.and_false]
  wlast := fun past _ _ _ => intWlastWire_iff_dvd past
  stays := by
    intro past i _ hv hmid
    rw [Machine.run_snoc]
    apply next_wvalid_of_not_lastBeat hv
    rw [← Bool.not_eq_true, lastBeat, Bool.and_eq_true, intWlastWire_iff_dvd]
    exact hmid

end ZynqLinux.Axi4.RamWriter
