import ZynqLinux.Lib.History
import ZynqLinux.Rpmsg.Probe

namespace ZynqLinux.Rpmsg.Probe

open ZynqLinux.Lib

/-!
# The minor numbers of the rpmsg character devices

A probe takes the minor number `rpmsg_dev_next_minor` and counts it up; a remove does not give
it back.  Here no call of the kernel fails, so the counter is the only reason for a probe to
fail.

* `Event` is the coming or the going of a channel, and `present` the channels that are there;
* `after` is the world after a sequence of events, `codes` what its probes have returned;
* `Managed` says that every probe has succeeded and that the minors in use are distinct and
  small;
* `nextMinor_eq` says that the counter has counted the probes up to ten, and `managed_iff` that
  the minors are managed as long as it has not come to ten before a probe.
-/

/-! ### Channels that come and go -/

/-- A channel comes, and is probed; or it goes, and is removed. -/
inductive Event
  | probe (ch : Channel)
  | remove (ch : Channel)
  deriving DecidableEq

/-- The channels that are there after one more event. -/
def arrive (present : List Channel) : Event → List Channel
  | .probe ch  => if ch ∈ present then present else ch :: present
  | .remove ch => present.erase ch

/-- The channels that are there: they have come, and not gone since. -/
def present (events : List Event) : List Channel := events.foldl arrive []

/-- The channels that are there, and the world that the driver has made of them. -/
structure Bus where
  present : List Channel
  world : World

/-- One event: a channel that is there already does not come again, and the driver core removes
    only a channel that is bound. -/
def Bus.step (d : Driver) (s : Bus) (e : Event) : Bus where
  present := arrive s.present e
  world :=
    match e with
    | .probe ch  => if ch ∈ s.present then s.world else (d.attach .ok ch s.world).2
    | .remove ch => d.detach ch s.world

/-- The driver after its module has been loaded. -/
def bus (d : Driver) : Machine Bus Event := ⟨⟨[], .init⟩, Bus.step d⟩

/-- The world after a sequence of events. -/
def after (d : Driver) (events : List Event) : World := ((bus d).run events).world

/-- An event calls the probe function. -/
def probes (past : List Event) : Event → Bool
  | .probe ch => ch ∉ present past
  | .remove _ => false

/-- What the probes of a sequence of events have returned. -/
def codes (d : Driver) (events : List Event) : List Int :=
  log (fun past e => match e with
    | .probe ch => if ch ∈ present past then [] else [(d.attach .ok ch (after d past)).1]
    | .remove _ => []) events

/-- `local->rpmsg_minor` of a channel that is bound. -/
def World.minor (w : World) (ch : Channel) : Option Nat :=
  (w.drvdata ch).map fun b => (w.params b).rpmsgMinor

/-- Every probe has succeeded, no two bound channels have the same minor, and every minor in
    use is below `RPMSG_USER_DEV_MAX_MINORS`. -/
structure Managed (d : Driver) (events : List Event) : Prop where
  success : ∀ code ∈ codes d events, code = 0
  distinct : ∀ ch ch' m, (after d events).minor ch = some m →
    (after d events).minor ch' = some m → ch = ch'
  small : ∀ ch m, (after d events).minor ch = some m → m < rpmsgUserDevMaxMinors

@[simp] theorem present_snoc (events : List Event) (e : Event) :
    present (events ++ [e]) = arrive (present events) e := by
  simp [present]

/-- The bus knows the channels that are present, for either of the two drivers. -/
theorem bus_present (d : Driver) (events : List Event) :
    ((bus d).run events).present = present events := by
  induction events using List.reverseRecOn with
  | nil => rfl
  | append_singleton events e ih =>
    rw [Machine.run_snoc, present_snoc, ← ih]
    rfl

theorem after_snoc (d : Driver) (events : List Event) (e : Event) :
    after d (events ++ [e]) =
      match e with
      | .probe ch  =>
        if ch ∈ present events then after d events else (d.attach .ok ch (after d events)).2
      | .remove ch => d.detach ch (after d events) := by
  rw [after, Machine.run_snoc, ← bus_present d]
  rfl

/-! ### What one event does to the minors -/

/-- The blocks in use have been allocated, and their minors are distinct numbers that the
    counter has passed. -/
structure World.Numbered (w : World) : Prop where
  allocated : ∀ ch b, w.drvdata ch = some b → b < w.allocated
  distinct : ∀ ch ch' m, w.minor ch = some m → w.minor ch' = some m → ch = ch'
  passed : ∀ ch m, w.minor ch = some m → m < w.nextMinor

namespace World.Numbered

variable {w w' : World} {ch : Channel}

theorem init : World.init.Numbered := by
  constructor <;> simp [World.init, World.minor]

/-- A channel keeps its minor as long as its driver data and the old blocks stay. -/
theorem minor_eq (hnum : w.Numbered) (hparams : ∀ b < w.allocated, w'.params b = w.params b)
    (hdrv : w'.drvdata ch = w.drvdata ch) : w'.minor ch = w.minor ch := by
  rw [World.minor, World.minor, hdrv]
  cases hb : w.drvdata ch with
  | none => rfl
  | some b => rw [Option.map_some, Option.map_some, hparams b (hnum.allocated ch b hb)]

/-- A channel is bound to a new block, which has the next minor. -/
theorem bind (ch : Channel) (hnum : w.Numbered)
    (hparams : ∀ b < w.allocated, w'.params b = w.params b)
    (hdrv : w'.drvdata = Function.update w.drvdata ch (some w.allocated))
    (halloc : w'.allocated = w.allocated + 1) (hnext : w'.nextMinor = w.nextMinor + 1)
    (hown : (w'.params w.allocated).rpmsgMinor = w.nextMinor) : w'.Numbered := by
  have hself : w'.minor ch = some w.nextMinor := by
    rw [World.minor, hdrv, Function.update_self, Option.map_some, hown]
  have hother : ∀ i, i ≠ ch → w'.minor i = w.minor i := by
    intro i hi
    exact hnum.minor_eq hparams (by rw [hdrv, Function.update_of_ne hi])
  refine ⟨?_, ?_, ?_⟩
  · intro i b hb
    rw [halloc]
    rw [hdrv] at hb
    by_cases hi : i = ch
    · rw [hi, Function.update_self] at hb
      exact Option.some.inj hb ▸ Nat.lt_succ_self _
    · rw [Function.update_of_ne hi] at hb
      exact Nat.lt_succ_of_lt (hnum.allocated i b hb)
  · apply holder_unique hnum.distinct
    · intro i m hi hm
      rwa [hother i hi] at hm
    · -- the next minor has not been given out before
      intro i m _ hm hi
      rw [hself] at hm
      exact absurd (hnum.passed i m hi) (Option.some.inj hm ▸ Nat.lt_irrefl _)
  · intro i m hi
    rw [hnext]
    by_cases hich : i = ch
    · rw [hich, hself] at hi
      exact Option.some.inj hi ▸ Nat.lt_succ_self _
    · rw [hother i hich] at hi
      exact Nat.lt_succ_of_lt (hnum.passed i m hi)

/-- A channel loses its driver data. -/
theorem unbind (ch : Channel) (hnum : w.Numbered)
    (hparams : ∀ b < w.allocated, w'.params b = w.params b)
    (hdrv : w'.drvdata = Function.update w.drvdata ch none)
    (halloc : w.allocated ≤ w'.allocated) (hnext : w'.nextMinor = w.nextMinor) :
    w'.Numbered := by
  have hself : w'.minor ch = none := by
    rw [World.minor, hdrv, Function.update_self, Option.map_none]
  -- a channel that is left has the minor it had before
  have hother : ∀ i m, w'.minor i = some m → w.minor i = some m := by
    intro i m hi
    by_cases hich : i = ch
    · rw [hich, hself] at hi
      exact absurd hi (by simp)
    · rw [← hi]
      exact (hnum.minor_eq hparams (by rw [hdrv, Function.update_of_ne hich])).symm
  refine ⟨?_, ?_, ?_⟩
  · intro i b hb
    rw [hdrv] at hb
    by_cases hich : i = ch
    · rw [hich, Function.update_self] at hb
      exact absurd hb (by simp)
    · rw [Function.update_of_ne hich] at hb
      exact Nat.lt_of_lt_of_le (hnum.allocated i b hb) halloc
  · intro i j m hi hj
    exact hnum.distinct i j m (hother i m hi) (hother j m hj)
  · intro i m hi
    rw [hnext]
    exact hnum.passed i m (hother i m hi)

end World.Numbered

namespace Driver

variable (d : Driver) (ch : Channel) (w : World)

theorem prepared_drvdata :
    (d.prepared ch w).drvdata = Function.update w.drvdata ch (some w.allocated) := by
  cases d <;> rfl

theorem prepared_allocated : (d.prepared ch w).allocated = w.allocated + 1 := by
  cases d <;> rfl

/-- Preparing a channel writes to its own block only. -/
theorem prepared_params {b : Block} (h : b ≠ w.allocated) :
    (d.prepared ch w).params b = w.params b := by
  cases d <;>
    simp [prepared, World.kzalloc, World.mutexInit, World.initWaitqueueHead, World.kfifoAlloc,
      World.createEpt, World.setDrvdata, h]

/-- The error paths give resources back, and leave the parameters of all blocks. -/
theorem error_params (b : Block) : (d.error ch b w).2.params = w.params := by
  cases d <;> rfl

theorem error_drvdata (b : Block) : (d.error ch b w).2.drvdata = w.drvdata := by
  cases d <;> rfl

theorem error_allocated (b : Block) : (d.error ch b w).2.allocated = w.allocated := by
  cases d <;> rfl

theorem prepares_ok : d.Prepares .ok := by
  cases d <;> decide

variable {w}

/-- With a minor left, the probe succeeds and binds the channel to it. -/
theorem attach_ok (hnum : w.Numbered) (h : w.nextMinor < rpmsgUserDevMaxMinors) :
    (d.attach .ok ch w).1 = 0 ∧ (d.attach .ok ch w).2.nextMinor = w.nextMinor + 1 ∧
      (d.attach .ok ch w).2.Numbered := by
  have hprobe : d.probe .ok ch w =
      (0, (((d.prepared ch w).takeMinor w.allocated).cdevAdd w.allocated).deviceCreate
        w.allocated) := by
    rw [probe_of_prepares d.prepares_ok, createDeviceFile, if_pos (by simpa using h)]
    rfl
  rw [attach, hprobe, if_pos rfl]
  have hnext : (((d.prepared ch w).takeMinor w.allocated).cdevAdd w.allocated).nextMinor =
      w.nextMinor + 1 := by simp
  refine ⟨rfl, hnext, hnum.bind ch ?_ (d.prepared_drvdata ch w) (d.prepared_allocated ch w) hnext ?_⟩
  · intro b hb
    show ((d.prepared ch w).takeMinor w.allocated).params b = w.params b
    rw [World.takeMinor_params_of_ne _ _ (Nat.ne_of_lt hb)]
    exact d.prepared_params ch w (Nat.ne_of_lt hb)
  · show (((d.prepared ch w).takeMinor w.allocated).params w.allocated).rpmsgMinor = w.nextMinor
    simp

/-- With no minor left, the probe fails and the channel is not bound. -/
theorem attach_exhausted (hnum : w.Numbered) (h : ¬ w.nextMinor < rpmsgUserDevMaxMinors) :
    (d.attach .ok ch w).1 ≠ 0 ∧ (d.attach .ok ch w).2.nextMinor = w.nextMinor ∧
      (d.attach .ok ch w).2.Numbered := by
  have hend : (d.probe .ok ch w).1 ≠ 0 ∧ (d.probe .ok ch w).2.toResources = w.toResources :=
    probe_of_exhausted d.prepares_ok h
  obtain ⟨hret, hres⟩ := hend
  have hprobe : d.probe .ok ch w = d.error ch w.allocated (d.prepared ch w) := by
    rw [probe_of_prepares d.prepares_ok, createDeviceFile, if_neg (by simpa using h)]
  have hnext : (d.probe .ok ch w).2.nextMinor = w.nextMinor := congrArg Resources.nextMinor hres
  rw [attach, if_neg hret]
  refine ⟨hret, hnext, hnum.unbind ch ?_ ?_ ?_ hnext⟩
  · intro b hb
    show (d.probe .ok ch w).2.params b = w.params b
    rw [hprobe, error_params]
    exact d.prepared_params ch w (Nat.ne_of_lt hb)
  · show Function.update (d.probe .ok ch w).2.drvdata ch none = _
    rw [hprobe, error_drvdata, prepared_drvdata, Function.update_idem]
  · show w.allocated ≤ (d.probe .ok ch w).2.allocated
    rw [hprobe, error_allocated, prepared_allocated]
    exact Nat.le_succ _

/-- A remove leaves the counter where it is. -/
theorem detach_numbered (hnum : w.Numbered) :
    (d.detach ch w).nextMinor = w.nextMinor ∧ (d.detach ch w).Numbered := by
  rw [detach]
  cases w.drvdata ch with
  | none => exact ⟨rfl, hnum⟩
  | some b =>
    have hsame : (d.remove ch b w).params = w.params ∧ (d.remove ch b w).drvdata = w.drvdata ∧
        (d.remove ch b w).allocated = w.allocated ∧
        (d.remove ch b w).nextMinor = w.nextMinor := by
      cases d <;> exact ⟨rfl, rfl, rfl, rfl⟩
    obtain ⟨hparams, hdrv, halloc, hnext⟩ := hsame
    refine ⟨hnext, hnum.unbind ch (fun b _ => congrFun hparams b) ?_ (Nat.le_of_eq halloc.symm) hnext⟩
    show Function.update (d.remove ch b w).drvdata ch none = _
    rw [hdrv]

end Driver

/-! ### The minors over a run -/

/-- A channel that is present is not probed again. -/
theorem probes_of_mem {events : List Event} {ch : Channel} (h : ch ∈ present events) :
    probes events (.probe ch) = false := by
  simpa [probes] using h

/-- A probe of a channel that is not present is carried out. -/
theorem probes_of_not_mem {events : List Event} {ch : Channel} (h : ch ∉ present events) :
    probes events (.probe ch) = true := by
  simpa [probes] using h

/-- The counter has counted the probes, up to `RPMSG_USER_DEV_MAX_MINORS`. -/
theorem nextMinor_eq (d : Driver) (events : List Event) :
    (after d events).Numbered ∧
      (after d events).nextMinor = min (count probes events) rpmsgUserDevMaxMinors := by
  induction events using List.reverseRecOn with
  | nil => exact ⟨World.Numbered.init, rfl⟩
  | append_singleton events e ih =>
    obtain ⟨hnum, hnext⟩ := ih
    rw [after_snoc, count_snoc]
    cases e with
    | probe ch =>
      -- a channel that is bound already is not probed again
      by_cases hch : ch ∈ present events
      · simpa only [hch, if_true, probes_of_mem hch] using ⟨hnum, hnext⟩
      · simp only [hch, if_false, probes_of_not_mem hch, Bool.toNat_true]
        by_cases hminor : (after d events).nextMinor < rpmsgUserDevMaxMinors
        · obtain ⟨-, hsucc, hnum'⟩ := Driver.attach_ok d ch hnum hminor
          exact ⟨hnum', by omega⟩
        · obtain ⟨-, hsame, hnum'⟩ := Driver.attach_exhausted d ch hnum hminor
          exact ⟨hnum', by omega⟩
    | remove ch =>
      obtain ⟨hsame, hnum'⟩ := Driver.detach_numbered d ch hnum
      exact ⟨hnum', hsame.trans hnext⟩

/-- The probes have all succeeded exactly if there were no more of them than minors. -/
theorem success_iff (d : Driver) (events : List Event) :
    (∀ code ∈ codes d events, code = 0) ↔ count probes events ≤ rpmsgUserDevMaxMinors := by
  induction events using List.reverseRecOn with
  | nil => exact iff_of_true (fun code hcode => absurd hcode (by simp [codes])) (Nat.zero_le _)
  | append_singleton events e ih =>
    obtain ⟨hnum, hnext⟩ := nextMinor_eq d events
    rw [codes, log_snoc, List.forall_mem_append, ← codes, ih, count_snoc]
    cases e with
    | probe ch =>
      by_cases hch : ch ∈ present events
      · simp [hch, probes_of_mem hch]
      · simp only [hch, if_false, probes_of_not_mem hch, Bool.toNat_true, List.mem_singleton,
          forall_eq]
        by_cases hminor : (after d events).nextMinor < rpmsgUserDevMaxMinors
        · -- below the limit the probe succeeds, and its minor is the next one
          have hcode := (Driver.attach_ok d ch hnum hminor).1
          exact ⟨fun _ => by omega, fun _ => ⟨by omega, hcode⟩⟩
        · -- at the limit it fails, and so does the bound on the count
          have hcode := (Driver.attach_exhausted d ch hnum hminor).1
          exact ⟨fun hboth => absurd hboth.2 hcode, fun hle => by omega⟩
    | remove ch => simp [probes]

/-- **The minors, exactly.** In every run of either driver in which no call of the kernel
    fails, all probes succeed, with distinct minors below ten, if and only if there are no more
    than ten probes: it does not matter how many channels are bound at a time. -/
theorem managed_iff (d : Driver) (events : List Event) :
    EachPoint (Managed d) events ↔ count probes events ≤ rpmsgUserDevMaxMinors := by
  constructor
  · intro h
    exact (success_iff d events).mp h.last.success
  · intro h past hpast
    have hcount : count probes past ≤ rpmsgUserDevMaxMinors :=
      (eachPoint_count_le probes _ events).mpr h past hpast
    obtain ⟨hnum, hnext⟩ := nextMinor_eq d past
    refine ⟨(success_iff d past).mpr hcount, hnum.distinct, fun ch m hm => ?_⟩
    calc m < (after d past).nextMinor := hnum.passed ch m hm
      _ ≤ rpmsgUserDevMaxMinors := by omega

/-- A channel that comes and goes eleven times, as it does when the remote processor is
    restarted. -/
def restarts : List Event := (List.replicate 11 [.probe 0, .remove 0]).flatten

/-- The channel is alone all the time, and yet the last probe fails. -/
theorem restarts_exhaust_minors :
    EachPoint (fun past => (present past).length ≤ rpmsgUserDevMaxMinors) restarts ∧
      ¬ EachPoint (Managed .user) restarts ∧ ¬ EachPoint (Managed .proxy) restarts := by
  have hcount : ¬ count probes restarts ≤ rpmsgUserDevMaxMinors := by decide
  refine ⟨by decide, fun h => hcount ?_, fun h => hcount ?_⟩
  · exact (success_iff _ restarts).mp h.last.success
  · exact (success_iff _ restarts).mp h.last.success

end ZynqLinux.Rpmsg.Probe
