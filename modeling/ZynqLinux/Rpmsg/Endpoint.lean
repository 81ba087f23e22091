import Mathlib.Logic.Function.Iterate
import ZynqLinux.Lib.History
import ZynqLinux.Rpmsg.Probe

namespace ZynqLinux.Rpmsg.Probe

open ZynqLinux.Lib

/-!
# The endpoint of the proxy driver, while its channel is probed and removed

`rpmsg_proxy_dev_ept_cb` may run as soon as `rpmsg_create_ept` has returned, in the middle of
the probe, and until `rpmsg_destroy_ept`.  It finds the parameter block through the driver data
of the channel, which the probe sets only after it has sent the init message.

* `Stage` is where the probe or the remove of a channel stands, and `Stage.exec` what it does
  next: `Driver.probe` and `Driver.remove` cut into single calls of the kernel;
* `probe_refines` and `remove_refines` say that these calls, one after the other, are the probe
  and the remove;
* `Inv` says what a channel has registered at each stage, in any interleaving of the channels;
* `callbackReady_iff` says which messages find the block: those that do not come before
  `dev_set_drvdata`.
-/

/-! ### Probe and remove, call by call -/

/-- The call that a channel makes next, in the probe, on its way out of a failed probe, when it
    is bound, or in the remove.  At the label `error2` the init message may have been `sent`. -/
inductive Stage
  | mutexInit
  | initWaitqueueHead
  | kfifoAlloc
  | createEpt
  | send
  | setDrvdata
  | takeMinor
  | cdevAdd
  | deviceCreate
  | error2 (sent : Bool)
  | error1
  | error0
  | bound
  | deviceDestroy
  | cdevDel
  | destroyEpt
  | kfifoFree
  | removed
  deriving DecidableEq

/-- A channel that is being probed, bound or being removed, with `local`. -/
abbrev Thread := Option (Stage × Block)

/-- The next call of `rpmsg_proxy_dev_rpmsg_drv_probe` or `rpmsg_proxy_dev_rpmsg_drv_remove`.
    When one of them has returned, the driver core clears the driver data. -/
def Stage.exec (c : Calls) (ch : Channel) (b : Block) (w : World) : Stage → World × Thread
  | mutexInit         => (w.mutexInit b, some (initWaitqueueHead, b))
  | initWaitqueueHead => (w.initWaitqueueHead b, some (kfifoAlloc, b))
  | kfifoAlloc        =>
    if c.kfifoAlloc then (w.kfifoAlloc b, some (createEpt, b)) else (w, some (error0, b))
  | createEpt         =>
    if c.createEpt then (w.createEpt ch b, some (send, b)) else (w, some (error1, b))
  | send              => if c.send then (w, some (setDrvdata, b)) else (w, some (error2 false, b))
  | setDrvdata        => (w.setDrvdata ch b, some (takeMinor, b))
  | takeMinor         =>
    if w.nextMinor < rpmsgUserDevMaxMinors then (w.takeMinor b, some (cdevAdd, b))
    else (w, some (error2 true, b))
  | cdevAdd           =>
    if c.cdevAdd then (w.cdevAdd b, some (deviceCreate, b)) else (w, some (error2 true, b))
  | deviceCreate      =>
    match c.deviceCreate with
    | .null   => (w, some (error2 true, b))
    | .errPtr => (w, some (bound, b))
    | .device => (w.deviceCreate b, some (bound, b))
  | error2 _          => (w.destroyEpt ch b, some (error1, b))
  | error1            => (w.kfifoFree b, some (error0, b))
  | error0            => (w.clearDrvdata ch, none)
  -- the remove begins: `local` is the driver data
  | bound             => (w, some ((w.drvdata ch).elim (bound, b) fun b => (deviceDestroy, b)))
  | deviceDestroy     => (w.deviceDestroy b, some (cdevDel, b))
  | cdevDel           => (w.cdevDel b, some (destroyEpt, b))
  | destroyEpt        => (w.destroyEpt ch b, some (kfifoFree, b))
  | kfifoFree         => (w.kfifoFree b, some (removed, b))
  | removed           => (w.clearDrvdata ch, none)

/-- A channel goes on by one call; the probe of a channel that is not bound begins with
    `devm_kzalloc`. -/
def advance (c : Calls) (ch : Channel) : World × Thread → World × Thread
  | (w, some (stage, b)) => stage.exec c ch b w
  | (w, none)            =>
    if c.kzalloc then (w.kzalloc, some (.mutexInit, w.allocated)) else (w.clearDrvdata ch, none)

/-- What the driver core makes of the return of the probe. -/
def returned (ch : Channel) (b : Block) (r : Int × World) : World × Thread :=
  if r.1 = 0 then (r.2, some (.bound, b)) else (r.2.clearDrvdata ch, none)

theorem error0_refines (c : Calls) (ch : Channel) (b : Block) (w : World) :
    (advance c ch)^[1] (w, some (.error0, b)) = returned ch b (error0 w) := rfl

theorem error1_refines (c : Calls) (ch : Channel) (b : Block) (w : World) :
    (advance c ch)^[2] (w, some (.error1, b)) = returned ch b (error1 b w) := rfl

/-- Call by call, the error path behind the endpoint does what the branch of `probe` does at
    once: it also takes the endpoint back. -/
theorem error2_refines (c : Calls) (ch : Channel) (b : Block) (sent : Bool) (w : World) :
    (advance c ch)^[3] (w, some (.error2 sent, b)) = returned ch b (error2 ch b w) := rfl

/-- Calls that lead to a label lead on to what the label returns. -/
theorem refines_of_iterate {c : Calls} {ch : Channel} {s t u : World × Thread} {m n : Nat}
    (hm : (advance c ch)^[m] s = t) (hn : (advance c ch)^[n] t = u) :
    ∃ n, (advance c ch)^[n] s = u :=
  ⟨n + m, by rw [Function.iterate_add_apply, hm, hn]⟩

/-- So do the calls that make the device file, wherever one of them fails and whichever error
    path it takes. -/
theorem createDeviceFile_refines (c : Calls) (ch : Channel) (b : Block) (w : World) :
    ∃ n, (advance c ch)^[n] (w, some (.takeMinor, b)) =
      returned ch b (createDeviceFile c b (error2 ch b) w) := by
  rw [createDeviceFile]
  by_cases hminor : w.nextMinor < rpmsgUserDevMaxMinors
  · cases hcdev : c.cdevAdd with
    | false =>
      rw [if_pos hminor]
      refine refines_of_iterate (m := 2) ?_ (error2_refines c ch b true _)
      simp [advance, Stage.exec, hminor, hcdev]
    | true =>
      cases hdevice : c.deviceCreate with
      | null =>
        rw [if_pos hminor]
        refine refines_of_iterate (m := 3) ?_ (error2_refines c ch b true _)
        simp [advance, Stage.exec, hminor, hcdev, hdevice]
      | errPtr => exact ⟨3, by simp [advance, Stage.exec, hminor, hcdev, hdevice, returned]⟩
      | device => exact ⟨3, by simp [advance, Stage.exec, hminor, hcdev, hdevice, returned]⟩
  · rw [if_neg hminor]
    refine refines_of_iterate (m := 1) ?_ (error2_refines c ch b true _)
    simp [advance, Stage.exec, hminor]

/-- Seven calls lead to "Create device file", if none of them fails. -/
theorem prepared_refines {c : Calls} (h : Driver.proxy.Prepares c) (ch : Channel) (w : World) :
    (advance c ch)^[7] (w, none) =
      (Driver.proxy.prepared ch w, some (.takeMinor, w.allocated)) := by
  obtain ⟨hkzalloc, hkfifo, hept, hsend⟩ := h
  simp only [Function.iterate_succ, Function.iterate_zero, Function.comp_apply, id_eq, advance,
    Stage.exec, hkzalloc, hkfifo, hept, hsend, if_true, Driver.prepared]

/-- The calls of the probe, one after the other, are the probe. -/
theorem probe_refines (c : Calls) (ch : Channel) (w : World) :
    ∃ n, (advance c ch)^[n] (w, none) =
      returned ch w.allocated (rpmsgProxyDevRpmsgDrvProbe c ch w) := by
  rw [rpmsgProxyDevRpmsgDrvProbe]
  -- one case for each call that may be the first to fail
  cases hkzalloc : c.kzalloc with
  | false => exact ⟨1, by simp [advance, hkzalloc, returned, enomem]⟩
  | true =>
    cases hkfifo : c.kfifoAlloc with
    | false =>
      refine refines_of_iterate (m := 4) ?_ (error0_refines c ch w.allocated _)
      simp [advance, Stage.exec, hkzalloc, hkfifo]
    | true =>
      cases hept : c.createEpt with
      | false =>
        refine refines_of_iterate (m := 5) ?_ (error1_refines c ch w.allocated _)
        simp [advance, Stage.exec, hkzalloc, hkfifo, hept]
      | true =>
        cases hsend : c.send with
        | false =>
          refine refines_of_iterate (m := 6) ?_ (error2_refines c ch w.allocated false _)
          simp [advance, Stage.exec, hkzalloc, hkfifo, hept, hsend]
        | true =>
          obtain ⟨n, hn⟩ := createDeviceFile_refines c ch w.allocated (Driver.proxy.prepared ch w)
          exact refines_of_iterate (prepared_refines ⟨hkzalloc, hkfifo, hept, hsend⟩ ch w) hn

/-- The calls of the remove of a bound channel are the remove. -/
theorem remove_refines (c : Calls) {ch : Channel} {w : World} {b : Block}
    (h : w.drvdata ch = some b) :
    (advance c ch)^[6] (w, some (.bound, b)) = (Driver.proxy.detach ch w, none) := by
  rw [Driver.detach, h]
  simp [advance, Stage.exec, h, Driver.remove, rpmsgProxyDevRpmsgDrvRemove]

/-! ### Channels, messages and the callback -/

/-- The world, and where the probe or the remove of each channel stands. -/
structure Endpoints where
  world : World
  thread : Channel → Thread

/-- A channel goes on by one call, or a message arrives for its endpoint. -/
inductive Action
  | advance (ch : Channel) (c : Calls)
  | message (ch : Channel)

/-- One action: a message changes neither the registered resources nor the stages. -/
def Endpoints.step (s : Endpoints) : Action → Endpoints
  | .advance ch c =>
    let r := Probe.advance c ch (s.world, s.thread ch)
    ⟨r.1, Function.update s.thread ch r.2⟩
  | .message _    => s

/-- The channels of the proxy driver, after its module has been loaded. -/
def endpoints : Machine Endpoints Action := ⟨⟨.init, fun _ => none⟩, Endpoints.step⟩

/-- What the callback relies on: the driver data of the channel are the block of the endpoint,
    with its mutex and wait queue initialised and its kfifo allocated. -/
structure Ready (w : World) (ch : Channel) (b : Block) : Prop where
  drvdata : w.drvdata ch = some b
  syncLock : (w.params b).syncLock = true
  usrWaitQ : (w.params b).usrWaitQ = true
  kfifo : b ∈ w.kfifos

/-- A message that arrives for an endpoint runs its callback, which finds what it relies on. -/
def CallbackReady (past : List Action) (a : Action) : Prop :=
  ∀ ch b, a = .message ch → (ch, b) ∈ (endpoints.run past).world.epts →
    Ready (endpoints.run past).world ch b

/-- The endpoint is there, and the driver data are not set: from the return of
    `rpmsg_create_ept` to `dev_set_drvdata`, or to `rpmsg_destroy_ept` if the init message could
    not be sent. -/
def Stage.window : Stage → Bool
  | send | setDrvdata | error2 false => true
  | _                                => false

/-- No message arrives for a channel in this window. -/
def OutsideWindow (past : List Action) (a : Action) : Prop :=
  ∀ ch stage b, a = .message ch → (endpoints.run past).thread ch = some (stage, b) →
    stage.window = false

/-! ### What a channel has at each stage -/

namespace Stage

/-- `sync_lock` is initialised. -/
def hasLock : Stage → Bool
  | mutexInit => false
  | _         => true

/-- `usr_wait_q` is initialised. -/
def hasWaitQ : Stage → Bool
  | mutexInit | initWaitqueueHead => false
  | _                             => true

/-- The kfifo is allocated. -/
def hasKfifo : Stage → Bool
  | mutexInit | initWaitqueueHead | kfifoAlloc | error0 | removed => false
  | _                                                             => true

/-- The endpoint is there. -/
def hasEpt : Stage → Bool
  | send | setDrvdata | takeMinor | cdevAdd | deviceCreate | error2 _ | bound | deviceDestroy
  | cdevDel | destroyEpt => true
  | _                    => false

/-- The driver data are set. -/
def hasDrvdata : Stage → Bool
  | takeMinor | cdevAdd | deviceCreate | error2 true | bound | deviceDestroy | cdevDel
  | destroyEpt | kfifoFree | removed => true
  | _                                => false

/-- The driver data are not set; on the way out of a failed probe they may be. -/
def lacksDrvdata : Stage → Bool
  | mutexInit | initWaitqueueHead | kfifoAlloc | createEpt | send | setDrvdata | error2 false =>
    true
  | _ => false

/-- The window is open between the creation of the endpoint and the store of its driver data. -/
theorem window_iff (stage : Stage) :
    stage.window = true ↔ stage.hasEpt = true ∧ stage.hasDrvdata = false := by
  cases stage with
  | error2 sent => cases sent <;> decide
  | _ => decide

/-- In the window the callback can be called already, and finds no driver data. -/
theorem lacksDrvdata_of_window {stage : Stage} (h : stage.window = true) :
    stage.lacksDrvdata = true := by
  cases stage with
  | error2 sent => cases sent <;> first | rfl | exact absurd h (by decide)
  | _ => first | rfl | exact absurd h (by decide)

/-- A channel may go from one stage to the other with its endpoint and driver data as they are. -/
def KeepsEndpoint (stage stage' : Stage) : Prop :=
  stage'.hasEpt = stage.hasEpt ∧ (stage'.hasDrvdata = true → stage.hasDrvdata = true) ∧
    (stage'.lacksDrvdata = true → stage.lacksDrvdata = true)

instance (stage stage' : Stage) : Decidable (stage.KeepsEndpoint stage') :=
  inferInstanceAs (Decidable (_ ∧ _ ∧ _))

/-- A channel may go from one stage to the other with its block as it is. -/
def KeepsBlock (stage stage' : Stage) : Prop :=
  (stage'.hasLock = true → stage.hasLock = true) ∧
    (stage'.hasWaitQ = true → stage.hasWaitQ = true) ∧
    (stage'.hasKfifo = true → stage.hasKfifo = true)

instance (stage stage' : Stage) : Decidable (stage.KeepsBlock stage') :=
  inferInstanceAs (Decidable (_ ∧ _ ∧ _))

/-- An endpoint is created after everything else that the callback uses, and destroyed before. -/
theorem complete_of_hasEpt {stage : Stage} (h : stage.hasEpt = true) :
    stage.hasLock = true ∧ stage.hasWaitQ = true ∧ stage.hasKfifo = true := by
  cases stage <;> first | exact ⟨rfl, rfl, rfl⟩ | exact absurd h (by decide)

end Stage

/-- A channel at a stage, with its block: what it has, and what the world knows of it. -/
structure Owned (w : World) (ch : Channel) (stage : Stage) (b : Block) : Prop where
  allocated : b < w.allocated
  lock : stage.hasLock = true → (w.params b).syncLock = true
  waitQ : stage.hasWaitQ = true → (w.params b).usrWaitQ = true
  kfifo : stage.hasKfifo = true → b ∈ w.kfifos
  epts : ∀ i, (ch, i) ∈ w.epts ↔ i = b ∧ stage.hasEpt = true
  set : stage.hasDrvdata = true → w.drvdata ch = some b
  unset : stage.lacksDrvdata = true → w.drvdata ch = none

/-- What the world knows of a channel, whether it has a block or not. -/
def Consistent (w : World) (ch : Channel) : Thread → Prop
  | some (stage, b) => Owned w ch stage b
  | none            => w.drvdata ch = none ∧ ∀ b, (ch, b) ∉ w.epts

namespace Owned

variable {w w' : World} {ch : Channel} {stage stage' : Stage} {b : Block}

/-- A call that touches neither the endpoint nor the driver data. -/
theorem move (h : Owned w ch stage b) (hkeeps : stage.KeepsEndpoint stage')
    (halloc : w'.allocated = w.allocated) (hepts : w'.epts = w.epts)
    (hdrv : w'.drvdata = w.drvdata)
    (hlock : stage'.hasLock = true → (w'.params b).syncLock = true)
    (hwaitQ : stage'.hasWaitQ = true → (w'.params b).usrWaitQ = true)
    (hkfifo : stage'.hasKfifo = true → b ∈ w'.kfifos) : Owned w' ch stage' b where
  allocated := halloc ▸ h.allocated
  lock := hlock
  waitQ := hwaitQ
  kfifo := hkfifo
  epts := by rw [hepts, hkeeps.1]; exact h.epts
  set := fun hs => by rw [hdrv]; exact h.set (hkeeps.2.1 hs)
  unset := fun hs => by rw [hdrv]; exact h.unset (hkeeps.2.2 hs)

/-- A call that touches nothing of the channel but its character device. -/
theorem stay (h : Owned w ch stage b)
    (hkeeps : stage.KeepsEndpoint stage' ∧ stage.KeepsBlock stage')
    (halloc : w'.allocated = w.allocated) (hepts : w'.epts = w.epts)
    (hdrv : w'.drvdata = w.drvdata) (hkfifos : w'.kfifos = w.kfifos)
    (hlock : (w'.params b).syncLock = (w.params b).syncLock)
    (hwaitQ : (w'.params b).usrWaitQ = (w.params b).usrWaitQ) : Owned w' ch stage' b := by
  obtain ⟨hendpoint, hblock⟩ := hkeeps
  apply h.move hendpoint halloc hepts hdrv
  · intro hs
    rw [hlock]
    exact h.lock (hblock.1 hs)
  · intro hs
    rw [hwaitQ]
    exact h.waitQ (hblock.2.1 hs)
  · intro hs
    rw [hkfifos]
    exact h.kfifo (hblock.2.2 hs)

/-- A jump, or a call that fails or only sends. -/
theorem goto (h : Owned w ch stage b)
    (hkeeps : stage.KeepsEndpoint stage' ∧ stage.KeepsBlock stage') : Owned w ch stage' b :=
  h.stay hkeeps rfl rfl rfl rfl rfl rfl

theorem createEpt (h : Owned w ch .createEpt b) : Owned (w.createEpt ch b) ch .send b where
  allocated := h.allocated
  lock := h.lock
  waitQ := h.waitQ
  kfifo := h.kfifo
  epts := by
    intro i
    have hnone : (ch, i) ∉ w.epts := fun hi => absurd ((h.epts i).mp hi).2 (by decide)
    simp [World.createEpt, hnone, Stage.hasEpt]
  set := fun hs => absurd hs (by decide)
  unset := h.unset

/-- The endpoint goes; the rest of the channel stays. -/
theorem destroyEpt (h : Owned w ch stage b) (hnodup : w.epts.Nodup)
    (hept : stage'.hasEpt = false) (hset : stage'.hasDrvdata = true → stage.hasDrvdata = true)
    (hunset : stage'.lacksDrvdata = false) (hblock : stage.KeepsBlock stage') :
    Owned (w.destroyEpt ch b) ch stage' b where
  allocated := h.allocated
  lock := fun hs => h.lock (hblock.1 hs)
  waitQ := fun hs => h.waitQ (hblock.2.1 hs)
  kfifo := fun hs => h.kfifo (hblock.2.2 hs)
  epts := by
    intro i
    refine iff_of_false (fun hi => ?_) (by simp [hept])
    have hmem := (hnodup.mem_erase_iff).mp hi
    exact hmem.1 (by rw [((h.epts i).mp hmem.2).1])
  set := fun hs => h.set (hset hs)
  unset := fun hs => absurd hs (by simp [hunset])

theorem setDrvdata (h : Owned w ch .setDrvdata b) :
    Owned (w.setDrvdata ch b) ch .takeMinor b where
  allocated := h.allocated
  lock := h.lock
  waitQ := h.waitQ
  kfifo := h.kfifo
  epts := h.epts
  set := fun _ => Function.update_self ch _ w.drvdata
  unset := fun hs => absurd hs (by decide)

/-- The kfifo goes; the rest of the block stays. -/
theorem kfifoFree (h : Owned w ch stage b)
    (hkeeps : stage.KeepsEndpoint stage' ∧ stage.hasLock = true ∧ stage.hasWaitQ = true)
    (hkfifo : stage'.hasKfifo = false) : Owned (w.kfifoFree b) ch stage' b := by
  obtain ⟨hendpoint, hlock, hwaitQ⟩ := hkeeps
  refine h.move hendpoint rfl rfl rfl ?_ ?_ ?_
  · exact fun _ => h.lock hlock
  · exact fun _ => h.waitQ hwaitQ
  · exact fun hs => absurd hs (by simp [hkfifo])

/-- The driver core clears the driver data of a channel without an endpoint. -/
theorem clearDrvdata (h : Owned w ch stage b) (hept : stage.hasEpt = false) :
    Consistent (w.clearDrvdata ch) ch none := by
  refine ⟨Function.update_self ch _ w.drvdata, fun i hi => ?_⟩
  have hcontra := ((h.epts i).mp hi).2
  rw [hept] at hcontra
  exact absurd hcontra (by decide)

/-- Each call of a channel leads from what it has at one stage to what it has at the next. -/
theorem exec (h : Owned w ch stage b) (hnodup : w.epts.Nodup) (c : Calls) :
    Consistent (stage.exec c ch b w).1 ch (stage.exec c ch b w).2 := by
  cases stage with
  | mutexInit =>
    -- the three parts of a block are initialised one after the other
    refine h.move (by decide) rfl rfl rfl ?_ ?_ ?_
    · intro _
      simp [Stage.exec, World.mutexInit]
    · exact fun hs => absurd hs (by decide)
    · exact fun hs => absurd hs (by decide)
  | initWaitqueueHead =>
    refine h.move (by decide) rfl rfl rfl ?_ ?_ ?_
    · intro _
      simpa [Stage.exec, World.initWaitqueueHead] using h.lock rfl
    · intro _
      simp [Stage.exec, World.initWaitqueueHead]
    · exact fun hs => absurd hs (by decide)
  | kfifoAlloc =>
    rw [Stage.exec]
    split
    · refine h.move (by decide) rfl rfl rfl ?_ ?_ ?_
      · exact fun _ => h.lock rfl
      · exact fun _ => h.waitQ rfl
      · exact fun _ => List.mem_cons_self
    · exact h.goto (by decide)
  | createEpt =>
    rw [Stage.exec]
    split
    · exact h.createEpt
    · exact h.goto (by decide)
  | send =>
    rw [Stage.exec]
    split
    · exact h.goto (by decide)
    · exact h.goto (by decide)
  | setDrvdata => exact h.setDrvdata
  | takeMinor =>
    rw [Stage.exec]
    split
    · refine h.stay (by decide) rfl rfl rfl rfl ?_ ?_
      · simp [World.takeMinor]
      · simp [World.takeMinor]
    · exact h.goto (by decide)
  | cdevAdd =>
    rw [Stage.exec]
    split
    · exact h.stay (by decide) rfl rfl rfl rfl rfl rfl
    · exact h.goto (by decide)
  | deviceCreate =>
    rw [Stage.exec]
    split
    · exact h.goto (by decide)
    · exact h.goto (by decide)
    · exact h.stay (by decide) rfl rfl rfl rfl rfl rfl
  | error2 sent =>
    -- the error path undoes in reverse what has been done so far
    exact h.destroyEpt hnodup rfl (fun hs => absurd hs (by decide)) rfl (by cases sent <;> decide)
  | error1 => exact h.kfifoFree (by decide) rfl
  | error0 => exact h.clearDrvdata rfl
  | bound =>
    rw [Stage.exec, h.set rfl]
    exact h.goto (by decide)
  | deviceDestroy => exact h.stay (by decide) rfl rfl rfl rfl rfl rfl
  | cdevDel => exact h.stay (by decide) rfl rfl rfl rfl rfl rfl
  | destroyEpt => exact h.destroyEpt hnodup rfl (fun _ => rfl) rfl (by decide)
  | kfifoFree => exact h.kfifoFree (by decide) rfl
  | removed => exact h.clearDrvdata rfl

/-- A stage that goes on to the next one keeps its block of the device state. -/
theorem exec_block (h : Owned w ch stage b) {c : Calls} {i : Block}
    (hnext : (stage.exec c ch b w).2 = some (stage', i)) : i = b := by
  cases stage with
  | bound =>
    rw [Stage.exec, h.set rfl] at hnext
    simp only [Option.elim_some, Option.some.injEq, Prod.mk.injEq] at hnext
    exact hnext.2.symm
  | _ =>
    simp only [Stage.exec] at hnext
    repeat' split at hnext
    all_goals simp_all

/-- An endpoint is created only for a channel that has none, so the list of endpoints has no
    channel twice. -/
theorem exec_nodup (h : Owned w ch stage b) (hnodup : w.epts.Nodup) (c : Calls) :
    (stage.exec c ch b w).1.epts.Nodup := by
  cases stage with
  | createEpt =>
    rw [Stage.exec]
    split
    · -- a channel in front of this stage has no endpoint, so the new one is a first
      exact List.nodup_cons.mpr ⟨fun hb => absurd ((h.epts b).mp hb).2 (by decide), hnodup⟩
    · exact hnodup
  | error2 sent => exact hnodup.erase _
  | destroyEpt => exact hnodup.erase _
  | _ =>
    simp only [Stage.exec]
    repeat' split
    all_goals exact hnodup

end Owned

/-- A call of a channel leaves the other channels and their blocks alone. -/
structure Frame (w w' : World) (ch : Channel) (b : Block) : Prop where
  allocated : w.allocated ≤ w'.allocated
  epts : ∀ i, i ≠ ch → ∀ x, (i, x) ∈ w'.epts ↔ (i, x) ∈ w.epts
  drvdata : ∀ i, i ≠ ch → w'.drvdata i = w.drvdata i
  kfifos : ∀ x, x ≠ b → x ∈ w.kfifos → x ∈ w'.kfifos
  params : ∀ x, x ≠ b → w'.params x = w.params x

/-- Every call of a channel leaves the other channels and their blocks as they are. -/
theorem exec_frame (c : Calls) (ch : Channel) (b : Block) (w : World) (stage : Stage) :
    Frame w (stage.exec c ch b w).1 ch b := by
  cases stage <;> simp only [Stage.exec] <;> (try split) <;> constructor <;>
    simp +contextual [World.mutexInit, World.initWaitqueueHead, World.kfifoAlloc, World.kfifoFree,
      World.createEpt, World.destroyEpt, World.setDrvdata, World.clearDrvdata, World.takeMinor,
      World.cdevAdd, World.cdevDel, World.deviceCreate, World.deviceDestroy,
      List.mem_erase_of_ne]

theorem kzalloc_frame (ch : Channel) (w : World) : Frame w w.kzalloc ch w.allocated := by
  constructor <;> simp +contextual [World.kzalloc]

theorem clearDrvdata_frame (ch : Channel) (b : Block) (w : World) :
    Frame w (w.clearDrvdata ch) ch b :=
  exec_frame .ok ch b w .error0

/-- The probe begins, with a new block. -/
theorem Consistent.kzalloc {w : World} {ch : Channel} (h : Consistent w ch none) :
    Consistent w.kzalloc ch (some (.mutexInit, w.allocated)) where
  allocated := Nat.lt_succ_self _
  lock := fun hs => absurd hs (by decide)
  waitQ := fun hs => absurd hs (by decide)
  kfifo := fun hs => absurd hs (by decide)
  epts := fun i => iff_of_false (h.2 i) (fun hboth => absurd hboth.2 (by decide))
  set := fun hs => absurd hs (by decide)
  unset := fun _ => h.1

/-- What the world knows of a channel is not changed by the calls of another one, which works
    on a block of its own. -/
theorem Consistent.frame {w w' : World} {ch i : Channel} {b : Block} {t : Thread}
    (h : Consistent w i t) (hframe : Frame w w' ch b) (hi : i ≠ ch)
    (hother : ∀ stage x, t = some (stage, x) → x ≠ b) : Consistent w' i t := by
  match t, h with
  | none, h =>
    refine ⟨(hframe.drvdata i hi).trans h.1, fun x hx => ?_⟩
    exact h.2 x ((hframe.epts i hi x).mp hx)
  | some (stage, x), h =>
    have hx : x ≠ b := hother stage x rfl
    exact {
      allocated := Nat.lt_of_lt_of_le h.allocated hframe.allocated
      lock := by rw [hframe.params x hx]; exact h.lock
      waitQ := by rw [hframe.params x hx]; exact h.waitQ
      kfifo := fun hs => hframe.kfifos x hx (h.kfifo hs)
      epts := fun y => (hframe.epts i hi y).trans (h.epts y)
      set := by rw [hframe.drvdata i hi]; exact h.set
      unset := by rw [hframe.drvdata i hi]; exact h.unset }

/-! ### Any interleaving -/

/-- Every channel has what its stage says, no endpoint is registered twice, and no two channels
    share a block. -/
structure Inv (s : Endpoints) : Prop where
  consistent : ∀ ch, Consistent s.world ch (s.thread ch)
  nodup : s.world.epts.Nodup
  distinct : ∀ ch ch' stage stage' b, s.thread ch = some (stage, b) →
    s.thread ch' = some (stage', b) → ch = ch'

/-- The invariant holds before the first probe, since there are no channels yet. -/
theorem inv_init : Inv endpoints.reset where
  consistent := fun _ => ⟨rfl, fun _ hb => absurd hb (by simp [endpoints, World.init])⟩
  nodup := List.nodup_nil
  distinct := fun _ _ _ _ _ h => absurd h (by simp [endpoints])

namespace Inv

variable {s : Endpoints}

/-- One channel goes on: it works on a block of its own, or on a new one. -/
theorem advance_spec (h : Inv s) (c : Calls) (ch : Channel) :
    ∃ b, Frame s.world (advance c ch (s.world, s.thread ch)).1 ch b ∧
      Consistent (advance c ch (s.world, s.thread ch)).1 ch
        (advance c ch (s.world, s.thread ch)).2 ∧
      (advance c ch (s.world, s.thread ch)).1.epts.Nodup ∧
      (∀ stage i, (advance c ch (s.world, s.thread ch)).2 = some (stage, i) → i = b) ∧
      ∀ ch' stage i, ch' ≠ ch → s.thread ch' = some (stage, i) → i ≠ b := by
  have hch := h.consistent ch
  match ht : s.thread ch, hch with
  | some (stage, b), hch =>
    have hown : Owned s.world ch stage b := hch
    refine ⟨b, exec_frame c ch b s.world stage, hown.exec h.nodup c, hown.exec_nodup h.nodup c,
      fun stage i hi => hown.exec_block hi, fun ch' stage' i hne hi hib => ?_⟩
    exact hne (h.distinct ch' ch stage' stage b (hib ▸ hi) ht)
  | none, hch =>
    -- a new block is the next to be allocated, so nobody holds it
    have hother : ∀ ch' stage i, ch' ≠ ch → s.thread ch' = some (stage, i) →
        i ≠ s.world.allocated := by
      intro ch' stage i _ hi
      have hown := h.consistent ch'
      rw [hi] at hown
      exact Nat.ne_of_lt hown.allocated
    refine ⟨s.world.allocated, ?_⟩
    rw [advance]
    split
    · refine ⟨kzalloc_frame ch s.world, hch.kzalloc, h.nodup, ?_, hother⟩
      intro stage i hi
      exact (congrArg Prod.snd (Option.some.inj hi)).symm
    · refine ⟨clearDrvdata_frame ch _ s.world, ?_, h.nodup, ?_, hother⟩
      · exact ⟨Function.update_self ch _ s.world.drvdata, hch.2⟩
      · intro stage i hi
        exact absurd hi (by simp)

/-- Every action keeps the invariant, in whatever order the probes, removals and callbacks of
    the channels are interleaved. -/
theorem step (h : Inv s) (a : Action) : Inv (s.step a) := by
  cases a with
  | message ch => exact h
  | advance ch c =>
    obtain ⟨b, hframe, hcons, hnodup, hblock, hother⟩ := h.advance_spec c ch
    have hthread : ∀ i, i ≠ ch → (s.step (.advance ch c)).thread i = s.thread i :=
      fun i hi => Function.update_of_ne hi _ _
    have hself : (s.step (.advance ch c)).thread ch = (advance c ch (s.world, s.thread ch)).2 :=
      Function.update_self ch _ _
    -- two calls never work on one block: the one that moves keeps its own or takes a new one
    have hdistinct : ∀ i j x, (∃ stage, (s.step (.advance ch c)).thread i = some (stage, x)) →
        (∃ stage, (s.step (.advance ch c)).thread j = some (stage, x)) → i = j := by
      apply holder_unique (R := fun i x => ∃ stage, s.thread i = some (stage, x))
      · rintro i j x ⟨stage, hi⟩ ⟨stage', hj⟩
        exact h.distinct i j stage stage' x hi hj
      · rintro i x hi ⟨stage, hx⟩
        exact ⟨stage, (hthread i hi).symm.trans hx⟩
      · rintro i x hich ⟨stage, hx⟩ ⟨stage', hi⟩
        rw [hself] at hx
        exact hother i stage' x hich hi (hblock stage x hx)
    refine ⟨fun i => ?_, hnodup, fun i j stage stage' x hi hj => ?_⟩
    · by_cases hich : i = ch
      · rw [hich, hself]
        exact hcons
      · rw [hthread i hich]
        exact (h.consistent i).frame hframe hich (fun stage x hx => hother i stage x hich hx)
    · exact hdistinct i j x ⟨stage, hi⟩ ⟨stage', hj⟩

/-- A message that arrives for an endpoint finds what the callback relies on exactly when the
    driver data are set. -/
theorem ready_iff (h : Inv s) {ch : Channel} {stage : Stage} {b : Block}
    (ht : s.thread ch = some (stage, b)) (hept : stage.hasEpt = true) :
    Ready s.world ch b ↔ stage.window = false := by
  have hown : Owned s.world ch stage b := by
    have hch := h.consistent ch
    rwa [ht] at hch
  constructor
  · intro hready
    by_contra hwindow
    have hnone := hown.unset (Stage.lacksDrvdata_of_window (by simpa using hwindow))
    rw [hready.drvdata] at hnone
    exact absurd hnone (by simp)
  · intro hwindow
    have hset : stage.hasDrvdata = true := by
      by_contra hunset
      exact absurd ((Stage.window_iff stage).mpr ⟨hept, by simpa using hunset⟩) (by simp [hwindow])
    obtain ⟨hlock, hwaitQ, hkfifo⟩ := Stage.complete_of_hasEpt hept
    exact ⟨hown.set hset, hown.lock hlock, hown.waitQ hwaitQ, hown.kfifo hkfifo⟩

end Inv

/-- So it holds after every interleaving. -/
theorem inv_run (actions : List Action) : Inv (endpoints.run actions) :=
  Machine.run_of_step inv_init (fun _ a h => h.step a) actions

/-- **The callback, exactly.** In every interleaving of the probes and removes of the channels
    with the messages for their endpoints, each callback finds the block of its channel, with the
    mutex, the wait queue and the kfifo, if and only if no message arrives between the return of
    `rpmsg_create_ept` and `dev_set_drvdata`, or `rpmsg_destroy_ept` if the init message could
    not be sent. -/
theorem callbackReady_iff (actions : List Action) :
    EachCycle CallbackReady actions ↔ EachCycle OutsideWindow actions := by
  suffices hstep : ∀ past a, CallbackReady past a ↔ OutsideWindow past a from
    forall_congr' fun past => forall_congr' fun a => imp_congr_right fun _ => hstep past a
  intro past a
  have hinv := inv_run past
  constructor
  · intro hready ch stage b hmsg ht
    by_contra hwindow
    have hept := ((Stage.window_iff stage).mp (by simpa using hwindow)).1
    -- an endpoint of the channel is there, so its callback runs
    have hown := hinv.consistent ch
    rw [ht] at hown
    have hmem := (hown.epts b).mpr ⟨rfl, hept⟩
    exact hwindow ((hinv.ready_iff ht hept).mp (hready ch b hmsg hmem))
  · intro hout ch b hmsg hmem
    have hch := hinv.consistent ch
    match ht : (endpoints.run past).thread ch, hch with
    | none, hch => exact absurd hmem (hch.2 b)
    | some (stage, i), hown =>
      obtain ⟨hib, hept⟩ := (hown.epts b).mp hmem
      rw [hib]
      exact (hinv.ready_iff ht hept).mpr (hout ch stage i hmsg ht)

/-- The first probe, and a message between the creation of the endpoint and the init message:
    the driver data are NULL. -/
theorem early_message_finds_null :
    ¬ EachCycle CallbackReady
      (List.replicate 5 (Action.advance 0 .ok) ++ [Action.message 0]) := by
  intro h
  have hready := h (List.replicate 5 (Action.advance 0 .ok)) (.message 0) (List.prefix_refl _) 0 0
    rfl (by decide)
  exact absurd hready.drvdata (by decide)

end ZynqLinux.Rpmsg.Probe
