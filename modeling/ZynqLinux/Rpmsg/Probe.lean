import Mathlib.Logic.Function.Basic
import Mathlib.Tactic.SplitIfs

namespace ZynqLinux.Rpmsg.Probe

/-!
# Probe and remove of the rpmsg character devices

When the remote processor announces a channel, the driver core calls the probe function of
the driver: `rpmsg_user_dev_rpmsg_drv_probe` or `rpmsg_proxy_dev_rpmsg_drv_probe`.  Each
acquires its resources one by one and unwinds them through the labels `error2`, `error1` and
`error0`.

* `Resources` is what is registered with the kernel, and the counter `rpmsg_dev_next_minor`;
  `World` adds the parameter blocks and the driver data of the channels;
* `Calls` says which of the kernel's calls succeed: the kernel is not part of the repository;
* `Driver.probe` and `Driver.remove` are the two functions of each driver, `Driver.attach` and
  `Driver.detach` the calls that the driver core makes of them;
* `probe_of_not_prepares`, `probe_of_exhausted` and `probe_of_reaches` are the ways a probe can
  end, and `atomic_iff` says which of them leave nothing behind.
-/

/-! ### The kernel's side -/

/-- A channel, `struct rpmsg_channel *`. -/
abbrev Channel := Nat

/-- A parameter block, `struct _rpmsg_dev_params *`: the count of the allocations before it,
    so that no two blocks are the same. -/
abbrev Block := Nat

/-- The fields of a parameter block that the probe fills in: whether `sync_lock` and
    `usr_wait_q` are initialised, and `rpmsg_minor`. -/
structure Params where
  syncLock : Bool
  usrWaitQ : Bool
  rpmsgMinor : Nat
  deriving DecidableEq

/-- What is registered with the kernel: the kfifos that are allocated, by their block; the
    endpoints, by the channel and the block; the character devices, by the minor and the
    block; the device nodes, by the minor; and `rpmsg_dev_next_minor`. -/
structure Resources where
  kfifos : List Block
  epts : List (Channel × Block)
  cdevs : List (Nat × Block)
  devices : List Nat
  nextMinor : Nat
  deriving DecidableEq

/-- The registered resources, the parameter blocks with the count of those allocated, and
    the driver data of each channel. -/
structure World extends Resources where
  params : Block → Params
  allocated : Nat
  drvdata : Channel → Option Block

/-- The module has just been loaded. -/
def World.init : World where
  kfifos := []
  epts := []
  cdevs := []
  devices := []
  nextMinor := 0
  params := fun _ => ⟨false, false, 0⟩
  allocated := 0
  drvdata := fun _ => none

namespace World

variable (w : World) (ch : Channel) (b : Block)

/-- `devm_kzalloc`: the new block is `w.allocated`, and it is zero. -/
def kzalloc : World :=
  { w with
    params := Function.update w.params w.allocated ⟨false, false, 0⟩
    allocated := w.allocated + 1 }

/-- `mutex_init(&local->sync_lock)`. -/
def mutexInit : World :=
  { w with params := Function.update w.params b { w.params b with syncLock := true } }

/-- `init_waitqueue_head(&local->usr_wait_q)`. -/
def initWaitqueueHead : World :=
  { w with params := Function.update w.params b { w.params b with usrWaitQ := true } }

/-- `kfifo_alloc(&local->rpmsg_kfifo, ...)` that succeeds. -/
def kfifoAlloc : World := { w with kfifos := b :: w.kfifos }

/-- `kfifo_free(&local->rpmsg_kfifo)`. -/
def kfifoFree : World := { w with kfifos := w.kfifos.erase b }

/-- `local->ept = rpmsg_create_ept(rpdev, ...)` that succeeds. -/
def createEpt : World := { w with epts := (ch, b) :: w.epts }

/-- `rpmsg_destroy_ept(local->ept)`. -/
def destroyEpt : World := { w with epts := w.epts.erase (ch, b) }

/-- `dev_set_drvdata(&rpdev->dev, local)`. -/
def setDrvdata : World := { w with drvdata := Function.update w.drvdata ch (some b) }

/-- What the driver core does after a failed probe and after a remove. -/
def clearDrvdata : World := { w with drvdata := Function.update w.drvdata ch none }

/-- `local->rpmsg_minor = rpmsg_dev_next_minor++`. -/
def takeMinor : World :=
  { w with
    params := Function.update w.params b { w.params b with rpmsgMinor := w.nextMinor }
    nextMinor := w.nextMinor + 1 }

/-- `cdev_add(&local->cdev, MKDEV(rpmsg_dev_major, local->rpmsg_minor), 1)` that succeeds. -/
def cdevAdd : World := { w with cdevs := ((w.params b).rpmsgMinor, b) :: w.cdevs }

/-- `cdev_del(&local->cdev)`. -/
def cdevDel : World := { w with cdevs := w.cdevs.erase ((w.params b).rpmsgMinor, b) }

/-- `device_create(rpmsg_class, &rpdev->dev, MKDEV(...), ...)` that succeeds. -/
def deviceCreate : World := { w with devices := (w.params b).rpmsgMinor :: w.devices }

/-- `device_destroy(rpmsg_class, MKDEV(rpmsg_dev_major, local->rpmsg_minor))`. -/
def deviceDestroy : World := { w with devices := w.devices.erase (w.params b).rpmsgMinor }

@[simp] theorem takeMinor_toResources :
    (w.takeMinor b).toResources = { w.toResources with nextMinor := w.nextMinor + 1 } := rfl

@[simp] theorem takeMinor_params_self : ((w.takeMinor b).params b).rpmsgMinor = w.nextMinor := by
  simp [takeMinor]

/-- A minor is written into one block, and the others keep theirs. -/
theorem takeMinor_params_of_ne {i : Block} (h : i ≠ b) :
    (w.takeMinor b).params i = w.params i := by
  rw [takeMinor]
  exact Function.update_of_ne h _ _

@[simp] theorem cdevAdd_toResources :
    (w.cdevAdd b).toResources =
      { w.toResources with cdevs := ((w.params b).rpmsgMinor, b) :: w.cdevs } := rfl

@[simp] theorem cdevAdd_params : (w.cdevAdd b).params = w.params := rfl

@[simp] theorem deviceCreate_toResources :
    (w.deviceCreate b).toResources =
      { w.toResources with devices := (w.params b).rpmsgMinor :: w.devices } := rfl

end World

/-- If no number is held by two channels, and one channel gives up what it holds for numbers
    that no other channel holds, then still no number is held by two. -/
theorem holder_unique {R S : Channel → Nat → Prop} {ch : Channel}
    (hR : ∀ i j n, R i n → R j n → i = j) (hother : ∀ i n, i ≠ ch → S i n → R i n)
    (hnew : ∀ i n, i ≠ ch → S ch n → ¬ R i n) :
    ∀ i j n, S i n → S j n → i = j := by
  intro i j n hi hj
  by_cases hich : i = ch <;> by_cases hjch : j = ch
  · rw [hich, hjch]
  · rw [hich] at hi
    exact absurd (hother j n hjch hj) (hnew j n hjch hi)
  · rw [hjch] at hj
    exact absurd (hother i n hich hi) (hnew i n hich hj)
  · exact hR i j n (hother i n hich hi) (hother j n hjch hj)

/-- `device_create` returns a device, NULL, or an error pointer. -/
inductive Created
  | device
  | null
  | errPtr
  deriving DecidableEq

/-- Which of the kernel's calls succeed; `send` is `rpmsg_sendto` in the user driver and
    `rpmsg_send` in the proxy driver. -/
structure Calls where
  kzalloc : Bool
  kfifoAlloc : Bool
  createEpt : Bool
  send : Bool
  cdevAdd : Bool
  deviceCreate : Created
  deriving DecidableEq

/-- No call fails. -/
def Calls.ok : Calls := ⟨true, true, true, true, true, .device⟩

/-! ### The two drivers -/

def enomem : Int := 12

def enodev : Int := 19

/-- `RPMSG_USER_DEV_MAX_MINORS`. -/
def rpmsgUserDevMaxMinors : Nat := 10

/-- The labels at the end of the probe functions. -/
def error0 (w : World) : Int × World := (-enodev, w)

@[inherit_doc error0]
def error1 (b : Block) (w : World) : Int × World := error0 (w.kfifoFree b)

@[inherit_doc error0]
def error2 (ch : Channel) (b : Block) (w : World) : Int × World := error1 b (w.destroyEpt ch b)

/-- "Create device file": the last part of both probe functions, from the minor number on;
    `error` is the label it jumps to. -/
def createDeviceFile (c : Calls) (b : Block) (error : World → Int × World) (w : World) :
    Int × World :=
  if w.nextMinor < rpmsgUserDevMaxMinors then
    let w := w.takeMinor b
    if c.cdevAdd then
      let w := w.cdevAdd b
      match c.deviceCreate with
      | .null   => error w
      -- an error pointer is not NULL
      | .errPtr => (0, w)
      | .device => (0, w.deviceCreate b)
    else error w
  else error w

/-- `rpmsg_user_dev_rpmsg_drv_probe`. -/
def rpmsgUserDevRpmsgDrvProbe (c : Calls) (ch : Channel) (w : World) : Int × World :=
  if c.kzalloc then
    let b := w.allocated
    let w := (w.kzalloc.mutexInit b).initWaitqueueHead b
    if c.kfifoAlloc then
      let w := (w.kfifoAlloc b).setDrvdata ch b
      if c.send then createDeviceFile c b (error1 b) w
      else error1 b w
    else error0 w
  else (-enomem, w)

/-- `rpmsg_proxy_dev_rpmsg_drv_probe`. -/
def rpmsgProxyDevRpmsgDrvProbe (c : Calls) (ch : Channel) (w : World) : Int × World :=
  if c.kzalloc then
    let b := w.allocated
    let w := (w.kzalloc.mutexInit b).initWaitqueueHead b
    if c.kfifoAlloc then
      let w := w.kfifoAlloc b
      if c.createEpt then
        let w := w.createEpt ch b
        if c.send then createDeviceFile c b (error2 ch b) (w.setDrvdata ch b)
        else error2 ch b w
      else error1 b w
    else error0 w
  else (-enomem, w)

/-- `rpmsg_user_dev_rpmsg_drv_remove`, with `local` the driver data of the channel. -/
def rpmsgUserDevRpmsgDrvRemove (b : Block) (w : World) : World :=
  ((w.deviceDestroy b).cdevDel b).kfifoFree b

/-- `rpmsg_proxy_dev_rpmsg_drv_remove`, with `local` the driver data of the channel. -/
def rpmsgProxyDevRpmsgDrvRemove (ch : Channel) (b : Block) (w : World) : World :=
  (((w.deviceDestroy b).cdevDel b).destroyEpt ch b).kfifoFree b

inductive Driver
  | user
  | proxy
  deriving DecidableEq

namespace Driver

def probe : Driver → Calls → Channel → World → Int × World
  | user  => rpmsgUserDevRpmsgDrvProbe
  | proxy => rpmsgProxyDevRpmsgDrvProbe

def remove : Driver → Channel → Block → World → World
  | user, _, b, w   => rpmsgUserDevRpmsgDrvRemove b w
  | proxy, ch, b, w => rpmsgProxyDevRpmsgDrvRemove ch b w

/-- The driver core probes a channel; it clears the driver data if the probe fails. -/
def attach (d : Driver) (c : Calls) (ch : Channel) (w : World) : Int × World :=
  let r := d.probe c ch w
  if r.1 = 0 then r else (r.1, r.2.clearDrvdata ch)

/-- The driver core removes a channel that is bound, and clears the driver data. -/
def detach (d : Driver) (ch : Channel) (w : World) : World :=
  match w.drvdata ch with
  | none   => w
  | some b => (d.remove ch b w).clearDrvdata ch

/-- The endpoints of a channel that is bound: the proxy driver has one of its own. -/
def endpoints : Driver → Channel → Block → List (Channel × Block)
  | user, _, _   => []
  | proxy, ch, b => [(ch, b)]

/-- The calls that come before the minor number succeed. -/
def Prepares : Driver → Calls → Prop
  | user, c  => c.kzalloc = true ∧ c.kfifoAlloc = true ∧ c.send = true
  | proxy, c => c.kzalloc = true ∧ c.kfifoAlloc = true ∧ c.createEpt = true ∧ c.send = true

instance (d : Driver) (c : Calls) : Decidable (d.Prepares c) :=
  match d with
  | user  => inferInstanceAs (Decidable (_ ∧ _))
  | proxy => inferInstanceAs (Decidable (_ ∧ _))

/-- The probe comes to `cdev_add`: nothing has failed so far, and a minor is left. -/
def Reaches (d : Driver) (c : Calls) (w : World) : Prop :=
  d.Prepares c ∧ w.nextMinor < rpmsgUserDevMaxMinors

/-- No call of the probe fails. -/
def Succeeds (d : Driver) (c : Calls) (w : World) : Prop :=
  d.Reaches c w ∧ c.cdevAdd = true ∧ c.deviceCreate = .device

instance (d : Driver) (c : Calls) (w : World) : Decidable (d.Succeeds c w) :=
  inferInstanceAs (Decidable ((_ ∧ _) ∧ _))

end Driver

/-! ### How a probe ends -/

namespace Driver

/-- The world in front of "Create device file". -/
def prepared (d : Driver) (ch : Channel) (w : World) : World :=
  let b := w.allocated
  let w := (w.kzalloc.mutexInit b).initWaitqueueHead b
  match d with
  | user  => (w.kfifoAlloc b).setDrvdata ch b
  | proxy => ((w.kfifoAlloc b).createEpt ch b).setDrvdata ch b

/-- The label that "Create device file" jumps to. -/
def error : Driver → Channel → Block → World → Int × World
  | user, _, b   => error1 b
  | proxy, ch, b => error2 ch b

variable {d : Driver} {c : Calls} {ch : Channel} {w : World}

/-- Past the init message, both drivers do the same, up to the label. -/
theorem probe_of_prepares (h : d.Prepares c) :
    d.probe c ch w =
      createDeviceFile c w.allocated (d.error ch w.allocated) (d.prepared ch w) := by
  cases d with
  | user =>
    obtain ⟨hkzalloc, hkfifo, hsend⟩ := h
    simp only [probe, rpmsgUserDevRpmsgDrvProbe, hkzalloc, hkfifo, hsend, if_true]
    rfl
  | proxy =>
    obtain ⟨hkzalloc, hkfifo, hept, hsend⟩ := h
    simp only [probe, rpmsgProxyDevRpmsgDrvProbe, hkzalloc, hkfifo, hept, hsend, if_true]
    rfl

/-- The label gives the kfifo and the endpoint back, and nothing else. -/
theorem error_eq (d : Driver) (ch : Channel) (b : Block) (w w' : World)
    (hkfifos : w'.kfifos = b :: w.kfifos) (hepts : w'.epts = d.endpoints ch b ++ w.epts) :
    (d.error ch b w').1 = -enodev ∧
      (d.error ch b w').2.toResources =
        { w'.toResources with kfifos := w.kfifos, epts := w.epts } := by
  cases d with
  | user =>
    refine ⟨rfl, ?_⟩
    have hepts' : w'.epts = w.epts := hepts
    simp [error, error1, error0, World.kfifoFree, hkfifos, ← hepts']
  | proxy =>
    refine ⟨rfl, ?_⟩
    have hepts' : w'.epts = (ch, b) :: w.epts := hepts
    simp [error, error2, error1, error0, World.kfifoFree, World.destroyEpt, hkfifos, hepts']

@[simp] theorem prepared_toResources :
    (d.prepared ch w).toResources =
      { w.toResources with
        kfifos := w.allocated :: w.kfifos
        epts := d.endpoints ch w.allocated ++ w.epts } := by
  cases d <;> rfl

/-- A failure before the minor number is unwound. -/
theorem probe_of_not_prepares (h : ¬ d.Prepares c) :
    (d.probe c ch w).1 ≠ 0 ∧ (d.probe c ch w).2.toResources = w.toResources := by
  -- the first call that fails decides which label is jumped to
  have hcode : -enodev ≠ 0 := by decide
  cases d with
  | user =>
    simp only [probe, rpmsgUserDevRpmsgDrvProbe]
    split_ifs with hkzalloc hkfifo hsend
    · exact absurd ⟨hkzalloc, hkfifo, hsend⟩ h
    · have herr := error_eq user ch w.allocated w (user.prepared ch w) rfl rfl
      exact ⟨ne_of_eq_of_ne herr.1 hcode, herr.2⟩
    · exact ⟨hcode, rfl⟩
    · exact ⟨(by decide : -enomem ≠ 0), rfl⟩
  | proxy =>
    simp only [probe, rpmsgProxyDevRpmsgDrvProbe]
    split_ifs with hkzalloc hkfifo hept hsend
    · exact absurd ⟨hkzalloc, hkfifo, hept, hsend⟩ h
    · have herr := error_eq proxy ch w.allocated w (proxy.prepared ch w) rfl rfl
      exact ⟨ne_of_eq_of_ne herr.1 hcode, herr.2⟩
    · -- no endpoint yet: the label is the one of the user driver
      have herr := error_eq user ch w.allocated w (user.prepared ch w) rfl rfl
      exact ⟨ne_of_eq_of_ne herr.1 hcode, herr.2⟩
    · exact ⟨hcode, rfl⟩
    · exact ⟨(by decide : -enomem ≠ 0), rfl⟩

/-- A probe that finds no minor left is unwound too. -/
theorem probe_of_exhausted (h : d.Prepares c) (hminor : ¬ w.nextMinor < rpmsgUserDevMaxMinors) :
    (d.probe c ch w).1 ≠ 0 ∧ (d.probe c ch w).2.toResources = w.toResources := by
  have herr := error_eq d ch w.allocated w (d.prepared ch w) (by simp) (by simp)
  rw [probe_of_prepares h, createDeviceFile, if_neg (by simpa using hminor), herr.1, herr.2]
  exact ⟨by decide, by simp⟩

/-- All that a channel has registered when it is bound. -/
def registered (d : Driver) (ch : Channel) (w : World) : Resources where
  kfifos := w.allocated :: w.kfifos
  epts := d.endpoints ch w.allocated ++ w.epts
  cdevs := (w.nextMinor, w.allocated) :: w.cdevs
  devices := w.nextMinor :: w.devices
  nextMinor := w.nextMinor + 1

/-- What a probe that comes to `cdev_add` returns and leaves registered. -/
def outcome (d : Driver) (c : Calls) (ch : Channel) (w : World) : Int × Resources :=
  match c.cdevAdd, c.deviceCreate with
  | false, _      => (-enodev, { w.toResources with nextMinor := w.nextMinor + 1 })
  | true, .null   =>
    (-enodev, { w.toResources with
                cdevs := (w.nextMinor, w.allocated) :: w.cdevs
                nextMinor := w.nextMinor + 1 })
  | true, .errPtr => (0, { d.registered ch w with devices := w.devices })
  | true, .device => (0, d.registered ch w)

/-- If no allocation in front of it fails, `probe` returns what the outcome of the later calls
    says, with the resources of that outcome. -/
theorem probe_of_reaches (h : d.Reaches c w) :
    ((d.probe c ch w).1, (d.probe c ch w).2.toResources) = d.outcome c ch w := by
  have hminor : (d.prepared ch w).nextMinor < rpmsgUserDevMaxMinors := by simpa using h.2
  rw [probe_of_prepares h.1, createDeviceFile, if_pos hminor, outcome]
  cases hcdev : c.cdevAdd with
  | false =>
    have herr := error_eq d ch w.allocated w ((d.prepared ch w).takeMinor w.allocated)
      (by simp) (by simp)
    simp [herr]
  | true =>
    cases hdevice : c.deviceCreate with
    | null =>
      have herr := error_eq d ch w.allocated w
        (((d.prepared ch w).takeMinor w.allocated).cdevAdd w.allocated) (by simp) (by simp)
      simp [herr]
    | errPtr => simp [registered]
    | device => simp [registered]

/-! ### Which failures leave nothing behind -/

/-- The probe is atomic: if no call fails it returns 0 with everything registered, and
    otherwise it returns an error with everything as it was. -/
def Atomic (d : Driver) (c : Calls) (ch : Channel) (w : World) : Prop :=
  (d.Succeeds c w →
    (d.probe c ch w).1 = 0 ∧ (d.probe c ch w).2.toResources = d.registered ch w) ∧
  (¬ d.Succeeds c w →
    (d.probe c ch w).1 ≠ 0 ∧ (d.probe c ch w).2.toResources = w.toResources)

instance (d : Driver) (c : Calls) (ch : Channel) (w : World) : Decidable (d.Atomic c ch w) :=
  inferInstanceAs (Decidable (_ ∧ _))

/-- A probe that comes to `cdev_add` has taken a minor, and keeps it whatever happens then. -/
theorem nextMinor_of_reaches (h : d.Reaches c w) :
    (d.probe c ch w).2.nextMinor = w.nextMinor + 1 := by
  have hout : ((d.probe c ch w).1, (d.probe c ch w).2.toResources) = d.outcome c ch w :=
    probe_of_reaches h
  have hres : (d.probe c ch w).2.toResources = (d.outcome c ch w).2 := congrArg Prod.snd hout
  rw [hres, outcome]
  split <;> rfl

/-- **Atomicity, exactly.** A probe of either driver is atomic if and only if `cdev_add` and
    `device_create` do not fail when it comes to them: none of the labels deletes the
    character device or gives the minor back. -/
theorem atomic_iff (d : Driver) (c : Calls) (ch : Channel) (w : World) :
    d.Atomic c ch w ↔ (d.Reaches c w → c.cdevAdd = true ∧ c.deviceCreate = .device) := by
  by_cases hreach : d.Reaches c w
  · constructor
    · intro hatomic _
      by_contra hfail
      -- a failure behind the minor leaves it taken, so the resources are not as before
      have hsame := (hatomic.2 fun hsucc => hfail hsucc.2).2
      have hnext : (d.probe c ch w).2.nextMinor = w.nextMinor + 1 := nextMinor_of_reaches hreach
      rw [hsame] at hnext
      exact absurd hnext (Nat.ne_of_lt (Nat.lt_succ_self _))
    · intro hok
      obtain ⟨hcdev, hdevice⟩ := hok hreach
      have hout : (_, _) = d.outcome c ch w := probe_of_reaches hreach
      rw [outcome, hcdev, hdevice] at hout
      obtain ⟨hret, hres⟩ := Prod.mk.inj hout
      exact ⟨fun _ => ⟨hret, hres⟩, fun hfail => absurd ⟨hreach, hcdev, hdevice⟩ hfail⟩
  · have hfail : ¬ d.Succeeds c w := fun hsucc => hreach hsucc.1
    refine iff_of_true ⟨fun hsucc => absurd hsucc hfail, fun _ => ?_⟩
      (fun hcontra => absurd hcontra hreach)
    -- before the minor is taken each error path gives back what it has
    by_cases hprep : d.Prepares c
    · exact probe_of_exhausted hprep (fun hminor => hreach ⟨hprep, hminor⟩)
    · exact probe_of_not_prepares hprep

end Driver

/-- The first probe after the module is loaded, in both drivers: after a `cdev_add` that fails
    the minor is not given back, after a `device_create` that returns NULL the character device
    stays as well, and a `device_create` that returns an error pointer lets the probe succeed. -/
theorem failed_probe_not_atomic :
    (¬ Driver.user.Atomic { Calls.ok with cdevAdd := false } 0 .init ∧
      ¬ Driver.user.Atomic { Calls.ok with deviceCreate := .null } 0 .init ∧
      ¬ Driver.user.Atomic { Calls.ok with deviceCreate := .errPtr } 0 .init) ∧
    (¬ Driver.proxy.Atomic { Calls.ok with cdevAdd := false } 0 .init ∧
      ¬ Driver.proxy.Atomic { Calls.ok with deviceCreate := .null } 0 .init ∧
      ¬ Driver.proxy.Atomic { Calls.ok with deviceCreate := .errPtr } 0 .init) := by
  decide

end ZynqLinux.Rpmsg.Probe
