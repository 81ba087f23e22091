import Mathlib.Data.List.Forall2
import Mathlib.Data.List.Induction
import Mathlib.Data.List.Infix
import Mathlib.Tactic.TypeStar

namespace ZynqLinux.Lib

/-!
# Clocked machines and their histories

A clocked design is a `Machine`: the state that reset loads and what one clock edge
makes of the state and of the cycle's inputs.  A run is the list of the inputs of its
cycles, oldest first, so the **history** `past` of a cycle names both the state in front
of it (`M.run past`) and everything that happened before.

* `log f is` and `count p is` collect what the cycles of a run emit;
* `Machine.run_part` cuts a part out of a machine, and `Machine.log_part`,
  `Machine.count_part` and `Machine.eachCycle_part` say what can be read off the machine;
* `Machine.run_congr` and `log_congr` compare two runs input by input;
* `EachCycle p is` and `EachPoint p is` state a property of every cycle of a run and of
  every point between two cycles;
* `eachPoint_of_step` is the invariant rule, under an assumption on the cycles;
  `Machine.run_of_step` and `Machine.forall_log_of_step` are its forms for an invariant of
  the state and for what the cycles emit under it;
* `eachPoint_iff_eachCycle` turns a property of the points into the condition on the
  cycles that keeps it.
-/

variable {σ ι α : Type*}

/-- A clocked machine: the state that reset loads, and the state after one clock edge. -/
structure Machine (σ ι : Type*) where
  reset : σ
  step : σ → ι → σ

namespace Machine

/-- The state after the cycles `is`, started from reset. -/
def run (M : Machine σ ι) (is : List ι) : σ := is.foldl M.step M.reset

/-- The last cycle steps the state that the ones before it reach. -/
@[simp] theorem run_snoc (M : Machine σ ι) (is : List ι) (i : ι) :
    M.run (is ++ [i]) = M.step (M.run is) i := by
  simp [run]

/-- A run in two parts: the second part starts where the first ends. -/
theorem run_append (M : Machine σ ι) (is js : List ι) :
    M.run (is ++ js) = Machine.run ⟨M.run is, M.step⟩ js := by
  simp [run]

end Machine

/-! ### What the cycles of a run emit -/

/-- The events `f` emits along the cycles `is` that follow the history `past`. -/
def logFrom (f : List ι → ι → List α) (past : List ι) : List ι → List α
  | []      => []
  | i :: is => f past i ++ logFrom f (past ++ [i]) is

/-- The events `f` emits along a run; `f` sees the history of the cycle and its inputs. -/
def log (f : List ι → ι → List α) (is : List ι) : List α := logFrom f [] is

/-- The last cycle emits its events behind those of the others, and sees them all in its
    history. -/
theorem logFrom_snoc (f : List ι → ι → List α) (past is : List ι) (i : ι) :
    logFrom f past (is ++ [i]) = logFrom f past is ++ f (past ++ is) i := by
  induction is generalizing past with
  | nil => simp [logFrom]
  | cons j js ih => simp [logFrom, ih]

@[simp] theorem log_nil (f : List ι → ι → List α) : log f [] = [] := rfl

/-- The last cycle of a run emits its events behind those of the others. -/
@[simp] theorem log_snoc (f : List ι → ι → List α) (is : List ι) (i : ι) :
    log f (is ++ [i]) = log f is ++ f is i := by
  simpa [log] using logFrom_snoc f [] is i

/-- A run in two parts: the second part emits its events with the first in its histories. -/
theorem log_append (f : List ι → ι → List α) (is js : List ι) :
    log f (is ++ js) = log f is ++ logFrom f is js := by
  induction js using List.reverseRecOn with
  | nil => simp [logFrom]
  | append_singleton js j ih =>
    rw [← List.append_assoc, log_snoc, ih, logFrom_snoc, List.append_assoc]

/-- A shorter run emits a shorter log: events are only ever added at the end. -/
theorem log_isPrefix (f : List ι → ι → List α) {is js : List ι} (h : is <+: js) :
    log f is <+: log f js := by
  obtain ⟨ks, rfl⟩ := h
  rw [log_append]
  exact List.prefix_append _ _

/-- A log with one entry for each cycle is as long as the run. -/
theorem length_log_single (g : List ι → ι → α) (is : List ι) :
    (log (fun past i => [g past i]) is).length = is.length := by
  induction is using List.reverseRecOn with
  | nil => rfl
  | append_singleton is i ih => rw [log_snoc, List.length_append, List.length_append, ih]; rfl

/-- Its initial parts are the logs of the initial parts of the run. -/
theorem exists_isPrefix_of_log_single {g : List ι → ι → α} {is : List ι} {l : List α}
    (h : l <+: log (fun past i => [g past i]) is) :
    ∃ js, js <+: is ∧ log (fun past i => [g past i]) js = l := by
  have hlen := h.length_le
  rw [length_log_single] at hlen
  refine ⟨is.take l.length, List.take_prefix _ _, ?_⟩
  have hlog := log_isPrefix (fun past i => [g past i]) (List.take_prefix l.length is)
  apply (List.prefix_of_prefix_length_le hlog h _).eq_of_length
  · rw [length_log_single, List.length_take, Nat.min_eq_left hlen]
  · rw [length_log_single, List.length_take, Nat.min_eq_left hlen]

/-- The later part of a log, as a log of its own. -/
theorem logFrom_eq_log (f : List ι → ι → List α) (past is : List ι) :
    logFrom f past is = log (fun p i => f (past ++ p) i) is := by
  induction is using List.reverseRecOn with
  | nil => rfl
  | append_singleton is i ih => rw [logFrom_snoc, log_snoc, ih]

/-- A log with one entry for each cycle is cut where the run is cut. -/
theorem exists_append_of_log_single {g : List ι → ι → α} {is : List ι} {l l' : List α}
    (h : log (fun past i => [g past i]) is = l ++ l') :
    ∃ js ks, is = js ++ ks ∧ log (fun past i => [g past i]) js = l
      ∧ log (fun past i => [g (js ++ past) i]) ks = l' := by
  obtain ⟨js, ⟨ks, rfl⟩, hjs⟩ :=
    exists_isPrefix_of_log_single (show l <+: _ by rw [h]; exact List.prefix_append l l')
  refine ⟨js, ks, rfl, hjs, ?_⟩
  rw [log_append, hjs, logFrom_eq_log] at h
  exact List.append_cancel_left h

/-- The cycle that emits the last entry of a log, if no cycle emits two. -/
theorem exists_last_emit {f : List ι → ι → List α} (hf : ∀ past i, (f past i).length ≤ 1)
    {l : List α} {x : α} {is : List ι} (h : log f is = l ++ [x]) :
    ∃ past i rest, is = past ++ [i] ++ rest ∧ log f past = l ∧ f past i = [x] := by
  induction is using List.reverseRecOn with
  | nil => exact absurd h (by simp)
  | append_singleton is i ih =>
    rw [log_snoc] at h
    match hi : f is i, hf is i with
    | [], _ =>
      rw [hi, List.append_nil] at h
      obtain ⟨past, j, rest, rfl, hl, hx⟩ := ih h
      exact ⟨past, j, rest ++ [i], by simp, hl, hx⟩
    | [y], _ =>
      rw [hi] at h
      obtain ⟨hl, hy⟩ := List.append_inj' h rfl
      exact ⟨is, i, [], by simp, hl, by rw [hi, hy]⟩

/-- A part `f s` of the state that is clocked as the machine `N`, by inputs it finds in the
    state and the cycle, runs as `N` does on the log of these inputs. -/
theorem Machine.run_part {τ κ : Type*} {M : Machine σ ι} {N : Machine τ κ} {f : σ → τ}
    {g : σ → ι → κ} (hreset : f M.reset = N.reset)
    (hstep : ∀ s i, f (M.step s i) = N.step (f s) (g s i)) (is : List ι) :
    f (M.run is) = N.run (log (fun past i => [g (M.run past) i]) is) := by
  induction is using List.reverseRecOn with
  | nil => exact hreset
  | append_singleton is i ih => rw [log_snoc, run_snoc, run_snoc, hstep, ih]

/-- Two runs whose inputs, one by one, step every state alike reach the same state. -/
theorem Machine.run_congr {M : Machine σ ι} {R : ι → ι → Prop}
    (hstep : ∀ s i j, R i j → M.step s i = M.step s j) {is js : List ι}
    (h : List.Forall₂ R is js) : M.run is = M.run js := by
  suffices hfrom : ∀ s, is.foldl M.step s = js.foldl M.step s from hfrom M.reset
  induction h with
  | nil => exact fun _ => rfl
  | @cons i j is js hij _ ih =>
    intro s
    rw [List.foldl_cons, List.foldl_cons, hstep s i j hij]
    exact ih _

/-- They emit the same events if each cycle does, given histories alike so far. -/
theorem log_congr {R : ι → ι → Prop} {f : List ι → ι → List α}
    (hf : ∀ past past' i j, List.Forall₂ R past past' → R i j → f past i = f past' j)
    {is js : List ι} (h : List.Forall₂ R is js) : log f is = log f js := by
  suffices hfrom : ∀ past past', List.Forall₂ R past past' →
      logFrom f past is = logFrom f past' js from hfrom [] [] .nil
  induction h with
  | nil => exact fun _ _ _ => rfl
  | @cons i j is js hij _ ih =>
    intro past past' hpast
    rw [logFrom, logFrom, hf past past' i j hpast hij]
    rw [ih _ _ (List.rel_append hpast (.cons hij .nil))]

/-- What is known of each entry of a log and its index stays known when an entry is added. -/
theorem forall_getElem?_snoc {l : List α} {Q : Nat → α → Prop}
    (h : ∀ k a, l[k]? = some a → Q k a) (x : α) (hx : Q l.length x) :
    ∀ k a, (l ++ [x])[k]? = some a → Q k a := by
  intro k a ha
  by_cases hk : k < l.length
  · rw [List.getElem?_append_left hk] at ha
    exact h k a ha
  · rw [List.getElem?_append_right (Nat.le_of_not_lt hk), List.getElem?_singleton] at ha
    split at ha
    · have hkl : k = l.length := by omega
      rw [hkl, ← Option.some.inj ha]
      exact hx
    · exact absurd ha (by simp)

/-- The number of cycles of a run in which `p` is true. -/
def count (p : List ι → ι → Bool) (is : List ι) : Nat :=
  (log (fun past i => if p past i then [()] else []) is).length

/-- The last cycle adds one to the count if `p` is true of it. -/
@[simp] theorem count_snoc (p : List ι → ι → Bool) (is : List ι) (i : ι) :
    count p (is ++ [i]) = count p is + (p is i).toNat := by
  rw [count, log_snoc, List.length_append]
  cases p is i <;> rfl

/-- What a part of a machine emits, cycle by cycle, read off the machine. -/
theorem Machine.log_part {τ κ : Type*} {M : Machine σ ι} {N : Machine τ κ} {f : σ → τ}
    {g : σ → ι → κ} (hreset : f M.reset = N.reset)
    (hstep : ∀ s i, f (M.step s i) = N.step (f s) (g s i)) (k : τ → κ → List α) (is : List ι) :
    log (fun past j => k (N.run past) j) (log (fun past i => [g (M.run past) i]) is)
      = log (fun past i => k (f (M.run past)) (g (M.run past) i)) is := by
  induction is using List.reverseRecOn with
  | nil => rfl
  | append_singleton is i ih =>
    rw [log_snoc (fun past i => [g (M.run past) i]), log_snoc, log_snoc, ih,
      Machine.run_part hreset hstep]

/-- What a part of a part emits, when both see along the run what they see in the machine. -/
theorem Machine.log_part_part {τ κ υ μ : Type*} {M : Machine σ ι} {N : Machine τ κ}
    {K : Machine υ μ} {f : σ → τ} {g : σ → ι → κ} {r : τ → υ} {w : τ → κ → μ}
    (hreset : f M.reset = N.reset) (hstep : ∀ s i, f (M.step s i) = N.step (f s) (g s i))
    (hreset' : r N.reset = K.reset) (hstep' : ∀ t j, r (N.step t j) = K.step (r t) (w t j))
    (k : υ → μ → List α) (is : List ι) :
    log (fun past m => k (K.run past) m)
        (log (fun past j => [w (N.run past) j]) (log (fun past i => [g (M.run past) i]) is))
      = log (fun past i => k (r (f (M.run past))) (w (f (M.run past)) (g (M.run past) i))) is :=
  calc log (fun past m => k (K.run past) m)
        (log (fun past j => [w (N.run past) j]) (log (fun past i => [g (M.run past) i]) is))
      = log (fun past j => k (r (N.run past)) (w (N.run past) j))
          (log (fun past i => [g (M.run past) i]) is) := Machine.log_part hreset' hstep' k _
    _ = _ := Machine.log_part hreset hstep (fun t j => k (r t) (w t j)) is

/-- What it counts, likewise. -/
theorem Machine.count_part {τ κ : Type*} {M : Machine σ ι} {N : Machine τ κ} {f : σ → τ}
    {g : σ → ι → κ} (hreset : f M.reset = N.reset)
    (hstep : ∀ s i, f (M.step s i) = N.step (f s) (g s i)) (k : τ → κ → Bool) (is : List ι) :
    count (fun past j => k (N.run past) j) (log (fun past i => [g (M.run past) i]) is)
      = count (fun past i => k (f (M.run past)) (g (M.run past) i)) is :=
  congrArg List.length
    (Machine.log_part hreset hstep (fun s j => if k s j then [()] else []) is)

/-! ### Properties of every cycle and of every point of a run -/

/-- Every cycle of the run `is`, with its history and its inputs, satisfies `p`. -/
def EachCycle (p : List ι → ι → Prop) (is : List ι) : Prop :=
  ∀ past i, past ++ [i] <+: is → p past i

/-- Every point of the run `is`, from reset to its end, satisfies `p`. -/
def EachPoint (p : List ι → Prop) (is : List ι) : Prop :=
  ∀ past, past <+: is → p past

@[simp] theorem eachCycle_nil (p : List ι → ι → Prop) : EachCycle p [] := by
  intro past i h
  simp at h

/-- The last cycle can be looked at on its own, with the others as its history. -/
@[simp] theorem eachCycle_snoc (p : List ι → ι → Prop) (is : List ι) (i : ι) :
    EachCycle p (is ++ [i]) ↔ EachCycle p is ∧ p is i := by
  constructor
  · intro h
    exact ⟨fun past j hj => h past j (hj.trans (List.prefix_append is [i])),
      h is i (List.prefix_refl _)⟩
  · rintro ⟨hinit, hlast⟩ past j hj
    rcases List.prefix_concat_iff.mp hj with heq | hpre
    · obtain ⟨rfl, hji⟩ := List.append_inj' heq rfl
      simp only [List.cons.injEq, and_true] at hji
      exact hji ▸ hlast
    · exact hinit past j hpre

/-- A property of the cycles of a log with one entry for each cycle. -/
theorem eachCycle_log_single (g : List ι → ι → α) (p : List α → α → Prop) (is : List ι) :
    EachCycle p (log (fun past i => [g past i]) is)
      ↔ EachCycle (fun past i => p (log (fun past i => [g past i]) past) (g past i)) is := by
  induction is using List.reverseRecOn with
  | nil => exact iff_of_true (eachCycle_nil _) (eachCycle_nil _)
  | append_singleton is i ih => rw [log_snoc, eachCycle_snoc, eachCycle_snoc, ih]

/-- The same along the parts `f` of the inputs. -/
theorem eachCycle_map (f : ι → α) (p : List α → α → Prop) (is : List ι) :
    EachCycle p (is.map f) ↔ EachCycle (fun past i => p (past.map f) (f i)) is := by
  induction is using List.reverseRecOn with
  | nil => exact iff_of_true (eachCycle_nil _) (eachCycle_nil _)
  | append_singleton is i ih =>
    rw [List.map_append, List.map_singleton, eachCycle_snoc, eachCycle_snoc, ih]

/-- Two properties that agree on the cycles of a run. -/
theorem eachCycle_congr {p q : List ι → ι → Prop} {is : List ι}
    (h : ∀ past i, past ++ [i] <+: is → (p past i ↔ q past i)) : EachCycle p is ↔ EachCycle q is :=
  forall_congr' fun past => forall_congr' fun i => forall_congr' fun hp => h past i hp

/-- What a part of a part sees, cycle by cycle: `N` is the part `f` of `M`, and `k` the wires
    that a part of `N` samples. -/
theorem Machine.eachCycle_part {τ κ : Type*} {M : Machine σ ι} {N : Machine τ κ} {f : σ → τ}
    {g : σ → ι → κ} (hreset : f M.reset = N.reset)
    (hstep : ∀ s i, f (M.step s i) = N.step (f s) (g s i)) (k : τ → κ → α)
    (p : List α → α → Prop) (is : List ι) :
    EachCycle p (log (fun past j => [k (N.run past) j]) (log (fun past i => [g (M.run past) i]) is))
      ↔ EachCycle (fun past i =>
          p (log (fun past j => [k (N.run past) j]) (log (fun past i => [g (M.run past) i]) past))
            (k (f (M.run past)) (g (M.run past) i))) is := by
  simp only [Machine.run_part hreset hstep]
  exact (eachCycle_log_single _ _ _).trans (eachCycle_log_single _ _ _)

/-- The second part of a run, with the first part in its histories. -/
theorem EachCycle.append_right {p : List ι → ι → Prop} {is js : List ι}
    (h : EachCycle p (is ++ js)) : EachCycle (fun past i => p (is ++ past) i) js := by
  intro past i hp
  apply h (is ++ past) i
  rw [List.append_assoc]
  exact (List.prefix_append_right_inj is).mpr hp

/-- `EachCycle` along the cycles `is` that follow the history `past`, cycle by cycle. -/
def EachCycleFrom (p : List ι → ι → Prop) (past : List ι) : List ι → Prop
  | []      => True
  | i :: is => p past i ∧ EachCycleFrom p (past ++ [i]) is

/-- The last cycle of the later part has the history and the other cycles in front of it. -/
theorem eachCycleFrom_snoc (p : List ι → ι → Prop) (past is : List ι) (i : ι) :
    EachCycleFrom p past (is ++ [i]) ↔ EachCycleFrom p past is ∧ p (past ++ is) i := by
  induction is generalizing past with
  | nil => simp [EachCycleFrom]
  | cons j js ih => simp [EachCycleFrom, ih, and_assoc]

/-- The two forms agree: one speaks of the initial parts of the run, the other one follows its
    recursion. -/
theorem eachCycle_iff_from (p : List ι → ι → Prop) (is : List ι) :
    EachCycle p is ↔ EachCycleFrom p [] is := by
  induction is using List.reverseRecOn with
  | nil => simp [EachCycleFrom]
  | append_singleton is i ih => rw [eachCycle_snoc, eachCycleFrom_snoc, ih, List.nil_append]

instance decidableEachCycleFrom (p : List ι → ι → Prop) [∀ past i, Decidable (p past i)]
    (past : List ι) : ∀ is, Decidable (EachCycleFrom p past is)
  | []      => inferInstanceAs (Decidable True)
  | i :: is =>
    have := decidableEachCycleFrom p (past ++ [i]) is
    inferInstanceAs (Decidable (_ ∧ _))

/-- A decidable property of the cycles can be checked on a given run. -/
instance decidableEachCycle (p : List ι → ι → Prop) [∀ past i, Decidable (p past i)]
    (is : List ι) : Decidable (EachCycle p is) :=
  decidable_of_iff _ (eachCycle_iff_from p is).symm

/-- A decidable property of the points can be checked on a given run. -/
instance decidableEachPoint (p : List ι → Prop) [DecidablePred p] (is : List ι) :
    Decidable (EachPoint p is) :=
  decidable_of_iff (∀ past ∈ is.inits, p past)
    (forall_congr' fun past => by rw [List.mem_inits])

/-- The only point of a run without cycles is reset. -/
@[simp] theorem eachPoint_nil (p : List ι → Prop) : EachPoint p [] ↔ p [] := by
  simp [EachPoint]

/-- The end of a run is one more point behind those of its cycles but the last. -/
@[simp] theorem eachPoint_snoc (p : List ι → Prop) (is : List ι) (i : ι) :
    EachPoint p (is ++ [i]) ↔ EachPoint p is ∧ p (is ++ [i]) := by
  constructor
  · intro h
    exact ⟨fun past hp => h past (hp.trans (List.prefix_append is [i])),
      h _ (List.prefix_refl _)⟩
  · rintro ⟨hinit, hlast⟩ past hp
    rcases List.prefix_concat_iff.mp hp with rfl | hpre
    · exact hlast
    · exact hinit past hpre

/-- A property of every point holds at the end of the run. -/
theorem EachPoint.last {p : List ι → Prop} {is : List ι} (h : EachPoint p is) : p is :=
  h is (List.prefix_refl _)

/-- A count does not go down, so a bound on it holds at every point if it holds at the end. -/
theorem eachPoint_count_le (p : List ι → ι → Bool) (n : Nat) (is : List ι) :
    EachPoint (fun past => count p past ≤ n) is ↔ count p is ≤ n := by
  refine ⟨EachPoint.last, fun h => ?_⟩
  induction is using List.reverseRecOn with
  | nil => simpa using h
  | append_singleton is i ih =>
    rw [eachPoint_snoc]
    refine ⟨ih ?_, h⟩
    rw [count_snoc] at h
    exact Nat.le_trans (Nat.le_add_right _ _) h

/-- What holds at every point holds in front of every cycle, which is a point as well. -/
theorem EachPoint.before {p : List ι → Prop} {is past : List ι} {i : ι} (h : EachPoint p is)
    (hp : past ++ [i] <+: is) : p past :=
  h past ((List.prefix_append past [i]).trans hp)

/-- **Invariant rule.** What holds at reset and is kept by every cycle that meets the
    assumption `A` holds at every point of a run all of whose cycles meet `A`. -/
theorem eachPoint_of_step {A : List ι → ι → Prop} {I : List ι → Prop} (hreset : I [])
    (hstep : ∀ past i, I past → A past i → I (past ++ [i])) (is : List ι)
    (hA : EachCycle A is) : EachPoint I is := by
  induction is using List.reverseRecOn with
  | nil => simpa using hreset
  | append_singleton is i ih =>
    rw [eachCycle_snoc] at hA
    have hinit := ih hA.1
    rw [eachPoint_snoc]
    exact ⟨hinit, hstep is i hinit.last hA.2⟩

section Machine

variable {M : Machine σ ι} {A : σ → ι → Prop} {I : σ → Prop}

/-- The invariant rule for an invariant and an assumption of the state. -/
theorem Machine.eachPoint_of_step (hreset : I M.reset)
    (hstep : ∀ s i, I s → A s i → I (M.step s i)) (is : List ι)
    (hA : EachCycle (fun past i => A (M.run past) i) is) :
    EachPoint (fun past => I (M.run past)) is := by
  apply Lib.eachPoint_of_step (I := fun past => I (M.run past)) hreset _ is hA
  intro past i hI hi
  rw [Machine.run_snoc]
  exact hstep _ i hI hi

/-- An invariant that every cycle keeps holds after every run. -/
theorem Machine.run_of_step (hreset : I M.reset) (hstep : ∀ s i, I s → I (M.step s i))
    (is : List ι) : I (M.run is) := by
  have hall : EachPoint (fun past => I (M.run past)) is :=
    Machine.eachPoint_of_step (A := fun _ _ => True) hreset (fun s i h _ => hstep s i h) is
      (fun _ _ _ => trivial)
  exact hall.last

/-- What holds of everything a cycle emits under the invariant holds of everything a run
    emits. -/
theorem Machine.forall_log_of_step {f : σ → ι → List α} {Q : α → Prop} (hreset : I M.reset)
    (hstep : ∀ s i, I s → A s i → I (M.step s i))
    (hemit : ∀ s i, I s → A s i → ∀ x ∈ f s i, Q x) (is : List ι)
    (hA : EachCycle (fun past i => A (M.run past) i) is) :
    ∀ x ∈ log (fun past i => f (M.run past) i) is, Q x := by
  have hI := Machine.eachPoint_of_step hreset hstep is hA
  induction is using List.reverseRecOn with
  | nil => exact fun x hx => absurd hx (by simp)
  | append_singleton is i ih =>
    rw [eachCycle_snoc] at hA
    rw [eachPoint_snoc] at hI
    intro x hx
    rw [log_snoc, List.mem_append] at hx
    rcases hx with hold | hnew
    · exact ih hA.1 hI.1 x hold
    · exact hemit _ i hI.1.last hA.2 x hnew

end Machine

/-- **Exact condition.** If, while `P` has held so far, a cycle keeps `P` exactly when it
    meets `C`, then `P` holds at every point of a run iff every cycle meets `C`. -/
theorem eachPoint_iff_eachCycle {P : List ι → Prop} {C : List ι → ι → Prop} (hreset : P [])
    (hstep : ∀ past i, EachPoint P past → EachCycle C past → (P (past ++ [i]) ↔ C past i))
    (is : List ι) : EachPoint P is ↔ EachCycle C is := by
  induction is using List.reverseRecOn with
  | nil => simpa using hreset
  | append_singleton is i ih =>
    rw [eachPoint_snoc, eachCycle_snoc, ih]
    constructor
    · rintro ⟨hC, hP⟩
      exact ⟨hC, (hstep is i (ih.mpr hC) hC).mp hP⟩
    · rintro ⟨hC, hc⟩
      exact ⟨hC, (hstep is i (ih.mpr hC) hC).mpr hc⟩

end ZynqLinux.Lib
