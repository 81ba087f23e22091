import ZynqLinux.Hdmi.TmdsEncoder

namespace ZynqLinux.Hdmi.Rgb2Dvi

open ZynqLinux.Lib TmdsEncoder

/-!
# `rgb2dvi.vhd`

The video inputs spread over three encoders, and what a receiver of the three channels gets.
Clock generation, the reset bridge and the serialisers are not part of the model: a word
stands for the ten bits that a channel sends in one pixel clock.

* `rgb2dvi` is the three encoders, clocked together;
* `receive` joins the three channels again;
* `receive_sent`: the receiver gets the video inputs of a run, in order.
-/

/-- The video inputs of a pixel clock. -/
structure Video where
  vidPData : BitVec 24
  vidPVDE : Bool
  vidPHSync : Bool
  vidPVSync : Bool
deriving DecidableEq

/-- The inputs of the encoder of channel `i`.  Red is channel 2, green channel 1 and blue
    channel 0, which carries the control signals too; the data is packed in RBG order. -/
def channel (v : Video) : Fin 3 → In
  | 0 => ⟨v.vidPData.extractLsb' 8 8, v.vidPHSync, v.vidPVSync, v.vidPVDE⟩
  | 1 => ⟨v.vidPData.extractLsb' 0 8, false, false, v.vidPVDE⟩
  | 2 => ⟨v.vidPData.extractLsb' 16 8, false, false, v.vidPVDE⟩

/-- The three encoders. -/
def rgb2dvi (u : Fin 3 → State) : Machine (Fin 3 → State) Video :=
  ⟨fun i => (encoder (u i)).reset, fun s v i => step (s i) (channel v i)⟩

/-- Each channel runs on its own. -/
theorem run_apply (u : Fin 3 → State) (vs : List Video) (i : Fin 3) :
    (rgb2dvi u).run vs i = (encoder (u i)).run (vs.map fun v => channel v i) := by
  induction vs using List.reverseRecOn with
  | nil => rfl
  | append_singleton vs v ih =>
    rw [List.map_append, List.map_singleton, Machine.run_snoc, Machine.run_snoc, ← ih]
    rfl

/-- The words on the three channels after each clock of a run. -/
def sentAll (u : Fin 3 → State) (vs : List Video) : List (Fin 3 → BitVec 10) :=
  log (fun past v => [fun i => ((rgb2dvi u).run (past ++ [v]) i).pDataOutRaw]) vs

/-- Each channel of the link sends what its own encoder sends for its part of the video. -/
theorem sentAll_apply (u : Fin 3 → State) (vs : List Video) (i : Fin 3) :
    (sentAll u vs).map (fun w => w i) = sent (u i) (vs.map fun v => channel v i) := by
  induction vs using List.reverseRecOn with
  | nil => rfl
  | append_singleton vs v ih =>
    have hword : ((rgb2dvi u).run (vs ++ [v]) i).pDataOutRaw
        = ((encoder (u i)).run ((vs.map fun v => channel v i) ++ [channel v i])).pDataOutRaw := by
      rw [run_apply, List.map_append, List.map_singleton]
    rw [List.map_append, List.map_singleton, sent, log_snoc, ← sent, ← hword, ← ih]
    rw [sentAll, log_snoc, ← sentAll, List.map_append, List.map_singleton]

/-! ### The receiver -/

/-- What a pixel clock carries. -/
inductive Pixel where
  | blank (vsync hsync : Bool)
  | active (data : BitVec 24)
deriving DecidableEq

/-- What the video inputs stand for. -/
def Video.pixel (v : Video) : Pixel :=
  if v.vidPVDE then .active v.vidPData else .blank v.vidPVSync v.vidPHSync

/-- The symbols of the three channels joined; channels that do not agree are an error. -/
def join (s : Fin 3 → Symbol) : Option Pixel :=
  match s 2, s 1, s 0 with
  | .data red, .data green, .data blue => some (.active (red ++ blue ++ green))
  | .control false false, .control false false, .control pC1 pC0 => some (.blank pC1 pC0)
  | _, _, _ => none

/-- The receiver of the three channels. -/
def receive (w : Fin 3 → BitVec 10) : Option Pixel := join fun i => decode (w i)

/-- The three bytes of a pixel, put together again. -/
theorem extractLsb'_append_bytes (x : BitVec 24) :
    x.extractLsb' 16 8 ++ x.extractLsb' 8 8 ++ x.extractLsb' 0 8 = x := by
  apply BitVec.eq_of_getLsbD_eq
  intro i hi
  rw [BitVec.getLsbD_append, BitVec.getLsbD_append]
  grind

/-- The channels put together are the video inputs. -/
theorem join_channel (v : Video) : join (fun i => (channel v i).symbol) = some v.pixel := by
  cases hvde : v.vidPVDE with
  | true => simp [join, channel, In.symbol, Video.pixel, hvde, extractLsb'_append_bytes]
  | false => simp [join, channel, In.symbol, Video.pixel, hvde]

/-- Lists that agree component by component agree. -/
theorem map_eq_map_of_forall {ι α β γ : Type*} [Nonempty ι] {f : ι → α → γ} {g : ι → β → γ}
    {as : List α} {bs : List β} (h : ∀ i, as.map (f i) = bs.map (g i)) :
    as.map (fun a i => f i a) = bs.map (fun b i => g i b) := by
  induction as generalizing bs with
  | nil =>
    obtain ⟨i⟩ := ‹Nonempty ι›
    have hnil := h i
    cases bs with
    | nil => rfl
    | cons b bs => exact absurd hnil (by simp)
  | cons a as ih =>
    cases bs with
    | nil =>
      obtain ⟨i⟩ := ‹Nonempty ι›
      exact absurd (h i) (by simp)
    | cons b bs =>
      simp only [List.map_cons, List.cons.injEq] at h ⊢
      exact ⟨funext fun i => (h i).1, ih fun i => (h i).2⟩

/-- **The link carries the video.** Whatever the registers hold at power-up, the receiver gets
    the inputs of every run, in order and two clocks late. -/
theorem receive_sent (u : Fin 3 → State) (vs : List Video) (v v' : Video) :
    ((sentAll u (vs ++ [v, v'])).drop 2).map receive = vs.map fun a => some a.pixel := by
  -- each of the three channels is decoded by itself
  have hchannel : ∀ i, ((sentAll u (vs ++ [v, v'])).drop 2).map (fun w => decode (w i))
      = vs.map (fun a => (channel a i).symbol) := by
    intro i
    have hdec := decode_sent (u i) (vs.map fun a => channel a i) (channel v i) (channel v' i)
    have hsent := sentAll_apply u (vs ++ [v, v']) i
    rw [List.map_append, List.map_cons, List.map_singleton] at hsent
    rw [← hsent, ← List.map_drop, List.map_map, List.map_map] at hdec
    exact hdec
  have hall := map_eq_map_of_forall hchannel
  calc ((sentAll u (vs ++ [v, v'])).drop 2).map receive
      = (((sentAll u (vs ++ [v, v'])).drop 2).map fun w i => decode (w i)).map join := by
        rw [List.map_map]
        rfl
    _ = (vs.map fun a i => (channel a i).symbol).map join := by rw [hall]
    _ = vs.map fun a => some a.pixel := by
        rw [List.map_map]
        exact List.map_congr_left fun a _ => join_channel a

end ZynqLinux.Hdmi.Rgb2Dvi
