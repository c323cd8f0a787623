import Mathlib.Tactic.Common
import MediaPipeline.Audio.Renderer

/-!
# Taped devices

A tape is a device that does what another device does and writes down what is written to it, with
what led to it: the frame that was looked up for it, and whether a resync was asked for since then
or since the device was last cleared or opened.
-/

namespace MediaPipeline

/-- Bytes that were queued. The numbers count the requests for a resync that had come before. -/
structure AudioWrite (T : Type) where
  data : Bytes
  /-- The frame that was looked up last, and the requests before that. -/
  found : Option (DecodedFrame T × Nat)
  /-- The requests before the device was last cleared or opened. -/
  cleared : Nat
  /-- The requests before the write. -/
  requests : Nat
  deriving DecidableEq

/-- A device with a record of its use. The counts are those of the next write. -/
structure Tape (D T : Type) where
  device : D
  found : Option (DecodedFrame T × Nat)
  cleared : Nat
  requests : Nat
  writes : List (AudioWrite T)

namespace Tape

variable {D T : Type} [AudioDevice D T]

def blank (device : D) : Tape D T := ⟨device, none, 0, 0, []⟩

def init (t : Tape D T) (now : Nat) (f : DecodedFrame T) (volume : T) :
    Except MediaError Unit × Tape D T :=
  match AudioDevice.init t.device now f volume with
  | (.ok (), device) => (.ok (), { t with device, cleared := t.requests })
  | (.error e, device) => (.error e, { t with device })

def append (t : Tape D T) (now : Nat) (data : Bytes) : Except MediaError Unit × Tape D T :=
  match AudioDevice.append t.device now data with
  | (.ok (), device) =>
    (.ok (), { t with
      device
      writes := t.writes ++ [⟨data, t.found, t.cleared, t.requests⟩] })
  | (.error e, device) => (.error e, { t with device })

instance : AudioDevice (Tape D T) T where
  init := init
  append := append
  clear t now := { t with device := AudioDevice.clear t.device now, cleared := t.requests }
  bytesBuffered t now :=
    let (bytes, device) := AudioDevice.bytesBuffered t.device now
    (bytes, { t with device })
  setPlaying t now playing := { t with device := AudioDevice.setPlaying t.device now playing }
  setVolume t now volume := { t with device := AudioDevice.setVolume t.device now volume }

end Tape

namespace AudioRenderer

variable {D T : Type}

/-- The renderer with the device that the tape records. -/
def untape (r : AudioRenderer (Tape D T) T) : AudioRenderer D T where
  device := r.device.device
  following := r.following
  input := r.input
  current := r.current
  syncTime := r.syncTime
  bytesWritten := r.bytesWritten
  needsResync := r.needsResync
  volume := r.volume
  muted := r.muted
  signalled := r.signalled
  shutdown := r.shutdown
  phase := r.phase

/-- The renderer that a sequence of calls leaves, whether or not the device has failed. -/
def outcome {R : Type} : Except R R → R
  | .ok r => r
  | .error r => r

/-! ## Recording changes nothing -/

variable [MediaTime T] [AudioDevice D T] {settings : PipelineSettings T} {now : Nat}

def untapeResult : Except (AudioRenderer (Tape D T) T) (AudioRenderer (Tape D T) T) →
    Except (AudioRenderer D T) (AudioRenderer D T)
  | .ok r => .ok r.untape
  | .error r => .error r.untape

omit [MediaTime T] in
theorem untape_append (r : AudioRenderer (Tape D T) T) (data : Bytes) :
    untapeResult (r.append now data) = r.untape.append now data := by
  simp only [append, AudioDevice.append, Tape.append, untape]
  rcases AudioDevice.append r.device.device now data with ⟨_ | _, device⟩ <;> rfl

omit [MediaTime T] [AudioDevice D T] in
theorem untapeResult_bind {x : Except (AudioRenderer (Tape D T) T) (AudioRenderer (Tape D T) T)}
    {f : AudioRenderer (Tape D T) T →
      Except (AudioRenderer (Tape D T) T) (AudioRenderer (Tape D T) T)}
    {g : AudioRenderer D T → Except (AudioRenderer D T) (AudioRenderer D T)}
    (hfg : ∀ r, untapeResult (f r) = g r.untape) :
    untapeResult (x >>= f) = untapeResult x >>= g := by
  cases x with
  | ok r => exact hfg r
  | error r => rfl

omit [MediaTime T] in
theorem untape_fillSilence (r : AudioRenderer (Tape D T) T) (bytes : Nat) :
    untapeResult (r.fillSilence now bytes) = r.untape.fillSilence now bytes := by
  unfold fillSilence
  induction silenceChunks maxSilence bytes generalizing r with
  | nil => rfl
  | cons n chunks ih =>
      rw [List.foldlM_cons, List.foldlM_cons, ← untape_append]
      exact untapeResult_bind ih

omit [MediaTime T] in
theorem untape_writeFrame (r : AudioRenderer (Tape D T) T) (f : DecodedFrame T) (skip : Nat) :
    untapeResult (r.writeFrame now f skip) = r.untape.writeFrame now f skip := by
  unfold writeFrame
  split
  · rfl
  · exact untape_append r _

omit [MediaTime T] in
theorem untape_writeCorrected (r : AudioRenderer (Tape D T) T) (next : DecodedFrame T)
    (adjust : Int) :
    untapeResult (r.writeCorrected now next adjust) =
      r.untape.writeCorrected now next adjust := by
  unfold writeCorrected
  split_ifs
  · rw [← untape_fillSilence]
    exact untapeResult_bind fun s => untape_writeFrame s next adjust.toNat
  · exact untape_writeFrame r next adjust.toNat

omit [MediaTime T] [AudioDevice D T] in
theorem untape_resync (r : AudioRenderer (Tape D T) T) (time : T) :
    (r.resync time).untape = r.untape.resync time := by
  have hsame : (r.untape.needsResync || r.untape.current.isNone) =
      (r.needsResync || r.current.isNone) := rfl
  unfold resync
  rw [hsame]
  split_ifs <;> rfl

theorem untape_play (r : AudioRenderer (Tape D T) T) (time : T) (next : DecodedFrame T) :
    untapeResult (r.play settings now time next) = r.untape.play settings now time next := by
  have hcorrection : (r.resync time).untape.correction? settings next =
      (r.resync time).correction? settings next := rfl
  unfold play
  rw [← untape_resync, hcorrection]
  cases (r.resync time).correction? settings next with
  | none => rfl
  | some adjust =>
      dsimp only
      rw [← untape_writeCorrected]
      exact untapeResult_bind fun s => rfl

theorem untape_openDevice (r : AudioRenderer (Tape D T) T) (next : DecodedFrame T) :
    untapeResult (r.openDevice now next) = r.untape.openDevice now next := by
  have hvolume : r.untape.effectiveVolume = r.effectiveVolume := rfl
  have hdevice : r.untape.device = r.device.device := rfl
  simp only [openDevice, hvolume, hdevice, AudioDevice.init, Tape.init]
  rcases AudioDevice.init r.device.device now next r.effectiveVolume with ⟨_ | _, device⟩ <;> rfl

omit [MediaTime T] [AudioDevice D T] in
theorem untape_finish (x : Except (AudioRenderer (Tape D T) T) (AudioRenderer (Tape D T) T)) :
    (finish x).untape = finish (untapeResult x) := by
  cases x <;> rfl

theorem untape_openDevice_play (r : AudioRenderer (Tape D T) T) (time : T)
    (next : DecodedFrame T) :
    untapeResult (r.openDevice now next >>= play settings now time next) =
      r.untape.openDevice now next >>= play settings now time next := by
  rw [← untape_openDevice]
  exact untapeResult_bind fun r => untape_play r time next

theorem untape_present (r : AudioRenderer (Tape D T) T) (time : T) (buffered : Nat)
    (next : Option (DecodedFrame T)) :
    (r.present settings now time buffered next).untape =
      r.untape.present settings now time buffered next := by
  cases next with
  | none =>
      simp only [present, sleep]
      split <;> rfl
  | some next =>
      have hcurrent : r.untape.current = r.current := rfl
      simp only [present, hcurrent]
      split_ifs
      · rw [untape_finish, untape_play]
      · split
        · split <;> rfl
        · rw [untape_finish]
          exact congrArg finish (untape_openDevice_play r time next)

omit [AudioDevice D T] in
theorem untape_sleep (r : AudioRenderer (Tape D T) T) (seconds : T) :
    (r.sleep seconds).untape = r.untape.sleep seconds := by
  unfold sleep
  split <;> rfl

theorem untape_feed (r : AudioRenderer (Tape D T) T) (time : T) (frames : DecodedBuffer T) :
    (r.feed settings now time frames).untape = r.untape.feed settings now time frames := by
  have hcurrent : r.untape.current = r.current := rfl
  have hresync : r.untape.needsResync = r.needsResync := rfl
  have hbuffered : AudioDevice.bytesBuffered r.device now =
      ((AudioDevice.bytesBuffered r.untape.device now).1,
        { r.device with device := (AudioDevice.bytesBuffered r.untape.device now).2 }) := rfl
  simp only [feed, hcurrent, hresync, hbuffered]
  split
  · split_ifs
    · exact untape_sleep _ _
    · exact untape_present _ _ _ _
  · exact untape_present _ _ _ _

theorem untape_render (r : AudioRenderer (Tape D T) T) (player : Option (PlayerView T))
    (frames : Option (DecodedBuffer T)) :
    (r.render settings now player frames).untape =
      r.untape.render settings now player frames := by
  have hshutdown : r.untape.shutdown = r.shutdown := rfl
  unfold render
  rw [hshutdown]
  split_ifs
  · rfl
  · split
    · next player frames =>
      dsimp only
      split_ifs
      · exact untape_feed _ _ _
      · rfl
    · rfl

theorem untape_resume (r : AudioRenderer (Tape D T) T) (player : Option (PlayerView T))
    (heldTime : T) (next : DecodedFrame T) :
    (r.resume settings now player heldTime next).untape =
      r.untape.resume settings now player heldTime next := by
  have hshutdown : r.untape.shutdown = r.shutdown := rfl
  unfold resume
  rw [hshutdown]
  split_ifs
  · rfl
  · split
    · rfl
    · next player =>
      dsimp only
      split_ifs
      · rfl
      · rw [untape_finish]
        exact congrArg finish (untape_openDevice_play _ _ _)

/-- A step of a taped renderer is a step of the renderer without the tape. -/
theorem untape_step (r : AudioRenderer (Tape D T) T) (player : Option (PlayerView T))
    (frames : Option (DecodedBuffer T)) (heldTime : T) :
    (r.step settings now player frames heldTime).untape =
      r.untape.step settings now player frames heldTime := by
  have hphase : r.untape.phase = r.phase := rfl
  have hsignalled : r.untape.signalled = r.signalled := rfl
  unfold step
  rw [hphase, hsignalled]
  split
  · exact untape_render r player frames
  · exact untape_resume r player heldTime _
  · split_ifs <;> rfl
  all_goals rfl

end AudioRenderer

end MediaPipeline
