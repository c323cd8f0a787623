import Mathlib.Data.List.Induction
import MediaPipeline.Proofs.Audio.Tape
import MediaPipeline.Proofs.Time.Double

/-!
# Resyncs of the audio renderer

Any change of the player or the input asks for a resync: what is written from then on belongs to a
frame that is looked up from then on, and the device is cleared first. The second always holds. The
first holds but for one window. The renderer looks a frame of another stream up, releases its lock
to let the device play out, and then plays that frame whatever has been asked for in the meantime;
a request that comes while it waits is lost.
-/

namespace MediaPipeline

/-- What the thread of the renderer does, and what others do while it does not hold its lock. -/
inductive RenderAction (T : Type) where
  /-- A step finds this player and these frames, and this time of the player that it held while the
  device played out. -/
  | step (now : Nat) (player : Option (PlayerView T)) (frames : Option (DecodedBuffer T))
      (heldTime : T)
  | wake
  /-- The player has changed its state or rate or has sought. -/
  | notify
  /-- The event that the renderer parks on is signalled. -/
  | signal
  | setPlayer (following : Bool)
  | attach (input : Nat)
  | detach (now : Nat)
  | setVolume (now : Nat) (volume : T)
  | setMuted (now : Nat) (muted : Bool)
  | requestStop

def RenderAction.isRequest {T : Type} : RenderAction T → Bool
  | .notify | .setPlayer _ | .attach _ => true
  | _ => false

/-- Silence, or the sound of a frame from some byte on. -/
def IsSoundOf {T : Type} [MediaTime T] (f : DecodedFrame T) (data : Bytes) : Prop :=
  (∃ n, data = List.replicate n 0) ∨ ∃ skip, data = Audio.frameBytes f skip

/-- The bytes belong to a frame that was looked up after the last request, and the device was
cleared or opened after it. -/
def AudioWrite.Answers {T : Type} [MediaTime T] (w : AudioWrite T) : Prop :=
  (∃ f, w.found = some (f, w.requests) ∧ IsSoundOf f w.data) ∧ w.cleared = w.requests

namespace AudioRenderer

variable {D T : Type} [MediaTime T] [AudioDevice D T]

def act (settings : PipelineSettings T) (r : AudioRenderer D T) :
    RenderAction T → AudioRenderer D T
  | .step now player frames heldTime => r.step settings now player frames heldTime
  | .wake => r.wake
  | .notify => r.requestResync
  | .signal => { r with signalled := true }
  | .setPlayer following => r.setPlayer following
  | .attach input => r.attach input
  | .detach now => r.detach now
  | .setVolume now volume => r.setVolume now volume
  | .setMuted now muted => r.setMuted now muted
  | .requestStop => r.requestStop

/-- The frame that a renderer that plays looks up, unless it has written enough. -/
def lookUp (settings : PipelineSettings T) (now : Nat) (time : T) (frames : DecodedBuffer T)
    (r : AudioRenderer D T) : Option (DecodedFrame T) :=
  match r.current, r.needsResync with
  | some cur, false =>
    let buffered := (AudioDevice.bytesBuffered r.device now).1
    if 0 < Audio.bytesToSeconds cur buffered - settings.audioBufferTarget then none
    else frames.getFrame cur.pts .after
  | _, _ => frames.getFrame time .near

def lookedUp? (settings : PipelineSettings T) (r : AudioRenderer D T) :
    RenderAction T → Option (DecodedFrame T)
  | .step now (some player) (some frames) _ =>
    match r.phase with
    | .rendering =>
      if !r.shutdown && player.isAudible then
        (r.setPlaying now player.isAudible).lookUp settings now player.time frames
      else none
    | _ => none
  | _ => none

/-- Writes down the request or the look-up of an action, ahead of it. -/
def note (settings : PipelineSettings T) (r : AudioRenderer (Tape D T) T) (a : RenderAction T) :
    AudioRenderer (Tape D T) T :=
  let t := r.device
  { r with device := { t with
      found := (r.lookedUp? settings a).map (·, t.requests) <|> t.found
      requests := if a.isRequest then t.requests + 1 else t.requests } }

/-- The run of a new renderer, on tape. -/
def record (settings : PipelineSettings T) (device : D) (acts : List (RenderAction T)) :
    AudioRenderer (Tape D T) T :=
  acts.foldl (fun r a => (r.note settings a).act settings a) (new (.blank device))

variable {settings : PipelineSettings T} {now : Nat}

theorem record_concat (device : D) (acts : List (RenderAction T)) (a : RenderAction T) :
    record settings device (acts ++ [a]) =
      ((record settings device acts).note settings a).act settings a :=
  List.foldl_append

theorem untape_act (r : AudioRenderer (Tape D T) T) (a : RenderAction T) :
    (r.act settings a).untape = r.untape.act settings a := by
  cases a with
  | step now player frames heldTime => exact untape_step r player frames heldTime
  | wake =>
      have hphase : r.untape.phase = r.phase := rfl
      simp only [act, wake, hphase]
      split <;> rfl
  | _ => rfl

/-- A recorded run is the run without the record. -/
theorem untape_record (device : D) (acts : List (RenderAction T)) :
    (record settings device acts).untape = acts.foldl (act settings) (new device) := by
  induction acts using List.reverseRecOn with
  | nil => rfl
  | append_singleton acts a ih =>
      have hnote : ((record settings device acts).note settings a).untape =
          (record settings device acts).untape := rfl
      rw [record_concat, untape_act, hnote, ih, List.foldl_append, List.foldl_cons, List.foldl_nil]

/-! ## What is written for a frame -/

end AudioRenderer

/-- Nothing happens to the device but that sound of `f` is queued. -/
structure Tape.Plays {D T : Type} [MediaTime T] (f : DecodedFrame T) (t u : Tape D T) : Prop where
  found : u.found = t.found
  cleared : u.cleared = t.cleared
  requests : u.requests = t.requests
  writes : ∃ new, u.writes = t.writes ++ new ∧ ∀ w ∈ new, IsSoundOf f w.data ∧
    w.found = t.found ∧ w.cleared = t.cleared ∧ w.requests = t.requests

namespace Tape

variable {D T : Type} [MediaTime T] {f : DecodedFrame T} {t u v : Tape D T} {now : Nat}

theorem Plays.refl (f : DecodedFrame T) (t : Tape D T) : t.Plays f t where
  found := rfl
  cleared := rfl
  requests := rfl
  writes := ⟨[], (List.append_nil _).symm, by simp⟩

theorem Plays.trans (htu : t.Plays f u) (huv : u.Plays f v) : t.Plays f v where
  found := huv.found.trans htu.found
  cleared := huv.cleared.trans htu.cleared
  requests := huv.requests.trans htu.requests
  writes := by
    obtain ⟨first, hfirst, hmarks⟩ := htu.writes
    obtain ⟨second, hsecond, hmarks'⟩ := huv.writes
    rw [htu.found, htu.cleared, htu.requests] at hmarks'
    refine ⟨first ++ second, by rw [hsecond, hfirst, List.append_assoc], ?_⟩
    intro w hw
    rcases List.mem_append.mp hw with hw | hw
    · exact hmarks w hw
    · exact hmarks' w hw

theorem plays_append [AudioDevice D T] {data : Bytes} (hdata : IsSoundOf f data) :
    t.Plays f (t.append now data).2 := by
  unfold append
  rcases AudioDevice.append t.device now data with ⟨_ | _, device⟩
  · exact ⟨rfl, rfl, rfl, [], (List.append_nil _).symm, by simp⟩
  · refine ⟨rfl, rfl, rfl, [_], rfl, ?_⟩
    intro w hw
    rw [List.mem_singleton.mp hw]
    exact ⟨hdata, rfl, rfl, rfl⟩

end Tape

namespace AudioRenderer

variable {D T : Type} [MediaTime T] [AudioDevice D T] {settings : PipelineSettings T}
  {now : Nat} {time : T} {next : DecodedFrame T} {r : AudioRenderer (Tape D T) T}

omit [AudioDevice D T] in
theorem plays_bind {t : Tape D T}
    {x : Except (AudioRenderer (Tape D T) T) (AudioRenderer (Tape D T) T)}
    {g : AudioRenderer (Tape D T) T →
      Except (AudioRenderer (Tape D T) T) (AudioRenderer (Tape D T) T)}
    (hx : t.Plays next (outcome x).device)
    (hg : ∀ s : AudioRenderer (Tape D T) T, s.device.Plays next (outcome (g s)).device) :
    t.Plays next (outcome (x >>= g)).device := by
  cases x with
  | ok s => exact hx.trans (hg s)
  | error s => exact hx

variable (r)

theorem plays_append {data : Bytes} (hdata : IsSoundOf next data) :
    r.device.Plays next (outcome (r.append now data)).device := by
  have happend : r.device.Plays next (AudioDevice.append r.device now data).2 :=
    Tape.plays_append hdata
  unfold append
  generalize AudioDevice.append r.device now data = result at happend ⊢
  obtain ⟨_ | _, device⟩ := result <;> exact happend

theorem plays_fillSilence (bytes : Nat) :
    r.device.Plays next (outcome (r.fillSilence now bytes)).device := by
  unfold fillSilence
  induction silenceChunks maxSilence bytes generalizing r with
  | nil => exact .refl next r.device
  | cons n chunks ih =>
      rw [List.foldlM_cons]
      exact plays_bind (plays_append r (Or.inl ⟨n, rfl⟩)) ih

theorem plays_writeFrame (skip : Nat) :
    r.device.Plays next (outcome (r.writeFrame now next skip)).device := by
  unfold writeFrame
  split
  · exact .refl next r.device
  · exact plays_append r (Or.inr ⟨skip, rfl⟩)

theorem plays_writeCorrected (adjust : Int) :
    r.device.Plays next (outcome (r.writeCorrected now next adjust)).device := by
  unfold writeCorrected
  split_ifs
  · exact plays_bind (plays_fillSilence r _) fun s => plays_writeFrame s _
  · exact plays_writeFrame r _

omit [MediaTime T] [AudioDevice D T] in
theorem device_resync (time : T) : (r.resync time).device = r.device := by
  unfold resync
  split <;> rfl

theorem plays_play :
    r.device.Plays next (outcome (r.play settings now time next)).device := by
  rw [← device_resync r time]
  unfold play
  split
  · exact .refl next _
  · exact plays_bind (plays_writeCorrected _ _) fun s => .refl next s.device

end AudioRenderer

/-- What is written is sound of `next`, after the device was cleared for the last request. -/
structure Tape.Delivers {D T : Type} [MediaTime T] (next : DecodedFrame T) (t u : Tape D T) :
    Prop where
  found : u.found = t.found
  requests : u.requests = t.requests
  writes : ∃ new, u.writes = t.writes ++ new ∧ ∀ w ∈ new, IsSoundOf next w.data ∧
    w.found = t.found ∧ w.cleared = t.requests ∧ w.requests = t.requests

/-- What is written belongs to a frame that was looked up after the last request. -/
def Tape.Answered {D T : Type} [MediaTime T] (t u : Tape D T) : Prop :=
  ∃ new, u.writes = t.writes ++ new ∧ ∀ w ∈ new, w.Answers

namespace Tape

variable {D T : Type} [MediaTime T] {next : DecodedFrame T} {t u : Tape D T}

theorem Plays.delivers (htu : t.Plays next u) (hcleared : t.cleared = t.requests) :
    t.Delivers next u where
  found := htu.found
  requests := htu.requests
  writes := hcleared ▸ htu.writes

theorem answered_of_writes_eq (hwrites : u.writes = t.writes) : t.Answered u :=
  ⟨[], by rw [hwrites, List.append_nil], by simp⟩

theorem Delivers.answered (htu : t.Delivers next u) (hfound : t.found = some (next, t.requests)) :
    t.Answered u := by
  obtain ⟨new, hwrites, hmarks⟩ := htu.writes
  refine ⟨new, hwrites, ?_⟩
  intro w hw
  obtain ⟨hsound, hfound', hcleared, hrequests⟩ := hmarks w hw
  refine ⟨⟨next, ?_, hsound⟩, hcleared.trans hrequests.symm⟩
  rw [hfound', hfound, hrequests]

theorem Answered.forall_answers_iff (htu : t.Answered u) :
    (∀ w ∈ u.writes, w.Answers) ↔ ∀ w ∈ t.writes, w.Answers := by
  obtain ⟨new, hwrites, hnew⟩ := htu
  rw [hwrites, List.forall_mem_append]
  exact and_iff_left hnew

theorem Answered.cleared (htu : t.Answered u) (ht : ∀ w ∈ t.writes, w.cleared = w.requests) :
    ∀ w ∈ u.writes, w.cleared = w.requests := by
  obtain ⟨new, hwrites, hnew⟩ := htu
  rw [hwrites, List.forall_mem_append]
  exact ⟨ht, fun w hw => (hnew w hw).2⟩

theorem Delivers.cleared (htu : t.Delivers next u) (ht : ∀ w ∈ t.writes, w.cleared = w.requests) :
    ∀ w ∈ u.writes, w.cleared = w.requests := by
  obtain ⟨new, hwrites, hmarks⟩ := htu.writes
  rw [hwrites, List.forall_mem_append]
  refine ⟨ht, ?_⟩
  intro w hw
  obtain ⟨-, -, hcleared, hrequests⟩ := hmarks w hw
  exact hcleared.trans hrequests.symm

theorem Delivers.forall_answers_iff (htu : t.Delivers next u) {n : Nat}
    (hfound : t.found = some (next, n)) :
    (∀ w ∈ u.writes, w.Answers) ↔
      (∀ w ∈ t.writes, w.Answers) ∧ ¬ (n ≠ t.requests ∧ u.writes ≠ t.writes) := by
  rcases eq_or_ne n t.requests with rfl | hstale
  · simp [(htu.answered hfound).forall_answers_iff]
  · obtain ⟨new, hwrites, hmarks⟩ := htu.writes
    cases new with
    | nil => simp [hwrites]
    | cons w ws =>
        obtain ⟨-, hlast, -, hrequests⟩ := hmarks w (List.mem_cons_self ..)
        have hw : ¬ w.Answers := by
          rintro ⟨⟨f, hf, -⟩, -⟩
          rw [hlast, hfound, hrequests, Option.some.injEq, Prod.mk.injEq] at hf
          exact hstale hf.2
        apply iff_of_false
        · intro hall
          exact hw (hall w (by simp [hwrites]))
        · rintro ⟨-, hkept⟩
          exact hkept ⟨hstale, by simp [hwrites]⟩

end Tape

/-- The frame that the renderer holds while it waits for the device to play out. -/
def RenderPhase.held? {T : Type} : RenderPhase T → Option (DecodedFrame T)
  | .draining next _ | .drained next => some next
  | _ => none

namespace AudioRenderer

variable {D T : Type}

/-- The device has been cleared since the last request unless the request is still open, and a
frame that is held is the one that was looked up last. -/
structure Steady (r : AudioRenderer (Tape D T) T) : Prop where
  cleared : r.needsResync = false → r.device.cleared = r.device.requests
  held : ∀ next, r.phase.held? = some next → ∃ n, r.device.found = some (next, n)

variable [MediaTime T]

/-- A steady renderer is left, and what was written belongs to a frame that was looked up after the
last request. -/
structure Continues (r s : AudioRenderer (Tape D T) T) : Prop where
  answered : r.device.Answered s.device
  steady : s.Steady

/-- The same, but the frame that it belongs to may have been looked up before. -/
structure Delivers (next : DecodedFrame T) (r s : AudioRenderer (Tape D T) T) : Prop where
  delivers : r.device.Delivers next s.device
  steady : s.Steady

theorem Continues.of_writes_eq {q r s : AudioRenderer (Tape D T) T} (hr : r.Continues s)
    (hwrites : r.device.writes = q.device.writes) : q.Continues s := by
  obtain ⟨new, hnew, hanswers⟩ := hr.answered
  exact ⟨⟨new, hwrites ▸ hnew, hanswers⟩, hr.steady⟩

theorem Delivers.of_eq {next : DecodedFrame T} {q r s : AudioRenderer (Tape D T) T}
    (hr : r.Delivers next s) (hfound : r.device.found = q.device.found)
    (hrequests : r.device.requests = q.device.requests)
    (hwrites : r.device.writes = q.device.writes) : q.Delivers next s where
  delivers :=
    { found := hr.delivers.found.trans hfound
      requests := hr.delivers.requests.trans hrequests
      writes := hfound ▸ hrequests ▸ hwrites ▸ hr.delivers.writes }
  steady := hr.steady

theorem Delivers.continues {next : DecodedFrame T} {r s : AudioRenderer (Tape D T) T}
    (hr : r.Delivers next s) (hfound : r.device.found = some (next, r.device.requests)) :
    r.Continues s :=
  ⟨hr.delivers.answered hfound, hr.steady⟩

variable [AudioDevice D T] {settings : PipelineSettings T} {now : Nat} {time : T}
  {next : DecodedFrame T} {r : AudioRenderer (Tape D T) T}

/-! ## Steps -/

omit [MediaTime T] [AudioDevice D T] in
theorem device_finish (x : Except (AudioRenderer (Tape D T) T) (AudioRenderer (Tape D T) T)) :
    (finish x).device = (outcome x).device := by
  cases x <;> rfl

theorem held?_play : (finish (r.play settings now time next)).phase.held? = none := by
  unfold play
  cases (r.resync time).correction? settings next with
  | none => rfl
  | some adjust =>
      dsimp only
      cases (r.resync time).writeCorrected now next adjust <;> rfl

theorem delivers_play (hcleared : r.device.cleared = r.device.requests) :
    r.Delivers next (finish (r.play settings now time next)) := by
  have hplays : r.device.Plays next (finish (r.play settings now time next)).device := by
    rw [device_finish]
    exact plays_play r
  refine ⟨hplays.delivers hcleared, ?_, ?_⟩
  · intro _
    rw [hplays.cleared, hplays.requests, hcleared]
  · intro f hf
    rw [held?_play] at hf
    cases hf

/-- Opening the device clears it; a device that cannot be opened is as it was. -/
theorem openDevice_cases (r : AudioRenderer (Tape D T) T) (now : Nat) (next : DecodedFrame T) :
    (∃ device, r.openDevice now next = .ok { r with
        device := { r.device with device, cleared := r.device.requests }
        needsResync := true }) ∨
      ∃ device, r.openDevice now next = .error { r with device := { r.device with device } } := by
  simp only [openDevice, AudioDevice.init, Tape.init]
  rcases AudioDevice.init r.device.device now next r.effectiveVolume with ⟨_ | _, device⟩
  · exact Or.inr ⟨device, rfl⟩
  · exact Or.inl ⟨_, rfl⟩

theorem delivers_openDevice
    (hcleared : r.needsResync = false → r.device.cleared = r.device.requests) :
    r.Delivers next (finish (r.openDevice now next >>= play settings now time next)) := by
  rcases openDevice_cases r now next with ⟨device, hopen⟩ | ⟨device, hopen⟩
  · rw [hopen]
    refine (delivers_play ?_).of_eq rfl rfl rfl
    rfl
  · rw [hopen]
    refine ⟨⟨rfl, rfl, [], (List.append_nil _).symm, by simp⟩, hcleared, ?_⟩
    intro f hf
    cases hf

omit [AudioDevice D T] in
theorem sleep_cases (r : AudioRenderer D T) (seconds : T) :
    (∃ nanos, r.sleep seconds = { r with phase := .sleeping nanos }) ∨
      r.sleep seconds = { r with phase := .exited } := by
  unfold sleep
  split
  · next nanos _ => exact Or.inl ⟨nanos, rfl⟩
  · exact Or.inr rfl

omit [AudioDevice D T] in
theorem continues_sleep (hcleared : r.needsResync = false → r.device.cleared = r.device.requests)
    (seconds : T) : r.Continues (r.sleep seconds) := by
  rcases sleep_cases r seconds with ⟨nanos, hsleep⟩ | hsleep
  all_goals
    rw [hsleep]
    exact ⟨Tape.answered_of_writes_eq rfl, hcleared, nofun⟩

theorem continues_present (hcleared : r.device.cleared = r.device.requests) (buffered : Nat)
    (found : Option (DecodedFrame T))
    (hfound : ∀ f, found = some f → r.device.found = some (f, r.device.requests)) :
    r.Continues (r.present settings now time buffered found) := by
  cases found with
  | none => exact continues_sleep (fun _ => hcleared) _
  | some next =>
      have hnext := hfound next rfl
      simp only [present]
      split_ifs
      · exact (delivers_play hcleared).continues hnext
      · split
        · split
          · -- The lock is released with `next` in hand.
            refine ⟨Tape.answered_of_writes_eq rfl, fun _ => hcleared, ?_⟩
            rintro f ⟨⟩
            exact ⟨_, hnext⟩
          · refine ⟨Tape.answered_of_writes_eq rfl, fun _ => hcleared, ?_⟩
            intro f hf
            cases hf
        · exact (delivers_openDevice fun _ => hcleared).continues hnext

theorem continues_feed (hcleared : r.needsResync = false → r.device.cleared = r.device.requests)
    (frames : DecodedBuffer T)
    (hfound : ∀ f, r.lookUp settings now time frames = some f →
      r.device.found = some (f, r.device.requests)) :
    r.Continues (r.feed settings now time frames) := by
  have hbuffered : AudioDevice.bytesBuffered r.device now =
      ((AudioDevice.bytesBuffered r.device.device now).1,
        { r.device with device := (AudioDevice.bytesBuffered r.device.device now).2 }) := rfl
  simp only [lookUp, hbuffered] at hfound
  simp only [feed, hbuffered]
  split
  · next cur hcurrent hresync =>
      simp only [hcurrent, hresync] at hfound
      split_ifs at hfound ⊢
      · refine (continues_sleep ?_ _).of_writes_eq rfl
        exact hcleared
      · refine (continues_present ?_ _ _ ?_).of_writes_eq rfl
        · exact hcleared hresync
        · exact hfound
  · next hrestart =>
      refine (continues_present rfl _ _ ?_).of_writes_eq rfl
      split at hfound
      · next cur hcurrent hresync => exact (hrestart cur hcurrent hresync).elim
      · exact hfound

theorem continues_render (hcleared : r.needsResync = false → r.device.cleared = r.device.requests)
    (player : Option (PlayerView T)) (frames : Option (DecodedBuffer T)) (heldTime : T)
    (hphase : r.phase = .rendering)
    (hfound : ∀ f, r.lookedUp? settings (.step now player frames heldTime) = some f →
      r.device.found = some (f, r.device.requests)) :
    r.Continues (r.render settings now player frames) := by
  unfold render
  split_ifs with hshutdown
  · exact ⟨Tape.answered_of_writes_eq rfl, hcleared, nofun⟩
  · split
    · next player frames =>
      dsimp only
      split_ifs with haudible
      · refine (continues_feed ?_ _ ?_).of_writes_eq rfl
        · exact hcleared
        · intro f hf
          refine hfound f ?_
          simpa [lookedUp?, hphase, hshutdown, haudible] using hf
      · exact ⟨Tape.answered_of_writes_eq rfl, hcleared, nofun⟩
    · exact ⟨Tape.answered_of_writes_eq rfl, hcleared, nofun⟩

omit [AudioDevice D T] in
theorem delivers_of_idle {s : AudioRenderer (Tape D T) T} (hs : s.Steady)
    (hfound : s.device.found = r.device.found) (hrequests : s.device.requests = r.device.requests)
    (hwrites : s.device.writes = r.device.writes) : r.Delivers next s :=
  ⟨⟨hfound, hrequests, [], by rw [hwrites, List.append_nil], by simp⟩, hs⟩

theorem delivers_resume (hcleared : r.needsResync = false → r.device.cleared = r.device.requests)
    (player : Option (PlayerView T)) (heldTime : T) :
    r.Delivers next (r.resume settings now player heldTime next) := by
  unfold resume
  split_ifs
  · exact delivers_of_idle ⟨hcleared, nofun⟩ rfl rfl rfl
  · split
    · exact delivers_of_idle ⟨hcleared, nofun⟩ rfl rfl rfl
    · next player =>
      dsimp only
      split_ifs
      · exact delivers_of_idle ⟨hcleared, nofun⟩ rfl rfl rfl
      · refine (delivers_openDevice ?_).of_eq rfl rfl rfl
        exact hcleared

theorem Steady.continues_step (hr : r.Steady) (hphase : ∀ next, r.phase ≠ .drained next)
    (player : Option (PlayerView T)) (frames : Option (DecodedBuffer T)) (heldTime : T)
    (hfound : ∀ f, r.lookedUp? settings (.step now player frames heldTime) = some f →
      r.device.found = some (f, r.device.requests)) :
    r.Continues (r.step settings now player frames heldTime) := by
  have hidle : r.Continues r := ⟨Tape.answered_of_writes_eq rfl, hr⟩
  unfold step
  cases hat : r.phase with
  | rendering => exact continues_render hr.cleared player frames heldTime hat hfound
  | drained next => exact absurd hat (hphase next)
  | parked =>
      dsimp only
      split_ifs
      · exact ⟨Tape.answered_of_writes_eq rfl, hr.cleared, nofun⟩
      · exact hidle
  | sleeping nanos => exact hidle
  | draining next nanos => exact hidle
  | exited => exact hidle

theorem Steady.delivers_step (hr : r.Steady) (hphase : r.phase = .drained next)
    (player : Option (PlayerView T)) (frames : Option (DecodedBuffer T)) (heldTime : T) :
    r.Delivers next (r.step settings now player frames heldTime) := by
  unfold step
  rw [hphase]
  exact delivers_resume hr.cleared player heldTime

/-! ## Runs -/

theorem lookedUp?_eq_none (hphase : r.phase ≠ .rendering) (a : RenderAction T) :
    r.lookedUp? settings a = none := by
  unfold lookedUp?
  split
  · split
    · next hrendering => exact absurd hrendering hphase
    · rfl
  · rfl

theorem found_note (hphase : r.phase ≠ .rendering) (a : RenderAction T) :
    (r.note settings a).device.found = r.device.found := by
  simp [note, lookedUp?_eq_none hphase]

theorem Steady.note_step (hr : r.Steady) (player : Option (PlayerView T))
    (frames : Option (DecodedBuffer T)) (heldTime : T) :
    (r.note settings (.step now player frames heldTime)).Steady where
  cleared := hr.cleared
  held := by
    intro next hnext
    have hphase : r.phase ≠ .rendering := by
      intro hphase
      have hnext : r.phase.held? = some next := hnext
      rw [hphase] at hnext
      cases hnext
    rw [found_note hphase]
    exact hr.held next hnext

omit [MediaTime T] [AudioDevice D T] in
theorem Steady.wake (hr : r.Steady) : r.wake.Steady ∧ r.wake.device = r.device := by
  unfold AudioRenderer.wake
  split
  · exact ⟨⟨hr.cleared, nofun⟩, rfl⟩
  · next next nanos hphase =>
      refine ⟨⟨hr.cleared, ?_⟩, rfl⟩
      rintro f ⟨⟩
      exact hr.held next (by rw [hphase]; rfl)
  · exact ⟨hr, rfl⟩

/-- Only a step of the loop writes. -/
theorem Steady.act_of_not_step (hr : r.Steady) {a : RenderAction T}
    (ha : ∀ now player frames heldTime, a ≠ .step now player frames heldTime) :
    ((r.note settings a).act settings a).Steady ∧
      ((r.note settings a).act settings a).device.writes = r.device.writes := by
  cases a with
  | step now player frames heldTime => exact absurd rfl (ha now player frames heldTime)
  | wake =>
      obtain ⟨hsteady, hdevice⟩ := hr.wake
      exact ⟨hsteady, congrArg Tape.writes hdevice⟩
  | notify => exact ⟨⟨nofun, hr.held⟩, rfl⟩
  | setPlayer following => exact ⟨⟨nofun, hr.held⟩, rfl⟩
  | attach input => exact ⟨⟨nofun, hr.held⟩, rfl⟩
  | signal => exact ⟨⟨hr.cleared, hr.held⟩, rfl⟩
  | detach now => exact ⟨⟨hr.cleared, hr.held⟩, rfl⟩
  | setVolume now volume => exact ⟨⟨hr.cleared, hr.held⟩, rfl⟩
  | setMuted now muted => exact ⟨⟨hr.cleared, hr.held⟩, rfl⟩
  | requestStop => exact ⟨⟨hr.cleared, hr.held⟩, rfl⟩

/-- An action goes on with a frame that was looked up before the last request, and something is
written. -/
def LosesRequest (settings : PipelineSettings T) (r : AudioRenderer (Tape D T) T)
    (a : RenderAction T) : Prop :=
  ∃ next n, r.phase = .drained next ∧ r.device.found = some (next, n) ∧ n ≠ r.device.requests ∧
    ((r.note settings a).act settings a).device.writes ≠ r.device.writes

theorem Steady.act_cases (hr : r.Steady) (a : RenderAction T) :
    ¬ r.LosesRequest settings a ∧ r.Continues ((r.note settings a).act settings a) ∨
      ∃ next, r.phase = .drained next ∧ r.Delivers next ((r.note settings a).act settings a) := by
  by_cases hstep : ∃ now player frames heldTime, a = .step now player frames heldTime
  · obtain ⟨now, player, frames, heldTime, rfl⟩ := hstep
    have hnote : (r.note settings (.step now player frames heldTime)).Steady :=
      hr.note_step player frames heldTime
    by_cases hdrained : ∃ next, r.phase = .drained next
    · obtain ⟨next, hphase⟩ := hdrained
      refine Or.inr ⟨next, hphase,
        (hnote.delivers_step hphase player frames heldTime).of_eq ?_ rfl rfl⟩
      exact found_note (by rw [hphase]; nofun) _
    · push Not at hdrained
      refine Or.inl ⟨?_, (hnote.continues_step hdrained player frames heldTime ?_).of_writes_eq
        rfl⟩
      · rintro ⟨next, n, hphase, -⟩
        exact hdrained next hphase
      · intro f hf
        have hf : r.lookedUp? settings (.step now player frames heldTime) = some f := hf
        simp [note, hf, RenderAction.isRequest]
  · push Not at hstep
    obtain ⟨hsteady, hwrites⟩ := hr.act_of_not_step hstep
    refine Or.inl ⟨?_, Tape.answered_of_writes_eq hwrites, hsteady⟩
    rintro ⟨next, n, -, -, -, hchanged⟩
    exact hchanged hwrites

theorem Steady.act (hr : r.Steady) (a : RenderAction T) :
    ((r.note settings a).act settings a).Steady := by
  rcases hr.act_cases a with ⟨-, hcontinues⟩ | ⟨next, -, hdelivers⟩
  · exact hcontinues.steady
  · exact hdelivers.steady

theorem Steady.answers_act_iff (hr : r.Steady) (a : RenderAction T) :
    (∀ w ∈ ((r.note settings a).act settings a).device.writes, w.Answers) ↔
      (∀ w ∈ r.device.writes, w.Answers) ∧ ¬ r.LosesRequest settings a := by
  rcases hr.act_cases a with ⟨hkept, hcontinues⟩ | ⟨next, hphase, hdelivers⟩
  · exact hcontinues.answered.forall_answers_iff.trans (and_iff_left hkept).symm
  · obtain ⟨n, hn⟩ := hr.held next (by rw [hphase]; rfl)
    have hloses : r.LosesRequest settings a ↔ n ≠ r.device.requests ∧
        ((r.note settings a).act settings a).device.writes ≠ r.device.writes := by
      constructor
      · rintro ⟨f, m, -, hm, hlost⟩
        obtain ⟨-, rfl⟩ : next = f ∧ n = m := by simpa using hn.symm.trans hm
        exact hlost
      · intro hlost
        exact ⟨next, n, hphase, hn, hlost⟩
    rw [hdelivers.delivers.forall_answers_iff hn, hloses]

theorem steady_record (device : D) (acts : List (RenderAction T)) :
    (record settings device acts).Steady := by
  induction acts using List.reverseRecOn with
  | nil => exact ⟨nofun, nofun⟩
  | append_singleton acts a ih =>
      rw [record_concat]
      exact ih.act a

/-- The device is always cleared or opened between a request and what is written after it. -/
theorem cleared_of_mem_record (device : D) (acts : List (RenderAction T)) :
    ∀ w ∈ (record settings device acts).device.writes, w.cleared = w.requests := by
  induction acts using List.reverseRecOn with
  | nil => simp [record, Tape.blank, new]
  | append_singleton acts a ih =>
      rw [record_concat]
      rcases (steady_record device acts).act_cases a with ⟨-, hcontinues⟩ | ⟨next, -, hdelivers⟩
      · exact hcontinues.answered.cleared ih
      · exact hdelivers.delivers.cleared ih

/-- A recorded run is the run of the renderer. Whatever is written after a request belongs to a
frame that was looked up after it, and the device was cleared after it, exactly if the loop never
goes on with a frame that it held while a request came. -/
theorem answers_throughout_iff (settings : PipelineSettings T) (device : D)
    (acts : List (RenderAction T)) :
    (record settings device acts).untape = acts.foldl (act settings) (new device) ∧
      ((∀ w ∈ (record settings device acts).device.writes, w.Answers) ↔
        ∀ past a, past ++ [a] <+: acts →
          ¬ (record settings device past).LosesRequest settings a) := by
  refine ⟨untape_record device acts, ?_⟩
  induction acts using List.reverseRecOn with
  | nil => simp [record, Tape.blank, new]
  | append_singleton acts a ih =>
      rw [record_concat, (steady_record device acts).answers_act_iff a, ih]
      constructor
      · rintro ⟨hpast, hlast⟩ past b hmade
        rcases List.prefix_concat_iff.mp hmade with heq | hearlier
        · obtain ⟨rfl, rfl⟩ : past = acts ∧ b = a := by simpa using heq
          exact hlast
        · exact hpast past b hearlier
      · intro hall
        constructor
        · intro past b hmade
          exact hall past b (hmade.trans (List.prefix_append _ _))
        · exact hall acts a (List.prefix_refl _)

/-! ## A request that is lost -/

def beep (stream : Nat) (t : Float) : DecodedFrame Float where
  pts := t
  dts := t
  duration := 1
  stream := .audio stream "pcm" 2 1
  format := .audio ⟨.packed, .u8⟩
  width := 0
  height := 0
  sampleCount := 2
  planes := [[1, 1]]
  lineSizes := [2]

/-- A step at the start of media with one second of each of two streams. -/
def stepAtStart : RenderAction Float :=
  .step 0 (some ⟨0, 1, .playing⟩)
    (some (((FrameBuffer.empty .pts).add (beep 0 0)).add (beep 1 1))) 0

/-- The second step finds the second stream. A seek back to the start comes while the first stream
plays out. -/
def seekInDrain : List (RenderAction Float) :=
  [.setPlayer true, .attach 0, stepAtStart, stepAtStart, .notify, .wake, stepAtStart]

/-- The frame of the second stream is played all the same, a second ahead of the time. -/
theorem request_lost :
    ¬ ∀ acts : List (RenderAction Float),
      ∀ w ∈ (record .default (.new 0 : Playout Float) acts).device.writes, w.Answers := by
  intro hanswers
  have hstale : ⟨[1, 1], some (beep 1 1, 2), 3, 3⟩ ∈
      (record .default (.new 0 : Playout Float) seekInDrain).device.writes := by decide +kernel
  obtain ⟨⟨f, hfound, -⟩, -⟩ := hanswers seekInDrain _ hstale
  have hcount : 2 = 3 := congrArg Prod.snd (Option.some.inj hfound)
  exact absurd hcount (by decide)

end AudioRenderer

end MediaPipeline
