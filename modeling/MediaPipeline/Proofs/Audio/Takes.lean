import MediaPipeline.Proofs.Audio.Resync

/-!
# Takes

Writing begins anew at every resync. A take is what has been played since then: how many bytes the
device had taken before, and the frames in the order in which they were played. The record of a run
says what each action does to it: nothing is written, or one frame is played, as the next of the
take or as the first of a new one. The bytes that the renderer counts are those that the device took
since the take began, also where the device fails.
-/

namespace MediaPipeline

def Tape.accepted {D T : Type} (t : Tape D T) : Bytes := t.writes.flatMap AudioWrite.data

/-- What has been played since writing last began. -/
structure Take (T : Type) where
  /-- How many bytes the device took before that. -/
  mark : Nat
  frames : List (DecodedFrame T)

namespace Take

variable {T : Type}

/-- The take that a frame is played in, a new one if writing begins anew. -/
def opening (t : Take T) (accepted : Nat) (fresh : Bool) : Take T :=
  if fresh then ⟨accepted, []⟩ else t

def add (t : Take T) (next : DecodedFrame T) : Take T := { t with frames := t.frames ++ [next] }

/-- A frame may be played, and writing may begin anew with it. -/
def next (t : Take T) (accepted : Nat) : Option (DecodedFrame T × Bool) → Take T
  | none => t
  | some (next, fresh) => (t.opening accepted fresh).add next

end Take

namespace AudioRenderer

section Takes

variable {D T : Type} [MediaTime T] [AudioDevice D T]

/-- The frame is played if the device can be opened for it; writing begins anew then. -/
def opened? (now : Nat) (r : AudioRenderer D T) (next : DecodedFrame T) :
    Option (DecodedFrame T × Bool) :=
  if (r.openDevice now next).isOk then some (next, true) else none

/-- A frame that was found is played at once unless it is of another stream or format. -/
def presented? (now : Nat) (r : AudioRenderer D T) (next : DecodedFrame T) :
    Option (DecodedFrame T × Bool) :=
  if isSimilar r.current next then some (next, r.needsResync)
  else if r.current.isNone then r.opened? now next
  else none

/-- The renderer once it has asked how much the device has queued. -/
def settled (now : Nat) (r : AudioRenderer D T) : AudioRenderer D T :=
  { r with device := (AudioDevice.bytesBuffered r.device now).2 }

def cleared (now : Nat) (r : AudioRenderer D T) : AudioRenderer D T :=
  { r with device := AudioDevice.clear (r.settled now).device now }

/-- The frame that an action plays, and whether writing begins anew with it. -/
def played? (settings : PipelineSettings T) (r : AudioRenderer D T) :
    RenderAction T → Option (DecodedFrame T × Bool)
  | .step now (some player) frames heldTime =>
    let heard := r.setPlaying now player.isAudible
    match r.phase with
    | .drained next =>
      if r.shutdown || !player.isAudible then none else heard.opened? now next
    | _ =>
      (r.lookedUp? settings (.step now (some player) frames heldTime)).bind
        ((heard.cleared now).presented? now)
  | _ => none

/-- The run of a new renderer on tape, with its last take. -/
def recordTake (settings : PipelineSettings T) (device : D) (acts : List (RenderAction T)) :
    AudioRenderer (Tape D T) T × Take T :=
  acts.foldl
    (fun (r, t) a =>
      let r := r.note settings a
      (r.act settings a, t.next r.device.accepted.length (r.played? settings a)))
    (new (.blank device), ⟨0, []⟩)

def take (settings : PipelineSettings T) (device : D) (acts : List (RenderAction T)) : Take T :=
  (recordTake settings device acts).2

theorem fst_recordTake (settings : PipelineSettings T) (device : D)
    (acts : List (RenderAction T)) :
    (recordTake settings device acts).1 = record settings device acts := by
  induction acts using List.reverseRecOn with
  | nil => rfl
  | append_singleton acts a ih =>
      rw [record_concat, ← ih, recordTake, List.foldl_append]
      rfl

theorem take_concat (settings : PipelineSettings T) (device : D) (acts : List (RenderAction T))
    (a : RenderAction T) :
    take settings device (acts ++ [a]) =
      (take settings device acts).next (record settings device acts).device.accepted.length
        (((record settings device acts).note settings a).played? settings a) := by
  rw [take, recordTake, List.foldl_append, ← fst_recordTake]
  rfl

end Takes

/-! ## Writing -/

section Writing

variable {D T : Type}

/-- The device takes these bytes, and they are counted. -/
structure Writes (r s : AudioRenderer (Tape D T) T) (data : Bytes) : Prop where
  accepted : s.device.accepted = r.device.accepted ++ data
  bytesWritten : s.bytesWritten = r.bytesWritten + data.length
  syncTime : s.syncTime = r.syncTime

variable {q r s : AudioRenderer (Tape D T) T} {first second : Bytes}

theorem Writes.trans (hrs : r.Writes s first) (hqs : s.Writes q second) :
    r.Writes q (first ++ second) where
  accepted := by rw [hqs.accepted, hrs.accepted, List.append_assoc]
  bytesWritten := by rw [hqs.bytesWritten, hrs.bytesWritten, List.length_append, Nat.add_assoc]
  syncTime := hqs.syncTime.trans hrs.syncTime

theorem writes_nil (haccepted : s.device.writes = r.device.writes)
    (hbytes : s.bytesWritten = r.bytesWritten) (hsync : s.syncTime = r.syncTime) :
    r.Writes s [] where
  accepted := by rw [Tape.accepted, haccepted, List.append_nil]; rfl
  bytesWritten := hbytes
  syncTime := hsync

variable [AudioDevice D T] {now : Nat}

theorem append_cases (r : AudioRenderer (Tape D T) T) (now : Nat) (data : Bytes) :
    (∃ s, r.append now data = .ok s ∧ r.Writes s data) ∨
      ∃ s, r.append now data = .error s ∧ r.Writes s [] := by
  simp only [append, AudioDevice.append, Tape.append]
  rcases AudioDevice.append r.device.device now data with ⟨_ | _, device⟩
  · exact Or.inr ⟨_, rfl, writes_nil rfl rfl rfl⟩
  · refine Or.inl ⟨_, rfl, ?_, rfl, rfl⟩
    simp [Tape.accepted]

theorem sum_silenceChunks (chunk bytes : Nat) : (silenceChunks chunk bytes).sum = bytes := by
  have hdiv : bytes / chunk * chunk + bytes % chunk = bytes := Nat.div_add_mod' bytes chunk
  unfold silenceChunks
  split_ifs with hrest
  · rw [List.append_nil, List.sum_replicate_nat]
    omega
  · rw [List.sum_append, List.sum_replicate_nat, List.sum_singleton, hdiv]

theorem fillSilence_cases (r : AudioRenderer (Tape D T) T) (now bytes : Nat) :
    (∃ s, r.fillSilence now bytes = .ok s ∧ r.Writes s (List.replicate bytes 0)) ∨
      ∃ s n, r.fillSilence now bytes = .error s ∧ r.Writes s (List.replicate n 0) := by
  have hsum := sum_silenceChunks maxSilence bytes
  unfold fillSilence
  generalize silenceChunks maxSilence bytes = chunks at hsum ⊢
  subst hsum
  induction chunks generalizing r with
  | nil => exact Or.inl ⟨r, rfl, writes_nil rfl rfl rfl⟩
  | cons n chunks ih =>
      rw [List.foldlM_cons, List.sum_cons, List.replicate_add]
      rcases append_cases r now (List.replicate n 0) with ⟨s, happend, hs⟩ | ⟨s, happend, hs⟩
      · rw [happend]
        rcases ih s with ⟨q, hrest, hq⟩ | ⟨q, m, hrest, hq⟩
        · exact Or.inl ⟨q, hrest, hs.trans hq⟩
        · refine Or.inr ⟨q, n + m, hrest, ?_⟩
          rw [List.replicate_add]
          exact hs.trans hq
      · rw [happend]
        exact Or.inr ⟨s, 0, rfl, hs⟩

theorem writeFrame_cases (r : AudioRenderer (Tape D T) T) (now : Nat) (next : DecodedFrame T)
    (skip : Nat) :
    (∃ s, r.writeFrame now next skip = .ok s ∧ r.Writes s (Audio.frameBytes next skip)) ∨
      ∃ s, r.writeFrame now next skip = .error s ∧ r.Writes s [] := by
  unfold writeFrame
  split
  · next hnone =>
      rw [hnone]
      exact Or.inl ⟨r, rfl, writes_nil rfl rfl rfl⟩
  · exact append_cases r now _

/-- A negative correction is silence, a positive one is skipped. A device that fails has taken some
silence at most. -/
theorem writeCorrected_cases (r : AudioRenderer (Tape D T) T) (now : Nat) (next : DecodedFrame T)
    (adjust : Int) :
    (∃ s, r.writeCorrected now next adjust = .ok s ∧ r.Writes s
        (List.replicate (-adjust).toNat 0 ++ Audio.frameBytes next adjust.toNat)) ∨
      ∃ s n, r.writeCorrected now next adjust = .error s ∧ r.Writes s (List.replicate n 0) := by
  unfold writeCorrected
  split_ifs with hlate
  · have hsilence : adjust.natAbs = (-adjust).toNat := by omega
    rw [hsilence]
    rcases fillSilence_cases r now (-adjust).toNat with ⟨s, hfill, hs⟩ | ⟨s, n, hfill, hs⟩
    · rw [hfill]
      rcases writeFrame_cases s now next adjust.toNat with ⟨q, hframe, hq⟩ | ⟨q, hframe, hq⟩
      · exact Or.inl ⟨q, hframe, hs.trans hq⟩
      · refine Or.inr ⟨q, (-adjust).toNat, hframe, ?_⟩
        simpa using hs.trans hq
    · rw [hfill]
      exact Or.inr ⟨s, n, rfl, hs⟩
  · have hsilence : (-adjust).toNat = 0 := by omega
    rw [hsilence]
    rcases writeFrame_cases r now next adjust.toNat with ⟨s, hframe, hs⟩ | ⟨s, hframe, hs⟩
    · exact Or.inl ⟨s, hframe, hs⟩
    · exact Or.inr ⟨s, 0, hframe, hs⟩

variable [MediaTime T] {settings : PipelineSettings T} {time : T} {next : DecodedFrame T}

/-- `s` comes of `r` by playing `next`: its correction and the rest of it are written, or the
renderer ends and no more than silence is. -/
def Plays (settings : PipelineSettings T) (next : DecodedFrame T)
    (r s : AudioRenderer (Tape D T) T) : Prop :=
  (∃ adjust, r.correction? settings next = some adjust ∧ r.Writes s
      (List.replicate (-adjust).toNat 0 ++ Audio.frameBytes next adjust.toNat)) ∨
    s.phase = .exited ∧ ∃ n, r.Writes s (List.replicate n 0)

theorem plays_finish_play (r : AudioRenderer (Tape D T) T) :
    (r.resync time).Plays settings next (finish (r.play settings now time next)) := by
  unfold play
  cases hcorrection : (r.resync time).correction? settings next with
  | none => exact Or.inr ⟨rfl, 0, writes_nil rfl rfl rfl⟩
  | some adjust =>
      dsimp only
      rcases writeCorrected_cases (r.resync time) now next adjust with
        ⟨s, hwrite, hs⟩ | ⟨s, n, hwrite, hs⟩
      · rw [hwrite]
        exact Or.inl ⟨adjust, hcorrection, hs.accepted, hs.bytesWritten, hs.syncTime⟩
      · rw [hwrite]
        exact Or.inr ⟨rfl, n, hs.accepted, hs.bytesWritten, hs.syncTime⟩

/-- Where writing may begin anew, nothing is counted any more. -/
structure Begins (fresh : Bool) (r q : AudioRenderer (Tape D T) T) : Prop where
  accepted : q.device.accepted = r.device.accepted
  goesOn : fresh = false → q.bytesWritten = r.bytesWritten ∧ q.syncTime = r.syncTime
  startsOver : fresh = true → q.bytesWritten = 0

/-- `s` comes of `r` by playing this, or with nothing written. -/
def Enacts (settings : PipelineSettings T) (r s : AudioRenderer (Tape D T) T) :
    Option (DecodedFrame T × Bool) → Prop
  | none => r.Writes s []
  | some (next, fresh) => ∃ q, r.Begins fresh q ∧ q.Plays settings next s

omit [AudioDevice D T] in
theorem Enacts.of_writes {played : Option (DecodedFrame T × Bool)} (hs : s.Enacts settings q played)
    (hrs : r.Writes s []) : r.Enacts settings q played := by
  have haccepted : s.device.accepted = r.device.accepted := by
    rw [hrs.accepted, List.append_nil]
  cases played with
  | none => exact hrs.trans hs
  | some played =>
      obtain ⟨begun, hbegun, hplays⟩ := hs
      refine ⟨begun, ⟨hbegun.accepted.trans haccepted, ?_, hbegun.startsOver⟩, hplays⟩
      intro hgoes
      obtain ⟨hbytes, hsync⟩ := hbegun.goesOn hgoes
      exact ⟨hbytes.trans hrs.bytesWritten, hsync.trans hrs.syncTime⟩

omit [MediaTime T] [AudioDevice D T] in
theorem begins_resync (r : AudioRenderer (Tape D T) T) (time : T) :
    r.Begins (r.needsResync || r.current.isNone) (r.resync time) where
  accepted := by rw [device_resync]
  goesOn := by
    intro hgoes
    simp [resync, hgoes]
  startsOver := by
    intro hfresh
    simp [resync, hfresh]

theorem enacts_play (r : AudioRenderer (Tape D T) T) (time : T) (next : DecodedFrame T) :
    r.Enacts settings (finish (r.play settings now time next))
      (some (next, r.needsResync || r.current.isNone)) :=
  ⟨r.resync time, begins_resync r time, plays_finish_play r⟩

end Writing

/-! ## Steps -/

section Steps

variable {D T : Type} [MediaTime T] [AudioDevice D T] {settings : PipelineSettings T} {now : Nat}

theorem enacts_opened (r : AudioRenderer (Tape D T) T) (time : T) (next : DecodedFrame T) :
    r.Enacts settings (finish (r.openDevice now next >>= play settings now time next))
      (r.opened? now next) := by
  unfold opened?
  rcases openDevice_cases r now next with ⟨device, hopen⟩ | ⟨device, hopen⟩
  · rw [hopen]
    exact (enacts_play _ time next).of_writes (writes_nil rfl rfl rfl)
  · rw [hopen]
    exact writes_nil rfl rfl rfl

omit [AudioDevice D T] in
theorem writes_sleep (r : AudioRenderer (Tape D T) T) (seconds : T) :
    r.Writes (r.sleep seconds) [] := by
  rcases sleep_cases r seconds with ⟨nanos, hsleep⟩ | hsleep <;> rw [hsleep]
  · exact writes_nil rfl rfl rfl
  · exact writes_nil rfl rfl rfl

theorem enacts_present (r : AudioRenderer (Tape D T) T) (time : T) (buffered : Nat)
    (found : Option (DecodedFrame T)) :
    r.Enacts settings (r.present settings now time buffered found)
      (found.bind (r.presented? now)) := by
  cases found with
  | none => exact writes_sleep r _
  | some next =>
      simp only [present, presented?, Option.bind_some]
      cases hcurrent : r.current with
      | none =>
          simp only [isSimilar, Bool.false_eq_true, if_false, Option.isNone_none, if_true]
          exact enacts_opened r time next
      | some cur =>
          simp only [Option.isNone_some, Bool.false_eq_true, if_false]
          split_ifs
          · have hplay : r.Enacts settings (finish (r.play settings now time next))
                (some (next, r.needsResync || r.current.isNone)) := enacts_play r time next
            rwa [hcurrent, Option.isNone_some, Bool.or_false] at hplay
          · split
            · exact writes_nil rfl rfl rfl
            · exact writes_nil rfl rfl rfl

/-- Once something has been played the device is not asked. -/
theorem presented?_congr {r s : AudioRenderer (Tape D T) T} {cur : DecodedFrame T}
    (hr : r.current = some cur) (hs : s.current = some cur)
    (hsync : s.needsResync = r.needsResync) :
    s.presented? now = r.presented? now := by
  funext next
  simp [presented?, hr, hs, hsync]

theorem feed_eq (r : AudioRenderer D T) (time : T) (frames : DecodedBuffer T) :
    r.feed settings now time frames =
      let buffered := (AudioDevice.bytesBuffered r.device now).1
      match r.current, r.needsResync with
      | some cur, false =>
        let extra := Audio.bytesToSeconds cur buffered - settings.audioBufferTarget
        if 0 < extra then (r.settled now).sleep extra
        else (r.settled now).present settings now time buffered (frames.getFrame cur.pts .after)
      | _, _ =>
        (r.cleared now).present settings now time buffered (frames.getFrame time .near) :=
  rfl

theorem enacts_feed (r : AudioRenderer (Tape D T) T) (time : T) (frames : DecodedBuffer T) :
    r.Enacts settings (r.feed settings now time frames)
      ((r.lookUp settings now time frames).bind ((r.cleared now).presented? now)) := by
  have hsettled : r.Writes (r.settled now) [] := writes_nil rfl rfl rfl
  have hcleared : r.Writes (r.cleared now) [] := writes_nil rfl rfl rfl
  rw [feed_eq, lookUp]
  cases hcurrent : r.current with
  | none => exact (enacts_present (r.cleared now) _ _ _).of_writes hcleared
  | some cur =>
      cases r.needsResync with
      | true => exact (enacts_present (r.cleared now) _ _ _).of_writes hcleared
      | false =>
          dsimp only
          split_ifs
          · exact hsettled.trans (writes_sleep (r.settled now) _)
          · have hsame : (r.cleared now).presented? now = (r.settled now).presented? now :=
              presented?_congr hcurrent hcurrent rfl
            rw [hsame]
            exact (enacts_present (r.settled now) _ _ _).of_writes hsettled

theorem enacts_render (r : AudioRenderer (Tape D T) T) (hphase : r.phase = .rendering)
    (player : Option (PlayerView T)) (frames : Option (DecodedBuffer T)) (heldTime : T) :
    r.Enacts settings (r.render settings now player frames)
      (r.played? settings (.step now player frames heldTime)) := by
  cases player with
  | none =>
      simp only [render, played?]
      split_ifs <;> exact writes_nil rfl rfl rfl
  | some player =>
      simp only [render, played?, lookedUp?, hphase]
      cases frames with
      | none =>
          dsimp only
          split_ifs <;> exact writes_nil rfl rfl rfl
      | some frames =>
          have hheard : r.Writes (r.setPlaying now player.isAudible) [] := writes_nil rfl rfl rfl
          dsimp only
          cases r.shutdown with
          | true => exact writes_nil rfl rfl rfl
          | false =>
              cases haudible : player.isAudible with
              | false => exact writes_nil rfl rfl rfl
              | true =>
                  rw [haudible] at hheard
                  exact (enacts_feed _ _ _).of_writes hheard

theorem enacts_resume (r : AudioRenderer (Tape D T) T) {next : DecodedFrame T}
    (hphase : r.phase = .drained next) (player : Option (PlayerView T))
    (frames : Option (DecodedBuffer T)) (heldTime : T) :
    r.Enacts settings (r.resume settings now player heldTime next)
      (r.played? settings (.step now player frames heldTime)) := by
  cases player with
  | none =>
      simp only [resume, played?]
      split_ifs <;> exact writes_nil rfl rfl rfl
  | some player =>
      have hheard : r.Writes (r.setPlaying now player.isAudible) [] := writes_nil rfl rfl rfl
      simp only [resume, played?, hphase]
      cases r.shutdown with
      | true => exact writes_nil rfl rfl rfl
      | false =>
          cases haudible : player.isAudible with
          | false => exact writes_nil rfl rfl rfl
          | true =>
              rw [haudible] at hheard
              exact (enacts_opened _ _ _).of_writes hheard

theorem played?_eq_none {r : AudioRenderer (Tape D T) T} (hrendering : r.phase ≠ .rendering)
    (hdrained : ∀ next, r.phase ≠ .drained next) (a : RenderAction T) :
    r.played? settings a = none := by
  unfold played?
  split
  · dsimp only
    split
    · next next hphase => exact absurd hphase (hdrained next)
    · rw [lookedUp?_eq_none hrendering, Option.bind_none]
  · rfl

theorem played?_of_exited {r : AudioRenderer (Tape D T) T} (hr : r.phase = .exited)
    (a : RenderAction T) : r.played? settings a = none :=
  played?_eq_none (by rw [hr]; nofun) (by rw [hr]; nofun) a

theorem writes_step_idle {r : AudioRenderer (Tape D T) T} (hrendering : r.phase ≠ .rendering)
    (hdrained : ∀ next, r.phase ≠ .drained next) (player : Option (PlayerView T))
    (frames : Option (DecodedBuffer T)) (heldTime : T) :
    r.Writes (r.step settings now player frames heldTime) [] := by
  unfold step
  split
  · next hphase => exact absurd hphase hrendering
  · next next hphase => exact absurd hphase (hdrained next)
  · split_ifs <;> exact writes_nil rfl rfl rfl
  all_goals exact writes_nil rfl rfl rfl

theorem enacts_act (settings : PipelineSettings T) (r : AudioRenderer (Tape D T) T)
    (a : RenderAction T) :
    r.Enacts settings (r.act settings a) (r.played? settings a) := by
  cases a with
  | step now player frames heldTime =>
      by_cases hrendering : r.phase = .rendering
      · simp only [act, step, hrendering]
        exact enacts_render r hrendering player frames heldTime
      · by_cases hdrained : ∃ next, r.phase = .drained next
        · obtain ⟨next, hphase⟩ := hdrained
          simp only [act, step, hphase]
          exact enacts_resume r hphase player frames heldTime
        · push Not at hdrained
          rw [played?_eq_none hrendering hdrained]
          exact writes_step_idle hrendering hdrained player frames heldTime
  | wake =>
      simp only [act, wake]
      split <;> exact writes_nil rfl rfl rfl
  | _ => exact writes_nil rfl rfl rfl

theorem phase_act_of_exited {r : AudioRenderer D T} (hr : r.phase = .exited)
    (a : RenderAction T) : (r.act settings a).phase = .exited := by
  cases a with
  | step now player frames heldTime => simp only [act, step, hr]
  | wake => simp only [act, wake, hr]
  | _ => exact hr

end Steps

/-! ## Runs -/

section Runs

variable {D T : Type} [MediaTime T] [AudioDevice D T] {settings : PipelineSettings T} {device : D}

/-- One more action writes nothing, or plays one frame. -/
theorem record_cases (settings : PipelineSettings T) (device : D) (acts : List (RenderAction T))
    (a : RenderAction T) :
    let r := record settings device acts
    let s := record settings device (acts ++ [a])
    let t := take settings device acts
    (r.Writes s [] ∧ take settings device (acts ++ [a]) = t ∧
        (s.phase ≠ .exited → r.phase ≠ .exited)) ∨
      ∃ next fresh q, r.phase ≠ .exited ∧ r.Begins fresh q ∧ q.Plays settings next s ∧
        take settings device (acts ++ [a]) =
          (t.opening r.device.accepted.length fresh).add next := by
  dsimp only
  have hnote : (record settings device acts).Writes
      ((record settings device acts).note settings a) [] := writes_nil rfl rfl rfl
  have hphase : ((record settings device acts).note settings a).phase =
      (record settings device acts).phase := rfl
  have henacts :=
    (enacts_act settings ((record settings device acts).note settings a) a).of_writes hnote
  rw [take_concat, record_concat, ← hphase]
  cases hplayed : ((record settings device acts).note settings a).played? settings a with
  | none =>
      rw [hplayed] at henacts
      refine Or.inl ⟨henacts, rfl, ?_⟩
      intro hrunning hexited
      exact hrunning (phase_act_of_exited hexited a)
  | some played =>
      obtain ⟨next, fresh⟩ := played
      rw [hplayed] at henacts
      obtain ⟨q, hbegins, hplays⟩ := henacts
      refine Or.inr ⟨next, fresh, q, ?_, hbegins, hplays, rfl⟩
      intro hexited
      rw [played?_of_exited hexited] at hplayed
      cases hplayed

structure Counts (t : Take T) (r : AudioRenderer (Tape D T) T) : Prop where
  mark_le : t.mark ≤ r.device.accepted.length
  counted : r.bytesWritten = (r.device.accepted.drop t.mark).length

variable {r s : AudioRenderer (Tape D T) T} {t : Take T} {data : Bytes}

omit [MediaTime T] [AudioDevice D T] in
theorem Counts.drop_accepted (hr : r.Counts t) (hrs : r.Writes s data) :
    s.device.accepted.drop t.mark = r.device.accepted.drop t.mark ++ data := by
  rw [hrs.accepted, List.drop_append_of_le_length hr.mark_le]

omit [MediaTime T] [AudioDevice D T] in
theorem Counts.of_writes (hr : r.Counts t) (hrs : r.Writes s data) : s.Counts t where
  mark_le := by
    rw [hrs.accepted, List.length_append]
    exact Nat.le_add_right_of_le hr.mark_le
  counted := by
    rw [hr.drop_accepted hrs, hrs.bytesWritten, hr.counted, List.length_append]

omit [MediaTime T] [AudioDevice D T] in
theorem Counts.opening (hr : r.Counts t) {fresh : Bool} (hrs : r.Begins fresh s) :
    s.Counts (t.opening r.device.accepted.length fresh) := by
  cases fresh with
  | false =>
      refine ⟨?_, ?_⟩
      · rw [hrs.accepted]
        exact hr.mark_le
      · rw [hrs.accepted, (hrs.goesOn rfl).1]
        exact hr.counted
  | true =>
      refine ⟨?_, ?_⟩
      · rw [hrs.accepted]
        exact Nat.le_refl _
      · rw [hrs.accepted, hrs.startsOver rfl, List.length_drop]
        exact (Nat.sub_self _).symm

omit [AudioDevice D T] in
theorem Plays.exists_writes {next : DecodedFrame T} (hrs : r.Plays settings next s) :
    ∃ data, r.Writes s data := by
  rcases hrs with ⟨adjust, -, hwrites⟩ | ⟨-, n, hwrites⟩
  · exact ⟨_, hwrites⟩
  · exact ⟨_, hwrites⟩

/-- The counter is right at every moment, also where the device has failed. -/
theorem counts_record (settings : PipelineSettings T) (device : D)
    (acts : List (RenderAction T)) :
    (record settings device acts).Counts (take settings device acts) := by
  induction acts using List.reverseRecOn with
  | nil => exact ⟨Nat.le_refl 0, rfl⟩
  | append_singleton acts a ih =>
      rcases record_cases settings device acts a with
        ⟨hwrites, htake, -⟩ | ⟨next, fresh, q, -, hbegins, hplays, htake⟩
      · rw [htake]
        exact ih.of_writes hwrites
      · obtain ⟨data, hwrites⟩ := hplays.exists_writes
        have hcounts := (ih.opening hbegins).of_writes hwrites
        rw [htake]
        exact ⟨hcounts.mark_le, hcounts.counted⟩

end Runs

end AudioRenderer

end MediaPipeline
