import Mathlib.Data.List.Induction
import Mathlib.Tactic.Common
import MediaPipeline.Proofs.FrameBuffer.Edits
import MediaPipeline.Worker.Decode

/-!
# Runs of a decode worker

A worker, the buffers that it shares, and everything that can happen to them, in any order. The
worker makes one step at a time; seeks and the other calls come between any two steps.
-/

namespace MediaPipeline

namespace DecodePhase

variable {D T : Type}

def lease? : DecodePhase D T → Option (DecodeLease D)
  | countingSeeks l | timing l _ | readingCursor l _ _ | throttling l _ | choosing l _
  | flushing l _ | decoding l _ _ | storing l _ _ _ | advancing l _ _ _ | settling l _ _
  | returning l _ => some l
  | checking | leasing | parked | failing _ | sleeping _ | exited => none

def output? (p : DecodePhase D T) : Option Nat := p.lease?.map DecodeLease.output

/-- The count of seeks that the round has read. -/
def seeksRead? : DecodePhase D T → Option Nat
  | timing _ n | readingCursor _ n _ => some n
  | throttling _ s | choosing _ s | flushing _ s | decoding _ s _ | storing _ s _ _
  | advancing _ s _ _ | settling _ s _ => some s.seeks
  | _ => none

/-- The decode call whose frames are not stored yet: the count of seeks that its round has read,
and what it has returned so far. -/
def call? : DecodePhase D T → Option (Nat × List (DecodedFrame T))
  | decoding _ s _ => some (s.seeks, [])
  | storing _ s _ decoded => some (s.seeks, decoded)
  | _ => none

theorem seeksRead?_of_call? {p : DecodePhase D T} {n : Nat} {decoded : List (DecodedFrame T)}
    (hcall : p.call? = some (n, decoded)) : p.seeksRead? = some n := by
  cases p <;> simp_all [call?, seeksRead?]

theorem seeksRead?_of_between {p : DecodePhase D T} (hbetween : p.lease? = none) :
    p.seeksRead? = none := by
  cases p <;> simp_all [lease?, seeksRead?]

end DecodePhase

def DecodeEvent.isCall {T : Type} : DecodeEvent T → Bool
  | .decode _ => true
  | _ => false

structure DecodeSystem (D T : Type) where
  worker : DecodeWorker D T
  store : BufferStore T

inductive DecodeAction (D T : Type) where
  /-- The loop makes a step; these are the current time and the duration of the media. -/
  | step (time : T) (duration : Option T)
  | seek
  | wake
  | attach (input output : Nat)
  | detach
  | setDecoder (decoder : Option D)
  | setRing (ring : Option Keyring)
  | mapRing (f : Keyring → Keyring)
  | requestStop
  | editEncoded (i : Nat) (edit : BufferEdit (EncodedFrame T) T)
  | editDecoded (i : Nat) (edit : BufferEdit (DecodedFrame T) T)

namespace DecodeSystem

variable {D T : Type} [MediaTime T] [Decoder D T]

def act (settings : PipelineSettings T) (x : DecodeSystem D T) :
    DecodeAction D T → DecodeSystem D T × List (DecodeEvent T)
  | .step time duration =>
    let (worker, store, events) := x.worker.step settings time duration x.store
    (⟨worker, store⟩, events)
  | .seek =>
    let (worker, store) := x.worker.onSeek x.store
    (⟨worker, store⟩, [])
  | .wake => ({ x with worker := x.worker.wake }, [])
  | .attach input output => ({ x with worker := x.worker.attach input output }, [])
  | .detach => ({ x with worker := x.worker.detach }, [])
  | .setDecoder decoder => ({ x with worker := x.worker.setDecoder decoder }, [])
  | .setRing ring => ({ x with worker := x.worker.setRing ring }, [])
  | .mapRing f => ({ x with worker := x.worker.mapRing f }, [])
  | .requestStop => ({ x with worker := x.worker.requestStop }, [])
  | .editEncoded i edit => ({ x with store := x.store.editEncoded i (·.edit edit) }, [])
  | .editDecoded i edit => ({ x with store := x.store.editDecoded i (·.edit edit) }, [])

def actAll (settings : PipelineSettings T) (x : DecodeSystem D T) (as : List (DecodeAction D T)) :
    DecodeSystem D T :=
  as.foldl (fun x a => (x.act settings a).1) x

end DecodeSystem

namespace DecodeWorker

variable {D T : Type} [MediaTime T] [Decoder D T]

/-! ## What one step can do -/

/-- The lease for a round that starts over if the cursor is not set. -/
def restart (l : DecodeLease D) (s : DecodeSnapshot T) : DecodeLease D :=
  if s.cursor.isNone then { l with decoder := Decoder.reset l.decoder } else l

omit [MediaTime T] in
@[simp] theorem restart_input (l : DecodeLease D) (s : DecodeSnapshot T) :
    (restart l s).input = l.input := by
  unfold restart
  split <;> rfl

omit [MediaTime T] in
@[simp] theorem restart_output (l : DecodeLease D) (s : DecodeSnapshot T) :
    (restart l s).output = l.output := by
  unfold restart
  split <;> rfl

/-- Every step of the loop, with what the loop found. -/
inductive Steps (settings : PipelineSettings T) (time : T) (duration : Option T)
    (w : DecodeWorker D T) (store : BufferStore T) :
    DecodeWorker D T × BufferStore T × List (DecodeEvent T) → Prop
  | exit (hphase : w.phase = .checking) (hstop : w.shutdown = true) :
    Steps settings time duration w store ({ w with phase := .exited }, store, [])
  | check (hphase : w.phase = .checking) (hstop : w.shutdown = false) :
    Steps settings time duration w store ({ w with phase := .leasing }, store, [])
  | abandon (hphase : w.phase = .leasing) (hstop : w.shutdown = true) :
    Steps settings time duration w store ({ w with phase := .checking }, store, [])
  | lease {input output : Nat} {decoder : D} (hphase : w.phase = .leasing)
      (hstop : w.shutdown = false) (hinput : w.inputs.input = some input)
      (houtput : w.inputs.output = some output) (hdecoder : w.inputs.decoder = some decoder) :
    Steps settings time duration w store
      ({ w with
          inputs := { w.inputs with decoder := none }
          phase := .countingSeeks ⟨input, output, decoder, w.inputs.installs, w.inputs.ring⟩ },
        store, [])
  | park (hphase : w.phase = .leasing) (hstop : w.shutdown = false) :
    Steps settings time duration w store
      ({ w with signalled := false, phase := .parked }, store, [])
  | unpark (hphase : w.phase = .parked) (hsignal : w.signalled = true) :
    Steps settings time duration w store ({ w with phase := .checking }, store, [])
  | rest (hrest : w.rest ≠ .running) : Steps settings time duration w store (w, store, [])
  | countSeeks {l : DecodeLease D} (hphase : w.phase = .countingSeeks l) :
    Steps settings time duration w store ({ w with phase := .timing l w.seeks }, store, [])
  | readTime {l : DecodeLease D} {n : Nat} (hphase : w.phase = .timing l n) :
    Steps settings time duration w store ({ w with phase := .readingCursor l n time }, store, [])
  | readCursor {l : DecodeLease D} {n : Nat} {t : T} (hphase : w.phase = .readingCursor l n t) :
    Steps settings time duration w store
      ({ w with phase := .throttling l ⟨n, t, w.cursor⟩ }, store, [])
  | throttle {l : DecodeLease D} {s : DecodeSnapshot T} (hphase : w.phase = .throttling l s)
      (hahead : settings.decodeBufferAhead <
        TimeRange.bufferedAhead (store.decodedAt l.output).ranges s.time) :
    Steps settings time duration w store
      ({ w with phase := .returning l (.sleep settings.noDataBackoff) }, store, [])
  | evict {l : DecodeLease D} {s : DecodeSnapshot T} (hphase : w.phase = .throttling l s)
      (hahead : ¬ settings.decodeBufferAhead <
        TimeRange.bufferedAhead (store.decodedAt l.output).ranges s.time) :
    Steps settings time duration w store
      ({ w with phase := .choosing l s },
        store.editDecoded l.output (DecodeWorker.evict settings s.time), [])
  | choose {l : DecodeLease D} {s : DecodeSnapshot T} {f : EncodedFrame T}
      (hphase : w.phase = .choosing l s)
      (hframe : chooseFrame (store.encodedAt l.input) s = some f) :
    Steps settings time duration w store
      ({ w with phase := .decoding (restart l s) s (some f) }, store,
        (if s.cursor.isNone then [.reset] else []) ++ [.decode (some f)])
  | miss {l : DecodeLease D} {s : DecodeSnapshot T} (hphase : w.phase = .choosing l s)
      (hframe : chooseFrame (store.encodedAt l.input) s = none) :
    Steps settings time duration w store
      ({ w with phase := .flushing (restart l s) s }, store,
        if s.cursor.isNone then [.reset] else [])
  | starve {l : DecodeLease D} {s : DecodeSnapshot T} (hphase : w.phase = .flushing l s)
      (hflush : atEnd settings duration s.cursor = true → w.flushed = true) :
    Steps settings time duration w store
      ({ w with phase := .returning l (.sleep settings.noDataBackoff) }, store, [])
  | flush {l : DecodeLease D} {s : DecodeSnapshot T} (hphase : w.phase = .flushing l s)
      (hend : atEnd settings duration s.cursor = true) (hflush : w.flushed = false) :
    Steps settings time duration w store
      ({ w with flushed := true, phase := .decoding l s none }, store, [.decode none])
  | decode {l : DecodeLease D} {s : DecodeSnapshot T} {frame : Option (EncodedFrame T)}
      {decoded : List (DecodedFrame T)} {decoder : D} (hphase : w.phase = .decoding l s frame)
      (hdecode : Decoder.decode l.decoder frame l.ring = (.ok decoded, decoder)) :
    Steps settings time duration w store
      ({ w with keyAwaited := false, phase := .storing { l with decoder } s frame decoded },
        store, [.decoded frame decoded.length])
  | awaitKey {l : DecodeLease D} {s : DecodeSnapshot T} {frame : Option (EncodedFrame T)}
      {e : MediaError} {decoder : D} (hphase : w.phase = .decoding l s frame)
      (hdecode : Decoder.decode l.decoder frame l.ring = (.error e, decoder))
      (hkey : e.isRecoverable = true) :
    Steps settings time duration w store
      ({ w with
          keyAwaited := true
          phase := .returning { l with decoder } (.sleep settings.missingKeyBackoff) },
        store, if w.keyAwaited then [] else [.waitingForKey])
  | breakOff {l : DecodeLease D} {s : DecodeSnapshot T} {frame : Option (EncodedFrame T)}
      {e : MediaError} {decoder : D} (hphase : w.phase = .decoding l s frame)
      (hdecode : Decoder.decode l.decoder frame l.ring = (.error e, decoder))
      (hkey : e.isRecoverable = false) :
    Steps settings time duration w store
      ({ w with phase := .returning { l with decoder } (.fail e) }, store, [])
  | discard {l : DecodeLease D} {s : DecodeSnapshot T} {frame : Option (EncodedFrame T)}
      {decoded : List (DecodedFrame T)} (hphase : w.phase = .storing l s frame decoded)
      (hseeks : w.seeks ≠ s.seeks) :
    Steps settings time duration w store ({ w with phase := .returning l .again }, store, [])
  | storeFlushed {l : DecodeLease D} {s : DecodeSnapshot T} {decoded : List (DecodedFrame T)}
      (hphase : w.phase = .storing l s none decoded) (hseeks : w.seeks = s.seeks) :
    Steps settings time duration w store
      ({ w with phase := .returning l .again },
        store.editDecoded l.output (·.addAll decoded), [])
  | store {l : DecodeLease D} {s : DecodeSnapshot T} {f : EncodedFrame T}
      {decoded : List (DecodedFrame T)} (hphase : w.phase = .storing l s (some f) decoded)
      (hseeks : w.seeks = s.seeks) :
    Steps settings time duration w store
      ({ w with
          phase := .advancing l s f ((decoded.getLast?.map DecodedFrame.pts).getD (-1)) },
        store.editDecoded l.output (·.addAll decoded), [])
  | advance {l : DecodeLease D} {s : DecodeSnapshot T} {f : EncodedFrame T} {reached : T}
      (hphase : w.phase = .advancing l s f reached) (hcursor : (w.cursor == s.cursor) = true) :
    Steps settings time duration w store
      ({ w with cursor := cursorAt f.dts, phase := .settling l s reached }, store, [])
  | keepCursor {l : DecodeLease D} {s : DecodeSnapshot T} {f : EncodedFrame T} {reached : T}
      (hphase : w.phase = .advancing l s f reached) (hcursor : (w.cursor == s.cursor) = false) :
    Steps settings time duration w store ({ w with phase := .returning l .again }, store, [])
  | finishSeek {l : DecodeLease D} {s : DecodeSnapshot T} {reached : T}
      (hphase : w.phase = .settling l s reached) (hreached : s.time ≤ reached)
      (hseeking : w.seeking = true) :
    Steps settings time duration w store
      ({ w with seeking := false, phase := .returning l .again }, store, [.seekDone])
  | settle {l : DecodeLease D} {s : DecodeSnapshot T} {reached : T}
      (hphase : w.phase = .settling l s reached)
      (hseek : s.time ≤ reached → w.seeking = false) :
    Steps settings time duration w store ({ w with phase := .returning l .again }, store, [])
  | giveBack {l : DecodeLease D} {next : RoundEnd} (hphase : w.phase = .returning l next) :
    Steps settings time duration w store
      ({ w with
          inputs := w.giveBack l
          phase := match next with
            | .again => .checking
            | .sleep nanos => .sleeping nanos
            | .fail e => .failing e },
        store, [])
  | fail {e : MediaError} (hphase : w.phase = .failing e) :
    Steps settings time duration w store ({ w with phase := .exited }, store, [.failed e])

theorem steps_step (settings : PipelineSettings T) (time : T) (duration : Option T)
    (w : DecodeWorker D T) (store : BufferStore T) :
    Steps settings time duration w store (w.step settings time duration store) := by
  unfold step
  cases hphase : w.phase with
  | checking =>
      dsimp only
      split_ifs with hstop
      · exact .exit hphase hstop
      · exact .check hphase (by simpa using hstop)
  | leasing =>
      dsimp only
      unfold DecodeWorker.lease
      split_ifs with hstop
      · exact .abandon hphase hstop
      · rw [Bool.not_eq_true] at hstop
        split
        · next hinput houtput hdecoder => exact .lease hphase hstop hinput houtput hdecoder
        · exact .park hphase hstop
  | parked =>
      dsimp only
      split_ifs with hsignal
      · exact .unpark hphase hsignal
      · exact .rest (by simp [DecodeWorker.rest, hphase, hsignal])
  | countingSeeks l => exact .countSeeks hphase
  | timing l n => exact .readTime hphase
  | readingCursor l n t => exact .readCursor hphase
  | throttling l s =>
      dsimp only
      split_ifs with hahead
      · exact .throttle hphase hahead
      · exact .evict hphase hahead
  | choosing l s =>
      have hinput :
          (if s.cursor.isNone then { l with decoder := Decoder.reset l.decoder } else l).input =
            l.input := restart_input l s
      dsimp only
      rw [hinput]
      split
      · next f hframe => exact .choose hphase hframe
      · next hframe => exact .miss hphase hframe
  | flushing l s =>
      dsimp only
      split_ifs with hend hflush
      · exact .starve hphase fun h => absurd h (by simpa using hend)
      · exact .starve hphase fun _ => hflush
      · exact .flush hphase (by simpa using hend) (by simpa using hflush)
  | decoding l s frame =>
      dsimp only
      split
      · next decoded decoder hdecode => exact .decode hphase hdecode
      · next e decoder hdecode =>
        by_cases hkey : e.isRecoverable = true
        · rw [if_pos hkey]
          exact .awaitKey hphase hdecode hkey
        · rw [if_neg hkey]
          exact .breakOff hphase hdecode (by simpa using hkey)
  | storing l s frame decoded =>
      dsimp only
      split_ifs with hseeks
      · exact .discard hphase (by simpa using hseeks)
      · have heq : w.seeks = s.seeks := by simpa using hseeks
        cases frame with
        | none => exact .storeFlushed hphase heq
        | some f => exact .store hphase heq
  | advancing l s f reached =>
      dsimp only
      split_ifs with hcursor
      · exact .advance hphase hcursor
      · exact .keepCursor hphase (by simpa using hcursor)
  | settling l s reached =>
      dsimp only
      split_ifs with hseek
      · obtain ⟨hreached, hseeking⟩ : s.time ≤ reached ∧ w.seeking = true := by
          simpa using hseek
        exact .finishSeek hphase hreached hseeking
      · refine .settle hphase fun hreached => ?_
        simpa [hreached] using hseek
  | returning l next =>
      cases next <;> exact .giveBack hphase
  | failing e => exact .fail hphase
  | sleeping nanos => exact .rest (by simp [DecodeWorker.rest, hphase])
  | exited => exact .rest (by simp [DecodeWorker.rest, hphase])

/-! ## Where a round stands after a step -/

variable {settings : PipelineSettings T} {time : T} {duration : Option T} {w : DecodeWorker D T}
  {store : BufferStore T} {o n : Nat} {decoded : List (DecodedFrame T)}

omit [MediaTime T] [Decoder D T] in
theorem between_of_rest (hrest : w.rest ≠ .running) :
    w.phase.lease? = none ∧ w.phase.seeksRead? = none ∧ w.phase.call? = none := by
  unfold DecodeWorker.rest at hrest
  split at hrest <;>
    simp_all [DecodePhase.lease?, DecodePhase.seeksRead?, DecodePhase.call?]

theorem step_seeks : (w.step settings time duration store).1.seeks = w.seeks := by
  have hstep := steps_step settings time duration w store
  generalize w.step settings time duration store = r at hstep ⊢
  cases hstep <;> rfl

/-- Of what it is attached to, a step of the loop takes or gives back the decoder alone. -/
theorem step_inputs :
    (w.step settings time duration store).1.inputs =
      { w.inputs with decoder := (w.step settings time duration store).1.inputs.decoder } := by
  have hstep := steps_step settings time duration w store
  generalize w.step settings time duration store = r at hstep ⊢
  cases hstep with
  | giveBack hphase =>
      dsimp only [DecodeWorker.giveBack]
      split <;> rfl
  | _ => rfl

theorem step_output :
    (w.step settings time duration store).1.inputs.output = w.inputs.output := by
  rw [step_inputs]

theorem output?_step (ho : (w.step settings time duration store).1.phase.output? = some o) :
    w.inputs.output = some o ∨ w.phase.output? = some o := by
  have hstep := steps_step settings time duration w store
  generalize w.step settings time duration store = r at hstep ho
  cases hstep with
  | lease _ _ _ houtput _ =>
      cases ho
      exact Or.inl houtput
  | rest hrest => exact Or.inr ho
  | @giveBack l next hphase => cases next <;> cases ho
  | choose hphase _ | miss hphase _ =>
      simp only [DecodePhase.output?, DecodePhase.lease?, Option.map_some, restart_output] at ho
      exact Or.inr (by rw [hphase]; exact ho)
  | countSeeks hphase | readTime hphase | readCursor hphase | throttle hphase _
  | evict hphase _ | starve hphase _ | flush hphase _ _ | decode hphase _ | awaitKey hphase _ _
  | breakOff hphase _ _ | discard hphase _ | storeFlushed hphase _ | store hphase _
  | advance hphase _ | keepCursor hphase _ | finishSeek hphase _ _ | settle hphase _ =>
      exact Or.inr (by rw [hphase]; exact ho)
  | _ => cases ho

theorem seeksRead?_step
    (hn : (w.step settings time duration store).1.phase.seeksRead? = some n) :
    n = w.seeks ∨ w.phase.seeksRead? = some n := by
  have hstep := steps_step settings time duration w store
  generalize w.step settings time duration store = r at hstep hn
  cases hstep with
  | countSeeks hphase =>
      cases hn
      exact Or.inl rfl
  | rest hrest => exact Or.inr hn
  | @giveBack l' next hphase => cases next <;> cases hn
  | readTime hphase | readCursor hphase | evict hphase _ | choose hphase _ | miss hphase _
  | flush hphase _ _ | decode hphase _ | store hphase _ | advance hphase _ =>
      cases hn
      exact Or.inr (by rw [hphase]; rfl)
  | _ => cases hn

theorem call?_step
    (hcall : (w.step settings time duration store).1.phase.call? = some (n, decoded)) :
    ((w.step settings time duration store).2.2.countP DecodeEvent.isCall = 1 ∧ decoded = []) ∨
      ∃ l s frame, w.phase = .decoding l s frame ∧ s.seeks = n ∧
        (Decoder.decode l.decoder frame l.ring).1 = .ok decoded ∧
        (w.step settings time duration store).2.2.countP DecodeEvent.isCall = 0 := by
  have hstep := steps_step settings time duration w store
  generalize w.step settings time duration store = r at hstep hcall ⊢
  cases hstep with
  | @choose l s f hphase hframe =>
      cases hcall
      left
      refine ⟨?_, rfl⟩
      split <;> rfl
  | flush hphase _ _ =>
      cases hcall
      exact Or.inl ⟨rfl, rfl⟩
  | @decode l s frame decoded decoder hphase hdecode =>
      cases hcall
      exact Or.inr ⟨l, s, frame, hphase, rfl, by rw [hdecode], rfl⟩
  | rest hrest => rw [(between_of_rest hrest).2.2] at hcall; cases hcall
  | @giveBack l' next hphase => cases next <;> cases hcall
  | _ => cases hcall

end DecodeWorker

/-! ## Where a round stands after an action -/

namespace DecodeSystem

variable {D T : Type} [MediaTime T] [Decoder D T] {settings : PipelineSettings T}
  {x : DecodeSystem D T} {a : DecodeAction D T}

/-- Only a step moves a round on. -/
theorem round_act (ha : ∀ time duration, a ≠ .step time duration) :
    (x.act settings a).1.worker.phase.output? = x.worker.phase.output? ∧
      (x.act settings a).1.worker.phase.seeksRead? = x.worker.phase.seeksRead? ∧
      (x.act settings a).1.worker.phase.call? = x.worker.phase.call? ∧
      (x.act settings a).2.countP DecodeEvent.isCall = 0 := by
  cases a with
  | step time duration => exact absurd rfl (ha time duration)
  | wake =>
      simp only [act, DecodeWorker.wake]
      split
      · next hphase => simp only [hphase]; exact ⟨rfl, rfl, rfl, rfl⟩
      · exact ⟨rfl, rfl, rfl, rfl⟩
  | mapRing f =>
      simp only [act, DecodeWorker.mapRing]
      cases x.worker.phase <;> exact ⟨rfl, rfl, rfl, rfl⟩
  | _ => exact ⟨rfl, rfl, rfl, rfl⟩

theorem seeksRead?_act {n : Nat} (hn : (x.act settings a).1.worker.phase.seeksRead? = some n) :
    n = x.worker.seeks ∨ x.worker.phase.seeksRead? = some n := by
  by_cases ha : ∃ time duration, a = .step time duration
  · obtain ⟨time, duration, rfl⟩ := ha
    exact DecodeWorker.seeksRead?_step hn
  · push Not at ha
    exact Or.inr ((round_act ha).2.1 ▸ hn)

theorem seeks_le_act : x.worker.seeks ≤ (x.act settings a).1.worker.seeks := by
  cases a with
  | step time duration => exact Nat.le_of_eq DecodeWorker.step_seeks.symm
  | seek => exact Nat.le_succ _
  | wake =>
      simp only [act, DecodeWorker.wake]
      split <;> exact Nat.le_refl _
  | _ => exact Nat.le_refl _

theorem seeksRead?_le (hbetween : x.worker.phase.lease? = none) {as : List (DecodeAction D T)}
    {n : Nat} (hn : (x.actAll settings as).worker.phase.seeksRead? = some n) :
    n ≤ (x.actAll settings as).worker.seeks := by
  induction as using List.reverseRecOn generalizing n with
  | nil =>
      have hn : x.worker.phase.seeksRead? = some n := hn
      rw [DecodePhase.seeksRead?_of_between hbetween] at hn
      cases hn
  | append_singleton as a ih =>
      simp only [actAll, List.foldl_append, List.foldl_cons, List.foldl_nil] at hn ⊢
      rcases seeksRead?_act hn with rfl | hread
      · exact seeks_le_act
      · exact Nat.le_trans (ih hread) seeks_le_act

def oneFrameSystem : DecodeSystem (PassThrough Float) Float where
  worker := (DecodeWorker.new.setDecoder (some {})).attach 0 0
  store := (BufferStore.new 1).editEncoded 0
    (·.add ⟨0, 0, 0.1, true, .video 0 "h264" 1 1, [], none⟩)

/-- The loop makes `n` steps at the start of media of unknown length. -/
def steps (n : Nat) : List (DecodeAction (PassThrough Float) Float) :=
  List.replicate n (.step 0 none)

end DecodeSystem

end MediaPipeline
