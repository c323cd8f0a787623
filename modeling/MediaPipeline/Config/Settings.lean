import MediaPipeline.MediaTime
import MediaPipeline.Number.Decimal

/-!
# Settings of the pipeline

Buffering targets, thresholds and backoffs. Times are in seconds unless a name ends in `Ms`.
-/

namespace MediaPipeline

structure PipelineSettings (T : Type) where
  /-- Raw media kept ahead of the playhead before decoding rests. -/
  decodeBufferAhead : T
  /-- Compressed media kept ahead of the playhead before demuxing rests. -/
  demuxBufferAhead : T
  /-- Raw frames further behind the playhead are evicted. -/
  evictionBehind : T
  /-- The distance to the end of the media that counts as the end. -/
  endDelta : T
  noDataBackoffMs : Nat
  missingKeyBackoffMs : Nat
  monitorPollMs : Nat
  /-- Media ahead that is needed to start playing. -/
  needForPlay : T
  needForEnough : T
  /-- Audio kept queued in the device. -/
  audioBufferTarget : T
  audioSyncLimit : T
  renderNoDataBackoffMs : Nat
  deriving DecidableEq, Repr

namespace PipelineSettings

variable {T : Type} [MediaTime T]

def default : PipelineSettings T where
  decodeBufferAhead := 1
  demuxBufferAhead := MediaTime.ofNat 30
  evictionBehind := MediaTime.ofNat 3
  endDelta := 0.1
  noDataBackoffMs := 25
  missingKeyBackoffMs := 100
  monitorPollMs := 10
  needForPlay := 0.3
  needForEnough := MediaTime.ofNat 2
  audioBufferTarget := MediaTime.ofNat 2
  audioSyncLimit := 0.1
  renderNoDataBackoffMs := 100

/-! ## Backoffs in nanoseconds -/

def noDataBackoff (s : PipelineSettings T) : Nat := s.noDataBackoffMs * 1000000

def missingKeyBackoff (s : PipelineSettings T) : Nat := s.missingKeyBackoffMs * 1000000

def monitorPoll (s : PipelineSettings T) : Nat := s.monitorPollMs * 1000000

def renderNoDataBackoff (s : PipelineSettings T) : Nat := s.renderNoDataBackoffMs * 1000000

/-! ## Settings by name -/

end PipelineSettings

/-- One setting: its name and how it is read and replaced. -/
inductive Setting (T : Type) where
  | seconds (name : String) (get : PipelineSettings T → T)
    (set : T → PipelineSettings T → PipelineSettings T)
  | millis (name : String) (get : PipelineSettings T → Nat)
    (set : Nat → PipelineSettings T → PipelineSettings T)

namespace Setting

variable {T : Type}

def name : Setting T → String
  | seconds name _ _ => name
  | millis name _ _ => name

/-- All settings, in the order in which they are given where they are not named. -/
def all : List (Setting T) :=
  [.seconds "decode_buffer_ahead" (·.decodeBufferAhead)
    fun x s => { s with decodeBufferAhead := x },
   .seconds "demux_buffer_ahead" (·.demuxBufferAhead)
    fun x s => { s with demuxBufferAhead := x },
   .seconds "eviction_behind" (·.evictionBehind) fun x s => { s with evictionBehind := x },
   .seconds "end_delta" (·.endDelta) fun x s => { s with endDelta := x },
   .millis "no_data_backoff_ms" (·.noDataBackoffMs) fun n s => { s with noDataBackoffMs := n },
   .millis "missing_key_backoff_ms" (·.missingKeyBackoffMs)
    fun n s => { s with missingKeyBackoffMs := n },
   .millis "monitor_poll_ms" (·.monitorPollMs) fun n s => { s with monitorPollMs := n },
   .seconds "need_for_play" (·.needForPlay) fun x s => { s with needForPlay := x },
   .seconds "need_for_enough" (·.needForEnough) fun x s => { s with needForEnough := x },
   .seconds "audio_buffer_target" (·.audioBufferTarget)
    fun x s => { s with audioBufferTarget := x },
   .seconds "audio_sync_limit" (·.audioSyncLimit) fun x s => { s with audioSyncLimit := x },
   .millis "render_no_data_backoff_ms" (·.renderNoDataBackoffMs)
    fun n s => { s with renderNoDataBackoffMs := n }]

end Setting

/-! ## Validation -/

inductive SettingsFault (T : Type) where
  | notPositive (name : String) (value : T)
  | negative (name : String) (value : T)
  /-- Enough media would be less than what is needed to play. -/
  | enoughBelowPlay
  /-- The monitor would never rest. -/
  | noPollInterval
  deriving DecidableEq, Repr

namespace PipelineSettings

variable {T : Type} [MediaTime T]

/-- The first fault there is. The amounts of media have to be positive, the tolerances may be zero,
and all of them are finite. -/
def fault? (s : PipelineSettings T) : Option (SettingsFault T) :=
  let positive := [("decode_buffer_ahead", s.decodeBufferAhead),
    ("demux_buffer_ahead", s.demuxBufferAhead), ("need_for_play", s.needForPlay),
    ("need_for_enough", s.needForEnough), ("audio_buffer_target", s.audioBufferTarget)]
  let nonNegative := [("eviction_behind", s.evictionBehind), ("end_delta", s.endDelta),
    ("audio_sync_limit", s.audioSyncLimit)]
  match positive.find? fun (_, x) => !(MediaTime.isFinite x && decide (0 < x)) with
  | some (name, x) => some (.notPositive name x)
  | none =>
    match nonNegative.find? fun (_, x) => !(MediaTime.isFinite x && decide (0 ≤ x)) with
    | some (name, x) => some (.negative name x)
    | none =>
      if s.needForEnough < s.needForPlay then some .enoughBelowPlay
      else if s.monitorPollMs = 0 then some .noPollInterval
      else none

/-- What the components may rely on. -/
def IsValid (s : PipelineSettings T) : Prop := s.fault? = none

end PipelineSettings

namespace SettingsFault

/-- The values are written out in full. -/
def message : SettingsFault Float → String
  | notPositive name x =>
    "pipeline." ++ name ++ " must be a positive number, got " ++ Binary64.text x.toBits.toNat
  | negative name x =>
    "pipeline." ++ name ++ " must not be negative, got " ++ Binary64.text x.toBits.toNat
  | enoughBelowPlay => "pipeline.need_for_enough must be >= pipeline.need_for_play"
  | noPollInterval => "pipeline.monitor_poll_ms must be > 0"

end SettingsFault

end MediaPipeline
