import Mathlib.Data.List.Induction
import MediaPipeline.Proofs.Demuxing.Runs
import MediaPipeline.Proofs.Time.Double

/-!
# Chains back to a key frame

A frame can be decoded if the output has it and every frame that it builds on, back to the latest
key frame. The frames of one segment follow those of the segment before, each in the append window
of its own segment, and a worker remembers of all of them one thing: whether the next frame has to
be a key frame. That is enough: a worker adds exactly the frames that can be decoded.
-/

namespace MediaPipeline

structure WindowedFrame (F T : Type) where
  window : AppendWindow T
  frame : F
  deriving DecidableEq, Repr

namespace WindowedFrame

variable {F T : Type} [Frame F T] [MediaTime T] {stream next : List (WindowedFrame F T)}
  {f : WindowedFrame F T}

def fits (f : WindowedFrame F T) : Bool := !f.window.excludes f.frame

def isKeyFrame (f : WindowedFrame F T) : Bool := Frame.isKeyFrame f.frame

theorem fits_iff [LawfulMediaTime T] (hpts : MediaTime.IsNumber (Frame.pts f.frame))
    (hend : MediaTime.IsNumber (Frame.presentationEnd f.frame))
    (hstart : MediaTime.IsNumber f.window.start) (hstop : MediaTime.IsNumber f.window.stop) :
    f.fits = true ↔
      f.window.start ≤ Frame.pts f.frame ∧ Frame.presentationEnd f.frame ≤ f.window.stop := by
  simp only [fits, AppendWindow.excludes, Bool.not_or, Bool.and_eq_true, Bool.not_eq_true',
    decide_eq_false_iff_not]
  constructor
  · rintro ⟨hbefore, hafter⟩
    exact ⟨MediaTime.le_of_not_lt hpts hstart hbefore, MediaTime.le_of_not_lt hstop hend hafter⟩
  · rintro ⟨hle, hge⟩
    exact ⟨fun hlt => MediaTime.not_le_of_lt hlt hle, fun hlt => MediaTime.not_le_of_lt hlt hge⟩

/-! ## What can be decoded -/

/-- The last of the frames can be decoded: there is a latest key frame among them, and from there
on every frame fits the window of its segment. -/
def IsDecodable (stream : List (WindowedFrame F T)) : Prop :=
  ∃ before key chain, stream = before ++ key :: chain ∧ key.isKeyFrame = true ∧
    (∀ f ∈ chain, f.isKeyFrame = false) ∧ ∀ f ∈ key :: chain, f.fits = true

theorem not_isDecodable_nil : ¬ IsDecodable ([] : List (WindowedFrame F T)) := by
  rintro ⟨before, key, chain, hsplit, -⟩
  simp at hsplit

theorem isDecodable_concat :
    IsDecodable (stream ++ [f]) ↔ f.fits = true ∧ (f.isKeyFrame = true ∨ IsDecodable stream) := by
  constructor
  · rintro ⟨before, key, chain, hsplit, hkey, hchain, hfits⟩
    -- the chain is the key frame alone, or it ends in `f`
    cases chain using List.reverseRecOn with
    | nil =>
        obtain ⟨rfl, rfl⟩ := List.append_singleton_inj.mp hsplit
        exact ⟨hfits f List.mem_cons_self, Or.inl hkey⟩
    | append_singleton chain g _ =>
        rw [← List.cons_append, ← List.append_assoc] at hsplit
        obtain ⟨rfl, rfl⟩ := List.append_singleton_inj.mp hsplit
        refine ⟨hfits f (by simp), Or.inr ⟨before, key, chain, rfl, hkey, ?_, ?_⟩⟩
        · exact fun h hh => hchain h (List.mem_append_left _ hh)
        · exact fun h hh => hfits h (List.mem_append_left [f] hh)
  · rintro ⟨hfits, hstart⟩
    by_cases hkey : f.isKeyFrame = true
    · exact ⟨stream, f, [], rfl, hkey, by simp, by simpa using hfits⟩
    · obtain ⟨before, key, chain, rfl, hfirst, hchain, hfit⟩ := hstart.resolve_left hkey
      refine ⟨before, key, chain ++ [f], by simp, hfirst, ?_, ?_⟩
      · simpa [or_imp, forall_and, hkey] using hchain
      · rw [← List.cons_append, List.forall_mem_append]
        exact ⟨hfit, by simpa using hfits⟩

/-- Every frame of the chain that a frame builds on can be decoded where it stands. -/
theorem IsDecodable.exists_chain (hdec : IsDecodable stream) :
    ∃ before key chain, stream = before ++ key :: chain ∧ key.isKeyFrame = true ∧
      (∀ f ∈ chain, f.isKeyFrame = false) ∧
        ∀ part, part <+: chain → IsDecodable (before ++ key :: part) := by
  obtain ⟨before, key, chain, rfl, hkey, hchain, hfits⟩ := hdec
  refine ⟨before, key, chain, rfl, hkey, hchain, fun part hpart => ?_⟩
  refine ⟨before, key, part, rfl, hkey, fun f hf => hchain f (hpart.subset hf), ?_⟩
  exact fun f hf => hfits f (List.cons_subset_cons key hpart.subset hf)

/-- `IsDecodable`, one frame after another. -/
def canDecode (stream : List (WindowedFrame F T)) : Bool :=
  stream.foldl (fun ok f => f.fits && (f.isKeyFrame || ok)) false

theorem canDecode_iff : canDecode stream = true ↔ IsDecodable stream := by
  induction stream using List.reverseRecOn with
  | nil => exact iff_of_false Bool.false_ne_true not_isDecodable_nil
  | append_singleton stream f ih =>
      rw [isDecodable_concat, ← ih]
      simp [canDecode]

instance : DecidablePred (IsDecodable (F := F) (T := T)) := fun _ =>
  decidable_of_iff _ canDecode_iff

/-- Those of the frames `next` that can be decoded where they stand, after `stream`. -/
def decodable (stream next : List (WindowedFrame F T)) : List F :=
  (next.zipIdx.filter fun (_, i) => IsDecodable (stream ++ next.take (i + 1))).map (·.1.frame)

@[simp] theorem decodable_nil : decodable stream [] = [] := rfl

theorem decodable_cons :
    decodable stream (f :: next) =
      (if IsDecodable (stream ++ [f]) then [f.frame] else []) ++
        decodable (stream ++ [f]) next := by
  have htake (i : ℕ) : stream ++ (f :: next).take (i + 1) = stream ++ [f] ++ next.take i := by
    simp
  simp only [decodable, htake]
  rw [List.zipIdx_cons', List.filter_cons, List.filter_map]
  by_cases hf : IsDecodable (stream ++ [f]) <;> simp [hf, Function.comp_def]

end WindowedFrame

namespace AppendWindow

open WindowedFrame

variable {F T : Type} [Frame F T] [MediaTime T] {stream : List (WindowedFrame F T)}

/-- The flag says of the frames before all that there is to know. -/
theorem select_eq (w : AppendWindow T) (frames : List F) :
    w.select (!decide (IsDecodable stream)) frames =
      (decodable stream (frames.map (WindowedFrame.mk w)),
        !decide (IsDecodable (stream ++ frames.map (WindowedFrame.mk w)))) := by
  induction frames generalizing stream with
  | nil => simp [select]
  | cons f fs ih =>
      have hconcat : IsDecodable (stream ++ [WindowedFrame.mk w f]) ↔
          w.excludes f = false ∧ (Frame.isKeyFrame f = true ∨ IsDecodable stream) := by
        rw [isDecodable_concat, fits, Bool.not_eq_true']
        rfl
      have hrest := @ih (stream ++ [WindowedFrame.mk w f])
      rw [List.append_assoc, List.singleton_append, ← List.map_cons] at hrest
      rw [List.map_cons, decodable_cons, ← List.map_cons, select]
      -- What can be decoded is kept and clears the flag; all else is dropped and sets it, whether
      -- it is outside the window or only waits for a key frame.
      by_cases hf : IsDecodable (stream ++ [WindowedFrame.mk w f])
      · obtain ⟨hin, hchain⟩ := hconcat.mp hf
        have hstart : (!decide (IsDecodable stream) && !Frame.isKeyFrame f) = false := by
          rcases hchain with hkey | hdec
          · simp [hkey]
          · simp [hdec]
        simp only [hf, decide_true, Bool.not_true] at hrest
        simp [hin, hstart, hrest, hf]
      · have hdrop : w.excludes f = false →
            (!decide (IsDecodable stream) && !Frame.isKeyFrame f) = true := by
          intro hin
          simpa [hin, and_comm] using mt hconcat.mpr hf
        simp only [hf, decide_false, Bool.not_false] at hrest
        cases hin : w.excludes f with
        | true => simp [hrest, hf]
        | false => simp [hdrop hin, hrest, hf]

end AppendWindow

/-! ## A step of the worker -/

namespace DemuxWorker

open WindowedFrame

variable {X A T : Type} [MediaTime T] [Demuxer X T] {settings : PipelineSettings T} {time : T}
  {w : DemuxWorker X A T} {output : EncodedBuffer T}
  {stream : List (WindowedFrame (EncodedFrame T) T)}

/-- The frames of the segment that the next step demuxes; none if it does something else, or if it
fails to. -/
def demuxed (settings : PipelineSettings T) (w : DemuxWorker X A T) :
    List (WindowedFrame (EncodedFrame T) T) :=
  match w.phase with
  | .locking ahead =>
    if w.shutdown || decide (settings.demuxBufferAhead < ahead) then []
    else
      match w.queue, w.demuxer with
      | a :: _, some x =>
        match (Demuxer.demux x a.offset a.data).1 with
        | .ok frames => frames.map (WindowedFrame.mk a.window)
        | .error _ => []
      | _, _ => []
  | _ => []

theorem step_of_needKeyFrame (hneed : w.needKeyFrame = !decide (IsDecodable stream)) :
    (w.step settings time output).1.needKeyFrame =
        !decide (IsDecodable (stream ++ w.demuxed settings)) ∧
      (w.step settings time output).2.1 =
        output.addAll (decodable stream (w.demuxed settings)) := by
  have hstep := steps_step settings time w output
  generalize w.step settings time output = r at hstep ⊢
  cases hstep with
  | @demux ahead a queue x x' frames hphase hstop hqueue hahead hdemuxer hdemux =>
      have hframes : w.demuxed settings = frames.map (WindowedFrame.mk a.window) := by
        simp [demuxed, hphase, hstop, hqueue, hahead, hdemuxer, hdemux]
      rw [hframes, hneed, AppendWindow.select_eq]
      exact ⟨rfl, rfl⟩
  | rest hrest =>
      have hnone : w.demuxed settings = [] := by
        unfold DemuxWorker.rest at hrest
        cases hphase : w.phase <;> simp_all [demuxed]
      simp [hnone, hneed, FrameBuffer.addAll]
  | _ => simp [demuxed, FrameBuffer.addAll, *]

end DemuxWorker

/-! ## Runs -/

namespace DemuxAction

variable {X A T : Type}

/-- The frames after it do not build on those before it. -/
def breaksChains : DemuxAction X A T → Bool
  | .setDemuxer _ | .reset => true
  | _ => false

/-- The edits of the output that another thread makes. -/
def edits : DemuxAction X A T → List (BufferEdit (EncodedFrame T) T)
  | .editOutput edit => [edit]
  | _ => []

end DemuxAction

theorem DemuxSystem.needKeyFrame_act {X A T : Type} [MediaTime T] [Demuxer X T]
    {settings : PipelineSettings T} {x : DemuxSystem X A T} {a : DemuxAction X A T}
    (ha : ∀ time, a ≠ .step time) :
    (x.act settings a).1.worker.needKeyFrame = (a.breaksChains || x.worker.needKeyFrame) := by
  cases a with
  | step time => exact absurd rfl (ha time)
  | wake =>
      simp only [act, DemuxWorker.wake]
      split <;> rfl
  | append a =>
      simp only [act, DemuxWorker.append]
      split <;> rfl
  | _ => rfl

/-- A worker and its output, together with the frames that have been demuxed since the demuxer was
last set or reset. -/
structure DemuxRecord (X A T : Type) where
  system : DemuxSystem X A T
  stream : List (WindowedFrame (EncodedFrame T) T)

namespace DemuxRecord

open WindowedFrame

section Definitions

variable {X A T : Type} [MediaTime T] [Demuxer X T]

def new (output : EncodedBuffer T) : DemuxRecord X A T := ⟨⟨.new, output⟩, []⟩

def demuxed (settings : PipelineSettings T) (x : DemuxRecord X A T) :
    DemuxAction X A T → List (WindowedFrame (EncodedFrame T) T)
  | .step _ => x.system.worker.demuxed settings
  | _ => []

def act (settings : PipelineSettings T) (x : DemuxRecord X A T) (a : DemuxAction X A T) :
    DemuxRecord X A T where
  system := (x.system.act settings a).1
  stream := if a.breaksChains then [] else x.stream ++ x.demuxed settings a

def actAll (settings : PipelineSettings T) (x : DemuxRecord X A T)
    (as : List (DemuxAction X A T)) : DemuxRecord X A T :=
  as.foldl (act settings) x

/-- The worker asks for a key frame exactly if the last frame of the stream cannot be decoded. -/
def IsAligned (x : DemuxRecord X A T) : Prop :=
  x.system.worker.needKeyFrame = !decide (IsDecodable x.stream)

end Definitions

variable {X A T : Type} [MediaTime T] [Demuxer X T] {settings : PipelineSettings T}
  {x : DemuxRecord X A T} {a : DemuxAction X A T}

theorem system_actAll (as : List (DemuxAction X A T)) :
    (x.actAll settings as).system = x.system.actAll settings as := by
  induction as generalizing x with
  | nil => rfl
  | cons a as ih => exact ih

omit [Demuxer X T] in
theorem isAligned_new (output : EncodedBuffer T) : (new output : DemuxRecord X A T).IsAligned := by
  simp [IsAligned, new, DemuxWorker.new, not_isDecodable_nil]

theorem IsAligned.act (hx : x.IsAligned) : (x.act settings a).IsAligned := by
  by_cases ha : ∃ time, a = .step time
  · obtain ⟨time, rfl⟩ := ha
    exact (DemuxWorker.step_of_needKeyFrame hx).1
  · push Not at ha
    have hnone : x.demuxed settings a = [] := by
      cases a with
      | step time => exact absurd rfl (ha time)
      | _ => rfl
    unfold IsAligned DemuxRecord.act
    rw [DemuxSystem.needKeyFrame_act ha, hnone, hx]
    cases a.breaksChains <;> simp [not_isDecodable_nil]

theorem isAligned_actAll (hx : x.IsAligned) (as : List (DemuxAction X A T)) :
    (x.actAll settings as).IsAligned := by
  induction as generalizing x with
  | nil => exact hx
  | cons a as ih => exact ih hx.act

theorem IsAligned.output_act (hx : x.IsAligned) :
    (x.act settings a).system.output =
      x.system.output.editAll
        (a.edits ++ (decodable x.stream (x.demuxed settings a)).map .add) := by
  cases a with
  | step time =>
      have hadd : (x.act settings (.step time)).system.output =
          x.system.output.addAll (decodable x.stream (x.demuxed settings (.step time))) :=
        (DemuxWorker.step_of_needKeyFrame hx).2
      rw [hadd, ← FrameBuffer.editAll_map_add]
      rfl
  | _ => rfl

/-- In every run from a new worker, whatever the segments, their windows and the demuxers, each
action leaves the output with the edits of other threads and, if it demuxes a segment, with exactly
those of its frames added that can be decoded after the frames demuxed since the demuxer was last
set or reset. So every frame of the chain that an added frame builds on has been added too. Of times
that are numbers, a frame fits its window if it begins at the start of it or later and ends at the
end of it or before. -/
theorem output_act_eq_decodable [LawfulMediaTime T] (settings : PipelineSettings T)
    (output : EncodedBuffer T) (as : List (DemuxAction X A T)) (a : DemuxAction X A T) :
    let x := (new output : DemuxRecord X A T).actAll settings as
    x.system = (DemuxSystem.mk .new output).actAll settings as ∧
      (x.system.act settings a).1.output =
        x.system.output.editAll
          (a.edits ++ (decodable x.stream (x.demuxed settings a)).map .add) ∧
      (∀ stream : List (WindowedFrame (EncodedFrame T) T), IsDecodable stream →
        ∃ before key chain, stream = before ++ key :: chain ∧ key.isKeyFrame = true ∧
          (∀ f ∈ chain, f.isKeyFrame = false) ∧
            ∀ part, part <+: chain → IsDecodable (before ++ key :: part)) ∧
      ∀ f : WindowedFrame (EncodedFrame T) T, MediaTime.IsNumber f.frame.pts →
        MediaTime.IsNumber (Frame.presentationEnd f.frame) → MediaTime.IsNumber f.window.start →
        MediaTime.IsNumber f.window.stop →
          (f.fits = true ↔
            f.window.start ≤ f.frame.pts ∧ Frame.presentationEnd f.frame ≤ f.window.stop) :=
  ⟨system_actAll as, (isAligned_actAll (isAligned_new output) as).output_act,
    fun _ hdec => hdec.exists_chain,
    fun _ hpts hend hstart hstop => fits_iff hpts hend hstart hstop⟩

/-- Ten steps demux two segments of one stream; the window of the second leaves out its frame at 3
and with it the one at 1.5. -/
def twoSegments : List (DemuxAction (SegmentDemuxer Float) Nat Float) :=
  let frame (pts : Float) (isKeyFrame : Bool) : SegmentFrame Float := ⟨pts, 1, isKeyFrame, []⟩
  [.setDemuxer (some ⟨.video 0 "h264" 1 1⟩),
    .append ⟨Segment.ofFrames [frame 0 true, frame 1 false], 0, ⟨0, 10⟩, 0⟩,
    .append ⟨Segment.ofFrames [frame 2 false, frame 3 false, frame 1.5 false, frame 2.5 true], 0,
      ⟨0, 3.5⟩, 1⟩]

theorem output_act_eq_decodable_twoSegments :
    let x := (new (.empty .dts)).actAll .default (twoSegments ++ List.replicate 9 (.step 0))
    let next := x.demuxed .default (.step 0)
    let kept := decodable x.stream next
    kept.map EncodedFrame.pts = [2, 2.5] ∧
      (x.system.act .default (.step 0)).1.output = x.system.output.editAll (kept.map .add) ∧
      (∃ before key chain, x.stream ++ next.take 1 = before ++ key :: chain ∧
        key.isKeyFrame = true ∧ (∀ f ∈ chain, f.isKeyFrame = false) ∧
          ∀ part, part <+: chain → IsDecodable (before ++ key :: part)) ∧
      ∀ f ∈ next, (f.fits = true ↔
        f.window.start ≤ f.frame.pts ∧ Frame.presentationEnd f.frame ≤ f.window.stop) := by
  intro x next kept
  have hkept : kept.map EncodedFrame.pts = [2, 2.5] := by decide +kernel
  have hdec : IsDecodable (x.stream ++ next.take 1) := by decide +kernel
  have hnumbers : ∀ f ∈ next, f.frame.pts ≤ f.frame.pts ∧
      Frame.presentationEnd f.frame ≤ Frame.presentationEnd f.frame ∧
      f.window.start ≤ f.window.start ∧ f.window.stop ≤ f.window.stop := by decide +kernel
  obtain ⟨-, houtput, hchain, hfits⟩ := output_act_eq_decodable .default (.empty .dts)
    (twoSegments ++ List.replicate 9 (.step 0)) (.step 0)
  refine ⟨hkept, houtput, hchain _ hdec, fun f hf => ?_⟩
  obtain ⟨hpts, hend, hstart, hstop⟩ := hnumbers f hf
  exact hfits f hpts hend hstart hstop

def unorderedFrame : WindowedFrame (EncodedFrame Float) Float where
  window := ⟨0.0 / 0.0, 10⟩
  frame := ⟨0, 0, 1, true, .video 0 "h264" 1 1, [], none⟩

/-- Its segment is about to be demuxed, the first one of all. -/
def unorderedRecord : DemuxRecord (SegmentDemuxer Float) Nat Float :=
  (new (.empty .dts)).actAll .default
    ([.setDemuxer (some ⟨unorderedFrame.frame.stream⟩),
      .append ⟨Segment.ofFrames [⟨(0 : Float), 1, true, []⟩], 0, unorderedFrame.window, 0⟩] ++
      List.replicate 3 (.step 0))

/-- The frame does not begin at the start of its window or later, and is added. -/
theorem unorderedFrame_added :
    unorderedRecord.stream = [] ∧
      unorderedRecord.demuxed .default (.step 0) = [unorderedFrame] ∧
      ¬ unorderedFrame.window.start ≤ unorderedFrame.frame.pts ∧
      (unorderedRecord.system.act .default (.step 0)).1.output =
        unorderedRecord.system.output.add unorderedFrame.frame := by
  decide +kernel

end DemuxRecord

end MediaPipeline
