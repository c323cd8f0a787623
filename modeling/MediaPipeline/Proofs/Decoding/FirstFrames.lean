import MediaPipeline.Proofs.Decoding.Cursor
import MediaPipeline.Proofs.FrameBuffer.Lookup

/-!
# The first frame of a decoder

Only a seek clears the cursor. A decoder that has been reset is therefore next handed a key frame,
but one that is installed while the cursor is set, or that meets a new input then, is handed
whatever stands behind the cursor.
-/

namespace MediaPipeline

variable {D T : Type} [MediaTime T] [Decoder D T]

namespace DecodeWorker

variable {settings : PipelineSettings T} {time : T} {duration : Option T} {w : DecodeWorker D T}
  {store : BufferStore T} {s : DecodeSnapshot T} {f : EncodedFrame T}

theorem choosing_of_decode_mem
    (hf : .decode (some f) ∈ (w.step settings time duration store).2.2) :
    ∃ l s, w.phase = .choosing l s ∧ chooseFrame (store.encodedAt l.input) s = some f := by
  have hstep := steps_step settings time duration w store
  generalize w.step settings time duration store = r at hstep hf
  cases hstep with
  | @choose l s g hphase hframe =>
      have hfg : f = g := by
        split_ifs at hf <;> simpa using hf
      exact ⟨l, s, hphase, hfg ▸ hframe⟩
  | awaitKey _ _ _ => split_ifs at hf <;> simp at hf
  | miss _ _ => split_ifs at hf <;> simp at hf
  | _ => simp at hf

theorem choosing_of_reset_mem
    (hreset : .reset ∈ (w.step settings time duration store).2.2) :
    ∃ l s, w.phase = .choosing l s := by
  have hstep := steps_step settings time duration w store
  generalize w.step settings time duration store = r at hstep hreset
  cases hstep with
  | choose hphase _ | miss hphase _ => exact ⟨_, _, hphase⟩
  | awaitKey _ _ _ => split_ifs at hreset <;> simp at hreset
  | _ => simp at hreset

theorem reset_mem_iff {l : DecodeLease D} (hphase : w.phase = .choosing l s) :
    .reset ∈ (w.step settings time duration store).2.2 ↔ s.cursor = none := by
  rw [events_choosing hphase]
  cases s.cursor <;> simp

theorem handed?_step {n : Nat}
    (hn : (w.step settings time duration store).1.phase.handed? = some n) :
    w.phase.handed? = some n ∨
      ∃ f, .decode (some f) ∈ (w.step settings time duration store).2.2 := by
  have hstep := steps_step settings time duration w store
  generalize w.step settings time duration store = r at hstep hn ⊢
  cases hstep with
  | @choose l s f hphase hframe => exact Or.inr ⟨f, by simp⟩
  | rest _ => exact Or.inl hn
  | @decode l s frame decoded decoder hphase hdecode =>
      cases frame with
      | none => cases hn
      | some f =>
          left
          rw [hphase]
          exact hn
  | store hphase _ | advance hphase _ =>
      left
      rw [hphase]
      exact hn
  | @giveBack l next hphase => cases next <;> cases hn
  | _ => cases hn

theorem cursor_of_undecided?
    (hs : (w.step settings time duration store).1.phase.undecided? = some s) :
    (w.step settings time duration store).1.cursor = w.cursor ∧
      (s.cursor = w.cursor ∨ w.phase.undecided? = some s) := by
  have hstep := steps_step settings time duration w store
  generalize w.step settings time duration store = r at hstep hs ⊢
  cases hstep with
  | readCursor hphase =>
      cases hs
      exact ⟨rfl, Or.inl rfl⟩
  | evict hphase _ =>
      cases hs
      exact ⟨rfl, Or.inr (by rw [hphase]; rfl)⟩
  | rest _ => exact ⟨rfl, Or.inr hs⟩
  | @giveBack l next hphase => cases next <;> cases hs
  | _ => cases hs

omit [Decoder D T] in
theorem views_wake (w : DecodeWorker D T) :
    w.wake.phase.handed? = w.phase.handed? ∧ w.wake.phase.undecided? = w.phase.undecided? ∧
      w.wake.cursor = w.cursor ∧ w.wake.nextCursor = w.nextCursor := by
  unfold wake
  split
  · next hphase => simp [hphase, DecodePhase.handed?, DecodePhase.undecided?, nextCursor]
  · exact ⟨rfl, rfl, rfl, rfl⟩

omit [Decoder D T] in
theorem views_mapRing (w : DecodeWorker D T) (f : Keyring → Keyring) :
    (w.mapRing f).phase.handed? = w.phase.handed? ∧
      (w.mapRing f).phase.undecided? = w.phase.undecided? ∧
      (w.mapRing f).cursor = w.cursor ∧ (w.mapRing f).nextCursor = w.nextCursor := by
  unfold mapRing nextCursor
  cases w.phase with
  | decoding l s frame => cases frame <;> exact ⟨rfl, rfl, rfl, rfl⟩
  | storing l s frame decoded => cases frame <;> exact ⟨rfl, rfl, rfl, rfl⟩
  | _ => exact ⟨rfl, rfl, rfl, rfl⟩

end DecodeWorker

/-- A system together with a record of the frames that its decoders have had. -/
structure FedSystem (D T : Type) where
  system : DecodeSystem D T
  /-- The decoder that was last handed a frame, by its number, and the input of that frame; none
  once the decoder is reset or the input is attached anew. -/
  fed : Option (Nat × Nat)
  /-- A decoder has been reset and no frame handed out since. -/
  rewound : Bool

namespace FedSystem

def Hands (settings : PipelineSettings T) (x : FedSystem D T) (a : DecodeAction D T)
    (f : EncodedFrame T) : Prop :=
  .decode (some f) ∈ (x.system.act settings a).2

def Resets (settings : PipelineSettings T) (x : FedSystem D T) (a : DecodeAction D T) : Prop :=
  .reset ∈ (x.system.act settings a).2

def isFrame : DecodeEvent T → Bool
  | .decode (some _) => true
  | _ => false

def isReset : DecodeEvent T → Bool
  | .reset => true
  | _ => false

def act (settings : PipelineSettings T) (x : FedSystem D T) (a : DecodeAction D T) :
    FedSystem D T where
  system := (x.system.act settings a).1
  fed :=
    if (x.system.act settings a).2.any isFrame then
      x.system.worker.phase.lease?.map fun l => (l.installs, l.input)
    else if (x.system.act settings a).2.any isReset then none
    else
      match a with
      | .attach input _ =>
        if x.system.worker.inputs.input = some input then x.fed else x.fed.filter (·.2 ≠ input)
      | _ => x.fed
  rewound :=
    if (x.system.act settings a).2.any isFrame then false
    else (x.system.act settings a).2.any isReset || x.rewound

def actAll (settings : PipelineSettings T) (x : FedSystem D T) (as : List (DecodeAction D T)) :
    FedSystem D T :=
  as.foldl (act settings) x

/-- The record is kept beside the system and takes no part in it. -/
theorem system_actAll (settings : PipelineSettings T) (x : FedSystem D T)
    (as : List (DecodeAction D T)) :
    (x.actAll settings as).system = x.system.actAll settings as := by
  induction as generalizing x with
  | nil => rfl
  | cons a as ih => exact ih (x.act settings a)

/-- The round under way is about to choose, and its decoder has had no frame of its input since it
was installed, since that input was attached or since it was reset. -/
def IsFirst (x : FedSystem D T) : Prop :=
  ∃ l s, x.system.worker.phase = .choosing l s ∧
    (x.fed ≠ some (l.installs, l.input) ∨ s.cursor = none)

/-! ## A reset is followed by a key frame -/

variable {settings : PipelineSettings T} {x : FedSystem D T} {a : DecodeAction D T}
  {f : EncodedFrame T}

/-- A round that has found the cursor cleared still finds it so, and from a reset on every round
does, until a frame is handed out. -/
structure Consistent (x : FedSystem D T) : Prop where
  cleared : ∀ s ∈ x.system.worker.phase.undecided?, s.cursor = none → x.system.worker.cursor = none
  handed : x.rewound = true → x.system.worker.phase.handed? = none
  next : x.rewound = true → x.system.worker.nextCursor = none
  undecided : x.rewound = true → ∀ s ∈ x.system.worker.phase.undecided?, s.cursor = none

theorem hands_iff : x.Hands settings a f ↔ ∃ time duration l s, a = .step time duration ∧
    x.system.worker.phase = .choosing l s ∧
      DecodeWorker.chooseFrame (x.system.store.encodedAt l.input) s = some f := by
  constructor
  · intro hf
    cases a with
    | step time duration =>
        obtain ⟨l, s, hphase, hchoice⟩ := DecodeWorker.choosing_of_decode_mem hf
        exact ⟨time, duration, l, s, rfl, hphase, hchoice⟩
    | _ => simp [Hands, DecodeSystem.act] at hf
  · rintro ⟨time, duration, l, s, rfl, hphase, hchoice⟩
    simp [Hands, DecodeSystem.act, DecodeWorker.events_choosing hphase, hchoice]

theorem resets_iff : x.Resets settings a ↔ ∃ time duration l s, a = .step time duration ∧
    x.system.worker.phase = .choosing l s ∧ s.cursor = none := by
  constructor
  · intro hreset
    cases a with
    | step time duration =>
        obtain ⟨l, s, hphase⟩ := DecodeWorker.choosing_of_reset_mem hreset
        exact ⟨time, duration, l, s, rfl, hphase, (DecodeWorker.reset_mem_iff hphase).mp hreset⟩
    | _ => simp [Resets, DecodeSystem.act] at hreset
  · rintro ⟨time, duration, l, s, rfl, hphase, hcursor⟩
    exact (DecodeWorker.reset_mem_iff hphase).mpr hcursor

theorem any_isFrame_iff :
    (x.system.act settings a).2.any isFrame = true ↔ ∃ f, x.Hands settings a f := by
  rw [List.any_eq_true]
  constructor
  · rintro ⟨e, he, hframe⟩
    unfold isFrame at hframe
    split at hframe
    · next f => exact ⟨f, he⟩
    · cases hframe
  · rintro ⟨f, hf⟩
    exact ⟨_, hf, rfl⟩

theorem any_isReset_iff :
    (x.system.act settings a).2.any isReset = true ↔ x.Resets settings a := by
  rw [List.any_eq_true]
  constructor
  · rintro ⟨e, he, hreset⟩
    unfold isReset at hreset
    split at hreset
    · exact he
    · cases hreset
  · intro hreset
    exact ⟨_, hreset, rfl⟩

/-- Where a decoder has been reset or is being reset, every round finds the cursor cleared. -/
theorem Consistent.of_rewound (hx : x.Consistent)
    (hrewound : x.rewound = true ∨ x.Resets settings a) :
    x.system.worker.phase.handed? = none ∧ x.system.worker.nextCursor = none ∧
      ∀ s ∈ x.system.worker.phase.undecided?, s.cursor = none := by
  rcases hrewound with hrewound | hreset
  · exact ⟨hx.handed hrewound, hx.next hrewound, hx.undecided hrewound⟩
  · obtain ⟨time, duration, l, s, rfl, hphase, hcursor⟩ := resets_iff.mp hreset
    have hcleared := hx.cleared s (by rw [hphase]; rfl) hcursor
    refine ⟨by rw [hphase]; rfl, ?_, ?_⟩
    · simpa [DecodeWorker.nextCursor, hphase] using hcleared
    · intro s' hs'
      rw [hphase] at hs'
      cases hs'
      exact hcursor

theorem Consistent.step {time : T} {duration : Option T} (hx : x.Consistent) :
    (x.act settings (.step time duration)).Consistent := by
  have hrewound : (x.act settings (.step time duration)).rewound = true →
      (∀ f, ¬ x.Hands settings (.step time duration) f) ∧
        (x.rewound = true ∨ x.Resets settings (.step time duration)) := by
    intro hnow
    simp only [FedSystem.act] at hnow
    split_ifs at hnow with hframe
    rw [any_isFrame_iff, not_exists] at hframe
    rw [Bool.or_eq_true, any_isReset_iff] at hnow
    exact ⟨hframe, hnow.symm⟩
  refine ⟨?_, ?_, ?_, ?_⟩
  · intro s hs hcursor
    obtain ⟨hkept, hread | hread⟩ := DecodeWorker.cursor_of_undecided? hs
    · exact hkept.trans (hread.symm.trans hcursor)
    · exact hkept.trans (hx.cleared s hread hcursor)
  · intro hnow
    obtain ⟨hquiet, hbefore⟩ := hrewound hnow
    obtain ⟨hhanded, -, -⟩ := hx.of_rewound hbefore
    refine Option.eq_none_iff_forall_ne_some.mpr fun n hn => ?_
    rcases DecodeWorker.handed?_step hn with hold | ⟨f, hf⟩
    · rw [hhanded] at hold
      cases hold
    · exact hquiet f hf
  · intro hnow
    obtain ⟨-, hbefore⟩ := hrewound hnow
    obtain ⟨hhanded, hnext, -⟩ := hx.of_rewound hbefore
    refine (DecodeWorker.nextCursor_step ?_).trans hnext
    rw [hhanded]
    nofun
  · intro hnow s hs
    obtain ⟨-, hbefore⟩ := hrewound hnow
    obtain ⟨-, hnext, hundecided⟩ := hx.of_rewound hbefore
    rcases DecodeWorker.undecided?_step hs with hread | hread
    · exact hread.trans hnext
    · exact hundecided s hread

omit [Decoder D T] in
theorem Consistent.keep {y : FedSystem D T} (hx : x.Consistent)
    (hrewound : y.rewound = true → x.rewound = true)
    (hhanded : y.system.worker.phase.handed? = x.system.worker.phase.handed?)
    (hundecided : y.system.worker.phase.undecided? = x.system.worker.phase.undecided?)
    (hcursor : y.system.worker.cursor = x.system.worker.cursor)
    (hnext : y.system.worker.nextCursor = x.system.worker.nextCursor) : y.Consistent where
  cleared s hs := by
    rw [hcursor]
    exact hx.cleared s (hundecided ▸ hs)
  handed h := hhanded.trans (hx.handed (hrewound h))
  next h := hnext.trans (hx.next (hrewound h))
  undecided h s hs := hx.undecided (hrewound h) s (hundecided ▸ hs)

theorem Consistent.act (hx : x.Consistent) : (x.act settings a).Consistent := by
  cases a with
  | step time duration => exact hx.step
  | seek =>
      refine ⟨fun _ _ _ => rfl, hx.handed, ?_, hx.undecided⟩
      intro hrewound
      have hhanded : x.system.worker.phase.handed? = none := hx.handed hrewound
      simp only [FedSystem.act, DecodeSystem.act, DecodeWorker.onSeek, DecodeWorker.nextCursor]
      cases hphase : x.system.worker.phase <;>
        simp_all [DecodePhase.handed?]
  | wake =>
      obtain ⟨hhanded, hundecided, hcursor, hnext⟩ := x.system.worker.views_wake
      exact hx.keep id hhanded hundecided hcursor hnext
  | mapRing f =>
      obtain ⟨hhanded, hundecided, hcursor, hnext⟩ := x.system.worker.views_mapRing f
      exact hx.keep id hhanded hundecided hcursor hnext
  | _ => exact hx.keep id rfl rfl rfl rfl

theorem Consistent.actAll {as : List (DecodeAction D T)} (hx : x.Consistent) :
    (x.actAll settings as).Consistent := by
  induction as generalizing x with
  | nil => exact hx
  | cons a as ih => exact ih hx.act

def start (system : DecodeSystem D T) : FedSystem D T := ⟨system, none, false⟩

omit [Decoder D T] in
theorem consistent_start {system : DecodeSystem D T}
    (hbetween : system.worker.phase.lease? = none) : (start system).Consistent := by
  refine ⟨?_, nofun, nofun, nofun⟩
  intro s hs
  have hread := DecodePhase.seeksRead?_of_undecided? hs
  rw [start, DecodePhase.seeksRead?_of_between hbetween] at hread
  cases hread

/-! ## Whole runs -/

/-- In the course of `run` the system is as `y` when `a` happens. -/
def Visits (settings : PipelineSettings T) (x : FedSystem D T) (run : List (DecodeAction D T))
    (y : FedSystem D T) (a : DecodeAction D T) : Prop :=
  ∃ past future, run = past ++ a :: future ∧ y = x.actAll settings past

theorem Consistent.isKeyFrame (hx : x.Consistent) (hf : x.Hands settings a f)
    (hrewound : x.rewound = true ∨ x.Resets settings a) : f.isKeyFrame = true := by
  obtain ⟨-, -, hundecided⟩ := hx.of_rewound hrewound
  obtain ⟨time, duration, l, s, rfl, hphase, hchoice⟩ := hands_iff.mp hf
  have hcursor : s.cursor = none := hundecided s (by rw [hphase]; rfl)
  rw [DecodeWorker.chooseFrame, hcursor] at hchoice
  exact (FrameBuffer.isKeyFrame_of_mem_getFrame hchoice).1

/-- A recorded run is the run of the system. After a reset a decoder is first handed a key frame.
After it was installed, or after its input was attached, it is so in the whole run exactly if no
round goes on from a cursor with such a decoder to a frame that is not a key frame. -/
theorem firstFrames_isKeyFrame_iff {system : DecodeSystem D T}
    (hbetween : system.worker.phase.lease? = none) (run : List (DecodeAction D T)) :
    ((start system).actAll settings run).system = system.actAll settings run ∧
    (∀ y a f, (start system).Visits settings run y a → y.Hands settings a f →
        (y.rewound = true ∨ y.Resets settings a) → f.isKeyFrame = true) ∧
      ((∀ y a f, (start system).Visits settings run y a → y.Hands settings a f → y.IsFirst →
          f.isKeyFrame = true) ↔
        ∀ y time duration, (start system).Visits settings run y (.step time duration) →
          ∀ l s dts, y.system.worker.phase = .choosing l s → s.cursor = some dts →
            y.fed ≠ some (l.installs, l.input) →
              ∀ f ∈ (y.system.store.encodedAt l.input).getFrame dts .after,
                f.isKeyFrame = true) := by
  have hconsistent : ∀ y a, (start system).Visits settings run y a → y.Consistent := by
    rintro y a ⟨past, future, -, rfl⟩
    exact (consistent_start hbetween).actAll
  refine ⟨system_actAll settings _ run, fun y a f hy hf => (hconsistent y a hy).isKeyFrame hf, ?_,
    ?_⟩
  · intro hfirst y time duration hy l s dts hphase hcursor hfed f hf
    refine hfirst y (.step time duration) f hy (hands_iff.mpr ?_) ⟨l, s, hphase, Or.inl hfed⟩
    refine ⟨time, duration, l, s, rfl, hphase, ?_⟩
    rw [DecodeWorker.chooseFrame, hcursor]
    exact hf
  · rintro hgoesOn y a f hy hf ⟨l, s, hphase, hfirst⟩
    obtain ⟨time, duration, l', s', rfl, hphase', hchoice⟩ := hands_iff.mp hf
    rw [hphase] at hphase'
    cases hphase'
    cases hcursor : s.cursor with
    | none =>
        have hreset : y.Resets settings (.step time duration) :=
          resets_iff.mpr ⟨time, duration, l, s, rfl, hphase, hcursor⟩
        exact (hconsistent y _ hy).isKeyFrame hf (Or.inr hreset)
    | some dts =>
        have hfed := hfirst.resolve_right (by simp [hcursor])
        rw [DecodeWorker.chooseFrame, hcursor] at hchoice
        exact hgoesOn y time duration hy l s dts hphase hcursor hfed f hchoice

/-! ## A decoder that is exchanged -/

def dependentFrame : EncodedFrame Float := ⟨0.1, 0.1, 0.1, false, .video 0 "h264" 1 1, [], none⟩

/-- One key frame is decoded, which takes twelve steps, before another frame arrives. Then the
decoder is exchanged. Six steps later the next round is about to choose. -/
def exchange : List (DecodeAction (PassThrough Float) Float) :=
  DecodeSystem.steps 12 ++ [.editEncoded 0 (.add dependentFrame), .setDecoder (some {})] ++
    DecodeSystem.steps 6

theorem firstFrames_isKeyFrame_iff_exchange :
    ((start DecodeSystem.oneFrameSystem).actAll .default exchange).system =
        DecodeSystem.oneFrameSystem.actAll .default exchange ∧
    (∀ y a f, (start DecodeSystem.oneFrameSystem).Visits .default exchange y a →
        y.Hands .default a f → (y.rewound = true ∨ y.Resets .default a) → f.isKeyFrame = true) ∧
      ((∀ y a f, (start DecodeSystem.oneFrameSystem).Visits .default exchange y a →
          y.Hands .default a f → y.IsFirst → f.isKeyFrame = true) ↔
        ∀ y time duration,
          (start DecodeSystem.oneFrameSystem).Visits .default exchange y (.step time duration) →
            ∀ l s dts, y.system.worker.phase = .choosing l s → s.cursor = some dts →
              y.fed ≠ some (l.installs, l.input) →
                ∀ f ∈ (y.system.store.encodedAt l.input).getFrame dts .after,
                  f.isKeyFrame = true) :=
  firstFrames_isKeyFrame_iff rfl exchange

/-- The new decoder is first handed the frame that depends on what the old one has had. -/
theorem dependentFrame_first :
    ¬ ∀ run y a f, (start DecodeSystem.oneFrameSystem).Visits .default run y a →
      y.Hands .default a f → y.IsFirst → f.isKeyFrame = true := by
  intro hfirst
  have hphase : ((start DecodeSystem.oneFrameSystem).actAll .default exchange).system.worker.phase =
      .choosing ⟨0, 0, {}, 2, none⟩ ⟨0, 0, some 0⟩ := by decide +kernel
  have hfed : ((start DecodeSystem.oneFrameSystem).actAll .default exchange).fed = some (1, 0) := by
    decide +kernel
  have hhands : ((start DecodeSystem.oneFrameSystem).actAll .default exchange).Hands .default
      (.step 0 none) dependentFrame := by
    unfold Hands
    decide +kernel
  have hvisits : (start DecodeSystem.oneFrameSystem).Visits .default (exchange ++ [.step 0 none])
      ((start DecodeSystem.oneFrameSystem).actAll .default exchange) (.step 0 none) :=
    ⟨exchange, [], rfl, rfl⟩
  exact absurd (hfirst _ _ _ _ hvisits hhands ⟨_, _, hphase, Or.inl (by simp [hfed])⟩)
    Bool.false_ne_true

end FedSystem

end MediaPipeline
