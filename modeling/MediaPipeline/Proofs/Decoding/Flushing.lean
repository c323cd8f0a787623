import MediaPipeline.Proofs.Decoding.InOrder

/-!
# Flushing the decoder

At the end of the media the loop flushes the decoder, and only a seek lets it flush the decoder
again. A seek clears the flag, but a round that has read its cursor before the seek may set it
again, and then the decoder is not flushed when the end is reached. The end is reached when the
cursor is, which is where the last frame starts: behind a frame longer than the tolerance there is
no flush.
-/

namespace MediaPipeline

open MediaTime LawfulMediaTime

variable {D T : Type}

/-- A frame that has been decoded, or, as `none`, a flush. Frames count only if `current` is
true. -/
def DecodeEvent.noted? (current : Bool) : DecodeEvent T → Option (Option (EncodedFrame T))
  | .decode none => some none
  | .decoded (some f) _ => if current then some (some f) else none
  | _ => none

namespace DecodePhase

def isFlushing : DecodePhase D T → Bool
  | flushing _ _ => true
  | _ => false

/-- How the round ends that is about to give its decoder back. -/
def end? : DecodePhase D T → Option RoundEnd
  | returning _ next => some next
  | _ => none

end DecodePhase

namespace DecodeWorker

/-- Every flush that these events report, and every frame decoded by a round that has begun since
the last seek. -/
def noted (w : DecodeWorker D T) (events : List (DecodeEvent T)) :
    List (Option (EncodedFrame T)) :=
  events.filterMap (DecodeEvent.noted? (decide (w.phase.seeksRead? = some w.seeks)))

variable [MediaTime T]

/-- What a round has read since the last seek is still so. -/
structure UpToDate (w : DecodeWorker D T) : Prop where
  isNumber : ∀ t ∈ w.cursor, IsNumber t
  cursor : ∀ s ∈ w.phase.snapshot?, s.seeks = w.seeks → s.cursor = w.cursor

/-- What a step adds to the log. -/
inductive Notes (settings : PipelineSettings T) (duration : Option T) (w : DecodeWorker D T) :
    DecodeWorker D T → List (DecodeEvent T) → Prop
  | nothing {w' events} (hnoted : w.noted events = []) (hflushed : w'.flushed = w.flushed)
      (houtlook : w'.outlook = w.outlook) : Notes settings duration w w' events
  | flush {w' events} {l : DecodeLease D} {s : DecodeSnapshot T} (hnoted : w.noted events = [none])
      (hphase : w.phase = .flushing l s) (hend : atEnd settings duration s.cursor = true)
      (hbefore : w.flushed = false) (hflushed : w'.flushed = true)
      (houtlook : w'.outlook = w.outlook) : Notes settings duration w w' events
  | frame {w' events} {f : EncodedFrame T} (hnoted : w.noted events = [some f])
      (hflushed : w'.flushed = w.flushed) (houtlook : w'.outlook = cursorAt f.dts)
      (hread : w'.phase.seeksRead? = some w'.seeks) : Notes settings duration w w' events

variable [Decoder D T] [LawfulMediaTime T] {settings : PipelineSettings T} {time : T}
  {duration : Option T} {w : DecodeWorker D T} {store : BufferStore T}

omit [Decoder D T] [LawfulMediaTime T] in
theorem UpToDate.keep {w' : DecodeWorker D T} (hw : w.UpToDate) (hcursor : w'.cursor = w.cursor)
    (hseeks : w'.seeks = w.seeks)
    (hread : ∀ s ∈ w'.phase.snapshot?, s ∈ w.phase.snapshot? ∨ s.cursor = w.cursor) :
    w'.UpToDate where
  isNumber := hcursor ▸ hw.isNumber
  cursor s hs hcurrent := by
    rcases hread s hs with hbefore | hnew
    · exact (hw.cursor s hbefore (hcurrent.trans hseeks)).trans hcursor.symm
    · exact hnew.trans hcursor.symm

theorem UpToDate.step (hw : w.UpToDate) :
    (w.step settings time duration store).1.UpToDate := by
  have hstep := steps_step settings time duration w store
  generalize w.step settings time duration store = r at hstep ⊢
  cases hstep with
  | rest _ => exact hw
  | @advance l s f reached hphase hcursor =>
      refine ⟨?_, by simp [DecodePhase.snapshot?]⟩
      intro t ht
      simp only [cursorAt] at ht
      split_ifs at ht with hnan
      · cases ht
      · cases ht
        exact isNaN_eq_false_iff.mp (by simpa using hnan)
  | @giveBack l next hphase =>
      cases next <;> exact hw.keep rfl rfl (by simp [DecodePhase.snapshot?])
  | _ => exact hw.keep rfl rfl (by simp [DecodePhase.snapshot?, *])

theorem UpToDate.notes_step (hw : w.UpToDate) :
    w.Notes settings duration (w.step settings time duration store).1
      (w.step settings time duration store).2.2 := by
  have hstep := steps_step settings time duration w store
  generalize w.step settings time duration store = r at hstep ⊢
  cases hstep with
  | rest _ => exact .nothing rfl rfl rfl
  | flush hphase hend hflush =>
      refine .flush ?_ hphase hend hflush rfl ?_
      · simp [noted, DecodeEvent.noted?]
      · simp [outlook, nextCursor, hphase]
  | @decode l s frame decoded decoder hphase hdecode =>
      by_cases hcurrent : ∃ f, frame = some f ∧ s.seeks = w.seeks
      · obtain ⟨f, rfl, hseeks⟩ := hcurrent
        have hread : s.cursor = w.cursor := hw.cursor s (by rw [hphase]; rfl) hseeks
        have hsame : (w.cursor == s.cursor) = true := by
          rw [hread]
          cases hcursor : w.cursor with
          | none => rfl
          | some t => exact beq_iff.mpr ⟨hw.isNumber t hcursor, hw.isNumber t hcursor⟩
        refine .frame (f := f) ?_ rfl ?_ ?_
        · simp [noted, DecodeEvent.noted?, DecodePhase.seeksRead?, hphase, hseeks]
        · simp [outlook, hseeks, hsame]
        · simp [DecodePhase.seeksRead?, hseeks]
      · have hstale : ∀ f, frame = some f → s.seeks ≠ w.seeks := by simpa using hcurrent
        refine .nothing ?_ rfl ?_ <;> cases frame with
        | none => simp [noted, DecodeEvent.noted?, outlook, nextCursor, hphase]
        | some f =>
            simp [noted, DecodeEvent.noted?, DecodePhase.seeksRead?, outlook, nextCursor, hphase,
              hstale f rfl]
  | @discard l s frame decoded hphase hseeks =>
      refine .nothing rfl rfl ?_
      cases frame <;> simp [outlook, nextCursor, hphase, Ne.symm hseeks]
  | @giveBack l next hphase =>
      refine .nothing rfl rfl ?_
      cases next <;> simp [outlook, nextCursor, hphase]
  | @choose l s f hphase hframe =>
      refine .nothing ?_ rfl (by simp [outlook, nextCursor, hphase])
      unfold noted
      split <;> simp [DecodeEvent.noted?]
  | @miss l s hphase hframe =>
      refine .nothing ?_ rfl (by simp [outlook, nextCursor, hphase])
      unfold noted
      split <;> simp [DecodeEvent.noted?]
  | @awaitKey l s frame e decoder hphase hdecode hkey =>
      refine .nothing ?_ rfl (by simp [outlook, nextCursor, hphase])
      unfold noted
      split <;> simp [DecodeEvent.noted?]
  | exit hphase _ | check hphase _ | abandon hphase _ | lease hphase _ _ _ _ | park hphase _
  | unpark hphase _ | countSeeks hphase | readTime hphase | readCursor hphase
  | throttle hphase _ | evict hphase _ | starve hphase _ | breakOff hphase _ _
  | storeFlushed hphase _ | store hphase _ | advance hphase _ | keepCursor hphase _
  | finishSeek hphase _ _ | settle hphase _ | fail hphase =>
      refine .nothing (by simp [noted, DecodeEvent.noted?]) rfl ?_
      simp [outlook, nextCursor, *]

omit [Decoder D T] [LawfulMediaTime T] in
theorem atEnd_eq_true_iff {cursor : Option T} :
    atEnd settings duration cursor = true ↔
      ∃ dts d, cursor = some dts ∧ duration = some d ∧ d ≤ dts + settings.endDelta := by
  cases cursor <;> cases duration <;> simp [atEnd]

omit [Decoder D T] [LawfulMediaTime T] in
theorem outlook_of_seeksRead?_eq_none (hread : w.phase.seeksRead? = none) :
    w.outlook = w.cursor := by
  cases hphase : w.phase <;> simp_all [DecodePhase.seeksRead?, outlook, nextCursor]

omit [LawfulMediaTime T] in
theorem flushed_of_end? {l : DecodeLease D} {s : DecodeSnapshot T} {next : RoundEnd}
    (hphase : w.phase = .flushing l s) (hend : atEnd settings duration s.cursor = true)
    (hnext : (w.step settings time duration store).1.phase.end? = some next) :
    w.flushed = true := by
  by_contra hflushed
  simp [step, hphase, hend, hflushed, DecodePhase.end?] at hnext

end DecodeWorker

/-- A system together with a record of the flushes and the decoded frames since the last seek. -/
structure FlushLog (D T : Type) where
  system : DecodeSystem D T
  log : List (Option (EncodedFrame T))

namespace FlushLog

/-- Each flush of the log is due to the entries in front of it. -/
def FlushesDue (due : List (Option (EncodedFrame T)) → Prop)
    (log : List (Option (EncodedFrame T))) : Prop :=
  ∀ before after, log = before ++ none :: after → due before

theorem FlushesDue.concat {due : List (Option (EncodedFrame T)) → Prop}
    {log : List (Option (EncodedFrame T))} {c : Option (EncodedFrame T)}
    (hlog : FlushesDue due log) (hc : c = none → due log) : FlushesDue due (log ++ [c]) := by
  intro before after heq
  rcases List.eq_nil_or_concat after with rfl | ⟨rest, e, rfl⟩
  · obtain ⟨rfl, hnone⟩ := List.append_inj' heq rfl
    exact hc (List.singleton_inj.mp hnone)
  · have hsplit : log ++ [c] = (before ++ none :: rest) ++ [e] := by
      simpa using heq
    exact hlog before rest (List.append_inj' hsplit rfl).1

theorem eq_map_some_of_countP_eq_zero {log : List (Option (EncodedFrame T))}
    (hlog : log.countP Option.isNone = 0) : log = log.reduceOption.map some := by
  induction log with
  | nil => rfl
  | cons c log ih =>
      cases c with
      | none => simp at hlog
      | some f =>
          have hlater : log.countP Option.isNone = 0 := by simpa using hlog
          rw [List.reduceOption_cons_of_some, List.map_cons, ← ih hlater]

variable [MediaTime T]

/-- In front of a flush stands a frame that starts no more than the tolerance before the end of
the media as it was `known`. A flush in front of every frame goes back to a round from before the
seek, and after a `clean` seek there is no such round. -/
def IsDue (settings : PipelineSettings T) (clean : Prop) (known : T → Prop)
    (before : List (Option (EncodedFrame T))) : Prop :=
  (before = [] ∧ ¬ clean) ∨
    ∃ earlier f d, before = earlier ++ [some f] ∧ known d ∧ d ≤ f.dts + settings.endDelta

variable [Decoder D T]

def start (system : DecodeSystem D T) : FlushLog D T := ⟨system, []⟩

def act (settings : PipelineSettings T) (x : FlushLog D T) (a : DecodeAction D T) :
    FlushLog D T where
  system := (x.system.act settings a).1
  log := x.log ++ x.system.worker.noted (x.system.act settings a).2

def actAll (settings : PipelineSettings T) (x : FlushLog D T) (as : List (DecodeAction D T)) :
    FlushLog D T :=
  as.foldl (act settings) x

/-- The loop sleeps with this step because it has found no input and has nothing to flush. -/
structure Starves (settings : PipelineSettings T) (x : FlushLog D T) (time : T)
    (duration : Option T) : Prop where
  missed : x.system.worker.phase.isFlushing = true
  sleeps : (x.act settings (.step time duration)).system.worker.phase.end? =
    some (.sleep settings.noDataBackoff)

variable [LawfulMediaTime T] {settings : PipelineSettings T} {clean : Prop} {known : T → Prop}
  {x : FlushLog D T} {a : DecodeAction D T}

/-- The decoder has been flushed if and only if the flag says so. Once a frame is decoded, or from
a clean seek on, every round has begun since the seek, and the cursor stands at the last decoded
frame. -/
structure Recorded (settings : PipelineSettings T) (clean : Prop) (known : T → Prop)
    (x : FlushLog D T) : Prop where
  upToDate : x.system.worker.UpToDate
  flushes : x.log.countP Option.isNone = x.system.worker.flushed.toNat
  due : FlushesDue (IsDue settings clean known) x.log
  current : clean ∨ x.log.reduceOption ≠ [] →
    ∀ n ∈ x.system.worker.phase.seeksRead?, n = x.system.worker.seeks
  outlook : clean ∨ x.log.reduceOption ≠ [] →
    x.system.worker.outlook = x.log.reduceOption.getLast?.bind fun f => DecodeWorker.cursorAt f.dts

omit [LawfulMediaTime T] in
theorem act_call (settings : PipelineSettings T) (x : FlushLog D T)
    (hstep : ∀ time duration, a ≠ .step time duration) (hseek : a ≠ .seek) :
    (x.act settings a).log = x.log ∧
      (x.act settings a).system.worker.cursor = x.system.worker.cursor ∧
      (x.act settings a).system.worker.seeks = x.system.worker.seeks ∧
      (x.act settings a).system.worker.flushed = x.system.worker.flushed ∧
      (x.act settings a).system.worker.phase.snapshot? = x.system.worker.phase.snapshot? ∧
      (x.act settings a).system.worker.outlook = x.system.worker.outlook := by
  have hlog : x.log ++ x.system.worker.noted [] = x.log := List.append_nil _
  cases a with
  | step time duration => exact absurd rfl (hstep time duration)
  | seek => exact absurd rfl hseek
  | wake =>
      refine ⟨hlog, ?_⟩
      simp only [act, DecodeSystem.act, DecodeWorker.wake]
      split
      · next hphase =>
        simp [hphase, DecodePhase.snapshot?, DecodeWorker.outlook, DecodeWorker.nextCursor]
      · exact ⟨rfl, rfl, rfl, rfl, rfl⟩
  | mapRing f =>
      refine ⟨hlog, rfl, rfl, rfl, ?_, DecodeWorker.outlook_mapRing f⟩
      simp only [act, DecodeSystem.act, DecodeWorker.mapRing]
      cases x.system.worker.phase <;> rfl
  | _ => exact ⟨hlog, rfl, rfl, rfl, rfl, rfl⟩

omit [Decoder D T] [LawfulMediaTime T] in
theorem Recorded.cursor_of_flushing {l : DecodeLease D} {s : DecodeSnapshot T}
    (hx : x.Recorded settings clean known) (hphase : x.system.worker.phase = .flushing l s)
    (hlog : clean ∨ x.log.reduceOption ≠ []) :
    s.cursor = x.log.reduceOption.getLast?.bind fun f => DecodeWorker.cursorAt f.dts := by
  have hread : s.seeks = x.system.worker.seeks :=
    hx.current hlog s.seeks (by rw [hphase]; rfl)
  rw [hx.upToDate.cursor s (by rw [hphase]; rfl) hread, ← hx.outlook hlog]
  simp [DecodeWorker.outlook, DecodeWorker.nextCursor, hphase]

omit [Decoder D T] [LawfulMediaTime T] in
theorem Recorded.isDue {l : DecodeLease D} {s : DecodeSnapshot T} {d dts : T}
    (hx : x.Recorded settings clean known) (hphase : x.system.worker.phase = .flushing l s)
    (hflushed : x.system.worker.flushed = false) (hcursor : s.cursor = some dts) (hd : known d)
    (hend : d ≤ dts + settings.endDelta) : IsDue settings clean known x.log := by
  have hframes : x.log = x.log.reduceOption.map some := by
    refine eq_map_some_of_countP_eq_zero ?_
    rw [hx.flushes, hflushed]
    rfl
  rcases List.eq_nil_or_concat x.log.reduceOption with hnil | ⟨fs, f, hconcat⟩
  · left
    refine ⟨by rw [hframes, hnil, List.map_nil], fun hclean => ?_⟩
    have hnone := hx.cursor_of_flushing hphase (.inl hclean)
    simp [hnil, hcursor] at hnone
  · right
    refine ⟨fs.map some, f, d, by rw [hframes, hconcat]; simp, hd, ?_⟩
    have hlast := hx.cursor_of_flushing hphase (.inr (by simp [hconcat]))
    have hdts : dts = f.dts := by
      simp only [hcursor, hconcat, List.concat_eq_append, List.getLast?_concat, Option.bind_some,
        DecodeWorker.cursorAt] at hlast
      split_ifs at hlast
      exact Option.some_inj.mp hlast
    exact hdts ▸ hend

theorem Recorded.step {time : T} {duration : Option T} (hx : x.Recorded settings clean known)
    (hduration : ∀ d, duration = some d → known d) :
    (x.act settings (.step time duration)).Recorded settings clean known := by
  have hupToDate : (x.act settings (.step time duration)).system.worker.UpToDate :=
    hx.upToDate.step
  have hseeks : (x.act settings (.step time duration)).system.worker.seeks =
      x.system.worker.seeks := DecodeWorker.step_seeks
  have hread : ∀ n ∈ (x.act settings (.step time duration)).system.worker.phase.seeksRead?,
      n = x.system.worker.seeks ∨ x.system.worker.phase.seeksRead? = some n :=
    fun n hn => DecodeWorker.seeksRead?_step hn
  have hlog : (x.act settings (.step time duration)).log =
      x.log ++ x.system.worker.noted (x.system.act settings (.step time duration)).2 := rfl
  have hkeep : clean ∨ x.log.reduceOption ≠ [] →
      ∀ n ∈ (x.act settings (.step time duration)).system.worker.phase.seeksRead?,
        n = (x.act settings (.step time duration)).system.worker.seeks := by
    intro hcurrent n hn
    rw [hseeks]
    exact (hread n hn).elim id (hx.current hcurrent n)
  have hnotes : x.system.worker.Notes settings duration
      (x.system.worker.step settings time duration x.system.store).1
      (x.system.worker.step settings time duration x.system.store).2.2 := hx.upToDate.notes_step
  cases hnotes with
  | nothing hnoted hflushed houtlook =>
      rw [DecodeSystem.act, hnoted, List.append_nil] at hlog
      refine ⟨hupToDate, ?_, ?_, ?_, ?_⟩ <;> rw [hlog]
      · exact hx.flushes.trans (congrArg Bool.toNat hflushed.symm)
      · exact hx.due
      · exact hkeep
      · exact fun hcurrent => houtlook.trans (hx.outlook hcurrent)
  | flush hnoted hphase hend hbefore hflushed houtlook =>
      obtain ⟨dts, d, hcursor, hd, hreached⟩ := DecodeWorker.atEnd_eq_true_iff.mp hend
      have hdue : IsDue settings clean known x.log :=
        hx.isDue hphase hbefore hcursor (hduration d hd) hreached
      rw [DecodeSystem.act, hnoted] at hlog
      have hframes : (x.log ++ [none]).reduceOption = x.log.reduceOption := by
        simp [List.reduceOption_append]
      refine ⟨hupToDate, ?_, ?_, ?_, ?_⟩ <;> rw [hlog]
      · have hafter : (x.act settings (.step time duration)).system.worker.flushed = true :=
          hflushed
        rw [List.countP_append, hx.flushes, hbefore, hafter]
        rfl
      · exact hx.due.concat fun _ => hdue
      · rw [hframes]
        exact hkeep
      · rw [hframes]
        exact fun hcurrent => houtlook.trans (hx.outlook hcurrent)
  | @frame f hnoted hflushed houtlook hcurrent =>
      rw [DecodeSystem.act, hnoted] at hlog
      refine ⟨hupToDate, ?_, ?_, ?_, ?_⟩ <;> rw [hlog]
      · rw [List.countP_append, hx.flushes]
        exact congrArg Bool.toNat hflushed.symm
      · exact hx.due.concat (by simp)
      · intro _ n hn
        exact Option.some_inj.mp (hn.symm.trans hcurrent)
      · intro _
        have hlast : (x.log ++ [some f]).reduceOption.getLast? = some f := by
          simp [List.reduceOption_append]
        rw [hlast]
        exact houtlook

theorem Recorded.act (hx : x.Recorded settings clean known) (hseek : a ≠ .seek)
    (hknown : ∀ time d, a = .step time (some d) → known d) :
    (x.act settings a).Recorded settings clean known := by
  by_cases hstep : ∃ time duration, a = .step time duration
  · obtain ⟨time, duration, rfl⟩ := hstep
    exact hx.step fun d hd => hknown time d (by rw [hd])
  · push Not at hstep
    obtain ⟨hlog, hcursor, hseeks, hflushed, hsnapshot, houtlook⟩ :=
      x.act_call settings hstep hseek
    have hread : (x.act settings a).system.worker.phase.seeksRead? =
        x.system.worker.phase.seeksRead? := (DecodeSystem.round_act hstep).2.1
    refine ⟨?_, ?_, ?_, ?_, ?_⟩
    · exact hx.upToDate.keep hcursor hseeks fun s hs => .inl (hsnapshot ▸ hs)
    · rw [hlog, hflushed]
      exact hx.flushes
    · rw [hlog]
      exact hx.due
    · rw [hlog, hseeks]
      exact fun hcurrent n hn => hx.current hcurrent n (hread.symm.trans hn)
    · rw [hlog, houtlook]
      exact hx.outlook

theorem Recorded.actAll {as : List (DecodeAction D T)} (hx : x.Recorded settings clean known)
    (has : ∀ a ∈ as, a ≠ .seek) (hknown : ∀ time d, .step time (some d) ∈ as → known d) :
    (x.actAll settings as).Recorded settings clean known := by
  induction as generalizing x with
  | nil => exact hx
  | cons a as ih =>
      obtain ⟨ha, hlater⟩ := List.forall_mem_cons.mp has
      have hx' : (x.act settings a).Recorded settings clean known :=
        hx.act ha fun time d heq => hknown time d (heq ▸ List.mem_cons_self)
      exact ih hx' hlater fun time d hmem => hknown time d (List.mem_cons_of_mem a hmem)

/-- Nothing has been decoded since the start or the last seek, which may come at any moment. -/
inductive Rewound (settings : PipelineSettings T) : DecodeSystem D T → Prop
  | start (store : BufferStore T) : Rewound settings ⟨.new, store⟩
  | seek (store : BufferStore T) (past : List (DecodeAction D T)) :
    Rewound settings ((DecodeSystem.actAll settings ⟨.new, store⟩ past).act settings .seek).1

omit [LawfulMediaTime T] in
theorem Rewound.recorded {system : DecodeSystem D T} (hsystem : Rewound settings system) :
    (FlushLog.start system).Recorded settings (system.worker.phase.seeksRead? = none) known := by
  have hdue : FlushesDue (IsDue settings (system.worker.phase.seeksRead? = none) known) [] := by
    simp [FlushesDue]
  have hcurrent : system.worker.phase.seeksRead? = none ∨
      ([] : List (Option (EncodedFrame T))).reduceOption ≠ [] →
        system.worker.phase.seeksRead? = none := by
    simp [List.reduceOption]
  have hcursor : system.worker.cursor = none := by
    cases hsystem <;> rfl
  refine ⟨⟨?_, ?_⟩, ?_, hdue, ?_, ?_⟩
  · simp [FlushLog.start, hcursor]
  · intro s hs hseeks
    cases hsystem with
    | start store => cases hs
    | seek store past =>
        -- A round that is under way has read an earlier count of seeks.
        have hread := DecodePhase.seeksRead?_of_snapshot? hs
        have hle : s.seeks ≤ (DecodeSystem.actAll settings ⟨.new, store⟩ past).worker.seeks :=
          DecodeSystem.seeksRead?_le rfl hread
        exact absurd (hseeks ▸ hle) (Nat.not_succ_le_self _)
  · cases hsystem <;> rfl
  · intro hclean n hn
    exact absurd ((hcurrent hclean).symm.trans hn) nofun
  · intro hclean
    exact (DecodeWorker.outlook_of_seeksRead?_eq_none (hcurrent hclean)).trans hcursor

omit [LawfulMediaTime T] in
theorem system_actAll (as : List (DecodeAction D T)) :
    (x.actAll settings as).system = x.system.actAll settings as := by
  induction as generalizing x with
  | nil => rfl
  | cons a as ih => exact ih (x := x.act settings a)

/-- A log that ends with the decoded frame `f` and the flushes since. -/
structure EndsWith (x : FlushLog D T) (before : List (Option (EncodedFrame T)))
    (f : EncodedFrame T) (after : List (Option (EncodedFrame T))) : Prop where
  log : x.log = before ++ some f :: after
  flushes : ∀ c ∈ after, c = none

omit [MediaTime T] [Decoder D T] [LawfulMediaTime T] in
theorem EndsWith.reduceOption {before after : List (Option (EncodedFrame T))}
    {f : EncodedFrame T} (hlog : x.EndsWith before f after) :
    x.log.reduceOption = before.reduceOption ++ [f] := by
  have hafter : after.reduceOption = [] := by
    simpa [List.reduceOption, List.filterMap_eq_nil_iff] using hlog.flushes
  rw [hlog.log, List.reduceOption_append, List.reduceOption_cons_of_some, hafter]

omit [MediaTime T] [Decoder D T] [LawfulMediaTime T] in
theorem EndsWith.countP {before after : List (Option (EncodedFrame T))} {f : EncodedFrame T}
    (hlog : x.EndsWith before f after) :
    x.log.countP Option.isNone = before.countP Option.isNone + after.length := by
  have hafter : after.countP Option.isNone = after.length :=
    List.countP_eq_length.mpr fun c hc => by simp [hlog.flushes c hc]
  rw [hlog.log, List.countP_append, List.countP_cons_of_neg (by simp), hafter]

theorem Recorded.flushed_of_starves {time d : T} {f : EncodedFrame T}
    {before after : List (Option (EncodedFrame T))} (hx : x.Recorded settings clean known)
    (hlog : x.EndsWith before f after) (hf : IsNumber f.dts) (hend : d ≤ f.dts + settings.endDelta)
    (hstarves : x.Starves settings time (some d)) : x.system.worker.flushed = true := by
  obtain ⟨l, s, hphase⟩ : ∃ l s, x.system.worker.phase = .flushing l s := by
    have hmissed := hstarves.missed
    unfold DecodePhase.isFlushing at hmissed
    split at hmissed
    · next l s hphase => exact ⟨l, s, hphase⟩
    · cases hmissed
  have hcursor : s.cursor = some f.dts := by
    rw [hx.cursor_of_flushing hphase (.inr (by simp [hlog.reduceOption])), hlog.reduceOption]
    simp [DecodeWorker.cursorAt, isNaN_eq_false_iff.mpr hf]
  refine DecodeWorker.flushed_of_end? hphase ?_ hstarves.sleeps
  exact DecodeWorker.atEnd_eq_true_iff.mpr ⟨f.dts, d, hcursor, rfl, hend⟩

/-- From the start or a seek to the next seek the decoder is flushed at most once: right behind a
frame that starts no more than the tolerance before the end as it is known then, or in front of all
frames, but that only if the seek has met a round under way.

When the loop goes to sleep for lack of input, the decoder has been flushed if the last decoded
frame starts no more than the tolerance before the end. Unless the end has moved away meanwhile, it
has been flushed since that frame if and only if the frame does so and the decoder was not flushed
before it. -/
theorem tail_flushed_iff {system : DecodeSystem D T} (hsystem : Rewound settings system)
    {as : List (DecodeAction D T)} (has : ∀ a ∈ as, a ≠ .seek) :
    let x := (start system).actAll settings as
    x.system = system.actAll settings as ∧ x.log.countP Option.isNone ≤ 1 ∧
      (∀ before after, x.log = before ++ none :: after →
        (before = [] ∧ system.worker.phase.seeksRead? ≠ none) ∨
          ∃ earlier f d, before = earlier ++ [some f] ∧ (∃ time, .step time (some d) ∈ as) ∧
            d ≤ f.dts + settings.endDelta) ∧
      ∀ time d before f after, x.EndsWith before f after → IsNumber f.dts →
        x.Starves settings time (some d) →
          (d ≤ f.dts + settings.endDelta → x.log.countP Option.isNone = 1) ∧
          ((∀ time' d', .step time' (some d') ∈ as → d ≤ d') →
            (after = [none] ↔ none ∉ before ∧ d ≤ f.dts + settings.endDelta)) := by
  intro x
  have hx : x.Recorded settings (system.worker.phase.seeksRead? = none)
      fun d => ∃ time, .step time (some d) ∈ as :=
    hsystem.recorded.actAll has fun time d hmem => ⟨time, hmem⟩
  have hatMost : x.log.countP Option.isNone ≤ 1 := by
    rw [hx.flushes]
    exact Bool.toNat_le _
  refine ⟨system_actAll as, hatMost, hx.due, ?_⟩
  intro time d before f after hlog hf hstarves
  have hone : d ≤ f.dts + settings.endDelta → x.log.countP Option.isNone = 1 := by
    intro hend
    rw [hx.flushes, hx.flushed_of_starves hlog hf hend hstarves]
    rfl
  have hsum : x.log.countP Option.isNone = before.countP Option.isNone + after.length :=
    hlog.countP
  refine ⟨hone, fun hknown => ⟨?_, ?_⟩⟩
  · rintro rfl
    have hbefore : before.countP Option.isNone = 0 := by
      rw [List.length_singleton] at hsum
      omega
    refine ⟨fun hmem => List.countP_eq_zero.mp hbefore none hmem rfl, ?_⟩
    have hsplit : x.log = (before ++ [some f]) ++ none :: [] := by
      rw [hlog.log, List.append_assoc]
      rfl
    obtain ⟨hnil, -⟩ | ⟨earlier, g, d', hconcat, ⟨time', hstep⟩, hend⟩ := hx.due _ _ hsplit
    · simp at hnil
    · obtain rfl : f = g := by simpa using (List.append_inj' hconcat rfl).2
      exact le_trans (hknown time' d' hstep) hend
  · rintro ⟨hbefore, hend⟩
    have hnone : before.countP Option.isNone = 0 := by
      refine List.countP_eq_zero.mpr fun c hc hempty => hbefore ?_
      exact Option.isNone_iff_eq_none.mp hempty ▸ hc
    have hlength : after.length = 1 := by
      have htotal := hone hend
      omega
    obtain ⟨c, rfl⟩ := List.length_eq_one_iff.mp hlength
    rw [hlog.flushes c (by simp)]

/-! ## Tails that are not flushed -/

def frameOf (dts duration : Float) : EncodedFrame Float :=
  { DecodeLedger.picture dts true with duration }

def storeOf (frames : List (EncodedFrame Float)) : BufferStore Float :=
  (BufferStore.new 1).editEncoded 0 (·.addAll frames)

def steps (duration : Float) (n : Nat) : List (DecodeAction (PassThrough Float) Float) :=
  List.replicate n (.step 0 (some duration))

/-- A decoder is installed and the loop makes `n` steps. -/
def play (duration : Float) (n : Nat) : List (DecodeAction (PassThrough Float) Float) :=
  .attach 0 0 :: .setDecoder (some {}) :: steps duration n

theorem not_seek_steps {duration : Float} {n : Nat} : ∀ a ∈ steps duration n, a ≠ .seek := by
  intro a ha
  rw [List.eq_of_mem_replicate ha]
  exact nofun

theorem not_seek_play {duration : Float} {n : Nat} : ∀ a ∈ play duration n, a ≠ .seek := by
  intro a ha
  rcases List.mem_cons.mp ha with rfl | ha
  · exact nofun
  · rcases List.mem_cons.mp ha with rfl | ha
    · exact nofun
    · exact not_seek_steps a ha

/-- One short frame, in media of a tenth of a second. -/
def shortSystem : DecodeSystem (PassThrough Float) Float := ⟨.new, storeOf [frameOf 0 0.05]⟩

/-- After thirty steps the only frame is decoded, the decoder is flushed since it starts within the
tolerance, and the loop has looked for another frame. -/
theorem tail_flushed_iff_play :
    let x := (start shortSystem).actAll .default (play 0.1 30)
    x.log = [some (frameOf 0 0.05), none] ∧ x.log.countP Option.isNone = 1 ∧
      0.1 ≤ (frameOf 0 0.05).dts + PipelineSettings.default.endDelta := by
  intro x
  have hstart : Rewound .default shortSystem := .start _
  have hrun : ∀ a ∈ play 0.1 30, a ≠ .seek := not_seek_play
  obtain ⟨-, -, -, hflushed⟩ := tail_flushed_iff hstart hrun
  have hlog : x.EndsWith [] (frameOf 0 0.05) [none] := ⟨by decide +kernel, by simp⟩
  have hstarves : x.Starves .default 0 (some 0.1) := ⟨by decide +kernel, by decide +kernel⟩
  have hdts : IsNumber (frameOf 0 0.05).dts := isNaN_eq_false_iff.mp (by decide +kernel)
  have hknown : ∀ time d, .step time (some d) ∈ play 0.1 30 → 0.1 ≤ d := by
    intro time d hmem
    obtain ⟨-, rfl⟩ : time = 0 ∧ d = 0.1 := by simpa [play, steps] using hmem
    exact isNaN_eq_false_iff.mp (by decide +kernel)
  obtain ⟨hone, hsince⟩ := hflushed 0 0.1 [] (frameOf 0 0.05) [none] hlog hdts hstarves
  exact ⟨hlog.log, hone (by decide +kernel), ((hsince hknown).mp rfl).2⟩

/-- Whenever the last frame of the input is decoded, ends no more than the tolerance before the end
of the media and the loop sleeps for lack of input, the decoder has been flushed once since. -/
def FlushesTail (system : DecodeSystem (PassThrough Float) Float) : Prop :=
  ∀ run : List (DecodeAction (PassThrough Float) Float), (∀ a ∈ run, a ≠ .seek) →
    ∀ time d before f after,
      let x := (start system).actAll .default run
      x.EndsWith before f after → (x.system.store.encodedAt 0).toList.getLast? = some f →
        d - PipelineSettings.default.endDelta ≤ f.pts + f.duration →
        x.Starves .default time (some d) → after.countP Option.isNone = 1

/-- Two frames of half a second fill media of one second, and nothing is flushed. -/
theorem longFrame_unflushed :
    ¬ FlushesTail ⟨.new, storeOf [frameOf 0 0.5, frameOf 0.5 0.5]⟩ := by
  intro hflushed
  have hnone := hflushed (play 1 31) not_seek_play 0 1 [some (frameOf 0 0.5)]
    (frameOf 0.5 0.5) [] ⟨by decide +kernel, by simp⟩ (by decide +kernel) (by decide +kernel)
    ⟨by decide +kernel, by decide +kernel⟩
  exact absurd hnone (by decide)

/-- The seek comes when the round after the only frame has found no other: that round flushes the
decoder, and the frame is then decoded anew without a flush. -/
theorem staleRound_unflushed :
    ¬ FlushesTail ((shortSystem.actAll .default (play 0.1 19)).act .default .seek).1 := by
  intro hflushed
  have hnone := hflushed (steps 0.1 23) not_seek_steps 0 0.1 [none] (frameOf 0 0.05) []
    ⟨by decide +kernel, by simp⟩ (by decide +kernel) (by decide +kernel)
    ⟨by decide +kernel, by decide +kernel⟩
  exact absurd hnone (by decide)

end FlushLog

end MediaPipeline
