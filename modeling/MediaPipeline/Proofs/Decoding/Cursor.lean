import MediaPipeline.Proofs.Decoding.Runs

/-!
# The cursor after a seek

A seek clears the cursor, and a round moves the cursor on only if it still is what the round has
read. That comparison cannot tell a cursor that was cleared meanwhile from one that was not set
before: a round that started over, has stored its frames and is then met by a seek moves the cursor
all the same, and the next round goes on from there instead of starting over.
-/

namespace MediaPipeline

variable {D T : Type} [MediaTime T]

namespace DecodePhase

/-- What a round that has not chosen its frame has read. -/
def undecided? : DecodePhase D T → Option (DecodeSnapshot T)
  | throttling _ s | choosing _ s => some s
  | _ => none

/-- The count of seeks that the round had read which has handed a frame to the decoder. -/
def handed? : DecodePhase D T → Option Nat
  | decoding _ s (some _) | storing _ s (some _) _ | advancing _ s _ _ | settling _ s _ =>
    some s.seeks
  | _ => none

omit [MediaTime T] in
theorem seeksRead?_of_undecided? {p : DecodePhase D T} {s : DecodeSnapshot T}
    (hs : p.undecided? = some s) : p.seeksRead? = some s.seeks := by
  cases p <;> simp_all [undecided?, seeksRead?]

end DecodePhase

namespace DecodeWorker

/-- The cursor as the round under way leaves it, if it stores nothing any more. -/
def nextCursor (w : DecodeWorker D T) : Option T :=
  match w.phase with
  | .advancing _ s f _ => if w.cursor == s.cursor then cursorAt f.dts else w.cursor
  | _ => w.cursor

/-- The round under way has stored its frames, started from a cursor that was not set, and is about
to set it. -/
def OverwritesReset (w : DecodeWorker D T) : Prop :=
  ∃ l s f reached, w.phase = .advancing l s f reached ∧ s.cursor = none ∧ cursorAt f.dts ≠ none

theorem nextCursor_onSeek_eq_none_iff (w : DecodeWorker D T) (store : BufferStore T) :
    (w.onSeek store).1.nextCursor = none ↔ ¬ w.OverwritesReset := by
  unfold OverwritesReset nextCursor onSeek
  cases hphase : w.phase with
  | advancing l s f reached =>
      cases hcursor : s.cursor with
      | none => simp [hcursor]
      | some dts => simp [hcursor]
  | _ => simp

variable [Decoder D T] {settings : PipelineSettings T} {time : T} {duration : Option T}
  {w : DecodeWorker D T} {store : BufferStore T} {s : DecodeSnapshot T}

/-- Only a round that has handed a frame to the decoder since the last seek changes what the next
round will find. -/
theorem nextCursor_step (hstale : w.phase.handed? ≠ some w.seeks) :
    (w.step settings time duration store).1.nextCursor = w.nextCursor := by
  have hstep := steps_step settings time duration w store
  generalize w.step settings time duration store = r at hstep ⊢
  cases hstep with
  | rest _ => rfl
  | @store l s f decoded hphase hseeks =>
      -- From here on the round may set the cursor.
      rw [hphase, hseeks] at hstale
      exact absurd rfl hstale
  | advance hphase hcursor => simp [nextCursor, hphase, hcursor]
  | keepCursor hphase hcursor => simp [nextCursor, hphase, hcursor]
  | @giveBack l next hphase => cases next <;> simp [nextCursor, hphase]
  | exit hphase _ | check hphase _ | abandon hphase _ | lease hphase _ _ _ _ | park hphase _
  | unpark hphase _ | countSeeks hphase | readTime hphase | readCursor hphase
  | throttle hphase _ | evict hphase _ | choose hphase _ | miss hphase _ | starve hphase _
  | flush hphase _ _ | decode hphase _ | awaitKey hphase _ _ | breakOff hphase _ _
  | discard hphase _ | storeFlushed hphase _ | finishSeek hphase _ _ | settle hphase _
  | fail hphase => simp only [nextCursor, hphase]

theorem undecided?_step
    (hs : (w.step settings time duration store).1.phase.undecided? = some s) :
    s.cursor = w.nextCursor ∨ w.phase.undecided? = some s := by
  have hstep := steps_step settings time duration w store
  generalize w.step settings time duration store = r at hstep hs
  cases hstep with
  | readCursor hphase =>
      cases hs
      left
      simp only [nextCursor, hphase]
  | evict hphase _ =>
      cases hs
      exact Or.inr (by rw [hphase]; rfl)
  | rest _ => exact Or.inr hs
  | @giveBack l next hphase => cases next <;> cases hs
  | _ => cases hs

theorem events_choosing {l : DecodeLease D} (hphase : w.phase = .choosing l s) :
    (w.step settings time duration store).2.2 =
      (if s.cursor.isNone then [.reset] else []) ++
        ((chooseFrame (store.encodedAt l.input) s).map fun f => .decode (some f)).toList := by
  have hinput :
      (if s.cursor.isNone then { l with decoder := Decoder.reset l.decoder } else l).input =
        l.input := restart_input l s
  simp only [step, hphase, hinput]
  cases chooseFrame (store.encodedAt l.input) s <;> simp

end DecodeWorker

namespace DecodeSystem

variable [Decoder D T] {settings : PipelineSettings T} {x : DecodeSystem D T}
  {a : DecodeAction D T} {n : Nat} {cursor : Option T}

/-- After `n` seeks every round that is still to choose its frame goes by this cursor. -/
structure GoesBy (x : DecodeSystem D T) (n : Nat) (cursor : Option T) : Prop where
  seeks : x.worker.seeks = n
  next : x.worker.nextCursor = cursor
  undecided : ∀ s, x.worker.phase.undecided? = some s → s.seeks = n → s.cursor = cursor

theorem GoesBy.act (hx : x.GoesBy n cursor) (ha : a ≠ .seek)
    (hstale : x.worker.phase.handed? ≠ some n) : (x.act settings a).1.GoesBy n cursor := by
  cases a with
  | step time duration =>
      rw [← hx.seeks] at hstale
      refine ⟨DecodeWorker.step_seeks.trans hx.seeks,
        (DecodeWorker.nextCursor_step hstale).trans hx.next, ?_⟩
      intro s hs hseeks
      rcases DecodeWorker.undecided?_step hs with hcursor | hs
      · exact hcursor.trans hx.next
      · exact hx.undecided s hs hseeks
  | seek => exact absurd rfl ha
  | wake =>
      simp only [DecodeSystem.act, DecodeWorker.wake]
      split
      · next hphase =>
        refine ⟨hx.seeks, ?_, ?_⟩
        · simpa [DecodeWorker.nextCursor, hphase] using hx.next
        · intro s hs
          cases hs
      · exact hx
  | mapRing f =>
      obtain ⟨hseeks, hnext, hundecided⟩ := hx
      refine ⟨hseeks, ?_, ?_⟩
      all_goals
        simp only [DecodeSystem.act, DecodeWorker.mapRing, DecodeWorker.nextCursor] at hnext ⊢
        cases hphase : x.worker.phase <;> rw [hphase] at hnext hundecided <;> assumption
  | _ => exact ⟨hx.seeks, hx.next, hx.undecided⟩

/-- After `future`, without a further seek, a round that has begun since is about to choose its
frame, and no such round has handed one to the decoder before. -/
structure FirstChoice (settings : PipelineSettings T) (x : DecodeSystem D T)
    (future : List (DecodeAction D T)) : Prop where
  no_seek : ∀ a ∈ future, a ≠ .seek
  first : ∀ earlier, earlier <+: future →
    (x.actAll settings earlier).worker.phase.handed? ≠ some x.worker.seeks
  choosing : ∃ l s, (x.actAll settings future).worker.phase = .choosing l s ∧
    s.seeks = x.worker.seeks

/-- A run of steps has no other prefixes than shorter ones. -/
theorem firstChoice_replicate {time : T} {duration : Option T} {k : Nat}
    (hfirst : ∀ n ≤ k, (x.actAll settings
      (List.replicate n (.step time duration))).worker.phase.handed? ≠ some x.worker.seeks)
    (hchoosing : ∃ l s, (x.actAll settings
      (List.replicate k (.step time duration))).worker.phase = .choosing l s ∧
        s.seeks = x.worker.seeks) :
    x.FirstChoice settings (List.replicate k (.step time duration)) where
  no_seek := by
    intro a ha
    rw [List.eq_of_mem_replicate ha]
    nofun
  first := by
    intro earlier hearlier
    have hsteps : earlier = List.replicate earlier.length (.step time duration) :=
      List.eq_replicate_of_mem fun a ha => List.eq_of_mem_replicate (hearlier.subset ha)
    have hlength : earlier.length ≤ k := by simpa using hearlier.length_le
    rw [hsteps]
    exact hfirst earlier.length hlength
  choosing := hchoosing

theorem GoesBy.actAll {future : List (DecodeAction D T)} (hx : x.GoesBy n cursor)
    (hseek : ∀ a ∈ future, a ≠ .seek)
    (hfirst : ∀ earlier, earlier <+: future →
      (x.actAll settings earlier).worker.phase.handed? ≠ some n) :
    (x.actAll settings future).GoesBy n cursor := by
  induction future generalizing x with
  | nil => exact hx
  | cons a as ih =>
      obtain ⟨ha, hlater⟩ := List.forall_mem_cons.mp hseek
      refine ih (hx.act ha (hfirst [] List.nil_prefix)) hlater ?_
      intro earlier hearlier
      exact hfirst (a :: earlier) (List.cons_prefix_cons.mpr ⟨rfl, hearlier⟩)

/-- The next step resets the decoder and hands it the key frame at the time that was read or before
it, if there is one. -/
def StartsOver (settings : PipelineSettings T) (x : DecodeSystem D T) : Prop :=
  ∃ l s, x.worker.phase = .choosing l s ∧ ∀ time duration,
    (x.act settings (.step time duration)).2 =
      .reset :: (((x.store.encodedAt l.input).getFrame s.time .keyFrameBefore).map
        fun f => .decode (some f)).toList

theorem startsOver_iff_cursor_eq_none {l : DecodeLease D} {s : DecodeSnapshot T}
    (hphase : x.worker.phase = .choosing l s) : x.StartsOver settings ↔ s.cursor = none := by
  constructor
  · rintro ⟨l', s', hphase', hreset⟩
    cases hcursor : s.cursor with
    | none => rfl
    | some dts =>
        have hstep := hreset 0 none
        simp only [act, DecodeWorker.events_choosing hphase, hcursor] at hstep
        cases hframe : DecodeWorker.chooseFrame (x.store.encodedAt l.input) s <;>
          simp [hframe] at hstep
  · intro hcursor
    refine ⟨l, s, hphase, ?_⟩
    intro time duration
    simp [act, DecodeWorker.events_choosing hphase, DecodeWorker.chooseFrame, hcursor]

/-- The first frame that is chosen in a round after a seek is the key frame to start over from,
with the decoder reset, exactly if the seek did not come between the storing of a round that had
started over and its setting of the cursor. -/
theorem FirstChoice.startsOver_iff (hbetween : x.worker.phase.lease? = none)
    {past future : List (DecodeAction D T)}
    (hfirst : ((x.actAll settings past).act settings .seek).1.FirstChoice settings future) :
    (((x.actAll settings past).act settings .seek).1.actAll settings future).StartsOver settings ↔
      ¬ (x.actAll settings past).worker.OverwritesReset := by
  obtain ⟨l, s, hphase, hseeks⟩ := hfirst.choosing
  rw [startsOver_iff_cursor_eq_none hphase,
    ← DecodeWorker.nextCursor_onSeek_eq_none_iff _ (x.actAll settings past).store]
  have hsought : ((x.actAll settings past).act settings .seek).1.GoesBy
      ((x.actAll settings past).act settings .seek).1.worker.seeks
      ((x.actAll settings past).act settings .seek).1.worker.nextCursor := by
    refine ⟨rfl, rfl, ?_⟩
    -- A round under way has not counted this seek.
    intro s hs hcount
    have hread : s.seeks ≤ (x.actAll settings past).worker.seeks :=
      seeksRead?_le hbetween (DecodePhase.seeksRead?_of_undecided? hs)
    exact absurd (hcount ▸ hread) (Nat.not_succ_le_self _)
  have hchoice := hsought.actAll hfirst.no_seek hfirst.first
  rw [hchoice.undecided s (by rw [hphase]; rfl) hseeks]
  rfl

/-! ## A seek that is lost -/

/-- Nine steps take the first round to the setting of the cursor. Nine more take the loop to the
choice of the second round. -/
theorem firstChoice_steps :
    ((oneFrameSystem.actAll .default (steps 9)).act .default .seek).1.FirstChoice .default
      (steps 9) :=
  firstChoice_replicate (by decide +kernel) ⟨_, _, rfl, rfl⟩

theorem startsOver_iff_oneFrameSystem :
    (((oneFrameSystem.actAll .default (steps 9)).act .default .seek).1.actAll .default
        (steps 9)).StartsOver .default ↔
      ¬ (oneFrameSystem.actAll .default (steps 9)).worker.OverwritesReset :=
  FirstChoice.startsOver_iff rfl firstChoice_steps

/-- The second round goes on from the frame that was decoded before the seek. -/
theorem seek_lost :
    ¬ ∀ past future : List (DecodeAction (PassThrough Float) Float),
      ((oneFrameSystem.actAll .default past).act .default .seek).1.FirstChoice .default future →
        (((oneFrameSystem.actAll .default past).act .default .seek).1.actAll .default
          future).StartsOver .default := by
  intro hreset
  obtain ⟨l, s, hphase, hevents⟩ := hreset (steps 9) (steps 9) firstChoice_steps
  have hfirst : ((((oneFrameSystem.actAll .default (steps 9)).act .default .seek).1.actAll .default
      (steps 9)).act .default (.step 0 none)).2.head? = some .reset :=
    congrArg List.head? (hevents 0 none)
  exact absurd hfirst (by decide +kernel)

end DecodeSystem

end MediaPipeline
