import MediaPipeline.Proofs.Decoding.Runs
import MediaPipeline.Proofs.FrameBuffer.Numbered

/-!
# What the output holds after a seek

A round reads the count of seeks before it looks for a frame, and stores what it has decoded only
if the count is still the same, under the lock that a seek holds to clear the output. Whatever was
decoded by a call that had begun before a seek is therefore never in the output after it.

To tell the frames of one call from those of another, the calls are counted, and the frames that
the output holds carry the number of the call that returned them.
-/

namespace MediaPipeline

variable {D T : Type} [MediaTime T] [Decoder D T]

/-! ## What an action does to one output -/

/-- The edits that a step makes to the output of its lease. -/
def DecodeWorker.stepEdits (settings : PipelineSettings T) (w : DecodeWorker D T)
    (store : BufferStore T) : List (BufferEdit (DecodedFrame T) T) :=
  match w.phase with
  | .throttling l s =>
    if settings.decodeBufferAhead <
        TimeRange.bufferedAhead (store.decodedAt l.output).ranges s.time then []
    else if 0 < s.time - settings.evictionBehind then
      [.remove MediaTime.negInf (s.time - settings.evictionBehind)]
    else []
  | .storing _ s _ decoded => if w.seeks = s.seeks then decoded.map .add else []
  | _ => []

namespace DecodeSystem

variable (settings : PipelineSettings T) (o : Nat) (x : DecodeSystem D T)

/-- The edits that an action makes to the raw buffer `o`. -/
def outputEdits : DecodeAction D T → List (BufferEdit (DecodedFrame T) T)
  | .step _ _ =>
    if x.worker.phase.output? = some o then x.worker.stepEdits settings x.store else []
  | .seek => if x.worker.inputs.output = some o then [.clear] else []
  | .editDecoded i edit => if i = o then [edit] else []
  | _ => []

def returns : DecodeAction D T → List (DecodedFrame T)
  | .step _ _ =>
    match x.worker.phase with
    | .decoding l _ frame =>
      match (Decoder.decode l.decoder frame l.ring).1 with
      | .ok decoded => decoded
      | .error _ => []
    | _ => []
  | _ => []

end DecodeSystem

/-- A system together with a record of where the frames of its output come from. -/
structure RecordedSystem (D T : Type) where
  system : DecodeSystem D T
  calls : Nat
  /-- What the calls have returned; a frame has the number of its call. -/
  returned : List (Numbered (DecodedFrame T))
  /-- What the output holds, in the same way. -/
  shown : FrameBuffer (Numbered (DecodedFrame T)) T

namespace RecordedSystem

variable (settings : PipelineSettings T) (o : Nat)

/-- The worker makes one call at a time, so the last one begun is the one that returns. -/
def act (x : RecordedSystem D T) (a : DecodeAction D T) : RecordedSystem D T where
  system := (x.system.act settings a).1
  calls := x.calls + (x.system.act settings a).2.countP DecodeEvent.isCall
  returned := x.returned ++ (x.system.returns a).map (Numbered.mk x.calls)
  shown := x.shown.editAll ((x.system.outputEdits settings o a).map (.map (Numbered.mk x.calls)))

def actAll (x : RecordedSystem D T) (as : List (DecodeAction D T)) : RecordedSystem D T :=
  as.foldl (act settings o) x

end RecordedSystem

/-- The action leaves the output `o` attached, and nothing but the loop adds to it. -/
def DecodeAction.Keeps (o : Nat) : DecodeAction D T → Prop
  | .attach _ output => output = o
  | .detach => False
  | .editDecoded i (.add _) => i ≠ o
  | _ => True

/-! ## The record is faithful -/

namespace BufferStore

omit [MediaTime T] in
theorem decodedAt_editDecoded (s : BufferStore T) {i : Nat} (j : Nat)
    (f : DecodedBuffer T → DecodedBuffer T) (hi : i < s.decoded.length) :
    (s.editDecoded j f).decodedAt i = if j = i then f (s.decodedAt i) else s.decodedAt i := by
  simp only [decodedAt, editDecoded, List.getD_eq_getElem?_getD, List.getElem?_modify]
  rw [List.getElem?_eq_getElem hi]
  split_ifs <;> simp [*]

end BufferStore

namespace DecodeWorker

variable {settings : PipelineSettings T} {time : T} {duration : Option T} {w : DecodeWorker D T}
  {store : BufferStore T} {o : Nat}

theorem decodedAt_step (ho : o < store.decoded.length) :
    (w.step settings time duration store).2.1.decodedAt o =
      (store.decodedAt o).editAll
        (if w.phase.output? = some o then w.stepEdits settings store else []) := by
  have hstep := steps_step settings time duration w store
  generalize w.step settings time duration store = r at hstep ⊢
  cases hstep with
  | rest hrest => simp [DecodePhase.output?, (between_of_rest hrest).1]
  | throttle hphase hahead => simp [hphase, stepEdits, hahead]
  | @evict l s hphase hahead =>
      rw [BufferStore.decodedAt_editDecoded _ _ _ ho]
      rw [hphase]
      by_cases hlo : l.output = o
      · subst hlo
        by_cases hbefore : 0 < s.time - settings.evictionBehind
        · simp [DecodePhase.output?, DecodePhase.lease?, stepEdits, hphase, hahead,
            DecodeWorker.evict, hbefore, FrameBuffer.editAll, FrameBuffer.edit]
        · simp [DecodePhase.output?, DecodePhase.lease?, stepEdits, hphase, hahead,
            DecodeWorker.evict, hbefore]
      · simp [DecodePhase.output?, DecodePhase.lease?, hlo]
  | discard hphase hseeks => simp [hphase, stepEdits, hseeks]
  | @storeFlushed l s decoded hphase hseeks =>
      rw [BufferStore.decodedAt_editDecoded _ _ _ ho]
      rw [hphase]
      by_cases hlo : l.output = o
      · simp [DecodePhase.output?, DecodePhase.lease?, stepEdits, hphase, hlo, hseeks,
          FrameBuffer.editAll_map_add]
      · simp [DecodePhase.output?, DecodePhase.lease?, hlo]
  | @store l s f decoded hphase hseeks =>
      rw [BufferStore.decodedAt_editDecoded _ _ _ ho]
      rw [hphase]
      by_cases hlo : l.output = o
      · simp [DecodePhase.output?, DecodePhase.lease?, stepEdits, hphase, hlo, hseeks,
          FrameBuffer.editAll_map_add]
      · simp [DecodePhase.output?, DecodePhase.lease?, hlo]
  | _ => simp [stepEdits, *]

end DecodeWorker

namespace DecodeSystem

variable {settings : PipelineSettings T} {o : Nat} {x : DecodeSystem D T} {a : DecodeAction D T}

theorem decodedAt_act (ho : o < x.store.decoded.length) :
    (x.act settings a).1.store.decodedAt o =
      (x.store.decodedAt o).editAll (x.outputEdits settings o a) := by
  cases a with
  | step time duration => exact DecodeWorker.decodedAt_step ho
  | seek =>
      simp only [act, DecodeWorker.onSeek, outputEdits]
      cases houtput : x.worker.inputs.output with
      | none => simp
      | some i =>
          dsimp only
          rw [BufferStore.decodedAt_editDecoded _ _ _ ho]
          by_cases hio : i = o
          · simp [hio, FrameBuffer.editAll, FrameBuffer.edit]
          · simp [hio]
  | editDecoded i edit =>
      simp only [act, outputEdits]
      rw [BufferStore.decodedAt_editDecoded _ _ _ ho]
      by_cases hio : i = o
      · simp [hio, FrameBuffer.editAll]
      · simp [hio]
  | _ => rfl

end DecodeSystem

theorem DecodeWorker.length_step {settings : PipelineSettings T} {time : T}
    {duration : Option T} {w : DecodeWorker D T} {store : BufferStore T} :
    (w.step settings time duration store).2.1.decoded.length = store.decoded.length := by
  have hstep := steps_step settings time duration w store
  generalize w.step settings time duration store = r at hstep ⊢
  cases hstep with
  | evict _ _ | storeFlushed _ _ | store _ _ => simp [BufferStore.editDecoded]
  | _ => rfl

/-! ## Other actions -/

namespace DecodeSystem

variable {settings : PipelineSettings T} {o : Nat} {x : DecodeSystem D T} {a : DecodeAction D T}

theorem output?_act {i : Nat} (hi : (x.act settings a).1.worker.phase.output? = some i) :
    x.worker.inputs.output = some i ∨ x.worker.phase.output? = some i := by
  by_cases ha : ∃ time duration, a = .step time duration
  · obtain ⟨time, duration, rfl⟩ := ha
    exact DecodeWorker.output?_step hi
  · push Not at ha
    exact Or.inr ((round_act ha).1 ▸ hi)

/-- An open call has just begun, or was open before; what it has returned is in the record. -/
theorem call?_act {n : Nat} {decoded : List (DecodedFrame T)}
    (hcall : (x.act settings a).1.worker.phase.call? = some (n, decoded)) :
    ((x.act settings a).2.countP DecodeEvent.isCall = 1 ∧ decoded = []) ∨
      (x.act settings a).2.countP DecodeEvent.isCall = 0 ∧
        ∃ earlier, x.worker.phase.call? = some (n, earlier) ∧
          ∀ g ∈ decoded, g ∈ earlier ∨ g ∈ x.returns a := by
  by_cases ha : ∃ time duration, a = .step time duration
  · obtain ⟨time, duration, rfl⟩ := ha
    rcases DecodeWorker.call?_step hcall with hbegun | ⟨l, s, frame, hphase, hs, hdecode, hquiet⟩
    · exact Or.inl hbegun
    · refine Or.inr ⟨hquiet, [], ?_, fun g hg => Or.inr ?_⟩
      · rw [hphase, ← hs]
        rfl
      · simpa only [returns, hphase, hdecode] using hg
  · push Not at ha
    obtain ⟨-, -, hround, hquiet⟩ :
        (x.act settings a).1.worker.phase.output? = x.worker.phase.output? ∧
          (x.act settings a).1.worker.phase.seeksRead? = x.worker.phase.seeksRead? ∧
          (x.act settings a).1.worker.phase.call? = x.worker.phase.call? ∧
          (x.act settings a).2.countP DecodeEvent.isCall = 0 := round_act ha
    exact Or.inr ⟨hquiet, decoded, hround ▸ hcall, fun g hg => Or.inl hg⟩

theorem length_act :
    (x.act settings a).1.store.decoded.length = x.store.decoded.length := by
  cases a with
  | step time duration => exact DecodeWorker.length_step
  | seek =>
      simp only [act, DecodeWorker.onSeek]
      split <;> simp [BufferStore.editDecoded]
  | editDecoded i edit => simp [act, BufferStore.editDecoded]
  | _ => rfl

theorem attached_act (hkeep : a.Keeps o) (ho : x.worker.inputs.output = some o) :
    (x.act settings a).1.worker.inputs.output = some o := by
  cases a with
  | step time duration => exact DecodeWorker.step_output.trans ho
  | wake =>
      simp only [act, DecodeWorker.wake]
      split <;> exact ho
  | attach input output => exact congrArg some hkeep
  | detach => exact hkeep.elim
  | _ => exact ho

omit [Decoder D T] in
/-- Only the loop adds to the output, and only what its open call has returned. -/
theorem mem_call_of_add_mem_outputEdits {f : DecodedFrame T} (hkeep : a.Keeps o)
    (hf : .add f ∈ x.outputEdits settings o a) :
    ∃ decoded, x.worker.phase.call? = some (x.worker.seeks, decoded) ∧ f ∈ decoded := by
  cases a with
  | step time duration =>
      simp only [outputEdits] at hf
      split_ifs at hf with ho
      · unfold DecodeWorker.stepEdits at hf
        split at hf
        · split_ifs at hf <;> simp at hf
        · next l s frame decoded hphase =>
          split_ifs at hf with hseeks
          · obtain ⟨g, hg, hgf⟩ := List.mem_map.mp hf
            cases hgf
            exact ⟨decoded, by rw [hphase, hseeks]; rfl, hg⟩
          · simp at hf
        · simp at hf
      · simp at hf
  | seek =>
      simp only [outputEdits] at hf
      split_ifs at hf <;> simp at hf
  | editDecoded i edit =>
      simp only [outputEdits] at hf
      split_ifs at hf with hio
      · cases List.mem_singleton.mp hf
        exact absurd hio hkeep
      · simp at hf
  | _ => simp [outputEdits] at hf

end DecodeSystem

/-! ## The record -/

namespace RecordedSystem

variable {settings : PipelineSettings T} {o k : Nat} {x : RecordedSystem D T}
  {a : DecodeAction D T}

/-- The output `o` is attached, the round under way has it, and the record tells what it holds. -/
structure Attached (o : Nat) (x : RecordedSystem D T) : Prop where
  attached : x.system.worker.inputs.output = some o
  output : ∀ i, x.system.worker.phase.output? = some i → i = o
  seeks : ∀ n, x.system.worker.phase.seeksRead? = some n → n ≤ x.system.worker.seeks
  inStore : o < x.system.store.decoded.length
  shown : x.shown.strip = x.system.store.decodedAt o

theorem Attached.act (hx : x.Attached o) (hkeep : a.Keeps o) :
    (x.act settings o a).Attached o where
  attached := DecodeSystem.attached_act hkeep hx.attached
  output := by
    intro i hi
    rcases DecodeSystem.output?_act hi with hinput | hphase
    · exact Option.some.inj (hinput.symm.trans hx.attached)
    · exact hx.output i hphase
  seeks := by
    intro n hn
    have hle : x.system.worker.seeks ≤ (x.system.act settings a).1.worker.seeks :=
      DecodeSystem.seeks_le_act
    rcases DecodeSystem.seeksRead?_act hn with hseeks | hphase
    · exact hseeks ▸ hle
    · exact Nat.le_trans (hx.seeks n hphase) hle
  inStore := by
    have hlength : (x.system.act settings a).1.store.decoded.length =
        x.system.store.decoded.length := DecodeSystem.length_act
    exact hlength.symm ▸ hx.inStore
  shown := by
    rw [RecordedSystem.act, FrameBuffer.strip_editAll, hx.shown]
    exact (DecodeSystem.decodedAt_act hx.inStore).symm

/-- More than `k` calls lie behind whatever the output holds or is about to get. -/
structure NewerThan (k : Nat) (x : RecordedSystem D T) : Prop where
  calls : k ≤ x.calls
  shown : ∀ f ∈ x.shown.toList, k < f.number ∧ f ∈ x.returned
  call : ∀ decoded, x.system.worker.phase.call? = some (x.system.worker.seeks, decoded) →
    k < x.calls ∧ ∀ g ∈ decoded, ⟨x.calls, g⟩ ∈ x.returned

/-- A seek cuts off the output from all the calls that had begun. -/
theorem Attached.newerThan_seek (hx : x.Attached o) :
    (x.act settings o .seek).NewerThan x.calls where
  calls := Nat.le_refl _
  shown := by
    have hedits : x.system.outputEdits settings o .seek = [.clear] := if_pos hx.attached
    intro f hf
    rw [RecordedSystem.act, hedits] at hf
    simp [BufferEdit.map, FrameBuffer.editAll, FrameBuffer.edit, FrameBuffer.clear,
      FrameBuffer.toList] at hf
  call := by
    intro decoded hcall
    have hread := hx.seeks _ (DecodePhase.seeksRead?_of_call? hcall)
    exact absurd hread (Nat.not_succ_le_self _)

theorem NewerThan.act (hk : x.NewerThan k) (hx : x.Attached o) (hkeep : a.Keeps o) :
    (x.act settings o a).NewerThan k where
  calls := Nat.le_trans hk.calls (Nat.le_add_right _ _)
  shown := by
    intro f hf
    rcases FrameBuffer.mem_toList_editAll hf with hadd | hold
    · obtain ⟨e, he, hef⟩ := List.mem_map.mp hadd
      cases e with
      | add g =>
          cases hef
          obtain ⟨decoded, hcall, hg⟩ := DecodeSystem.mem_call_of_add_mem_outputEdits hkeep he
          obtain ⟨hnew, hreturned⟩ := hk.call decoded hcall
          exact ⟨hnew, List.mem_append_left _ (hreturned g hg)⟩
      | remove start stop => cases hef
      | clear => cases hef
    · obtain ⟨hnew, hreturned⟩ := hk.shown f hold
      exact ⟨hnew, List.mem_append_left _ hreturned⟩
  call := by
    intro decoded hcall
    rcases DecodeSystem.call?_act hcall with ⟨hbegun, rfl⟩ | ⟨hquiet, earlier, hopen, hfrom⟩
    · have hcalls : (x.act settings o a).calls = x.calls + 1 := congrArg (x.calls + ·) hbegun
      exact ⟨hcalls ▸ Nat.lt_succ_of_le hk.calls, by simp⟩
    · have hcalls : (x.act settings o a).calls = x.calls := congrArg (x.calls + ·) hquiet
      -- The open call has counted every seek up to now, so this action was none.
      have hread := hx.seeks _ (DecodePhase.seeksRead?_of_call? hopen)
      have hseeks : (x.system.act settings a).1.worker.seeks = x.system.worker.seeks :=
        Nat.le_antisymm hread DecodeSystem.seeks_le_act
      obtain ⟨hnew, hreturned⟩ := hk.call earlier (hseeks ▸ hopen)
      refine ⟨hcalls ▸ hnew, fun g hg => ?_⟩
      rw [hcalls]
      rcases hfrom g hg with hearlier | hreturns
      · exact List.mem_append_left _ (hreturned g hearlier)
      · exact List.mem_append_right _ (List.mem_map_of_mem hreturns)

/-! ## Whole runs -/

theorem Attached.actAll {as : List (DecodeAction D T)} (hx : x.Attached o)
    (hkeep : ∀ a ∈ as, a.Keeps o) : (x.actAll settings o as).Attached o := by
  induction as generalizing x with
  | nil => exact hx
  | cons a as ih =>
      obtain ⟨ha, hlater⟩ := List.forall_mem_cons.mp hkeep
      exact ih (hx.act ha) hlater

theorem NewerThan.actAll {as : List (DecodeAction D T)} (hk : x.NewerThan k) (hx : x.Attached o)
    (hkeep : ∀ a ∈ as, a.Keeps o) : (x.actAll settings o as).NewerThan k := by
  induction as generalizing x with
  | nil => exact hk
  | cons a as ih =>
      obtain ⟨ha, hlater⟩ := List.forall_mem_cons.mp hkeep
      exact ih (hk.act hx ha) (hx.act ha) hlater

@[simp] theorem system_actAll (as : List (DecodeAction D T)) :
    (x.actAll settings o as).system = x.system.actAll settings as := by
  induction as generalizing x with
  | nil => rfl
  | cons a as ih => exact ih (x := x.act settings o a)

/-- The record when no call has begun; what the output holds already has the number zero. -/
def start (o : Nat) (system : DecodeSystem D T) : RecordedSystem D T where
  system
  calls := 0
  returned := []
  shown := (system.store.decodedAt o).number 0

omit [MediaTime T] [Decoder D T] in
theorem attached_start {system : DecodeSystem D T}
    (hattached : system.worker.inputs.output = some o)
    (hbetween : system.worker.phase.lease? = none) (hstore : o < system.store.decoded.length) :
    (start o system).Attached o where
  attached := hattached
  output := by
    intro i hi
    rw [start, DecodePhase.output?, hbetween] at hi
    cases hi
  seeks := by
    intro n hn
    rw [start, DecodePhase.seeksRead?_of_between hbetween] at hn
    cases hn
  inStore := hstore
  shown := FrameBuffer.strip_number _ 0

/-- After a seek, with the same output attached and only the loop adding to it, the output holds
only frames that were returned by calls which began after that seek. -/
theorem shown_newer_than_seek (settings : PipelineSettings T) {system : DecodeSystem D T}
    (hattached : system.worker.inputs.output = some o)
    (hbetween : system.worker.phase.lease? = none) (hstore : o < system.store.decoded.length)
    (past future : List (DecodeAction D T)) (hpast : ∀ a ∈ past, a.Keeps o)
    (hfuture : ∀ a ∈ future, a.Keeps o) :
    let seek := ((start o system).actAll settings o past).act settings o .seek
    let now := seek.actAll settings o future
    now.system = system.actAll settings (past ++ .seek :: future) ∧
      now.shown.strip = now.system.store.decodedAt o ∧
      ∀ f ∈ now.shown.toList, seek.calls < f.number ∧ f ∈ now.returned := by
  intro seek now
  have hbefore : ((start o system).actAll settings o past).Attached o :=
    (attached_start hattached hbetween hstore).actAll hpast
  have hseek : seek.Attached o := hbefore.act trivial
  have hnewer : seek.NewerThan seek.calls := hbefore.newerThan_seek
  have hnow : now.Attached o := hseek.actAll hfuture
  refine ⟨?_, hnow.shown, (hnewer.actAll hseek hfuture).shown⟩
  simp [now, seek, start, act, DecodeSystem.actAll]

/-- One key frame is decoded. A seek comes during the call, so that its frame is dropped and
decoded again. -/
def seekInCall : RecordedSystem (PassThrough Float) Float :=
  ((start 0 DecodeSystem.oneFrameSystem).actAll .default 0 (DecodeSystem.steps 7)).act .default 0
    .seek

example : (seekInCall.actAll .default 0 (DecodeSystem.steps 16)).shown.toList.length = 1 := by
  decide +kernel

theorem shown_newer_than_seek_seekInCall :
    let now := seekInCall.actAll .default 0 (DecodeSystem.steps 16)
    now.system = DecodeSystem.oneFrameSystem.actAll .default
        (DecodeSystem.steps 7 ++ .seek :: DecodeSystem.steps 16) ∧
      now.shown.strip = now.system.store.decodedAt 0 ∧
      ∀ f ∈ now.shown.toList, seekInCall.calls < f.number ∧ f ∈ now.returned := by
  have hkeep : ∀ n, ∀ a ∈ DecodeSystem.steps n, a.Keeps 0 := by
    intro n a ha
    rw [List.eq_of_mem_replicate ha]
    trivial
  unfold seekInCall
  exact shown_newer_than_seek .default rfl rfl (by decide) (DecodeSystem.steps 7)
    (DecodeSystem.steps 16) (hkeep 7) (hkeep 16)

end RecordedSystem

end MediaPipeline
