import Mathlib.Data.List.Infix
import MediaPipeline.Proofs.Decoding.Runs

/-!
# Who has the decoder

The loop takes the decoder out of its slot for the length of a round and gives it back at the end,
however the round ends, unless another one was installed meanwhile. Decoders are told apart by
marks: the decoder of the `n`-th installation has the mark `n` and keeps it whatever it is used for.
The slot only ever holds the decoder that was installed last, a round works with the one that was
installed last when it began, and a round in which nothing is installed leaves the slot with the
decoder that it had.
-/

namespace MediaPipeline

variable {D T : Type}

structure Marked (D : Type) where
  mark : Nat
  decoder : D
  deriving DecidableEq, Repr

instance [Decoder D T] : Decoder (Marked D) T where
  decode m frame ring :=
    let (result, decoder) := Decoder.decode m.decoder frame ring
    (result, { m with decoder })
  reset m := { m with decoder := Decoder.reset m.decoder }

/-! ## Taking the marks off -/

def DecodeLease.unmark (l : DecodeLease (Marked D)) : DecodeLease D where
  input := l.input
  output := l.output
  decoder := l.decoder.decoder
  installs := l.installs
  ring := l.ring

def DecodePhase.unmark : DecodePhase (Marked D) T → DecodePhase D T
  | checking => checking
  | leasing => leasing
  | parked => parked
  | countingSeeks l => countingSeeks l.unmark
  | timing l seeks => timing l.unmark seeks
  | readingCursor l seeks time => readingCursor l.unmark seeks time
  | throttling l s => throttling l.unmark s
  | choosing l s => choosing l.unmark s
  | flushing l s => flushing l.unmark s
  | decoding l s frame => decoding l.unmark s frame
  | storing l s frame decoded => storing l.unmark s frame decoded
  | advancing l s frame reached => advancing l.unmark s frame reached
  | settling l s reached => settling l.unmark s reached
  | returning l next => returning l.unmark next
  | failing error => failing error
  | sleeping nanos => sleeping nanos
  | exited => exited

def DecodeInputs.unmark (i : DecodeInputs (Marked D)) : DecodeInputs D where
  input := i.input
  output := i.output
  decoder := i.decoder.map Marked.decoder
  installs := i.installs
  ring := i.ring

def DecodeWorker.unmark (w : DecodeWorker (Marked D) T) : DecodeWorker D T where
  inputs := w.inputs.unmark
  cursor := w.cursor
  seeks := w.seeks
  seeking := w.seeking
  flushed := w.flushed
  keyAwaited := w.keyAwaited
  signalled := w.signalled
  shutdown := w.shutdown
  phase := w.phase.unmark

def DecodeSystem.unmark (x : DecodeSystem (Marked D) T) : DecodeSystem D T :=
  ⟨x.worker.unmark, x.store⟩

def DecodeAction.mark (n : Nat) : DecodeAction D T → DecodeAction (Marked D) T
  | step time duration => step time duration
  | seek => seek
  | wake => wake
  | attach input output => attach input output
  | detach => detach
  | setDecoder decoder => setDecoder (decoder.map (Marked.mk n))
  | setRing ring => setRing ring
  | mapRing f => mapRing f
  | requestStop => requestStop
  | editEncoded i edit => editEncoded i edit
  | editDecoded i edit => editDecoded i edit

def DecodeAction.isInstall : DecodeAction D T → Bool
  | setDecoder _ => true
  | _ => false

namespace DecodeWorker

variable {w : DecodeWorker (Marked D) T}

theorem unmark_lease : w.lease.unmark = w.unmark.lease := by
  have hinputs : w.unmark.inputs = w.inputs.unmark := rfl
  have hstop : w.unmark.shutdown = w.shutdown := rfl
  unfold lease
  rw [hinputs, hstop]
  split_ifs
  · rfl
  · cases hinput : w.inputs.input <;> cases houtput : w.inputs.output <;>
      cases hdecoder : w.inputs.decoder <;>
      simp [DecodeInputs.unmark, DecodeWorker.unmark, DecodePhase.unmark, DecodeLease.unmark, *]

theorem unmark_giveBack (l : DecodeLease (Marked D)) :
    (w.giveBack l).unmark = w.unmark.giveBack l.unmark := by
  have hempty : w.inputs.unmark.decoder.isNone = w.inputs.decoder.isNone := by
    simp [DecodeInputs.unmark]
  have hsame : (w.unmark.inputs.installs = l.unmark.installs && w.unmark.inputs.decoder.isNone) =
      (w.inputs.installs = l.installs && w.inputs.decoder.isNone) :=
    congrArg (decide (w.inputs.installs = l.installs) && ·) hempty
  unfold giveBack
  rw [hsame]
  split_ifs <;> rfl

variable [MediaTime T] [Decoder D T] {settings : PipelineSettings T} {time : T}
  {duration : Option T} {store : BufferStore T}

theorem unmark_step :
    ((w.step settings time duration store).1.unmark, (w.step settings time duration store).2) =
      w.unmark.step settings time duration store := by
  have hunmark : w.unmark.phase = w.phase.unmark := rfl
  unfold step
  rw [hunmark]
  cases hphase : w.phase with
  | leasing => simp [DecodePhase.unmark, unmark_lease]
  | choosing l s =>
      cases hframe : chooseFrame (store.encodedAt l.input) s <;> cases hcursor : s.cursor <;>
        simp [DecodePhase.unmark, DecodeWorker.unmark, DecodeLease.unmark, Decoder.reset, hframe,
          hcursor]
  | decoding l s frame =>
      have hdecode : Decoder.decode l.unmark.decoder frame l.unmark.ring =
          Decoder.decode l.decoder.decoder frame l.ring := rfl
      simp only [DecodePhase.unmark, Decoder.decode, hdecode]
      rcases Decoder.decode l.decoder.decoder frame l.ring with ⟨e | decoded, decoder⟩
      · by_cases hkey : e.isRecoverable = true
        · simp only [if_pos hkey]
          rfl
        · simp only [if_neg hkey]
          rfl
      · rfl
  | storing l s frame decoded =>
      have hseeks : w.unmark.seeks = w.seeks := rfl
      simp only [DecodePhase.unmark, hseeks]
      split_ifs
      · rfl
      · cases frame <;> rfl
  | returning l next =>
      simp only [DecodePhase.unmark, ← unmark_giveBack]
      cases next <;> rfl
  | throttling l s =>
      have houtput : l.unmark.output = l.output := rfl
      simp only [DecodePhase.unmark, houtput]
      split_ifs <;> rfl
  | checking | parked | flushing l s | advancing l s f reached | settling l s reached =>
      simp only [DecodePhase.unmark, DecodeWorker.unmark]
      split_ifs <;> simp [*]
  | countingSeeks l | timing l seeks | readingCursor l seeks t | failing e => rfl
  | sleeping nanos | exited => simp [DecodePhase.unmark, DecodeWorker.unmark, hphase]

end DecodeWorker

namespace DecodeSystem

variable [MediaTime T] [Decoder D T] {settings : PipelineSettings T}

theorem unmark_act (x : DecodeSystem (Marked D) T) (n : Nat) (a : DecodeAction D T) :
    (x.act settings (a.mark n)).1.unmark = (x.unmark.act settings a).1 := by
  cases a with
  | step time duration =>
      have hstep : ((x.worker.step settings time duration x.store).1.unmark,
          (x.worker.step settings time duration x.store).2) =
          x.worker.unmark.step settings time duration x.store := DecodeWorker.unmark_step
      simp only [act, DecodeAction.mark, unmark, ← hstep]
  | wake =>
      simp only [act, DecodeAction.mark, DecodeWorker.wake, unmark]
      cases hphase : x.worker.phase <;>
        simp [DecodeWorker.unmark, DecodePhase.unmark, hphase]
  | mapRing f =>
      have hunmark : x.worker.unmark.phase = x.worker.phase.unmark := rfl
      simp only [act, DecodeAction.mark, DecodeWorker.mapRing, unmark, hunmark]
      cases x.worker.phase <;> rfl
  | setDecoder decoder => cases decoder <;> rfl
  | _ => rfl

end DecodeSystem

/-! ## Where the decoder goes -/

/-- The mark of the decoder that the round under way has, and the count of installations that it
has read. -/
def DecodePhase.held? (p : DecodePhase (Marked D) T) : Option (Nat × Nat) :=
  p.lease?.map fun l => (l.decoder.mark, l.installs)

namespace DecodeWorker

/-- What an action other than an installation does with the decoder. -/
inductive Transfer (w w' : DecodeWorker (Marked D) T) : Prop
  | keep (hslot : w'.inputs.decoder = w.inputs.decoder) (hheld : w'.phase.held? = w.phase.held?)
  | take {m : Marked D} (hslot : w.inputs.decoder = some m) (hbetween : w.phase.held? = none)
      (hempty : w'.inputs.decoder = none)
      (hheld : w'.phase.held? = some (m.mark, w.inputs.installs))
  | restore {m : Marked D} (hslot : w.inputs.decoder = none)
      (hheld : w.phase.held? = some (m.mark, w.inputs.installs))
      (hback : w'.inputs.decoder = some m) (hbetween : w'.phase.held? = none)
  | discard {n : Nat × Nat} (hheld : w.phase.held? = some n)
      (hlate : n.2 ≠ w.inputs.installs ∨ w.inputs.decoder ≠ none)
      (hslot : w'.inputs.decoder = w.inputs.decoder) (hbetween : w'.phase.held? = none)

variable [MediaTime T] [Decoder D T] {settings : PipelineSettings T} {time : T}
  {duration : Option T} {w : DecodeWorker (Marked D) T} {store : BufferStore T}

omit [MediaTime T] in
theorem mark_decode {m m' : Marked D} {frame : Option (EncodedFrame T)} {ring : Option Keyring}
    {result : Except MediaError (List (DecodedFrame T))}
    (hdecode : Decoder.decode m frame ring = (result, m')) : m'.mark = m.mark := by
  cases hdecode
  rfl

omit [MediaTime T] in
theorem mark_restart (l : DecodeLease (Marked D)) (s : DecodeSnapshot T) :
    (restart l s).decoder.mark = l.decoder.mark ∧ (restart l s).installs = l.installs := by
  unfold restart
  split <;> exact ⟨rfl, rfl⟩

omit [MediaTime T] [Decoder D T] in
theorem transfer_giveBack {w' : DecodeWorker (Marked D) T} {l : DecodeLease (Marked D)}
    (hlease : w.phase.lease? = some l) (hbetween : w'.phase.lease? = none)
    (hslot : w'.inputs = w.giveBack l) : Transfer w w' := by
  have hheld : w.phase.held? = some (l.decoder.mark, l.installs) :=
    Option.map_eq_some_iff.mpr ⟨l, hlease, rfl⟩
  have hfree : w'.phase.held? = none := Option.map_eq_none_iff.mpr hbetween
  unfold giveBack at hslot
  split_ifs at hslot with hcurrent
  · obtain ⟨hinstalls, hempty⟩ : w.inputs.installs = l.installs ∧ w.inputs.decoder = none := by
      simpa using hcurrent
    exact .restore hempty (by rw [hheld, hinstalls]) (by rw [hslot]) hfree
  · refine .discard hheld (not_and_or.mp fun hsame => hcurrent ?_) (by rw [hslot]) hfree
    simp [hsame.1.symm, hsame.2]

theorem transfer_step : Transfer w (w.step settings time duration store).1 := by
  have hstep := steps_step settings time duration w store
  generalize w.step settings time duration store = r at hstep ⊢
  cases hstep with
  | lease hphase hstop hinput houtput hdecoder =>
      exact .take hdecoder (by rw [hphase]; rfl) rfl rfl
  | @giveBack l next hphase =>
      refine transfer_giveBack (l := l) (by rw [hphase]; rfl) ?_ rfl
      cases next <;> rfl
  | @choose l s f hphase hframe =>
      refine .keep rfl ?_
      simp [DecodePhase.held?, DecodePhase.lease?, hphase, mark_restart]
  | @miss l s hphase hframe =>
      refine .keep rfl ?_
      simp [DecodePhase.held?, DecodePhase.lease?, hphase, mark_restart]
  | @decode l s frame decoded decoder hphase hdecode =>
      refine .keep rfl ?_
      simp [DecodePhase.held?, DecodePhase.lease?, hphase, mark_decode hdecode]
  | @awaitKey l s frame e decoder hphase hdecode hkey =>
      refine .keep rfl ?_
      simp [DecodePhase.held?, DecodePhase.lease?, hphase, mark_decode hdecode]
  | @breakOff l s frame e decoder hphase hdecode hkey =>
      refine .keep rfl ?_
      simp [DecodePhase.held?, DecodePhase.lease?, hphase, mark_decode hdecode]
  | rest _ => exact .keep rfl rfl
  | exit hphase _ | check hphase _ | abandon hphase _ | park hphase _ | unpark hphase _
  | countSeeks hphase | readTime hphase | readCursor hphase | throttle hphase _ | evict hphase _
  | starve hphase _ | flush hphase _ _ | discard hphase _ | storeFlushed hphase _
  | store hphase _ | advance hphase _ | keepCursor hphase _ | finishSeek hphase _ _
  | settle hphase _ | fail hphase => exact .keep rfl (by rw [hphase]; rfl)

theorem step_installs :
    (w.step settings time duration store).1.inputs.installs = w.inputs.installs := by
  rw [step_inputs]

end DecodeWorker

/-- A system together with the number of installations so far. -/
structure MarkedSystem (D T : Type) where
  system : DecodeSystem (Marked D) T
  installs : Nat

namespace MarkedSystem

def slot (x : MarkedSystem D T) : Option (Marked D) := x.system.worker.inputs.decoder

def lease? (x : MarkedSystem D T) : Option (DecodeLease (Marked D)) := x.system.worker.phase.lease?

theorem held?_eq_none {x : MarkedSystem D T} :
    x.system.worker.phase.held? = none ↔ x.lease? = none :=
  Option.map_eq_none_iff

def start (store : BufferStore T) : MarkedSystem D T := ⟨⟨.new, store⟩, 0⟩

variable [MediaTime T] [Decoder D T]

def act (settings : PipelineSettings T) (x : MarkedSystem D T) (a : DecodeAction D T) :
    MarkedSystem D T :=
  let n := if a.isInstall then x.installs + 1 else x.installs
  ⟨(x.system.act settings (a.mark n)).1, n⟩

def actAll (settings : PipelineSettings T) (x : MarkedSystem D T) (as : List (DecodeAction D T)) :
    MarkedSystem D T :=
  as.foldl (act settings) x

/-- The actions are part of one round: it begins with the first of them, which takes the lease, and
still has it after the last. -/
structure IsRound (settings : PipelineSettings T) (x : MarkedSystem D T)
    (round : List (DecodeAction D T)) : Prop where
  between : x.lease? = none
  leased : ∀ begun, begun <+: round → begun ≠ [] → (x.actAll settings begun).lease? ≠ none

variable {settings : PipelineSettings T} {x : MarkedSystem D T} {a : DecodeAction D T}
  {as : List (DecodeAction D T)}

theorem actAll_concat : x.actAll settings (as ++ [a]) = (x.actAll settings as).act settings a :=
  List.foldl_append

theorem actAll_append (as bs : List (DecodeAction D T)) :
    x.actAll settings (as ++ bs) = (x.actAll settings as).actAll settings bs :=
  List.foldl_append

theorem unmark_actAll (as : List (DecodeAction D T)) :
    (x.actAll settings as).system.unmark = x.system.unmark.actAll settings as := by
  induction as using List.reverseRecOn with
  | nil => rfl
  | append_singleton as a ih =>
      rw [actAll_concat, act, DecodeSystem.unmark_act, ih]
      simp [DecodeSystem.actAll]

theorem installs_actAll (as : List (DecodeAction D T)) :
    (x.actAll settings as).installs = x.installs + as.countP DecodeAction.isInstall := by
  induction as using List.reverseRecOn with
  | nil => rfl
  | append_singleton as a ih =>
      rw [actAll_concat, act, ih, List.countP_append]
      by_cases ha : a.isInstall <;> simp [ha, Nat.add_assoc]

/-- An action installs a decoder and leaves the round under way alone, or installs none. -/
theorem act_cases (settings : PipelineSettings T) (x : MarkedSystem D T) (a : DecodeAction D T) :
    (a.isInstall = true ∧ (x.act settings a).installs = x.installs + 1 ∧
      (∀ m ∈ (x.act settings a).slot, m.mark = x.installs + 1) ∧
      (x.act settings a).system.worker.phase.held? = x.system.worker.phase.held? ∧
      (x.act settings a).system.worker.inputs.installs = x.system.worker.inputs.installs + 1) ∨
    (a.isInstall = false ∧ (x.act settings a).installs = x.installs ∧
      x.system.worker.Transfer (x.act settings a).system.worker ∧
      (x.act settings a).system.worker.inputs.installs = x.system.worker.inputs.installs) := by
  cases a with
  | setDecoder decoder =>
      refine .inl ⟨rfl, rfl, ?_, rfl, rfl⟩
      intro m hm
      obtain ⟨d, -, rfl⟩ : ∃ d, decoder = some d ∧ Marked.mk (x.installs + 1) d = m := by
        simpa [slot, act, DecodeSystem.act, DecodeAction.mark, DecodeAction.isInstall,
          DecodeWorker.setDecoder] using hm
      rfl
  | step time duration =>
      exact .inr ⟨rfl, rfl, DecodeWorker.transfer_step, DecodeWorker.step_installs⟩
  | wake =>
      refine .inr ⟨rfl, rfl, ?_, ?_⟩ <;>
        simp only [act, DecodeAction.mark, DecodeSystem.act, DecodeWorker.wake]
      · split
        · next hphase => exact .keep rfl (by rw [hphase]; rfl)
        · exact .keep rfl rfl
      · split <;> rfl
  | mapRing f =>
      refine .inr ⟨rfl, rfl, .keep rfl ?_, rfl⟩
      simp only [act, DecodeAction.mark, DecodeSystem.act, DecodeWorker.mapRing,
        DecodePhase.held?]
      cases x.system.worker.phase <;> rfl
  | _ => exact .inr ⟨rfl, rfl, .keep rfl rfl, rfl⟩

/-! ## Any number of actions -/

/-- A decoder in the slot is the one that was installed last. A round has the decoder that was
installed last when it took it, and as long as no other one was, the slot is empty. -/
structure Owned (x : MarkedSystem D T) : Prop where
  counted : x.system.worker.inputs.installs = x.installs
  slot : ∀ m ∈ x.slot, m.mark = x.installs
  held : ∀ h ∈ x.system.worker.phase.held?, h.1 = h.2 ∧ h.2 ≤ x.installs
  taken : ∀ h ∈ x.system.worker.phase.held?, h.2 = x.installs → x.slot = none

omit [MediaTime T] [Decoder D T] in
theorem owned_start (store : BufferStore T) : (start store : MarkedSystem D T).Owned where
  counted := rfl
  slot := by simp [start, MarkedSystem.slot, DecodeWorker.new]
  held := by simp [start, DecodePhase.held?, DecodeWorker.new, DecodePhase.lease?]
  taken := by simp [start, DecodePhase.held?, DecodeWorker.new, DecodePhase.lease?]

theorem Owned.act (hx : x.Owned) : (x.act settings a).Owned := by
  rcases act_cases settings x a with
    ⟨-, hinstalls, hslot, hheld, hcount⟩ | ⟨-, hinstalls, htransfer, hcount⟩
  · refine ⟨by rw [hcount, hinstalls, hx.counted], ?_, ?_, ?_⟩ <;> rw [hinstalls]
    · exact hslot
    · intro h hh
      obtain ⟨hmark, hle⟩ := hx.held h (hheld ▸ hh)
      exact ⟨hmark, Nat.le_succ_of_le hle⟩
    · intro h hh heq
      have hle := (hx.held h (hheld ▸ hh)).2
      omega
  · have hcounted : (x.act settings a).system.worker.inputs.installs =
        (x.act settings a).installs := by rw [hcount, hinstalls, hx.counted]
    cases htransfer with
    | keep hslot hheld =>
        refine ⟨hcounted, ?_, ?_, ?_⟩ <;> rw [hinstalls]
        · exact fun m hm => hx.slot m (hslot.symm.trans hm)
        · exact fun h hh => hx.held h (hheld ▸ hh)
        · exact fun h hh heq => hslot.trans (hx.taken h (hheld ▸ hh) heq)
    | @take m hslot hbetween hempty hheld =>
        have hmark : m.mark = x.installs := hx.slot m hslot
        refine ⟨hcounted, ?_, ?_, fun _ _ _ => hempty⟩ <;> rw [hinstalls]
        · simp [MarkedSystem.slot, hempty]
        · simp [hheld, hmark, hx.counted]
    | @restore m hslot hheld hback hbetween =>
        have hmark : m.mark = x.system.worker.inputs.installs := (hx.held _ hheld).1
        refine ⟨hcounted, ?_, ?_, ?_⟩ <;> rw [hinstalls]
        · simp [MarkedSystem.slot, hback, hmark, hx.counted]
        · simp [hbetween]
        · simp [hbetween]
    | discard hheld hlate hslot hbetween =>
        refine ⟨hcounted, ?_, ?_, ?_⟩ <;> rw [hinstalls]
        · exact fun m hm => hx.slot m (hslot.symm.trans hm)
        · simp [hbetween]
        · simp [hbetween]

theorem Owned.actAll (hx : x.Owned) : (x.actAll settings as).Owned := by
  induction as using List.reverseRecOn with
  | nil => exact hx
  | append_singleton as a ih =>
      rw [actAll_concat]
      exact ih.act

/-- Whatever is installed during a round, it goes on with the decoder that it has taken. -/
theorem Owned.held_round (hx : x.Owned) (has : x.IsRound settings as) :
    ∀ l ∈ (x.actAll settings as).lease?, l.decoder.mark = x.installs := by
  have hfree := held?_eq_none.mpr has.between
  suffices hheld : ∀ h ∈ (x.actAll settings as).system.worker.phase.held?, h.1 = x.installs by
    intro l hl
    exact hheld (l.decoder.mark, l.installs) (Option.mem_map_of_mem _ hl)
  obtain ⟨-, hleased⟩ := has
  induction as using List.reverseRecOn with
  | nil =>
      intro h hh
      exact absurd (hfree.symm.trans hh) nofun
  | append_singleton as a ih =>
      have hbegun := ih fun begun hle => hleased begun (hle.trans (List.prefix_append as [a]))
      -- The first action takes the decoder, the later ones leave it with the round.
      have hround : as = [] ∨ (x.actAll settings as).system.worker.phase.held? ≠ none := by
        refine or_iff_not_imp_left.mpr fun hne => held?_eq_none.not.mpr ?_
        exact hleased as (List.prefix_append as [a]) hne
      rw [actAll_concat]
      rcases act_cases settings (x.actAll settings as) a with
        ⟨-, -, -, hheld, -⟩ | ⟨-, -, htransfer, -⟩
      · exact hheld ▸ hbegun
      · cases htransfer with
        | keep hslot hheld => exact hheld ▸ hbegun
        | @take m hslot hbetween hempty hheld =>
            obtain rfl := hround.resolve_right (not_not.mpr hbetween)
            simpa [hheld] using hx.slot m hslot
        | restore hslot hheld hback hbetween => simp [hbetween]
        | discard hheld hlate hslot hbetween => simp [hbetween]

/-- The decoder with the mark `m`, if any, is in the slot or with the round under way, and none was
installed since. -/
inductive Stays (m : Option Nat) (x : MarkedSystem D T) : Prop
  | slot (hbetween : x.system.worker.phase.held? = none) (hslot : x.slot.map Marked.mark = m)
  | round {n : Nat}
      (hheld : x.system.worker.phase.held? = some (n, x.system.worker.inputs.installs))
      (hslot : x.slot = none) (hm : m = some n)

theorem Stays.act {m : Option Nat} (hx : x.Stays m) (ha : a.isInstall = false) :
    (x.act settings a).Stays m := by
  rcases act_cases settings x a with ⟨hinstall, -⟩ | ⟨-, -, htransfer, hcount⟩
  · simp [ha] at hinstall
  · cases htransfer with
    | keep hslot hheld =>
        cases hx with
        | slot hbetween hm =>
            exact .slot (hheld.trans hbetween) ((congrArg (Option.map Marked.mark) hslot).trans hm)
        | round hround hempty hm =>
            exact .round (by rw [hheld, hround, hcount]) (hslot.trans hempty) hm
    | @take d hslot hbetween hempty hheld =>
        cases hx with
        | slot _ hm =>
            refine .round (by rw [hheld, hcount]) hempty ?_
            rw [← hm, MarkedSystem.slot, hslot]
            rfl
        | round hround _ _ => simp [hbetween] at hround
    | @restore d hslot hheld hback hbetween =>
        cases hx with
        | slot hfree _ => simp [hfree] at hheld
        | @round n hround _ hm =>
            obtain rfl : d.mark = n := by simpa [hround] using hheld.symm
            refine .slot hbetween ?_
            rw [hm, MarkedSystem.slot, hback]
            rfl
    | discard hheld hlate hslot hbetween =>
        cases hx with
        | slot hfree _ => simp [hfree] at hheld
        | round hround hempty hm =>
            obtain rfl := Option.some_inj.mp (hheld.symm.trans hround)
            exact absurd hempty (hlate.resolve_left (not_not.mpr rfl))

theorem Stays.actAll {m : Option Nat} (hx : x.Stays m) (has : ∀ a ∈ as, a.isInstall = false) :
    (x.actAll settings as).Stays m := by
  induction as using List.reverseRecOn with
  | nil => exact hx
  | append_singleton as a ih =>
      obtain ⟨hbefore, ha⟩ := List.forall_mem_append.mp has
      rw [actAll_concat]
      exact (ih hbefore).act (by simpa using ha)

/-- After any calls and steps, a decoder in the slot is the one that was installed last, a round
works with the decoder that was installed last when it began, and if none was installed since a
moment between two rounds, the slot has its decoder back between two later ones. -/
theorem slot_and_round (settings : PipelineSettings T) (store : BufferStore T)
    (past as : List (DecodeAction D T)) :
    let x := (start store).actAll settings past
    let y := x.actAll settings as
    y.system.unmark = DecodeSystem.actAll settings ⟨.new, store⟩ (past ++ as) ∧
      (∀ m ∈ y.slot, m.mark = (past ++ as).countP DecodeAction.isInstall) ∧
      (x.IsRound settings as →
        ∀ l ∈ y.lease?, l.decoder.mark = past.countP DecodeAction.isInstall) ∧
      ((∀ a ∈ as, a.isInstall = false) → x.lease? = none → y.lease? = none →
        y.slot.map Marked.mark = x.slot.map Marked.mark) := by
  intro x y
  have hx : x.Owned := (owned_start store).actAll
  have hcount : x.installs = past.countP DecodeAction.isInstall :=
    (installs_actAll past).trans (Nat.zero_add _)
  have hy : y = (start store).actAll settings (past ++ as) := (actAll_append past as).symm
  refine ⟨?_, ?_, ?_, ?_⟩
  · rw [hy, unmark_actAll]
    rfl
  · have hlater : y.installs = (past ++ as).countP DecodeAction.isInstall :=
      hy ▸ (installs_actAll (past ++ as)).trans (Nat.zero_add _)
    exact hlater ▸ hx.actAll.slot
  · exact fun hround => hcount ▸ hx.held_round hround
  · intro hinstalls hbefore hafter
    have hstays : x.Stays (x.slot.map Marked.mark) := .slot (held?_eq_none.mpr hbefore) rfl
    have hlater : y.Stays (x.slot.map Marked.mark) := hstays.actAll hinstalls
    cases hlater with
    | slot _ hslot => exact hslot
    | round hheld _ _ =>
        exact absurd (hheld.symm.trans (held?_eq_none.mpr hafter)) (Option.some_ne_none _)

/-- A decoder is installed, and the loop is about to take it. -/
def ready : List (DecodeAction (PassThrough Float) Float) :=
  [.attach 0 0, .setDecoder (some {}), .step 0 none]

/-- The round has called its decoder when a second one is installed, and is about to give its own
back. -/
def exchange : List (DecodeAction (PassThrough Float) Float) :=
  DecodeSystem.steps 6 ++ .setDecoder (some {}) :: DecodeSystem.steps 4

theorem isRound_exchange :
    ((start DecodeSystem.oneFrameSystem.store).actAll .default ready).IsRound .default
      exchange := by
  refine ⟨by decide +kernel, fun begun hbegun => ?_⟩
  have hall : ∀ begun ∈ exchange.inits, begun ≠ [] →
      (((start DecodeSystem.oneFrameSystem.store).actAll .default ready).actAll .default
        begun).lease? ≠ none := by decide +kernel
  exact hall begun ((List.mem_inits _ _).mpr hbegun)

theorem slot_and_round_exchange :
    let x := (start DecodeSystem.oneFrameSystem.store).actAll .default ready
    (∀ l ∈ (x.actAll .default exchange).lease?, l.decoder.mark = 1) ∧
      (∀ m ∈ (x.actAll .default (exchange ++ DecodeSystem.steps 1)).slot, m.mark = 2) ∧
      (x.actAll .default (DecodeSystem.steps 11)).slot.map Marked.mark =
        x.slot.map Marked.mark := by
  intro x
  obtain ⟨-, -, hround, -⟩ :=
    slot_and_round .default DecodeSystem.oneFrameSystem.store ready exchange
  obtain ⟨-, hslot, -, -⟩ := slot_and_round .default DecodeSystem.oneFrameSystem.store ready
    (exchange ++ DecodeSystem.steps 1)
  obtain ⟨-, -, -, hstays⟩ :=
    slot_and_round .default DecodeSystem.oneFrameSystem.store ready (DecodeSystem.steps 11)
  refine ⟨hround isRound_exchange, hslot, hstays ?_ (by decide +kernel) (by decide +kernel)⟩
  intro a ha
  rw [List.eq_of_mem_replicate ha]
  rfl

end MarkedSystem

end MediaPipeline
