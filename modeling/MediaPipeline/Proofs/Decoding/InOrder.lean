import Mathlib.Data.List.Infix
import MediaPipeline.Proofs.Decoding.Cursor
import MediaPipeline.Proofs.FrameBuffer.Lookup
import MediaPipeline.Proofs.FrameBuffer.Separated
import MediaPipeline.Proofs.Time.Double

/-!
# Decoding in order

Between two seeks a worker decodes a stretch of its input: a key frame and whatever follows it,
each frame once. The cursor is the place up to which the stretch reaches. A frame that is added
behind that place is met in its turn, one that is added before it never. The place moves when a call
returns, so a frame must not be added before the one that is being decoded either.
-/

namespace MediaPipeline

open MediaTime LawfulMediaTime

variable {D T : Type} [MediaTime T]

namespace DecodePhase

/-- What the round under way has read, from its reading of the cursor to its setting of it. -/
def snapshot? : DecodePhase D T → Option (DecodeSnapshot T)
  | throttling _ s | choosing _ s | flushing _ s | decoding _ s _ | storing _ s _ _
  | advancing _ s _ _ => some s
  | _ => none

omit [MediaTime T] in
theorem seeksRead?_of_snapshot? {p : DecodePhase D T} {s : DecodeSnapshot T}
    (hs : p.snapshot? = some s) : p.seeksRead? = some s.seeks := by
  cases p <;> simp_all [snapshot?, seeksRead?]

end DecodePhase

def DecodeEvent.decodedFrame? : DecodeEvent T → Option (EncodedFrame T)
  | .decoded frame _ => frame
  | _ => none

namespace DecodeWorker

/-- The frame that is being decoded, if there was no seek since its round has begun. -/
def inCall? (w : DecodeWorker D T) : Option (EncodedFrame T) :=
  match w.phase with
  | .decoding _ s frame => if s.seeks = w.seeks then frame else none
  | _ => none

/-- The frames that these events report as decoded, if there was no seek since the round has
begun. -/
def credited (w : DecodeWorker D T) (events : List (DecodeEvent T)) : List (EncodedFrame T) :=
  if w.phase.seeksRead? = some w.seeks then events.filterMap DecodeEvent.decodedFrame? else []

/-- The cursor as the round under way leaves it once it has stored what is decoded. -/
def outlook (w : DecodeWorker D T) : Option T :=
  match w.phase with
  | .storing _ s (some f) _ =>
    if s.seeks = w.seeks ∧ (w.cursor == s.cursor) = true then cursorAt f.dts else w.cursor
  | _ => w.nextCursor

/-- The loop goes on from the cursor `c` in the input `i`. -/
structure Follows (w : DecodeWorker D T) (i : Nat) (c : Option T) : Prop where
  attached : ∀ j ∈ w.inputs.input, j = i
  leased : ∀ l ∈ w.phase.lease?, l.input = i
  read : ∀ s ∈ w.phase.snapshot?, s.seeks = w.seeks → s.cursor = w.cursor
  cursor : w.outlook = c

variable [Decoder D T] {settings : PipelineSettings T} {time : T} {duration : Option T}
  {w : DecodeWorker D T} {store : BufferStore T} {i : Nat} {c : Option T}

/-- What a step does for the progress of the loop. -/
inductive Progress (w : DecodeWorker D T) (store : BufferStore T) (i : Nat) (c : Option T) :
    DecodeWorker D T → List (DecodeEvent T) → Prop
  | pause {w' events} (hfollow : w'.Follows i c) (hcall : ∀ f ∈ w'.inCall?, f ∈ w.inCall?)
      (hquiet : w.credited events = []) : Progress w store i c w' events
  | hand {w' events} {s : DecodeSnapshot T} {f : EncodedFrame T}
      (hfollow : w'.Follows i c) (hcursor : s.cursor = c)
      (hchoice : chooseFrame (store.encodedAt i) s = some f) (hcall : w'.inCall? = some f)
      (hquiet : w.credited events = []) : Progress w store i c w' events
  | finish {w' events} {f : EncodedFrame T} (hfollow : w'.Follows i (cursorAt f.dts))
      (hcall : w.inCall? = some f) (hidle : w'.inCall? = none)
      (hcredit : w.credited events = [f]) : Progress w store i c w' events

omit [Decoder D T] in
theorem Follows.keep {w' : DecodeWorker D T} (hw : w.Follows i c)
    (hinput : ∀ j ∈ w'.inputs.input, j ∈ w.inputs.input)
    (hlease : ∀ l' ∈ w'.phase.lease?, ∃ l ∈ w.phase.lease?, l'.input = l.input)
    (hread : ∀ s ∈ w'.phase.snapshot?,
      s ∈ w.phase.snapshot? ∧ w'.seeks = w.seeks ∧ w'.cursor = w.cursor)
    (houtlook : w'.outlook = w.outlook) : w'.Follows i c where
  attached j hj := hw.attached j (hinput j hj)
  leased l' hl' := by
    obtain ⟨l, hl, heq⟩ := hlease l' hl'
    exact heq.trans (hw.leased l hl)
  read s hs hcurrent := by
    obtain ⟨hbefore, hseeks, hcursor⟩ := hread s hs
    exact (hw.read s hbefore (hcurrent.trans hseeks)).trans hcursor.symm
  cursor := houtlook.trans hw.cursor

variable [LawfulMediaTime T]

theorem Follows.step (hw : w.Follows i c) (hc : ∀ t ∈ c, IsNumber t) :
    Progress w store i c (w.step settings time duration store).1
      (w.step settings time duration store).2.2 := by
  have hstep := steps_step settings time duration w store
  generalize w.step settings time duration store = r at hstep ⊢
  cases hstep with
  | rest hrest => exact .pause hw (fun f hf => hf) (by simp [credited])
  | lease hphase hstop hinput houtput hdecoder =>
      refine .pause ⟨hw.attached, ?_, by simp [DecodePhase.snapshot?], ?_⟩ ?_ ?_
      · simpa [DecodePhase.lease?] using hw.attached _ hinput
      · rw [← hw.cursor]
        simp [outlook, nextCursor, hphase]
      · simp [inCall?]
      · simp [credited]
  | readCursor hphase =>
      refine .pause ⟨hw.attached, ?_, by simp [DecodePhase.snapshot?], ?_⟩ ?_ ?_
      · simpa [DecodePhase.lease?, hphase] using hw.leased
      · rw [← hw.cursor]
        simp [outlook, nextCursor, hphase]
      · simp [inCall?]
      · simp [credited]
  | @choose l s f hphase hframe =>
      have hfollow : ({ w with phase := .decoding (restart l s) s (some f) } :
          DecodeWorker D T).Follows i c := by
        apply hw.keep <;>
          simp [DecodePhase.lease?, DecodePhase.snapshot?, outlook, nextCursor, hphase]
      have hquiet : w.credited ((if s.cursor.isNone then [.reset] else []) ++
          [.decode (some f)]) = [] := by
        unfold credited
        split_ifs <;> simp [DecodeEvent.decodedFrame?]
      by_cases hseeks : s.seeks = w.seeks
      · have hcursor : s.cursor = c := by
          rw [hw.read s (by rw [hphase]; rfl) hseeks, ← hw.cursor]
          simp [outlook, nextCursor, hphase]
        have hinput : l.input = i := hw.leased l (by rw [hphase]; rfl)
        exact .hand hfollow hcursor (hinput ▸ hframe) (by simp [inCall?, hseeks]) hquiet
      · exact .pause hfollow (by simp [inCall?, hseeks]) hquiet
  | @decode l s frame decoded decoder hphase hdecode =>
      by_cases hfinish : ∃ f, frame = some f ∧ s.seeks = w.seeks
      · obtain ⟨f, rfl, hseeks⟩ := hfinish
        have hread : s.cursor = w.cursor := hw.read s (by rw [hphase]; rfl) hseeks
        have hcursor : w.cursor = c := by
          rw [← hw.cursor]
          simp [outlook, nextCursor, hphase]
        have hsame : (w.cursor == s.cursor) = true := by
          rw [hread, hcursor]
          cases c with
          | none => rfl
          | some t => exact beq_iff.mpr ⟨hc t rfl, hc t rfl⟩
        refine .finish (f := f) ⟨hw.attached, ?_, ?_, ?_⟩ ?_ ?_ ?_
        · simpa [DecodePhase.lease?, hphase] using hw.leased
        · simpa [DecodePhase.snapshot?] using fun _ => hread
        · simp [outlook, hseeks, hsame]
        · simp [inCall?, hphase, hseeks]
        · simp [inCall?]
        · simp [credited, DecodePhase.seeksRead?, DecodeEvent.decodedFrame?, hphase, hseeks]
      · -- What was flushed, or a frame from before a seek, leaves the cursor alone.
        have hstale : ∀ f, frame = some f → s.seeks ≠ w.seeks := by simpa using hfinish
        refine .pause (hw.keep ?_ ?_ ?_ ?_) (by simp [inCall?]) ?_
        · simp
        · simp [DecodePhase.lease?, hphase]
        · simp [DecodePhase.snapshot?, hphase]
        · cases frame with
          | none => simp [outlook, nextCursor, hphase]
          | some f => simp [outlook, nextCursor, hphase, hstale f rfl]
        · cases frame with
          | none => simp [credited, DecodeEvent.decodedFrame?]
          | some f => simp [credited, DecodePhase.seeksRead?, hphase, hstale f rfl]
  | @discard l s frame decoded hphase hseeks =>
      refine .pause (hw.keep ?_ ?_ ?_ ?_) ?_ ?_ <;>
        cases frame <;>
        simp [DecodePhase.lease?, DecodePhase.snapshot?, outlook, nextCursor, inCall?, credited,
          hphase, Ne.symm hseeks]
  | @giveBack l next hphase =>
      have hinput : (w.giveBack l).input = w.inputs.input := by
        unfold DecodeWorker.giveBack
        split <;> rfl
      refine .pause (hw.keep ?_ ?_ ?_ ?_) ?_ ?_ <;>
        cases next <;>
        simp [DecodePhase.lease?, DecodePhase.snapshot?, outlook, nextCursor, inCall?, credited,
          hphase, hinput]
  | exit hphase _ | check hphase _ | abandon hphase _ | park hphase _ | unpark hphase _
  | countSeeks hphase | readTime hphase | throttle hphase _ | evict hphase _ | miss hphase _
  | starve hphase _ | flush hphase _ _ | awaitKey hphase _ _ | breakOff hphase _ _
  | storeFlushed hphase _ | store hphase _ | advance hphase _ | keepCursor hphase _
  | finishSeek hphase _ _ | settle hphase _ | fail hphase =>
      refine .pause (hw.keep ?_ ?_ ?_ ?_) ?_ ?_ <;>
        simp [DecodePhase.lease?, DecodePhase.snapshot?, outlook, nextCursor, inCall?, credited,
          DecodeEvent.decodedFrame?, *]

omit [Decoder D T] [LawfulMediaTime T] in
theorem outlook_mapRing (f : Keyring → Keyring) : (w.mapRing f).outlook = w.outlook := by
  simp only [outlook, nextCursor, mapRing]
  cases hphase : w.phase with
  | storing l s frame decoded => cases frame <;> rfl
  | _ => rfl

omit [MediaTime T] [Decoder D T] [LawfulMediaTime T] in
theorem inCall?_mapRing (f : Keyring → Keyring) : (w.mapRing f).inCall? = w.inCall? := by
  simp only [inCall?, mapRing]
  cases w.phase <;> rfl

omit [LawfulMediaTime T] in
theorem Follows.act {x : DecodeSystem D T} {a : DecodeAction D T} (hx : x.worker.Follows i c)
    (settings : PipelineSettings T) (hstep : ∀ time duration, a ≠ .step time duration)
    (hseek : a ≠ .seek)
    (hattach : ∀ j output, a = .attach j output → j = i) :
    (x.act settings a).1.worker.Follows i c ∧
      (x.act settings a).1.worker.inCall? = x.worker.inCall? ∧ (x.act settings a).2 = [] := by
  cases a with
  | step time duration => exact absurd rfl (hstep time duration)
  | seek => exact absurd rfl hseek
  | wake =>
      refine ⟨?_, ?_, rfl⟩ <;> simp only [DecodeSystem.act, wake]
      · split
        · next hphase =>
          apply hx.keep <;>
            simp [DecodePhase.lease?, DecodePhase.snapshot?, outlook, nextCursor, hphase]
        · exact hx
      · split <;> simp [inCall?, *]
  | attach input output =>
      refine ⟨⟨?_, hx.leased, hx.read, hx.cursor⟩, rfl, rfl⟩
      simpa [DecodeSystem.act, attach] using hattach input output rfl
  | detach => exact ⟨⟨by simp [DecodeSystem.act, detach], hx.leased, hx.read, hx.cursor⟩, rfl, rfl⟩
  | mapRing f =>
      refine ⟨hx.keep (fun j hj => hj) ?_ ?_ (outlook_mapRing f), inCall?_mapRing f, rfl⟩ <;>
        simp only [DecodeSystem.act, mapRing] <;>
        cases hphase : x.worker.phase <;>
        simp [mapLease, DecodePhase.lease?, DecodePhase.snapshot?]
  | _ => exact ⟨⟨hx.attached, hx.leased, hx.read, hx.cursor⟩, rfl, rfl⟩

end DecodeWorker

namespace FrameOrder

variable {F : Type} [Frame F T] [LawfulMediaTime T] {order : FrameOrder} {f : F} {fs gs : List F}

/-- An update behind the end of a stretch leaves the stretch in one piece. -/
theorem infix_update (hfs : order.Ascending fs) (hgs : gs <:+: fs)
    (hlast : ∀ g ∈ gs.getLast?, order.key g < order.key f) : gs <:+: order.update f fs := by
  obtain ⟨before, after, rfl⟩ := hgs
  rcases List.eq_nil_or_concat gs with rfl | ⟨hs, g, rfl⟩
  · exact List.nil_infix
  · rw [List.concat_eq_append] at hfs hlast ⊢
    have hg : order.key g < order.key f := hlast g (by simp)
    have hfront : order.Ascending (before ++ (hs ++ [g])) :=
      hfs.of_sublist (List.sublist_append_left _ _)
    rw [update_append_of_forall_lt (hfront.forall_lt_of_getLast? (by simp) hg)]
    exact ⟨before, order.update f after, rfl⟩

end FrameOrder

namespace BufferStore

omit [MediaTime T] in
theorem encodedAt_editEncoded (s : BufferStore T) (i j : Nat)
    (f : EncodedBuffer T → EncodedBuffer T) :
    (s.editEncoded j f).encodedAt i = s.encodedAt i ∨
      j = i ∧ (s.editEncoded j f).encodedAt i = f (s.encodedAt i) := by
  simp only [encodedAt, editEncoded, List.getD_eq_getElem?_getD, List.getElem?_modify]
  by_cases hji : j = i
  · cases hget : s.encoded[i]? with
    | none => simp
    | some b => simp [hji]
  · simp [hji]

end BufferStore

/-- A system together with a record of what has been decoded since the last seek. -/
structure DecodeLedger (D T : Type) where
  system : DecodeSystem D T
  decoded : List (EncodedFrame T)

namespace DecodeLedger

variable [Decoder D T]

def act (settings : PipelineSettings T) (x : DecodeLedger D T) (a : DecodeAction D T) :
    DecodeLedger D T where
  system := (x.system.act settings a).1
  decoded := x.decoded ++ x.system.worker.credited (x.system.act settings a).2

def actAll (settings : PipelineSettings T) (x : DecodeLedger D T) (as : List (DecodeAction D T)) :
    DecodeLedger D T :=
  as.foldl (act settings) x

def input (x : DecodeLedger D T) (i : Nat) : EncodedBuffer T := x.system.store.encodedAt i

/-- The frame to be handed to the decoder at the time `t`. -/
def due? (x : DecodeLedger D T) (i : Nat) (t : T) : Option (EncodedFrame T) :=
  match x.decoded.getLast? with
  | none => (x.input i).getFrame t .keyFrameBefore
  | some last =>
    (x.input i).toList.find? fun f => decide (FrameOrder.dts.key last < FrameOrder.dts.key f)

/-! ## Filling the input -/

/-- A frame that is added while the loop decodes: its decode time is new, and later than that of the
last decoded frame. -/
structure Extends (i : Nat) (x : DecodeLedger D T) (f : EncodedFrame T) : Prop where
  keyed : FrameOrder.dts.IsKeyed f
  apart : ∀ g ∈ (x.input i).toList, FrameOrder.dts.Apart f g
  later : ∀ g ∈ x.decoded.getLast?, FrameOrder.dts.key g < FrameOrder.dts.key f

/-- It is also later than the frame that is being decoded, once a first one has been decoded. -/
structure ExtendsCall (i : Nat) (x : DecodeLedger D T) (f : EncodedFrame T) : Prop
    extends x.Extends i f where
  afterCall : x.decoded ≠ [] →
    ∀ g ∈ x.system.worker.inCall?, FrameOrder.dts.key g < FrameOrder.dts.key f

/-- The action is no seek, attaches no other input, and does nothing to the input but add a frame
that `rule` allows. -/
def Admits (i : Nat) (rule : DecodeLedger D T → EncodedFrame T → Prop) (x : DecodeLedger D T) :
    DecodeAction D T → Prop
  | .seek => False
  | .attach input _ => input = i
  | .editEncoded j (.add f) => j = i → rule x f
  | .editEncoded j _ => j ≠ i
  | _ => True

def Feeds (settings : PipelineSettings T) (i : Nat)
    (rule : DecodeLedger D T → EncodedFrame T → Prop) :
    DecodeLedger D T → List (DecodeAction D T) → Prop
  | _, [] => True
  | x, a :: as => x.Admits i rule a ∧ Feeds settings i rule (x.act settings a) as

/-! ## One action -/

variable [LawfulMediaTime T] {settings : PipelineSettings T} {i : Nat}
  {rule : DecodeLedger D T → EncodedFrame T → Prop} {x : DecodeLedger D T} {a : DecodeAction D T}

/-- The decoded frames are a stretch of the input, the cursor stands at its end, and the frame that
is being decoded is the one behind it. -/
structure InOrder (i : Nat) (x : DecodeLedger D T) : Prop where
  follows : x.system.worker.Follows i (x.decoded.getLast?.map FrameOrder.dts.key)
  order : (x.input i).order = .dts
  spaced : (x.input i).IsSpaced
  stretch : x.decoded <:+: (x.input i).toList
  startsAtKey : ∀ k ∈ x.decoded.head?, k.isKeyFrame = true
  next : ∀ f ∈ x.system.worker.inCall?,
    x.decoded ++ [f] <:+: (x.input i).toList ∧ (x.decoded = [] → f.isKeyFrame = true)

omit [Decoder D T] [LawfulMediaTime T] in
theorem InOrder.ascending (hx : x.InOrder i) : FrameOrder.dts.Ascending (x.input i).toList :=
  hx.order ▸ hx.spaced.laid.ascending

omit [Decoder D T] [LawfulMediaTime T] in
theorem InOrder.isNumber (hx : x.InOrder i) :
    ∀ t ∈ x.decoded.getLast?.map FrameOrder.dts.key, IsNumber t := by
  intro t ht
  obtain ⟨f, hf, rfl⟩ := Option.map_eq_some_iff.mp ht
  exact hx.ascending.isNumber f (hx.stretch.subset (List.mem_of_getLast? hf))

omit [LawfulMediaTime T] in
theorem encoded_step (settings : PipelineSettings T) (time : T) (duration : Option T)
    (w : DecodeWorker D T) (store : BufferStore T) :
    (w.step settings time duration store).2.1.encoded = store.encoded := by
  have hstep := DecodeWorker.steps_step settings time duration w store
  generalize w.step settings time duration store = r at hstep ⊢
  cases hstep <;> rfl

omit [Decoder D T] in
theorem InOrder.chooseFrame_eq {s : DecodeSnapshot T} (hx : x.InOrder i)
    (hcursor : s.cursor = x.decoded.getLast?.map FrameOrder.dts.key) :
    DecodeWorker.chooseFrame (x.input i) s = x.due? i s.time := by
  unfold DecodeWorker.chooseFrame due?
  rw [hcursor]
  cases x.decoded.getLast? with
  | none => rfl
  | some last =>
      have hafter := FrameBuffer.getFrame_after (t := FrameOrder.dts.key last)
        hx.spaced.laid.frames_ne_nil hx.spaced.laid.ascending
      rw [hx.order] at hafter
      exact hafter

omit [Decoder D T] in
/-- The frame that is due stands directly behind the decoded ones. -/
theorem InOrder.of_due? {t : T} {f : EncodedFrame T} (hx : x.InOrder i)
    (hf : x.due? i t = some f) :
    x.decoded ++ [f] <:+: (x.input i).toList ∧ (x.decoded = [] → f.isKeyFrame = true) := by
  unfold due? at hf
  rcases List.eq_nil_or_concat x.decoded with hnil | ⟨fs, last, hlast⟩
  · simp only [hnil, List.getLast?_nil] at hf
    rw [hnil]
    refine ⟨(List.singleton_infix_iff f _).mpr (FrameBuffer.mem_toList_of_mem_getFrame hf), ?_⟩
    exact fun _ => (FrameBuffer.isKeyFrame_of_mem_getFrame hf).1
  · obtain ⟨before, after, hsplit⟩ := hx.stretch
    have hasc := hx.ascending
    simp only [hlast, List.concat_eq_append, List.getLast?_append, List.getLast?_singleton,
      Option.some_or] at hf hsplit ⊢
    have hall : (x.input i).toList = (before ++ fs) ++ last :: after := by
      rw [← hsplit]
      simp
    rw [hall] at hasc hf ⊢
    rw [hasc.find?_after] at hf
    obtain ⟨rest, rfl⟩ := List.head?_eq_some_iff.mp hf
    exact ⟨⟨before, rest, by simp⟩, by simp⟩

omit [Decoder D T] in
theorem InOrder.of_progress {y : DecodeLedger D T} (hx : x.InOrder i)
    (events : List (DecodeEvent T)) (hinput : y.input i = x.input i)
    (hdecoded : y.decoded = x.decoded ++ x.system.worker.credited events)
    (hprogress : x.system.worker.Progress x.system.store i
      (x.decoded.getLast?.map FrameOrder.dts.key) y.system.worker events) : y.InOrder i := by
  have horder : (y.input i).order = .dts := hinput ▸ hx.order
  have hspaced : (y.input i).IsSpaced := hinput ▸ hx.spaced
  cases hprogress with
  | pause hfollow hcall hquiet =>
      rw [hquiet, List.append_nil] at hdecoded
      refine ⟨hdecoded ▸ hfollow, horder, hspaced, ?_, hdecoded ▸ hx.startsAtKey, ?_⟩
      · rw [hdecoded, hinput]
        exact hx.stretch
      · intro f hf
        rw [hdecoded, hinput]
        exact hx.next f (hcall f hf)
  | @hand s f hfollow hcursor hchoice hcall hquiet =>
      rw [hquiet, List.append_nil] at hdecoded
      refine ⟨hdecoded ▸ hfollow, horder, hspaced, ?_, hdecoded ▸ hx.startsAtKey, ?_⟩
      · rw [hdecoded, hinput]
        exact hx.stretch
      · intro g hg
        rw [hcall] at hg
        cases hg
        rw [hdecoded, hinput]
        exact hx.of_due? ((hx.chooseFrame_eq hcursor).symm.trans hchoice)
  | @finish f hfollow hcall hidle hcredit =>
      rw [hcredit] at hdecoded
      obtain ⟨hstretch, hkey⟩ := hx.next f hcall
      have hnumber : IsNumber f.dts := hx.ascending.isNumber f (hstretch.subset (by simp))
      have hcursor : DecodeWorker.cursorAt f.dts = y.decoded.getLast?.map FrameOrder.dts.key := by
        simp [hdecoded, DecodeWorker.cursorAt, isNaN_eq_false_iff.mpr hnumber]
        rfl
      refine ⟨hcursor ▸ hfollow, horder, hspaced, ?_, ?_, by simp [hidle]⟩
      · rw [hdecoded, hinput]
        exact hstretch
      · rw [hdecoded]
        cases hempty : x.decoded with
        | nil => simpa using hkey hempty
        | cons k ks => simpa [hempty] using hx.startsAtKey

theorem InOrder.step {time : T} {duration : Option T} (hx : x.InOrder i) :
    (x.act settings (.step time duration)).InOrder i := by
  refine hx.of_progress _ ?_ rfl (hx.follows.step hx.isNumber)
  have hencoded := encoded_step settings time duration x.system.worker x.system.store
  simp only [input, act, DecodeSystem.act, BufferStore.encodedAt, hencoded]

omit [Decoder D T] in
theorem InOrder.add {y : DecodeLedger D T} {f : EncodedFrame T} (hx : x.InOrder i)
    (hf : x.ExtendsCall i f) (hinput : y.input i = (x.input i).add f)
    (hworker : y.system.worker = x.system.worker) (hdecoded : y.decoded = x.decoded) :
    y.InOrder i := by
  have hkeyed : (x.input i).order.IsKeyed f := hx.order.symm ▸ hf.keyed
  have hlist : (y.input i).toList = FrameOrder.dts.update f (x.input i).toList := by
    rw [hinput, hx.spaced.toList_add hkeyed, hx.order]
  refine ⟨?_, ?_, ?_, ?_, hdecoded ▸ hx.startsAtKey, ?_⟩
  · rw [hworker, hdecoded]
    exact hx.follows
  · rw [hinput]
    exact hx.order
  · rw [hinput]
    exact hx.spaced.add hkeyed
  · rw [hlist, hdecoded]
    exact FrameOrder.infix_update hx.ascending hx.stretch hf.later
  · intro g hg
    rw [hworker] at hg
    obtain ⟨hstretch, hkey⟩ := hx.next g hg
    rw [hlist, hdecoded]
    refine ⟨?_, hkey⟩
    cases hempty : x.decoded with
    | nil =>
        -- The first frame stays in the input wherever the new one goes.
        have hmem : g ∈ (x.input i).toList := hstretch.subset (by simp)
        refine (List.singleton_infix_iff g _).mpr ?_
        refine (hx.ascending.mem_update_iff hf.keyed.isNumber).mpr (Or.inr ⟨hmem, ?_⟩)
        refine Bool.eq_false_iff.mpr fun heq => ?_
        rcases hf.apart g hmem with hlt | hlt
        · exact not_le_of_lt hlt (beq_iff.mp heq).2
        · exact not_le_of_lt hlt (beq_iff.mp heq).1
    | cons k ks =>
        rw [← hempty]
        refine FrameOrder.infix_update hx.ascending hstretch ?_
        simpa using hf.afterCall (by simp [hempty]) g hg

omit [LawfulMediaTime T] in
theorem input_act (settings : PipelineSettings T) (i : Nat) (x : DecodeLedger D T)
    (a : DecodeAction D T) :
    (x.act settings a).input i = x.input i ∨
      ∃ edit, a = .editEncoded i edit ∧ (x.act settings a).input i = (x.input i).edit edit := by
  cases a with
  | step time duration =>
      have hencoded := encoded_step settings time duration x.system.worker x.system.store
      left
      simp only [input, DecodeLedger.act, DecodeSystem.act, BufferStore.encodedAt, hencoded]
  | seek =>
      left
      simp only [input, DecodeLedger.act, DecodeSystem.act, DecodeWorker.onSeek]
      split <;> rfl
  | editEncoded j edit =>
      rcases BufferStore.encodedAt_editEncoded x.system.store i j (·.edit edit) with
        hsame | ⟨rfl, hedit⟩
      · exact Or.inl hsame
      · exact Or.inr ⟨edit, rfl, hedit⟩
  | _ => exact Or.inl rfl

theorem InOrder.act (hx : x.InOrder i) (ha : x.Admits i (ExtendsCall i) a) :
    (x.act settings a).InOrder i := by
  by_cases hstep : ∃ time duration, a = .step time duration
  · obtain ⟨time, duration, rfl⟩ := hstep
    exact hx.step
  · push Not at hstep
    have hseek : a ≠ .seek := by
      rintro rfl
      exact ha
    have hattach : ∀ j output, a = .attach j output → j = i := by
      rintro j output rfl
      exact ha
    obtain ⟨hfollow, hcall, hevents⟩ := hx.follows.act settings hstep hseek hattach
    have hdecoded : (x.act settings a).decoded = x.decoded := by
      simp [DecodeLedger.act, hevents, DecodeWorker.credited]
    rcases x.input_act settings i a with hsame | ⟨edit, rfl, hedit⟩
    · refine hx.of_progress [] hsame ?_ (.pause hfollow ?_ ?_)
      · simp [hdecoded, DecodeWorker.credited]
      · exact fun f hf => hcall ▸ hf
      · simp [DecodeWorker.credited]
    · cases edit with
      | add f => exact hx.add (ha rfl) hedit rfl hdecoded
      | remove start stop => exact absurd rfl ha
      | clear => exact absurd rfl ha

/-! ## Whole runs -/

omit [LawfulMediaTime T] in
theorem feeds_append {as bs : List (DecodeAction D T)} :
    Feeds settings i rule x (as ++ bs) ↔
      Feeds settings i rule x as ∧ Feeds settings i rule (x.actAll settings as) bs := by
  induction as generalizing x with
  | nil => simp [Feeds, DecodeLedger.actAll]
  | cons a as ih => simp [Feeds, ih, DecodeLedger.actAll, and_assoc]

theorem InOrder.actAll {as : List (DecodeAction D T)} (hx : x.InOrder i)
    (has : Feeds settings i (ExtendsCall i) x as) : (x.actAll settings as).InOrder i := by
  induction as generalizing x with
  | nil => exact hx
  | cons a as ih => exact ih (hx.act has.1) has.2

theorem InOrder.infix_actAll {as : List (DecodeAction D T)} {fs : List (EncodedFrame T)}
    (hx : x.InOrder i) (has : Feeds settings i (ExtendsCall i) x as)
    (hfs : fs <:+: (x.input i).toList)
    (hlater : ∀ g, .editEncoded i (.add g) ∈ as →
      ∀ f ∈ fs.getLast?, FrameOrder.dts.key f < FrameOrder.dts.key g) :
    fs <:+: ((x.actAll settings as).input i).toList := by
  induction as generalizing x with
  | nil => exact hfs
  | cons a as ih =>
      refine ih (hx.act has.1) has.2 ?_ fun g hg => hlater g (List.mem_cons_of_mem a hg)
      rcases x.input_act settings i a with hsame | ⟨edit, rfl, hedit⟩
      · exact hsame.symm ▸ hfs
      · cases edit with
        | add g =>
            have hkeyed : (x.input i).order.IsKeyed g := hx.order.symm ▸ (has.1 rfl).keyed
            rw [hedit, FrameBuffer.edit, hx.spaced.toList_add hkeyed, hx.order]
            exact FrameOrder.infix_update hx.ascending hfs (hlater g List.mem_cons_self)
        | remove start stop => exact absurd rfl has.1
        | clear => exact absurd rfl has.1

/-- What has been decoded, and what comes next. As the input ascends, a stretch of it is one frame
together with each frame that has a later decode time, once and in order, up to the last of
them. -/
structure Sequential (settings : PipelineSettings T) (i : Nat) (x : DecodeLedger D T) : Prop where
  ascending : FrameOrder.dts.Ascending (x.input i).toList
  stretch : x.decoded <:+: (x.input i).toList
  startsAtKey : ∀ k ∈ x.decoded.head?, k.isKeyFrame = true
  /-- A round looks for the frame that is due at the time that it has read. -/
  choice : ∀ l s, x.system.worker.phase = .choosing l s → s.seeks = x.system.worker.seeks →
    DecodeWorker.chooseFrame (x.system.store.encodedAt l.input) s = x.due? i s.time
  /-- Until it is decoded, the frame of a call stays due, unless one is added in front of it. -/
  retry : ∀ f ∈ x.system.worker.inCall?, x.decoded ≠ [] →
    ∀ as, Feeds settings i (ExtendsCall i) x as →
      (∀ g, .editEncoded i (.add g) ∈ as → FrameOrder.dts.key f < FrameOrder.dts.key g) →
      (x.actAll settings as).decoded = x.decoded →
      ∀ t, (x.actAll settings as).due? i t = some f

theorem InOrder.sequential (hx : x.InOrder i) : x.Sequential settings i where
  ascending := hx.ascending
  stretch := hx.stretch
  startsAtKey := hx.startsAtKey
  choice := by
    intro l s hphase hseeks
    have hinput : l.input = i := hx.follows.leased l (by rw [hphase]; rfl)
    have hread := hx.follows.read s (by rw [hphase]; rfl) hseeks
    have houtlook := hx.follows.cursor
    simp only [DecodeWorker.outlook, DecodeWorker.nextCursor, hphase] at houtlook
    rw [hinput]
    exact hx.chooseFrame_eq (hread.trans houtlook)
  retry := by
    intro f hf hbegun as has hlater hsame t
    have hstretch := hx.infix_actAll has (hx.next f hf).1 (by simpa using hlater)
    have hasc := (hx.actAll has).ascending
    obtain ⟨before, after, hsplit⟩ := hstretch
    obtain ⟨fs, last, hlast⟩ := List.eq_nil_or_concat x.decoded |>.resolve_left hbegun
    rw [List.concat_eq_append] at hlast
    have hall : ((x.actAll settings as).input i).toList =
        (before ++ fs) ++ last :: (f :: after) := by
      rw [← hsplit, hlast]
      simp
    rw [hall] at hasc
    simp only [due?, hsame, hlast, List.getLast?_append, List.getLast?_singleton, Option.some_or,
      hall]
    exact hasc.find?_after

/-! ## From a start or a seek -/

def start (system : DecodeSystem D T) : DecodeLedger D T := ⟨system, []⟩

omit [LawfulMediaTime T] in
@[simp] theorem system_actAll (as : List (DecodeAction D T)) :
    (x.actAll settings as).system = x.system.actAll settings as := by
  induction as generalizing x with
  | nil => rfl
  | cons a as ih => exact ih (x := x.act settings a)

/-- The loop decodes from a key frame on: it has not begun, or there was a seek that is not lost. -/
inductive Begins (settings : PipelineSettings T) : DecodeSystem D T → Prop
  | start {x : DecodeSystem D T} (hbetween : x.worker.phase.lease? = none)
      (hcursor : x.worker.cursor = none) : Begins settings x
  | seek {x : DecodeSystem D T} {past : List (DecodeAction D T)}
      (hbetween : x.worker.phase.lease? = none)
      (hkept : ¬ (x.actAll settings past).worker.OverwritesReset) :
      Begins settings ((x.actAll settings past).act settings .seek).1

omit [LawfulMediaTime T] in
theorem Begins.seeksRead?_ne {x : DecodeSystem D T} (hx : Begins settings x) :
    x.worker.phase.seeksRead? ≠ some x.worker.seeks := by
  cases hx with
  | start hbetween hcursor => simp [DecodePhase.seeksRead?_of_between hbetween]
  | seek hbetween hkept =>
      intro hread
      exact absurd (DecodeSystem.seeksRead?_le hbetween hread) (Nat.not_succ_le_self _)

omit [LawfulMediaTime T] in
theorem Begins.nextCursor_eq_none {x : DecodeSystem D T} (hx : Begins settings x) :
    x.worker.nextCursor = none := by
  cases hx with
  | start hbetween hcursor =>
      unfold DecodeWorker.nextCursor
      split
      · next hphase => simp [hphase, DecodePhase.lease?] at hbetween
      · exact hcursor
  | @seek x past hbetween hkept =>
      exact (DecodeWorker.nextCursor_onSeek_eq_none_iff _ (x.actAll settings past).store).mpr hkept

omit [LawfulMediaTime T] in
/-- A round from before the seek has no part in what follows. -/
theorem Begins.follows {x : DecodeSystem D T} (hx : Begins settings x)
    (hattached : ∀ j ∈ x.worker.inputs.input, j = i)
    (hleased : ∀ l ∈ x.worker.phase.lease?, l.input = i) :
    x.worker.Follows i none ∧ x.worker.inCall? = none := by
  have hstale := hx.seeksRead?_ne
  have hnext := hx.nextCursor_eq_none
  have hread : ∀ s ∈ x.worker.phase.snapshot?, s.seeks ≠ x.worker.seeks := by
    intro s hs hseeks
    exact hstale (hseeks ▸ DecodePhase.seeksRead?_of_snapshot? hs)
  refine ⟨⟨hattached, hleased, fun s hs hseeks => absurd hseeks (hread s hs), ?_⟩, ?_⟩
  · unfold DecodeWorker.outlook
    split
    · next l s f decoded hphase =>
      have hseeks := hread s (by rw [hphase]; rfl)
      simpa [DecodeWorker.nextCursor, hphase, hseeks] using hnext
    · exact hnext
  · unfold DecodeWorker.inCall?
    split
    · next l s frame hphase => exact if_neg (hread s (by rw [hphase]; rfl))
    · rfl

omit [Decoder D T] in
theorem isSpaced_addAll {order : FrameOrder} {fs : List (EncodedFrame T)} {b : EncodedBuffer T}
    (hb : b.IsSpaced ∧ b.order = order) (hfs : ∀ f ∈ fs, order.IsKeyed f) :
    (b.addAll fs).IsSpaced ∧ (b.addAll fs).order = order := by
  induction fs generalizing b with
  | nil => exact hb
  | cons f fs ih =>
      obtain ⟨hf, hlater⟩ := List.forall_mem_cons.mp hfs
      exact ih ⟨hb.1.add (hb.2.symm ▸ hf), hb.2⟩ hlater

/-- After a start or a seek, with one input that only grows, and grows behind the last decoded frame
and the one that is being decoded, the decoded frames are a stretch of the input from a key frame
on. -/
theorem sequential_of_feeds {system : DecodeSystem D T} {fs : List (EncodedFrame T)}
    (hbegins : Begins settings system) (hattached : ∀ j ∈ system.worker.inputs.input, j = i)
    (hleased : ∀ l ∈ system.worker.phase.lease?, l.input = i)
    (hinput : system.store.encodedAt i = (FrameBuffer.empty .dts).addAll fs)
    (hkeyed : ∀ f ∈ fs, FrameOrder.dts.IsKeyed f) {run : List (DecodeAction D T)}
    (hrun : Feeds settings i (ExtendsCall i) (start system) run) :
    ((start system).actAll settings run).system = system.actAll settings run ∧
      ((start system).actAll settings run).Sequential settings i := by
  obtain ⟨hfollow, hidle⟩ := hbegins.follows hattached hleased
  obtain ⟨hspaced, horder⟩ := isSpaced_addAll ⟨FrameBuffer.isSpaced_empty .dts, rfl⟩ hkeyed
  have hfilled : (start system).input i = (FrameBuffer.empty .dts).addAll fs := hinput
  have hstart : (start system).InOrder i := by
    refine ⟨hfollow, ?_, ?_, List.nil_infix, by simp [start], ?_⟩
    · exact hfilled.symm ▸ horder
    · exact hfilled.symm ▸ hspaced
    · simp [start, hidle]
  exact ⟨system_actAll run, (hstart.actAll hrun).sequential⟩

/-! ## A gap that is closed -/

/-- In doubles a finite decode time and a duration that is not negative are enough. -/
theorem isKeyed_of_duration_nonneg {f : EncodedFrame Float} (hdts : isFinite f.dts = true)
    (hduration : 0 ≤ f.duration) : FrameOrder.dts.IsKeyed f :=
  ⟨hdts, Double.le_add_of_nonneg hdts hduration⟩

def picture (dts : Float) (isKeyFrame : Bool) : EncodedFrame Float :=
  ⟨dts, dts, 0.1, isKeyFrame, .video 0 "h264" 1 1, [], none⟩

/-- A key frame and, where one frame is missing between them, another frame. -/
def gapSystem : DecodeSystem (PassThrough Float) Float where
  worker := (DecodeWorker.new.setDecoder (some {})).attach 0 0
  store := (BufferStore.new 1).editEncoded 0 (·.addAll [picture 0 true, picture 0.2 false])

/-- The missing frame is added after `n` steps, and `m` more steps follow. -/
def fillGap (n m : Nat) : List (DecodeAction (PassThrough Float) Float) :=
  DecodeSystem.steps n ++ .editEncoded 0 (.add (picture 0.1 false)) :: DecodeSystem.steps m

theorem feeds_steps {rule : DecodeLedger (PassThrough Float) Float → EncodedFrame Float → Prop}
    {y : DecodeLedger (PassThrough Float) Float} (n : Nat) :
    Feeds .default 0 rule y (DecodeSystem.steps n) := by
  induction n generalizing y with
  | zero => trivial
  | succ n ih => exact ⟨trivial, ih⟩

theorem feeds_fillGap {rule : DecodeLedger (PassThrough Float) Float → EncodedFrame Float → Prop}
    {n m : Nat}
    (hrule : rule ((start gapSystem).actAll .default (DecodeSystem.steps n)) (picture 0.1 false)) :
    Feeds .default 0 rule (start gapSystem) (fillGap n m) :=
  feeds_append.mpr ⟨feeds_steps n, fun _ => hrule, feeds_steps m⟩

theorem extends_fillGap {n : Nat} (hn : n = 12 ∨ n = 19) :
    ((start gapSystem).actAll .default (DecodeSystem.steps n)).Extends 0 (picture 0.1 false) := by
  refine ⟨isKeyed_of_duration_nonneg (by decide +kernel) (by decide +kernel), ?_, ?_⟩
  · unfold FrameOrder.Apart
    rcases hn with rfl | rfl <;> decide +kernel
  · rcases hn with rfl | rfl <;> decide +kernel

theorem sequential_fillGap :
    ((start gapSystem).actAll .default (fillGap 12 24)).system =
        gapSystem.actAll .default (fillGap 12 24) ∧
      ((start gapSystem).actAll .default (fillGap 12 24)).Sequential .default 0 := by
  have hkeyed : ∀ f ∈ [picture 0 true, picture 0.2 false], FrameOrder.dts.IsKeyed f := by
    intro f hf
    rcases List.mem_pair.mp hf with rfl | rfl <;>
      exact isKeyed_of_duration_nonneg (by decide +kernel) (by decide +kernel)
  -- Twelve steps are the first round, so the key frame is decoded when the missing frame comes.
  apply sequential_of_feeds (.start rfl rfl) (by decide) (by decide) rfl hkeyed
  exact feeds_fillGap ⟨extends_fillGap (Or.inl rfl), by decide +kernel⟩

example : ((start gapSystem).actAll .default (fillGap 12 24)).decoded =
    [picture 0 true, picture 0.1 false, picture 0.2 false] := by decide +kernel

/-- After nineteen steps the frame behind the gap is being decoded. The missing frame is then added
too late. -/
theorem gap_skipped :
    ¬ ∀ run, Feeds .default 0 (Extends 0) (start gapSystem) run →
      ((start gapSystem).actAll .default run).Sequential .default 0 := by
  intro hsequential
  have hfeeds : Feeds .default 0 (Extends 0) (start gapSystem) (fillGap 19 1) :=
    feeds_fillGap (extends_fillGap (Or.inr rfl))
  exact absurd (hsequential _ hfeeds).stretch (by decide +kernel)

end DecodeLedger

end MediaPipeline
