import Mathlib.Algebra.Order.Floor.Semiring
import Mathlib.Data.List.Induction
import MediaPipeline.Audio.Device
import MediaPipeline.Proofs.Time.Exact

/-!
# Asking a device

A device plays whole bytes. Whenever it is used it takes off the bytes that have been played, and
counts anew from there: the part of a byte that was due as well is played once more. This is also so
when it is only asked how much is queued. So a device that is asked plays less than one that is not,
and one that is asked often enough plays nothing at all.
-/

namespace MediaPipeline

namespace ExactTime

def toRat : ExactTime → ℚ
  | finite q => q
  | negInf | posInf => 0

theorem toRat_ofNanos_mul (n : ℕ) (r : ExactTime) :
    (MediaTime.ofNanos n * r).toRat = n / 1000000000 * r.toRat := by
  rw [ofNanos_eq]
  cases r with
  | finite q => rfl
  | negInf =>
      rw [finite_mul_negInf, sign_ofNanos]
      split_ifs <;> simp [ofSign, toRat]
  | posInf =>
      rw [finite_mul_posInf, sign_ofNanos]
      split_ifs <;> simp [ofSign, toRat]

theorem floorNat_eq (t : ExactTime) : MediaTime.floorNat t = ⌊t.toRat⌋₊ := by
  cases t with
  | finite q => rfl
  | negInf | posInf => exact Nat.floor_zero.symm

end ExactTime

/-! ## Whole bytes and parts of bytes -/

namespace Playout

variable {p : Playout ExactTime} {now n : ℕ}

/-- Bytes played in a second, none while the device does not play. -/
def speed (p : Playout ExactTime) : ℚ := if p.playing then p.bytesPerSecond.toRat else 0

/-- What was to be played since the last update, parts of bytes included. -/
def due (p : Playout ExactTime) (now : ℕ) : ℚ :=
  (now - p.lastUpdate : ℕ) / 1000000000 * p.speed

theorem queued_settle (p : Playout ExactTime) (now : ℕ) :
    (p.settle now).queued = p.queued - ⌊p.due now⌋₊ := by
  unfold settle due speed
  split_ifs with hplaying
  · rw [ExactTime.floorNat_eq, ExactTime.toRat_ofNanos_mul]
  · simp

theorem due_of_updated (h : p.lastUpdate = now) : p.due now = 0 := by
  simp [due, h]

theorem due_add (h : p.lastUpdate ≤ now) (n : ℕ) :
    p.due (now + n) = p.due now + n / 1000000000 * p.speed := by
  simp only [due]
  rw [Nat.sub_add_comm h, Nat.cast_add]
  ring

theorem speed_nonneg (h : 0 ≤ p.bytesPerSecond.toRat) : 0 ≤ p.speed := by
  unfold speed
  split_ifs
  · exact h
  · exact le_rfl

theorem due_nonneg (h : 0 ≤ p.bytesPerSecond.toRat) : 0 ≤ p.due now :=
  mul_nonneg (div_nonneg (Nat.cast_nonneg _) (by norm_num)) (speed_nonneg h)

end Playout

/-! ## Devices at a clock -/

structure PlayoutSystem (T : Type) where
  now : Nat
  device : Playout T

inductive PlayoutAction (T : Type) where
  | advance (nanos : Nat)
  | init (frame : DecodedFrame T)
  | append (data : Bytes)
  | clear
  | setPlaying (playing : Bool)
  /-- Asks how much is queued. -/
  | ask

def PlayoutAction.isAsk {T : Type} : PlayoutAction T → Bool
  | ask => true
  | _ => false

namespace PlayoutSystem

section Runs

variable {T : Type} [MediaTime T]

def new (now : Nat) : PlayoutSystem T := ⟨now, .new now⟩

def act (x : PlayoutSystem T) : PlayoutAction T → PlayoutSystem T
  | .advance nanos => { x with now := x.now + nanos }
  | .init frame => { x with device := (x.device.init x.now frame).2 }
  | .append data => { x with device := x.device.append x.now data }
  | .clear => { x with device := x.device.clear x.now }
  | .setPlaying playing => { x with device := x.device.setPlaying x.now playing }
  | .ask => { x with device := (x.device.bytesBuffered x.now).2 }

def actAll (x : PlayoutSystem T) (as : List (PlayoutAction T)) : PlayoutSystem T :=
  as.foldl act x

/-- What the device says is queued, if it is asked now. -/
def answer (x : PlayoutSystem T) : Nat := (x.device.bytesBuffered x.now).1

end Runs

variable {x : PlayoutSystem ExactTime} {a : PlayoutAction ExactTime}

theorem answer_eq (x : PlayoutSystem ExactTime) :
    x.answer = x.device.queued - ⌊x.device.due x.now⌋₊ :=
  x.device.queued_settle x.now

theorem act_init_video {frame : DecodedFrame ExactTime} {format : PixelFormat}
    (hformat : frame.format = .video format) : x.act (.init frame) = x := by
  simp only [act, Playout.init, hformat]

theorem act_init_audio {frame : DecodedFrame ExactTime} {format : SampleFormat}
    (hformat : frame.format = .audio format) :
    x.act (.init frame) = { x with
      device := { x.device.settle x.now with
        queued := 0
        bytesPerSecond := .finite
          (frame.stream.sampleRate * frame.stream.channelCount * format.bytesPerSample)
        inits := x.device.inits + 1 } } := by
  simp only [act, Playout.init, hformat]
  rfl

/-- The clock has not gone back, and the device does not play backwards. -/
structure IsForward (x : PlayoutSystem ExactTime) : Prop where
  updated : x.device.lastUpdate ≤ x.now
  rate : 0 ≤ x.device.bytesPerSecond.toRat

theorem IsForward.due_nonneg (h : x.IsForward) : 0 ≤ x.device.due x.now :=
  Playout.due_nonneg h.rate

theorem IsForward.act (h : x.IsForward) (a : PlayoutAction ExactTime) : (x.act a).IsForward := by
  cases a with
  | advance nanos => exact ⟨h.updated.trans (Nat.le_add_right ..), h.rate⟩
  | init frame =>
      cases hformat : frame.format with
      | video format => exact act_init_video hformat ▸ h
      | audio format =>
          rw [act_init_audio hformat]
          refine ⟨le_rfl, ?_⟩
          exact mul_nonneg (mul_nonneg (Nat.cast_nonneg _) (Nat.cast_nonneg _)) (Nat.cast_nonneg _)
  | append | clear | setPlaying | ask => exact ⟨le_rfl, h.rate⟩

theorem isForward_actAll (now : ℕ) (as : List (PlayoutAction ExactTime)) :
    ((new now).actAll as).IsForward := by
  induction as using List.reverseRecOn with
  | nil => exact ⟨le_rfl, le_rfl⟩
  | append_singleton as a ih =>
      rw [actAll, List.foldl_concat]
      exact ih.act a

/-- A device that is asked before a byte is due plays nothing, however long it is kept at that. -/
theorem answer_of_asked_often {x : PlayoutSystem ExactTime} (hupdated : x.device.lastUpdate = x.now)
    {nanos : ℕ} (hshort : nanos / 1000000000 * x.device.speed < 1) (count : ℕ) :
    (x.actAll (List.replicate count [.advance nanos, .ask]).flatten).answer = x.device.queued := by
  induction count generalizing x with
  | zero =>
      have hdue : x.device.due x.now = 0 := Playout.due_of_updated hupdated
      rw [List.replicate_zero, List.flatten_nil, actAll, List.foldl_nil, answer_eq, hdue,
        Nat.floor_zero, Nat.sub_zero]
  | succ count ih =>
      let asked := (x.act (.advance nanos)).act .ask
      have hdue : x.device.due (x.now + nanos) = nanos / 1000000000 * x.device.speed := by
        rw [Playout.due_add hupdated.le, Playout.due_of_updated hupdated, zero_add]
      have hqueued : asked.device.queued = x.device.queued := by
        have hfloor : ⌊x.device.due (x.now + nanos)⌋₊ = 0 := Nat.floor_eq_zero.mpr (hdue ▸ hshort)
        have hsettle := x.device.queued_settle (x.now + nanos)
        rwa [hfloor, Nat.sub_zero] at hsettle
      exact (ih (x := asked) rfl hshort).trans hqueued

end PlayoutSystem

/-! ## What asking costs -/

/-- A device together with what has been cut off so far. -/
structure PlayoutLedger where
  system : PlayoutSystem ExactTime
  /-- What is queued only because the device was asked. -/
  missed : ℚ
  /-- What is queued only because parts of bytes are not played. -/
  behind : ℚ
  /-- What would be queued if they were. -/
  level : ℚ

namespace PlayoutLedger

def new (now : ℕ) : PlayoutLedger := ⟨.new now, 0, 0, 0⟩

def due (x : PlayoutLedger) : ℚ := x.system.device.due x.system.now

def missedNow (x : PlayoutLedger) : ℚ := x.missed + Int.fract x.due

def behindNow (x : PlayoutLedger) : ℚ := x.behind + Int.fract x.due

/-- Any use but asking cuts the open part of a byte off whether the device was asked before or not:
only whole bytes that asking has cost are carried on. Neither can be more than what is queued. -/
def used (x : PlayoutLedger) (system : PlayoutSystem ExactTime) (added : ℕ) : PlayoutLedger where
  system
  missed := (min x.system.answer ⌊x.missedNow⌋₊ : ℕ)
  behind := min (x.system.answer : ℚ) x.behindNow
  level := x.level + added

def act (x : PlayoutLedger) (a : PlayoutAction ExactTime) : PlayoutLedger :=
  let system := x.system.act a
  match a with
  | .advance nanos =>
    { x with
      system
      level := max 0 (x.level - nanos / 1000000000 * x.system.device.speed) }
  | .ask =>
    { x with
      system
      missed := x.missedNow
      behind := min (x.system.answer : ℚ) x.behindNow }
  | .append data => x.used system data.length
  | .setPlaying _ => x.used system 0
  | .clear => ⟨system, 0, 0, 0⟩
  | .init frame =>
    match frame.format with
    | .audio _ => ⟨system, 0, 0, 0⟩
    | .video _ => { x with system }

def actAll (x : PlayoutLedger) (as : List (PlayoutAction ExactTime)) : PlayoutLedger :=
  as.foldl act x

variable {x : PlayoutLedger} {y : PlayoutSystem ExactTime} {a : PlayoutAction ExactTime}

theorem system_act (x : PlayoutLedger) (a : PlayoutAction ExactTime) :
    (x.act a).system = x.system.act a := by
  cases a with
  | init frame =>
      simp only [act]
      split <;> rfl
  | _ => rfl

theorem system_actAll (x : PlayoutLedger) (as : List (PlayoutAction ExactTime)) :
    (x.actAll as).system = x.system.actAll as := by
  induction as generalizing x with
  | nil => rfl
  | cons a as ih => exact (ih (x.act a)).trans (congrArg (·.actAll as) (x.system_act a))

theorem isForward_actAll (now : ℕ) (as : List (PlayoutAction ExactTime)) :
    ((new now).actAll as).system.IsForward := by
  rw [system_actAll]
  exact PlayoutSystem.isForward_actAll now as

theorem floor_due_add_fract (hx : x.system.IsForward) : ⌊x.due⌋₊ + Int.fract x.due = x.due := by
  have hfloor : (⌊x.due⌋₊ : ℚ) = ⌊x.due⌋ := natCast_floor_eq_intCast_floor hx.due_nonneg
  rw [hfloor, Int.floor_add_fract]

theorem answer_eq (x : PlayoutLedger) : x.system.answer = x.system.device.queued - ⌊x.due⌋₊ :=
  x.system.answer_eq

/-! ## Playing in real time -/

/-- The level is what is queued, less what has not been played and is due. -/
structure IsLevelled (x : PlayoutLedger) : Prop where
  behind_nonneg : 0 ≤ x.behind
  level : x.level = max 0 (x.system.device.queued - x.behind - x.due)

theorem IsLevelled.behindNow_nonneg (h : x.IsLevelled) : 0 ≤ x.behindNow :=
  add_nonneg h.behind_nonneg (Int.fract_nonneg _)

theorem IsLevelled.level_eq (h : x.IsLevelled) (hx : x.system.IsForward) :
    x.level = x.system.answer - min (x.system.answer : ℚ) x.behindNow := by
  have hdue := floor_due_add_fract hx
  rw [h.level]
  rcases le_total x.system.device.queued ⌊x.due⌋₊ with hdry | hleft
  · have hanswer : x.system.answer = 0 := x.answer_eq.trans (Nat.sub_eq_zero_of_le hdry)
    rw [hanswer, Nat.cast_zero, min_eq_left h.behindNow_nonneg, sub_zero]
    apply max_eq_left
    have hqueued : (x.system.device.queued : ℚ) ≤ ⌊x.due⌋₊ := Nat.cast_le.mpr hdry
    linarith [h.behind_nonneg, Int.fract_nonneg x.due]
  · have hanswer : (x.system.answer : ℚ) = x.system.device.queued - ⌊x.due⌋₊ := by
      rw [x.answer_eq, Nat.cast_sub hleft]
    have hopen : x.system.device.queued - x.behind - x.due = x.system.answer - x.behindNow := by
      rw [hanswer, behindNow]
      linarith
    rw [hopen]
    rcases le_total (x.system.answer : ℚ) x.behindNow with hle | hle
    · rw [min_eq_left hle, sub_self, max_eq_left (sub_nonpos.mpr hle)]
    · rw [min_eq_right hle, max_eq_right (sub_nonneg.mpr hle)]

theorem IsLevelled.answer_eq_ceil_iff (h : x.IsLevelled) (hx : x.system.IsForward) :
    x.system.answer = ⌈x.level⌉ ↔ x.behindNow < 1 ∨ x.system.answer = 0 := by
  have hbehind : 0 ≤ min (x.system.answer : ℚ) x.behindNow :=
    le_min (Nat.cast_nonneg _) h.behindNow_nonneg
  rw [eq_comm, h.level_eq hx, Int.ceil_eq_iff, Int.cast_natCast, sub_lt_sub_iff_left,
    and_iff_left (sub_le_self _ hbehind), min_lt_iff, Nat.cast_lt_one, or_comm]

theorem IsLevelled.of_use (h : x.IsLevelled) (hx : x.system.IsForward) {z : PlayoutLedger} {n : ℕ}
    (hqueued : z.system.device.queued = x.system.answer + n)
    (hupdated : z.system.device.lastUpdate = z.system.now)
    (hbehind : z.behind = min (x.system.answer : ℚ) x.behindNow) (hlevel : z.level = x.level + n) :
    z.IsLevelled where
  behind_nonneg := hbehind ▸ le_min (Nat.cast_nonneg _) h.behindNow_nonneg
  level := by
    rw [hlevel, h.level_eq hx, hbehind, hqueued, due, Playout.due_of_updated hupdated, sub_zero,
      Nat.cast_add, add_sub_right_comm]
    refine (max_eq_right (add_nonneg ?_ (Nat.cast_nonneg _))).symm
    exact sub_nonneg.mpr (min_le_left _ _)

theorem IsLevelled.of_empty {z : PlayoutLedger} (hqueued : z.system.device.queued = 0)
    (hupdated : z.system.device.lastUpdate = z.system.now) (hbehind : z.behind = 0)
    (hlevel : z.level = 0) : z.IsLevelled where
  behind_nonneg := hbehind.ge
  level := by
    rw [hlevel, hqueued, hbehind, due, Playout.due_of_updated hupdated]
    simp

theorem max_zero_sub {t d : ℚ} (hd : 0 ≤ d) : max 0 (max 0 t - d) = max 0 (t - d) := by
  rcases le_total 0 t with ht | ht
  · rw [max_eq_right ht]
  · rw [max_eq_left ht, max_eq_left, max_eq_left] <;> linarith

theorem IsLevelled.act (h : x.IsLevelled) (hx : x.system.IsForward)
    (a : PlayoutAction ExactTime) : (x.act a).IsLevelled := by
  cases a with
  | advance nanos =>
      let played : ℚ := nanos / 1000000000 * x.system.device.speed
      have hplayed : 0 ≤ played :=
        mul_nonneg (div_nonneg (Nat.cast_nonneg _) (by norm_num)) (Playout.speed_nonneg hx.rate)
      have hdue : (x.act (.advance nanos)).due = x.due + played := Playout.due_add hx.updated nanos
      refine ⟨h.behind_nonneg, ?_⟩
      calc
        max 0 (x.level - played)
            = max 0 (max 0 (x.system.device.queued - x.behind - x.due) - played) := by rw [h.level]
        _ = max 0 (x.system.device.queued - x.behind - x.due - played) := max_zero_sub hplayed
        _ = max 0 (x.system.device.queued - x.behind - (x.act (.advance nanos)).due) := by
          rw [hdue, sub_sub]
  | init frame =>
      cases hformat : frame.format with
      | video format =>
          simp only [PlayoutLedger.act, hformat, PlayoutSystem.act_init_video hformat]
          exact h
      | audio format =>
          simp only [PlayoutLedger.act, hformat, PlayoutSystem.act_init_audio hformat]
          exact .of_empty rfl rfl rfl rfl
  | append data => exact h.of_use hx rfl rfl rfl rfl
  | clear => exact .of_empty rfl rfl rfl rfl
  | setPlaying on => exact h.of_use hx (n := 0) rfl rfl rfl rfl
  | ask => exact h.of_use hx (n := 0) rfl rfl rfl (add_zero _).symm

theorem isLevelled_actAll (now : ℕ) (as : List (PlayoutAction ExactTime)) :
    ((new now).actAll as).IsLevelled := by
  induction as using List.reverseRecOn with
  | nil => exact .of_empty rfl rfl rfl rfl
  | append_singleton as a ih =>
      rw [actAll, List.foldl_concat]
      exact ih.act (isForward_actAll now as) a

/-! ## Playing unasked -/

/-- `y` is the device without the queries. Since the last use they have played `played` bytes of
`queued`. -/
structure Accords (x : PlayoutLedger) (y : PlayoutSystem ExactTime) : Prop where
  now : y.now = x.system.now
  playing : y.device.playing = x.system.device.playing
  rate : y.device.bytesPerSecond = x.system.device.bytesPerSecond
  missed_nonneg : 0 ≤ x.missed
  apart : ∃ queued played lost : ℕ,
    x.system.device.queued = queued - played ∧ y.device.queued = queued - lost ∧
      y.device.due y.now + lost = x.due + played + x.missed

theorem Accords.answer_eq (h : x.Accords y) (hx : x.system.IsForward) (hy : y.IsForward) :
    y.answer = x.system.answer - ⌊x.missedNow⌋₊ := by
  obtain ⟨queued, played, lost, hasked, hunasked, hapart⟩ := h.apart
  have hmissed : 0 ≤ x.missedNow := add_nonneg h.missed_nonneg (Int.fract_nonneg _)
  have hfloor : ⌊y.device.due y.now⌋₊ + lost = ⌊x.missedNow⌋₊ + (⌊x.due⌋₊ + played) :=
    calc
      ⌊y.device.due y.now⌋₊ + lost = ⌊y.device.due y.now + lost⌋₊ :=
        (Nat.floor_add_natCast hy.due_nonneg lost).symm
      _ = ⌊x.missedNow + (⌊x.due⌋₊ + played : ℕ)⌋₊ := by
        have hdue := floor_due_add_fract hx
        rw [hapart, missedNow]
        push_cast
        congr 1
        linarith
      _ = ⌊x.missedNow⌋₊ + (⌊x.due⌋₊ + played) := Nat.floor_add_natCast hmissed _
  rw [PlayoutSystem.answer_eq, PlayoutLedger.answer_eq, hasked, hunasked]
  omega

theorem Accords.answer_eq_iff (h : x.Accords y) (hx : x.system.IsForward) (hy : y.IsForward) :
    x.system.answer = y.answer ↔ x.missedNow < 1 ∨ x.system.answer = 0 := by
  rw [h.answer_eq hx hy, ← Nat.floor_eq_zero]
  omega

/-- Right after both have been used, only what has been lost by then keeps them apart. -/
theorem Accords.of_updated {queued k : ℕ} (hnow : y.now = x.system.now)
    (hplaying : y.device.playing = x.system.device.playing)
    (hrate : y.device.bytesPerSecond = x.system.device.bytesPerSecond)
    (hupdated : x.system.device.lastUpdate = x.system.now) (hupdated' : y.device.lastUpdate = y.now)
    (hqueued : x.system.device.queued = queued) (hqueued' : y.device.queued = queued - k)
    (hmissed : x.missed = k) : x.Accords y where
  now := hnow
  playing := hplaying
  rate := hrate
  missed_nonneg := hmissed ▸ Nat.cast_nonneg _
  apart := by
    refine ⟨queued, 0, k, hqueued, hqueued', ?_⟩
    rw [due, Playout.due_of_updated hupdated, Playout.due_of_updated hupdated', hmissed]
    simp

theorem Accords.answer_add_eq (h : x.Accords y) (hx : x.system.IsForward) (hy : y.IsForward)
    (added : ℕ) :
    y.answer + added = x.system.answer + added - min x.system.answer ⌊x.missedNow⌋₊ := by
  rw [h.answer_eq hx hy]
  omega

theorem Accords.ask (h : x.Accords y) (hx : x.system.IsForward) : (x.act .ask).Accords y where
  now := h.now
  playing := h.playing
  rate := h.rate
  missed_nonneg := add_nonneg h.missed_nonneg (Int.fract_nonneg _)
  apart := by
    obtain ⟨queued, played, lost, hasked, hunasked, hapart⟩ := h.apart
    refine ⟨queued, played + ⌊x.due⌋₊, lost, ?_, hunasked, ?_⟩
    · have hanswer : (x.act .ask).system.device.queued = x.system.answer := rfl
      rw [hanswer, x.answer_eq, hasked, Nat.sub_sub]
    · have hdue : (x.act .ask).due = 0 := Playout.due_of_updated rfl
      have hmissed : (x.act .ask).missed = x.missed + Int.fract x.due := rfl
      have hsplit := floor_due_add_fract hx
      rw [hapart, hdue, hmissed]
      push_cast
      linarith

theorem Accords.act (h : x.Accords y) (hx : x.system.IsForward) (hy : y.IsForward)
    (ha : a.isAsk = false) : (x.act a).Accords (y.act a) := by
  cases a with
  | advance nanos =>
      refine ⟨congrArg (· + nanos) h.now, h.playing, h.rate, h.missed_nonneg, ?_⟩
      obtain ⟨queued, played, lost, hasked, hunasked, hapart⟩ := h.apart
      refine ⟨queued, played, lost, hasked, hunasked, ?_⟩
      have hdue : (x.act (.advance nanos)).due =
          x.due + nanos / 1000000000 * x.system.device.speed := Playout.due_add hx.updated nanos
      have hdue' := Playout.due_add hy.updated nanos
      have hspeed : y.device.speed = x.system.device.speed := by
        rw [Playout.speed, Playout.speed, h.playing, h.rate]
      simp only [PlayoutSystem.act]
      rw [hdue, hdue', hspeed]
      change _ = _ + _ + x.missed
      linarith
  | init frame =>
      cases hformat : frame.format with
      | video format =>
          simp only [PlayoutLedger.act, hformat, PlayoutSystem.act_init_video hformat]
          exact h
      | audio format =>
          simp only [PlayoutLedger.act, hformat, PlayoutSystem.act_init_audio hformat]
          exact .of_updated (k := 0) h.now h.playing rfl rfl rfl rfl rfl rfl
  | append data =>
      refine .of_updated h.now h.playing h.rate rfl rfl rfl ?_ rfl
      exact h.answer_add_eq hx hy data.length
  | clear => exact .of_updated (k := 0) h.now h.playing h.rate rfl rfl rfl rfl Nat.cast_zero.symm
  | setPlaying on =>
      refine .of_updated h.now rfl h.rate rfl rfl rfl ?_ rfl
      exact h.answer_add_eq hx hy 0
  | ask => cases ha

theorem accords_actAll (now : ℕ) (as : List (PlayoutAction ExactTime)) :
    ((new now).actAll as).Accords
      ((PlayoutSystem.new now).actAll (as.filter (! ·.isAsk))) := by
  induction as using List.reverseRecOn with
  | nil => exact .of_updated (k := 0) rfl rfl rfl rfl rfl rfl rfl rfl
  | append_singleton as a ih =>
      have hx := isForward_actAll now as
      have hy := PlayoutSystem.isForward_actAll now (as.filter (! ·.isAsk))
      rw [actAll, List.foldl_concat, List.filter_append]
      cases a with
      | ask =>
          rw [List.filter_cons_of_neg (by simp [PlayoutAction.isAsk]), List.filter_nil,
            List.append_nil]
          exact ih.ask hx
      | _ =>
          rw [List.filter_cons_of_pos rfl, List.filter_nil, PlayoutSystem.actAll,
            List.foldl_concat]
          exact ih.act hx hy rfl

/-! ## At most a byte a query -/

theorem missedNow_lt {count : ℕ} (h : x.missed ≤ count) : x.missedNow < (count + 1 : ℕ) := by
  rw [Nat.cast_succ]
  exact add_lt_add_of_le_of_lt h (Int.fract_lt_one _)

theorem floor_missedNow_le {count : ℕ} (h : x.missed ≤ count) : ⌊x.missedNow⌋₊ ≤ count :=
  Nat.lt_succ_iff.mp ((Nat.floor_lt' count.succ_ne_zero).mpr (missedNow_lt h))

theorem missed_act_le {count : ℕ} (h : x.missed ≤ count) (a : PlayoutAction ExactTime) :
    (x.act a).missed ≤ (count + if a.isAsk then 1 else 0 : ℕ) := by
  cases a with
  | advance nanos => exact h
  | init frame =>
      simp only [act]
      split
      · exact Nat.cast_nonneg _
      · exact h
  | append | setPlaying =>
      exact Nat.cast_le.mpr ((min_le_right _ _).trans (floor_missedNow_le h))
  | clear => exact Nat.cast_nonneg _
  | ask => exact (missedNow_lt h).le

theorem missed_actAll_le (now : ℕ) (as : List (PlayoutAction ExactTime)) :
    ((new now).actAll as).missed ≤ as.countP (·.isAsk) := by
  induction as using List.reverseRecOn with
  | nil => exact le_rfl
  | append_singleton as a ih =>
      rw [actAll, List.foldl_concat, List.countP_append, List.countP_singleton]
      exact missed_act_le ih a

/-- A query keeps at most one byte from being played. -/
theorem answer_le_unasked_add (now : ℕ) (as : List (PlayoutAction ExactTime)) :
    ((PlayoutSystem.new now).actAll as).answer ≤
      ((PlayoutSystem.new now).actAll (as.filter (! ·.isAsk))).answer + as.countP (·.isAsk) := by
  have hsystem : ((new now).actAll as).system = (PlayoutSystem.new now).actAll as :=
    system_actAll ..
  have hunasked := PlayoutSystem.isForward_actAll now (as.filter (! ·.isAsk))
  have hfloor := floor_missedNow_le (missed_actAll_le now as)
  rw [(accords_actAll now as).answer_eq (isForward_actAll now as) hunasked, ← hsystem]
  omega

/-- A device that is asked says what it would say unasked exactly as long as asking has cost less
than a byte, or nothing is left. And it has played what is played in real time exactly as long as it
is less than a byte behind, or nothing is left. -/
theorem asking_changes_nothing_iff (now : ℕ) (as : List (PlayoutAction ExactTime)) :
    let asked := (PlayoutSystem.new now).actAll as
    let unasked := (PlayoutSystem.new now).actAll (as.filter (! ·.isAsk))
    let x := (new now).actAll as
    (asked.answer = unasked.answer ↔ x.missedNow < 1 ∨ asked.answer = 0) ∧
      (asked.answer = ⌈x.level⌉ ↔ x.behindNow < 1 ∨ asked.answer = 0) := by
  intro asked unasked x
  have hsystem : x.system = asked := system_actAll ..
  have hasked : x.system.IsForward := isForward_actAll now as
  have hunasked : unasked.IsForward := PlayoutSystem.isForward_actAll now _
  rw [← hsystem]
  constructor
  · exact (accords_actAll now as).answer_eq_iff hasked hunasked
  · exact (isLevelled_actAll now as).answer_eq_ceil_iff hasked

/-- Two bytes are queued and eight are played in a millisecond. -/
def askedBetween : List (PlayoutAction ExactTime) :=
  [.init (.audio (.audio 0 "pcm" 8000 1) 0 0 1 ⟨.packed, .u8⟩ 1 [[0]]), .append [0, 0],
    .setPlaying true, .advance 100000, .ask, .advance 100000]

theorem askedBetween_slower :
    ((PlayoutSystem.new 0).actAll askedBetween).answer = 2 ∧
      ((PlayoutSystem.new 0).actAll (askedBetween.filter (! ·.isAsk))).answer = 1 ∧
        ⌈((new 0).actAll askedBetween).level⌉ = 1 := by
  decide +kernel

end PlayoutLedger

end MediaPipeline
