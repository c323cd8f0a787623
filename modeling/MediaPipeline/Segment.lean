import MediaPipeline.Frame

/-!
# Segments

A segment is a list of frame records written one after another:

| bytes | field                             |
|-------|-----------------------------------|
| 1     | flags, the lowest bit a key frame |
| 8     | presentation time, low byte first |
| 8     | duration, low byte first          |
| 4     | payload length, low byte first    |
| n     | payload                           |

`records` accepts exactly what a list of records encodes to.
-/

namespace MediaPipeline

/-- A time as the 64-bit word that stands for it in a segment. -/
class TimeWord (T : Type) where
  toWord : T → UInt64
  ofWord : UInt64 → T

instance : TimeWord Float where
  toWord := Float.toBits
  ofWord := Float.ofBits

/-! ## Numbers as bytes -/

/-- The low `n` bytes of `value`, lowest first. -/
def toLittleEndian : Nat → Nat → Bytes
  | 0, _ => []
  | n + 1, value => UInt8.ofNat value :: toLittleEndian n (value / 256)

def ofLittleEndian : Bytes → Nat
  | [] => 0
  | b :: bs => b.toNat + 256 * ofLittleEndian bs

@[simp] theorem length_toLittleEndian (n value : Nat) : (toLittleEndian n value).length = n := by
  induction n generalizing value with
  | zero => rfl
  | succ n ih => simp [toLittleEndian, ih]

theorem ofLittleEndian_toLittleEndian (n value : Nat) :
    ofLittleEndian (toLittleEndian n value) = value % Nat.pow 256 n := by
  induction n generalizing value with
  | zero => simp [toLittleEndian, ofLittleEndian, Nat.mod_one]
  | succ n ih =>
    have h : Nat.pow 256 (n + 1) = 256 * Nat.pow 256 n := Nat.pow_succ'
    rw [h, Nat.mod_mul, toLittleEndian, ofLittleEndian, ih]
    simp

/-! ## Records -/

structure SegmentRecord where
  flags : UInt8
  pts : UInt64
  duration : UInt64
  payload : Bytes
  deriving DecidableEq, Repr

namespace SegmentRecord

def headerSize : Nat := 21

def size (r : SegmentRecord) : Nat := headerSize + r.payload.length

def isKeyFrame (r : SegmentRecord) : Bool := r.flags &&& 1 != 0

def encode (r : SegmentRecord) : Bytes :=
  r.flags :: (toLittleEndian 8 r.pts.toNat ++ (toLittleEndian 8 r.duration.toNat ++
    (toLittleEndian 4 r.payload.length ++ r.payload)))

/-- The first `n` bytes and the rest; `position` is where they start in the segment. -/
def takeField (n position : Nat) (data : Bytes) : Except MediaError (Bytes × Bytes) :=
  let (field, rest) := data.splitAt n
  if field.length = n then .ok (field, rest)
  else .error (.invalidContainerData s!"truncated record at byte {position}")

theorem takeField_eq_ok_iff {n position : Nat} {data field rest : Bytes} :
    takeField n position data = .ok (field, rest) ↔ field.length = n ∧ data = field ++ rest := by
  simp only [takeField, List.splitAt_eq]
  constructor
  · intro h
    split at h
    · next hl =>
      simp only [Except.ok.injEq, Prod.mk.injEq] at h
      obtain ⟨rfl, rfl⟩ := h
      exact ⟨hl, (List.take_append_drop n data).symm⟩
    · cases h
  · rintro ⟨rfl, rfl⟩
    simp

def takePayload (n : Nat) (data : Bytes) : Except MediaError (Bytes × Bytes) :=
  let (payload, rest) := data.splitAt n
  if payload.length = n then .ok (payload, rest)
  else .error (.invalidContainerData s!"payload of {n} bytes overruns segment")

theorem takePayload_eq_ok_iff {n : Nat} {data payload rest : Bytes} :
    takePayload n data = .ok (payload, rest) ↔ payload.length = n ∧ data = payload ++ rest := by
  simp only [takePayload, List.splitAt_eq]
  constructor
  · intro h
    split at h
    · next hl =>
      simp only [Except.ok.injEq, Prod.mk.injEq] at h
      obtain ⟨rfl, rfl⟩ := h
      exact ⟨hl, (List.take_append_drop n data).symm⟩
    · cases h
  · rintro ⟨rfl, rfl⟩
    simp

/-- Reads one record off the front of `data`, which starts at `position` in the segment. -/
def read (position : Nat) (data : Bytes) : Except MediaError (SegmentRecord × Bytes) :=
  match takeField 1 position data with
  | .error e => .error e
  | .ok (flags, data) =>
    match takeField 8 (position + 1) data with
    | .error e => .error e
    | .ok (pts, data) =>
      match takeField 8 (position + 9) data with
      | .error e => .error e
      | .ok (duration, data) =>
        match takeField 4 (position + 17) data with
        | .error e => .error e
        | .ok (length, data) =>
          match takePayload (ofLittleEndian length) data with
          | .error e => .error e
          | .ok (payload, rest) =>
            .ok (⟨UInt8.ofNat (ofLittleEndian flags), UInt64.ofNat (ofLittleEndian pts),
              UInt64.ofNat (ofLittleEndian duration), payload⟩, rest)

theorem length_rest_lt {position : Nat} {data rest : Bytes} {r : SegmentRecord}
    (h : read position data = .ok (r, rest)) : rest.length < data.length := by
  simp only [read] at h
  split at h
  · cases h
  · next h1 =>
    split at h
    · cases h
    · next h2 =>
      split at h
      · cases h
      · next h3 =>
        split at h
        · cases h
        · next h4 =>
          split at h
          · cases h
          · next h5 =>
            obtain ⟨l1, rfl⟩ := takeField_eq_ok_iff.1 h1
            obtain ⟨l2, rfl⟩ := takeField_eq_ok_iff.1 h2
            obtain ⟨l3, rfl⟩ := takeField_eq_ok_iff.1 h3
            obtain ⟨l4, rfl⟩ := takeField_eq_ok_iff.1 h4
            obtain ⟨l5, rfl⟩ := takePayload_eq_ok_iff.1 h5
            simp only [Except.ok.injEq, Prod.mk.injEq] at h
            obtain ⟨-, rfl⟩ := h
            simp only [List.length_append]
            omega

end SegmentRecord

namespace Segment

def encode (rs : List SegmentRecord) : Bytes := rs.flatMap SegmentRecord.encode

/-- All the records of `data`, which starts at `position` in the segment. -/
def records (position : Nat) (data : Bytes) : Except MediaError (List SegmentRecord) :=
  if data = [] then .ok []
  else
    match _h : SegmentRecord.read position data with
    | .error e => .error e
    | .ok (r, rest) =>
      match records (position + r.size) rest with
      | .error e => .error e
      | .ok rs => .ok (r :: rs)
termination_by data.length
decreasing_by exact SegmentRecord.length_rest_lt (by assumption)

end Segment

/-! ## Frames in a segment -/

structure SegmentFrame (T : Type) where
  pts : T
  duration : T
  isKeyFrame : Bool
  payload : Bytes
  deriving DecidableEq, Repr

namespace SegmentFrame

variable {T : Type} [MediaTime T] [TimeWord T]

def toRecord (f : SegmentFrame T) : SegmentRecord where
  flags := if f.isKeyFrame then 1 else 0
  pts := TimeWord.toWord f.pts
  duration := TimeWord.toWord f.duration
  payload := f.payload

end SegmentFrame

namespace Segment

variable {T : Type} [MediaTime T] [TimeWord T]

def ofFrames (frames : List (SegmentFrame T)) : Bytes := encode (frames.map SegmentFrame.toRecord)

/-- A frame of `stream` whose decode time is its presentation time, later by `offset` than the
record says. -/
def frameOfRecord (stream : Stream) (offset : T) (r : SegmentRecord) : EncodedFrame T :=
  let pts := TimeWord.ofWord r.pts + offset
  { pts, dts := pts, duration := TimeWord.ofWord r.duration, isKeyFrame := r.isKeyFrame, stream,
    data := r.payload, encryption := none }

def demux (stream : Stream) (offset : T) (data : Bytes) :
    Except MediaError (List (EncodedFrame T)) :=
  match records 0 data with
  | .error e => .error e
  | .ok rs => .ok (rs.map (frameOfRecord stream offset))

end Segment

end MediaPipeline
