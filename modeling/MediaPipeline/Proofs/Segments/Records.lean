import MediaPipeline.Proofs.Segments.Words

/-!
# Reading segments

A segment is read back exactly: what is read off it as records, written again, is the segment, and
every list of records that was written is read. Bytes that are not whole records are refused as a
whole, however many records stand in front of the first one that is cut off.
-/

namespace MediaPipeline

/-! ## Bytes as numbers -/

theorem ofLittleEndian_lt (bs : Bytes) : ofLittleEndian bs < 256 ^ bs.length := by
  induction bs with
  | nil => decide
  | cons b bs ih =>
      have hb : b.toNat < 256 := b.toNat_lt
      rw [ofLittleEndian, List.length_cons, Nat.pow_succ]
      omega

theorem toLittleEndian_ofLittleEndian (bs : Bytes) :
    toLittleEndian bs.length (ofLittleEndian bs) = bs := by
  induction bs with
  | nil => rfl
  | cons b bs ih =>
      have hb : b.toNat < 256 := b.toNat_lt
      have hfirst : UInt8.ofNat (b.toNat + 256 * ofLittleEndian bs) = b := by
        apply UInt8.toNat_inj.mp
        rw [UInt8.toNat_ofNat']
        omega
      have hlater : (b.toNat + 256 * ofLittleEndian bs) / 256 = ofLittleEndian bs := by omega
      rw [List.length_cons, ofLittleEndian, toLittleEndian, hfirst, hlater, ih]

theorem ofLittleEndian_toLittleEndian_of_lt {n value : Nat} (h : value < 256 ^ n) :
    ofLittleEndian (toLittleEndian n value) = value := by
  rw [ofLittleEndian_toLittleEndian]
  exact Nat.mod_eq_of_lt h

theorem toLittleEndian_word {bs : Bytes} (h : bs.length = 8) :
    toLittleEndian 8 (UInt64.ofNat (ofLittleEndian bs)).toNat = bs := by
  have hlt := ofLittleEndian_lt bs
  rw [h] at hlt
  rw [UInt64.toNat_ofNat_of_lt' hlt, ← h, toLittleEndian_ofLittleEndian]

theorem word_toLittleEndian (w : UInt64) :
    UInt64.ofNat (ofLittleEndian (toLittleEndian 8 w.toNat)) = w := by
  rw [ofLittleEndian_toLittleEndian_of_lt w.toNat_lt, UInt64.ofNat_toNat]

/-! ## One record -/

namespace SegmentRecord

/-- The header has four bytes for the length of the payload. -/
def Fits (r : SegmentRecord) : Prop := r.payload.length < 2 ^ 32

/-- What is wrong with bytes that begin with no whole record: the first field of the header that is
cut off, or else the payload. -/
def fault (position : Nat) (data : Bytes) : String :=
  if data.length < 1 then s!"truncated record at byte {position}"
  else if data.length < 9 then s!"truncated record at byte {position + 1}"
  else if data.length < 17 then s!"truncated record at byte {position + 9}"
  else if data.length < headerSize then s!"truncated record at byte {position + 17}"
  else s!"payload of {ofLittleEndian ((data.drop 17).take 4)} bytes overruns segment"

theorem length_encode (r : SegmentRecord) : r.encode.length = r.size := by
  simp only [encode, size, headerSize, List.length_cons, List.length_append,
    length_toLittleEndian]
  omega

theorem isKeyFrame_eq_testBit (r : SegmentRecord) : r.isKeyFrame = r.flags.toNat.testBit 0 := by
  have hbit : (r.flags &&& 1 = 0) ↔ r.flags.toNat % 2 = 0 := by
    rw [← UInt8.toNat_inj, UInt8.toNat_and]
    simp [Nat.and_one_is_mod]
  rw [isKeyFrame, Nat.testBit_zero, Bool.eq_iff_iff, bne_iff_ne, ne_eq, hbit,
    decide_eq_true_eq]
  omega

theorem takeField_append {n position : Nat} {field : Bytes} (rest : Bytes)
    (h : field.length = n) : takeField n position (field ++ rest) = .ok (field, rest) :=
  takeField_eq_ok_iff.mpr ⟨h, rfl⟩

theorem read_encode {r : SegmentRecord} (hr : r.Fits) (position : Nat) (rest : Bytes) :
    read position (r.encode ++ rest) = .ok (r, rest) := by
  obtain ⟨flags, pts, duration, payload⟩ := r
  have hlength : ofLittleEndian (toLittleEndian 4 payload.length) = payload.length :=
    ofLittleEndian_toLittleEndian_of_lt hr
  have hflags : UInt8.ofNat (ofLittleEndian [flags]) = flags := by simp [ofLittleEndian]
  have hpayload : takePayload payload.length (payload ++ rest) = .ok (payload, rest) :=
    takePayload_eq_ok_iff.mpr ⟨rfl, rfl⟩
  have hencode : encode ⟨flags, pts, duration, payload⟩ ++ rest =
      [flags] ++ (toLittleEndian 8 pts.toNat ++ (toLittleEndian 8 duration.toNat ++
        (toLittleEndian 4 payload.length ++ (payload ++ rest)))) := by
    simp [encode, List.append_assoc]
  unfold read
  rw [hencode, @takeField_append 1 position [flags] _ rfl]
  dsimp only
  rw [takeField_append _ (length_toLittleEndian _ _)]
  dsimp only
  rw [takeField_append _ (length_toLittleEndian _ _)]
  dsimp only
  rw [takeField_append _ (length_toLittleEndian _ _)]
  dsimp only
  rw [hlength, hpayload, hflags, word_toLittleEndian, word_toLittleEndian]

theorem eq_encode_of_read {position : Nat} {data rest : Bytes} {r : SegmentRecord}
    (h : read position data = .ok (r, rest)) : r.Fits ∧ data = r.encode ++ rest := by
  simp only [read] at h
  split at h
  · cases h
  next flags data1 h1 =>
  split at h
  · cases h
  next pts data2 h2 =>
  split at h
  · cases h
  next duration data3 h3 =>
  split at h
  · cases h
  next length data4 h4 =>
  split at h
  · cases h
  next payload data5 h5 =>
  obtain ⟨l1, rfl⟩ := takeField_eq_ok_iff.mp h1
  obtain ⟨l2, rfl⟩ := takeField_eq_ok_iff.mp h2
  obtain ⟨l3, rfl⟩ := takeField_eq_ok_iff.mp h3
  obtain ⟨l4, rfl⟩ := takeField_eq_ok_iff.mp h4
  obtain ⟨l5, rfl⟩ := takePayload_eq_ok_iff.mp h5
  simp only [Except.ok.injEq, Prod.mk.injEq] at h
  obtain ⟨rfl, rfl⟩ := h
  have hlt := ofLittleEndian_lt length
  rw [l4] at hlt
  refine ⟨by rw [Fits, l5]; exact hlt, ?_⟩
  obtain ⟨flag, rfl⟩ := List.length_eq_one_iff.mp l1
  have hlength : toLittleEndian 4 (ofLittleEndian length) = length := by
    rw [← l4, toLittleEndian_ofLittleEndian]
  have hflag : UInt8.ofNat (ofLittleEndian [flag]) = flag := by simp [ofLittleEndian]
  rw [encode, hflag, toLittleEndian_word l2, toLittleEndian_word l3, l5, hlength]
  simp

theorem read_eq_ok_iff {position : Nat} {data rest : Bytes} {r : SegmentRecord} :
    read position data = .ok (r, rest) ↔ r.Fits ∧ data = r.encode ++ rest :=
  ⟨eq_encode_of_read, fun ⟨hr, h⟩ => h ▸ read_encode hr position rest⟩

theorem encode_append_inj {r r' : SegmentRecord} {rest rest' : Bytes} (hr : r.Fits)
    (hr' : r'.Fits) (h : r.encode ++ rest = r'.encode ++ rest') : r = r' ∧ rest = rest' := by
  have hread := read_encode hr 0 rest
  rw [h, read_encode hr' 0 rest'] at hread
  simp only [Except.ok.injEq, Prod.mk.injEq] at hread
  exact ⟨hread.1.symm, hread.2.symm⟩

theorem takeField_eq_error {n position : Nat} {data : Bytes} {e : MediaError}
    (h : takeField n position data = .error e) :
    data.length < n ∧ e = .invalidContainerData s!"truncated record at byte {position}" := by
  simp only [takeField, List.splitAt_eq] at h
  split at h
  · cases h
  · next hlength =>
    rw [List.length_take] at hlength
    exact ⟨by omega, (Except.error.inj h).symm⟩

theorem takePayload_eq_error {n : Nat} {data : Bytes} {e : MediaError}
    (h : takePayload n data = .error e) :
    e = .invalidContainerData s!"payload of {n} bytes overruns segment" := by
  simp only [takePayload, List.splitAt_eq] at h
  split at h
  · cases h
  · exact (Except.error.inj h).symm

/-- A record that is not whole is refused for the first field that is cut off. -/
theorem read_eq_error {position : Nat} {data : Bytes} {e : MediaError}
    (h : read position data = .error e) : e = .invalidContainerData (fault position data) := by
  unfold fault headerSize
  simp only [read] at h
  split at h
  next h1 =>
    cases h
    obtain ⟨hshort, rfl⟩ := takeField_eq_error h1
    rw [if_pos hshort]
  next flags data1 h1 =>
  obtain ⟨l1, rfl⟩ := takeField_eq_ok_iff.mp h1
  split at h
  next h2 =>
    cases h
    obtain ⟨hshort, rfl⟩ := takeField_eq_error h2
    rw [if_neg (by simp [l1]), if_pos (by simp only [List.length_append, l1]; omega)]
  next pts data2 h2 =>
  obtain ⟨l2, rfl⟩ := takeField_eq_ok_iff.mp h2
  split at h
  next h3 =>
    cases h
    obtain ⟨hshort, rfl⟩ := takeField_eq_error h3
    simp only [List.length_append, l1, l2]
    rw [if_neg (by omega), if_neg (by omega), if_pos (by omega)]
  next duration data3 h3 =>
  obtain ⟨l3, rfl⟩ := takeField_eq_ok_iff.mp h3
  split at h
  next h4 =>
    cases h
    obtain ⟨hshort, rfl⟩ := takeField_eq_error h4
    simp only [List.length_append, l1, l2, l3]
    rw [if_neg (by omega), if_neg (by omega), if_neg (by omega), if_pos (by omega)]
  next length data4 h4 =>
  obtain ⟨l4, rfl⟩ := takeField_eq_ok_iff.mp h4
  split at h
  next h5 =>
    cases h
    have hfield : ((flags ++ (pts ++ (duration ++ (length ++ data4)))).drop 17).take 4 =
        length := by
      have hheader : (flags ++ (pts ++ duration)).length = 17 := by simp [l1, l2, l3]
      rw [← List.append_assoc pts, ← List.append_assoc flags,
        List.drop_left' hheader, List.take_left' l4]
    rw [takePayload_eq_error h5, hfield]
    simp only [List.length_append, l1, l2, l3, l4]
    rw [if_neg (by omega), if_neg (by omega), if_neg (by omega), if_neg (by omega)]
  next => cases h

end SegmentRecord

/-! ## All records -/

namespace Segment

open SegmentRecord

theorem encode_cons (r : SegmentRecord) (rs : List SegmentRecord) :
    encode (r :: rs) = r.encode ++ encode rs := rfl

theorem records_encode {rs : List SegmentRecord} (hrs : ∀ r ∈ rs, r.Fits) (position : Nat) :
    records position (encode rs) = .ok rs := by
  induction rs generalizing position with
  | nil => rw [records]; rfl
  | cons r rs ih =>
      obtain ⟨hr, hrs⟩ := List.forall_mem_cons.mp hrs
      have hne : r.encode ++ encode rs ≠ [] := by simp [SegmentRecord.encode]
      rw [records, encode_cons, if_neg hne]
      split
      next e h =>
        rw [read_encode hr] at h
        cases h
      next r' rest h =>
        rw [read_encode hr] at h
        cases h
        rw [ih hrs]

theorem eq_encode_of_records {position : Nat} {data : Bytes} {rs : List SegmentRecord}
    (h : records position data = .ok rs) : (∀ r ∈ rs, r.Fits) ∧ data = encode rs := by
  fun_induction records position data generalizing rs with
  | case1 =>
      cases h
      exact ⟨by simp, rfl⟩
  | case2 => cases h
  | case3 => cases h
  | case4 position data hdata r rest hread rs' hrs' ih =>
      cases h
      obtain ⟨hr, rfl⟩ := read_eq_ok_iff.mp hread
      obtain ⟨hall, rfl⟩ := ih hrs'
      exact ⟨List.forall_mem_cons.mpr ⟨hr, hall⟩, rfl⟩

theorem records_eq_ok_iff {position : Nat} {data : Bytes} {rs : List SegmentRecord} :
    records position data = .ok rs ↔ (∀ r ∈ rs, r.Fits) ∧ data = encode rs :=
  ⟨eq_encode_of_records, fun ⟨hrs, h⟩ => h ▸ records_encode hrs position⟩

/-- Some bytes that do not begin with a whole record. -/
structure IsCutOff (data : Bytes) : Prop where
  ne_nil : data ≠ []
  ne_encode : ∀ (r : SegmentRecord) (rest : Bytes), r.Fits → data ≠ r.encode ++ rest

/-- Reading stops at the first record that is not whole, and refuses everything for it. -/
theorem exists_cutOff_of_records {position : Nat} {data : Bytes} {e : MediaError}
    (h : records position data = .error e) :
    ∃ rs rest, (∀ r ∈ rs, r.Fits) ∧ IsCutOff rest ∧ data = encode rs ++ rest ∧
      e = .invalidContainerData (fault (position + (encode rs).length) rest) := by
  fun_induction records position data with
  | case1 => cases h
  | case2 position data hdata e' hread =>
      cases h
      have hcut : IsCutOff data := by
        refine ⟨hdata, ?_⟩
        rintro r rest hr rfl
        rw [read_encode hr] at hread
        cases hread
      exact ⟨[], data, by simp, hcut, rfl, read_eq_error hread⟩
  | case3 position data hdata r rest hread e' hrest ih =>
      cases h
      obtain ⟨hr, rfl⟩ := read_eq_ok_iff.mp hread
      obtain ⟨rs, rest', hrs, hcut, rfl, rfl⟩ := ih hrest
      refine ⟨r :: rs, rest', List.forall_mem_cons.mpr ⟨hr, hrs⟩, hcut, ?_, ?_⟩
      · rw [encode_cons, List.append_assoc]
      · rw [encode_cons, List.length_append, length_encode, Nat.add_assoc]
  | case4 => cases h

theorem isPrefix_of_encode {rs rs' : List SegmentRecord} (hrs : ∀ r ∈ rs, r.Fits)
    (hrs' : ∀ r ∈ rs', r.Fits) (h : encode rs <+: encode rs') : rs <+: rs' := by
  induction rs generalizing rs' with
  | nil => exact List.nil_prefix
  | cons r rs ih =>
      obtain ⟨hr, hrs⟩ := List.forall_mem_cons.mp hrs
      obtain ⟨rest, hrest⟩ := h
      cases rs' with
      | nil => simp [encode, SegmentRecord.encode] at hrest
      | cons r' rs' =>
          obtain ⟨hr', hlater⟩ := List.forall_mem_cons.mp hrs'
          rw [encode_cons, encode_cons, List.append_assoc] at hrest
          obtain ⟨rfl, htail⟩ := encode_append_inj hr hr' hrest
          exact (List.prefix_cons_inj r).mpr (ih hrs hlater ⟨rest, htail⟩)

end Segment

/-! ## Frames -/

namespace SegmentFrame

variable {T : Type} [MediaTime T]

/-- The frame that is read back where media times are later by `offset`. It is decoded in the
order in which it is shown. -/
def shifted (stream : Stream) (offset : T) (f : SegmentFrame T) : EncodedFrame T where
  pts := f.pts + offset
  dts := f.pts + offset
  duration := f.duration
  isKeyFrame := f.isKeyFrame
  stream
  data := f.payload
  encryption := none

end SegmentFrame

namespace Segment

open SegmentRecord

variable {T : Type} [MediaTime T] [TimeWord T]

theorem frameOfRecord_toRecord [LawfulTimeWord T] (stream : Stream) (offset : T)
    (f : SegmentFrame T) : frameOfRecord stream offset f.toRecord = f.shifted stream offset := by
  have hkey : f.toRecord.isKeyFrame = f.isKeyFrame := by
    simp only [SegmentFrame.toRecord, isKeyFrame_eq_testBit]
    cases f.isKeyFrame <;> decide
  rw [frameOfRecord, hkey]
  simp only [SegmentFrame.toRecord, LawfulTimeWord.ofWord_toWord]
  rfl

theorem demux_eq_ok_iff {stream : Stream} {offset : T} {data : Bytes}
    {frames : List (EncodedFrame T)} :
    demux stream offset data = .ok frames ↔
      ∃ rs, (∀ r ∈ rs, r.Fits) ∧ data = encode rs ∧
        frames = rs.map (frameOfRecord stream offset) := by
  unfold demux
  constructor
  · intro h
    split at h
    next => cases h
    next rs hrs =>
      cases h
      obtain ⟨hall, hdata⟩ := eq_encode_of_records hrs
      exact ⟨rs, hall, hdata, rfl⟩
  · rintro ⟨rs, hrs, rfl, rfl⟩
    rw [records_encode hrs]

theorem demux_ok_or_cutOff (stream : Stream) (offset : T) (data : Bytes) :
    (∃ frames, demux stream offset data = .ok frames) ∨
      ∃ rs rest, (∀ r ∈ rs, r.Fits) ∧ IsCutOff rest ∧ data = encode rs ++ rest ∧
        demux stream offset data =
          .error (.invalidContainerData (fault (encode rs).length rest)) := by
  unfold demux
  cases hrecords : records 0 data with
  | ok rs => exact Or.inl ⟨_, rfl⟩
  | error e =>
      obtain ⟨rs, rest, hrs, hcut, hdata, rfl⟩ := exists_cutOff_of_records hrecords
      rw [Nat.zero_add]
      exact Or.inr ⟨rs, rest, hrs, hcut, hdata, rfl⟩

omit [MediaTime T] in
theorem fits_toRecord {fs : List (SegmentFrame T)} (hfs : ∀ f ∈ fs, f.payload.length < 2 ^ 32) :
    ∀ r ∈ fs.map SegmentFrame.toRecord, r.Fits := by
  intro r hr
  obtain ⟨f, hf, rfl⟩ := List.mem_map.mp hr
  exact hfs f hf

theorem map_frameOfRecord_toRecord [LawfulTimeWord T] (stream : Stream) (offset : T)
    (fs : List (SegmentFrame T)) :
    (fs.map SegmentFrame.toRecord).map (frameOfRecord stream offset) =
      fs.map (·.shifted stream offset) := by
  simp [frameOfRecord_toRecord]

theorem demux_ofFrames [LawfulTimeWord T] {stream : Stream} {offset : T}
    {fs : List (SegmentFrame T)} (hfs : ∀ f ∈ fs, f.payload.length < 2 ^ 32) :
    demux stream offset (ofFrames fs) = .ok (fs.map (·.shifted stream offset)) :=
  demux_eq_ok_iff.mpr
    ⟨_, fits_toRecord hfs, rfl, (map_frameOfRecord_toRecord stream offset fs).symm⟩

/-- Cut anywhere, a segment is read exactly if it was cut between two frames. -/
theorem demux_cut_eq_ok_iff [LawfulTimeWord T] {stream : Stream} {offset : T}
    {fs : List (SegmentFrame T)} (hfs : ∀ f ∈ fs, f.payload.length < 2 ^ 32) {cut : Bytes}
    (hcut : cut <+: ofFrames fs) {frames : List (EncodedFrame T)} :
    demux stream offset cut = .ok frames ↔
      ∃ k, cut = ofFrames (fs.take k) ∧
        frames = (fs.take k).map (·.shifted stream offset) := by
  constructor
  · intro h
    obtain ⟨rs, hrs, rfl, rfl⟩ := demux_eq_ok_iff.mp h
    have hprefix := isPrefix_of_encode hrs (fits_toRecord hfs) hcut
    have htake : rs = (fs.take rs.length).map SegmentFrame.toRecord := by
      rw [List.map_take]
      exact List.prefix_iff_eq_take.mp hprefix
    refine ⟨rs.length, congrArg encode htake, ?_⟩
    rw [← map_frameOfRecord_toRecord, ← htake]
  · rintro ⟨k, rfl, rfl⟩
    exact demux_ofFrames fun f hf => hfs f (List.mem_of_mem_take hf)

/-- A segment is read exactly if it is whole records one after another. Otherwise it is refused as
a whole, for the first record that is cut off. -/
theorem demux_inverts_encode [LawfulTimeWord T] (stream : Stream) (offset : T) :
    (∀ data frames, demux stream offset data = .ok frames ↔
      ∃ rs : List SegmentRecord, (∀ r ∈ rs, r.payload.length < 2 ^ 32) ∧ data = encode rs ∧
        frames = rs.map fun r =>
          { pts := TimeWord.ofWord r.pts + offset
            dts := TimeWord.ofWord r.pts + offset
            duration := TimeWord.ofWord r.duration
            isKeyFrame := r.flags.toNat.testBit 0
            stream
            data := r.payload
            encryption := none }) ∧
    (∀ data, (∃ frames, demux stream offset data = .ok frames) ∨
      ∃ rs rest, (∀ r ∈ rs, r.Fits) ∧ IsCutOff rest ∧ data = encode rs ++ rest ∧
        demux stream offset data =
          .error (.invalidContainerData (fault (encode rs).length rest))) ∧
    ∀ fs : List (SegmentFrame T), (∀ f ∈ fs, f.payload.length < 2 ^ 32) →
      demux stream offset (ofFrames fs) = .ok (fs.map (·.shifted stream offset)) ∧
      ∀ cut frames, cut <+: ofFrames fs →
        (demux stream offset cut = .ok frames ↔
          ∃ k, cut = ofFrames (fs.take k) ∧
            frames = (fs.take k).map (·.shifted stream offset)) := by
  have hframe : frameOfRecord stream offset = fun r =>
      { pts := TimeWord.ofWord r.pts + offset
        dts := TimeWord.ofWord r.pts + offset
        duration := TimeWord.ofWord r.duration
        isKeyFrame := r.flags.toNat.testBit 0
        stream
        data := r.payload
        encryption := none } := by
    funext r
    rw [frameOfRecord, isKeyFrame_eq_testBit]
  refine ⟨?_, demux_ok_or_cutOff stream offset, ?_⟩
  · intro data frames
    rw [demux_eq_ok_iff, hframe]
    rfl
  · intro fs hfs
    exact ⟨demux_ofFrames hfs, fun cut frames hcut => demux_cut_eq_ok_iff hfs hcut⟩

/-- A key frame with two bytes of payload, and a frame with none. -/
def twoFrames : List (SegmentFrame Float) :=
  [⟨0, 0.1, true, [1, 2]⟩, ⟨0.1, 0.1, false, []⟩]

/-- The first of two frames takes 23 bytes. Cut there the segment is read, one byte before it is
refused. -/
theorem demux_inverts_encode_twoFrames :
    (∀ f ∈ twoFrames, f.payload.length < 2 ^ 32) ∧
    (ofFrames twoFrames).take 23 <+: ofFrames twoFrames ∧
    (ofFrames twoFrames).take 22 <+: ofFrames twoFrames ∧
    demux (.audio 0 "pcm" 8000 1) 5 (ofFrames twoFrames) =
      .ok (twoFrames.map (·.shifted (.audio 0 "pcm" 8000 1) 5)) ∧
    demux (.audio 0 "pcm" 8000 1) 5 ((ofFrames twoFrames).take 23) =
      .ok ((twoFrames.take 1).map (·.shifted (.audio 0 "pcm" 8000 1) 5)) ∧
    ∀ frames, demux (.audio 0 "pcm" 8000 1) (5 : Float) ((ofFrames twoFrames).take 22) ≠
      .ok frames := by
  have hfits : ∀ f ∈ twoFrames, f.payload.length < 2 ^ 32 := by simp [twoFrames]
  obtain ⟨hall, hcut⟩ :=
    (demux_inverts_encode (.audio 0 "pcm" 8000 1) (5 : Float)).2.2 twoFrames hfits
  have hborder : (ofFrames twoFrames).take 23 = ofFrames (twoFrames.take 1) := by decide
  refine ⟨hfits, List.take_prefix _ _, List.take_prefix _ _, hall, ?_, ?_⟩
  · exact (hcut _ _ (List.take_prefix _ _)).mpr ⟨1, hborder, rfl⟩
  · intro frames hframes
    obtain ⟨k, hk, -⟩ := (hcut _ _ (List.take_prefix _ _)).mp hframes
    have hlength := congrArg List.length hk
    match k with
    | 0 => exact absurd hlength (by decide)
    | 1 => exact absurd hlength (by decide)
    | k + 2 => exact absurd hlength (by simp [twoFrames]; decide)

end Segment

end MediaPipeline
