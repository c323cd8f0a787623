import MediaPipeline.Proofs.Time.Rounding
import MediaPipeline.Segment

/-!
# Times as words

A time that is written as a word and read back is the same time. The words of doubles are their bit
patterns, taken apart into sign, exponent and mantissa and put together again; of the patterns that
are not numbers only one is the pattern of a double.
-/

namespace MediaPipeline

class LawfulTimeWord (T : Type) [TimeWord T] : Prop where
  ofWord_toWord (t : T) : TimeWord.ofWord (TimeWord.toWord t) = t

namespace Double

open Float.Model Float.Model.UnpackedFloat

theorem packComponents_unpack (b : BitVec 64) :
    packComponents .binary64 (Sign.ofBitVec (@unpackSign .binary64 b))
      (@unpackExponent .binary64 b) (@unpackMantissa .binary64 b) = b := by
  have hsign : ∀ s : BitVec 1, (Sign.ofBitVec s).toBitVec = s := by decide
  rw [packComponents, hsign]
  apply BitVec.eq_of_getLsbD_eq
  intro i hi
  have hlt : i < 64 := hi
  rw [BitVec.getLsbD_append, BitVec.getLsbD_append]
  change (if i < 52 then (@unpackMantissa .binary64 b).getLsbD i
    else if i - 52 < 11 then (@unpackExponent .binary64 b).getLsbD (i - 52)
    else (@unpackSign .binary64 b).getLsbD (i - 52 - 11)) = b.getLsbD i
  simp only [unpackMantissa, unpackExponent, unpackSign, BitVec.getLsbD_cast,
    BitVec.extractLsb, BitVec.getLsbD_extractLsb']
  change (if i < 52 then decide (i < 52) && b.getLsbD (0 + i)
    else if i - 52 < 11 then decide (i - 52 < 11) && b.getLsbD (52 + (i - 52))
    else decide (i - 52 - 11 < 1) && b.getLsbD (63 + (i - 52 - 11))) = b.getLsbD i
  split_ifs with hlow hmid
  · simp [hlow]
  · simp [hmid, Nat.add_sub_cancel' (Nat.le_of_not_lt hlow)]
  · have hlast : i = 63 := by omega
    simp [hlast]

theorem pack_unpack {b : BitVec 64} (hb : Format.binary64.Valid b) :
    UnpackedFloat.pack .binary64 (UnpackedFloat.unpack .binary64 b) = b := by
  have hparts := packComponents_unpack b
  have hmantissa : (@unpackMantissa .binary64 b).toNat < 2 ^ 52 := BitVec.isLt _
  have hexponent : (@unpackExponent .binary64 b).toNat < 2 ^ 11 := BitVec.isLt _
  have hbits : Format.binary64.mantissaBits = 53 := by decide
  simp only [UnpackedFloat.unpack]
  split_ifs with hones hzero hzero' hmzero
  · rw [hones, hzero] at hparts
    exact hparts
  · exact (hb.eq_packedNaN hones hzero).symm
  · rw [hzero', hmzero] at hparts
    exact hparts
  · have hexp0 : (@unpackExponent .binary64 b).toNat = 0 := by
      rw [hzero']
      rfl
    have hm : (@unpackMantissa .binary64 b).toNat ≠ 0 :=
      fun h => hmzero (BitVec.eq_of_toNat_eq h)
    have hlog := (Nat.log2_lt hm).mpr hmantissa
    simp only [UnpackedFloat.pack, hbits, hexp0, exponentBias_eq]
    rw [if_neg (by decide), if_neg (by omega), BitVec.ofNat_toNat, ← hzero']
    simpa using hparts
  · have hpos : (@unpackExponent .binary64 b).toNat ≠ 0 :=
      fun h => hzero' (BitVec.eq_of_toNat_eq h)
    have htop : (@unpackExponent .binary64 b).toNat ≠ 2047 :=
      fun h => hones (BitVec.eq_of_toNat_eq h)
    have hbiased : (((@unpackExponent .binary64 b).toNat : Int) - ((1023 : Nat) + (52 : Nat)) +
        (1023 : Nat) + (52 : Nat)).toNat = (@unpackExponent .binary64 b).toNat := by omega
    have hlog : (2 ^ 52 + (@unpackMantissa .binary64 b).toNat).log2 = 52 :=
      (Nat.log2_eq_iff (by omega)).mpr ⟨by omega, by omega⟩
    have hlow : BitVec.ofNat 52 (2 ^ 52 + (@unpackMantissa .binary64 b).toNat) =
        @unpackMantissa .binary64 b := by
      apply BitVec.eq_of_toNat_eq
      rw [BitVec.toNat_ofNat]
      omega
    simp only [UnpackedFloat.pack, hbits, toNat_append_one, hlog, exponentBias_eq, hbiased]
    rw [if_neg (by omega), if_pos trivial, BitVec.ofNat_toNat, hlow]
    simpa using hparts

theorem ofBits_toBits (x : Float) : Float.ofBits x.toBits = x := by
  obtain ⟨⟨bits, hvalid⟩⟩ := x
  have hpack := congrArg UInt64.ofBitVec (pack_unpack hvalid)
  simp only [Float.ofBits, Float.toBits, Float.Model.ofBits, Float.Model.pack, hpack]

end Double

instance : LawfulTimeWord Float where
  ofWord_toWord := Double.ofBits_toBits

end MediaPipeline
