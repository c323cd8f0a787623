import MediaPipeline.Error
import MediaPipeline.Stream

/-!
# Decryption

What a protected frame says about its protection, and a ring of keys that opens such frames.
-/

namespace MediaPipeline

structure Subsample where
  clearBytes : Nat
  protectedBytes : Nat
  deriving DecidableEq, Repr

structure Encryption where
  keyId : Bytes
  iv : Bytes
  /-- Empty if the whole payload is protected. -/
  subsamples : List Subsample
  deriving DecidableEq, Repr

/-- A cipher that combines every byte with `mask`, and the keys it may use. -/
structure Keyring where
  keys : List Bytes
  mask : UInt8
  /-- The reason why every decryption fails, if it does. -/
  failure : Option String
  deriving DecidableEq, Repr

namespace Keyring

def decrypt (ring : Keyring) (encryption : Encryption) (data : Bytes) :
    Except MediaError Bytes :=
  match ring.failure with
  | some text => .error (.decrypt text)
  | none =>
    if encryption.keyId ∈ ring.keys then .ok (data.map (· ^^^ ring.mask))
    else .error .keyNotFound

def addKey (ring : Keyring) (key : Bytes) : Keyring :=
  { ring with keys := ring.keys ++ [key] }

end Keyring

end MediaPipeline
