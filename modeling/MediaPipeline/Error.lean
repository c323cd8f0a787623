/-!
# Errors

`ServiceError` is raised by the services every worker uses (configuration, events, tasks),
`MediaError` by the parts that handle media.
-/

namespace MediaPipeline

inductive ServiceError where
  | io (text : String)
  | configParse (text : String)
  | config (text : String)
  | abandoned (event : String)
  | cancelled (task : String)
  | timeout (event : String)
  | stopped (component : String)
  | internal (text : String)
  deriving DecidableEq, Repr

namespace ServiceError

def message : ServiceError → String
  | io text => "IO error: " ++ text
  | configParse text => "Config parse error: " ++ text
  | config text => "Configuration error: " ++ text
  | abandoned event => "Event abandoned: " ++ event
  | cancelled task => "Task cancelled: " ++ task
  | timeout event => "Timed out waiting for " ++ event
  | stopped component => "Stopped: " ++ component
  | internal text => "Internal error: " ++ text

end ServiceError

inductive MediaError where
  | keyNotFound
  | noDecryptor
  | decrypt (text : String)
  | invalidCodecData (text : String)
  | decoderFailedInit (text : String)
  | decode (text : String)
  | invalidContainerData (text : String)
  | device (text : String)
  | notAttached (text : String)
  | internal (text : String)
  deriving DecidableEq, Repr

namespace MediaError

def message : MediaError → String
  | keyNotFound => "Decryption key not found"
  | noDecryptor => "Encrypted frame without a decryptor"
  | decrypt text => "Decrypt error: " ++ text
  | invalidCodecData text => "Invalid codec data: " ++ text
  | decoderFailedInit text => "Decoder failed to initialize: " ++ text
  | decode text => "Decode error: " ++ text
  | invalidContainerData text => "Invalid container data: " ++ text
  | device text => "Device error: " ++ text
  | notAttached text => "Not attached: " ++ text
  | internal text => "Internal error: " ++ text

/-- A worker waits and tries again only for a missing key; every other error stops it. -/
def isRecoverable (e : MediaError) : Bool := e == keyNotFound

/-- To the media side a failed service is an internal error that carries the service's text. -/
def ofService (e : ServiceError) : MediaError := internal e.message

end MediaError

end MediaPipeline
