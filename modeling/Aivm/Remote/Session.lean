import Aivm.Remote.Channel

/-!
# The remote server session

`aivm_remote_server_process_frame`: a HELLO negotiates the capabilities of the session, a CALL is answered with a
result if its capability is granted, and every other frame with an error.
-/

namespace Aivm.Remote

open ByteReader

/-- `AivmRemoteServerConfig`, with as many capabilities as its count says. -/
structure ServerConfig where
  protoVersion : UInt16
  allowedCaps : List (Text maxText)
deriving DecidableEq, Repr

/-- `AivmRemoteServerSession`. -/
structure ServerSession where
  handshakeComplete : Bool
  negotiatedProtoVersion : UInt16
  grantedCaps : List (Text maxText)
deriving DecidableEq, Repr

/-- `aivm_remote_server_session_init`. -/
def ServerSession.init : ServerSession := ⟨false, 0, []⟩

/-- `AivmRemoteSessionStatus` of a frame without a reply. -/
inductive SessionStatus where
  | codec
  | overflow
deriving DecidableEq, Repr

/-- A text of the source, in a buffer. -/
def Text.ofString {max : Nat} (s : String) : Text max := .ofBuffer s.toUTF8.toList

/-- `cap_allowed`. -/
def capAllowed (config : ServerConfig) (cap : Text maxText) : Bool := config.allowedCaps.any (· == cap)

/-- `cap_granted`. -/
def capGranted (session : ServerSession) (cap : Text maxText) : Bool := session.grantedCaps.any (· == cap)

/-- The status of the codec as the status of the session. -/
def codecStatus : Except CodecStatus (List UInt8) → Except SessionStatus (List UInt8)
  | .ok reply => .ok reply
  | .error _ => .error .codec

/-- `encode_error_frame`. -/
def encodeErrorFrame (id errorCode : UInt32) (message : String) (capacity : Nat) :
    Except SessionStatus (List UInt8) := codecStatus (encodeError id ⟨errorCode, .ofString message⟩ capacity)

/-- The loop over the requested capabilities. -/
def grantCaps (config : ServerConfig) : List (Text maxText) → List (Text maxText) → List (Text maxText)
  | granted, [] => granted
  | granted, cap :: caps =>
      if capAllowed config cap ∧ granted.length < maxCaps then grantCaps config (granted ++ [cap]) caps
      else grantCaps config granted caps

/-- A decoded HELLO: the session is renegotiated, also where the WELCOME does not fit. -/
def processHello (config : ServerConfig) (id : UInt32) (hello : Hello) (capacity : Nat) :
    Except SessionStatus (List UInt8) × ServerSession :=
  let welcome : Welcome := ⟨config.protoVersion, grantCaps config [] hello.requestedCaps⟩
  (codecStatus (encodeWelcome id welcome capacity), ⟨true, welcome.protoVersion, welcome.grantedCaps⟩)

/-- The answer to a decoded CALL. -/
def processCall (session : ServerSession) (id : UInt32) (call : Call) (capacity : Nat) :
    Except SessionStatus (List UInt8) :=
  if !session.handshakeComplete then
    encodeErrorFrame id 401 "remote session handshake is required before CALL." capacity
  else if !capGranted session call.cap then
    encodeErrorFrame id 403 "remote capability is not granted for this session." capacity
  else if call.cap = .ofString "cap.remote" ∧ call.op = .ofString "echoInt" then
    codecStatus (encodeResult id ⟨call.value⟩ capacity)
  else encodeErrorFrame id 404 "remote operation is not available." capacity

/-- `aivm_remote_server_process_frame` with an output buffer of some capacity: the reply, and the session after it. -/
def processFrame (config : ServerConfig) (session : ServerSession) (input : List UInt8) (capacity : Nat) :
    Except SessionStatus (List UInt8) × ServerSession :=
  match input with
  | [] => (.error .codec, session)
  | type :: _ =>
      if maxCaps < config.allowedCaps.length then (.error .overflow, session)
      else if type = MessageType.hello.code then
        match decodeHello input with
        | .ok (id, hello) => processHello config id hello capacity
        | _ => (.error .codec, session)
      else if type = MessageType.call.code then
        match decodeCall input with
        | .ok (id, call) => (processCall session id call capacity, session)
        | _ => (.error .codec, session)
      else (encodeErrorFrame 0 400 "remote frame type is not supported." capacity, session)

/-! ## Runs of a session -/

/-- A frame and the capacity for its reply. -/
abbrev Request := List UInt8 × Nat

/-- The session after a list of requests. -/
def sessionAfter (config : ServerConfig) (requests : List Request) : ServerSession :=
  requests.foldl (fun session request => (processFrame config session request.1 request.2).2) .init

/-- The HELLO that the server decodes from a frame, which it does only with a list of capabilities that fits. -/
def helloOf (config : ServerConfig) (input : List UInt8) : Option Hello :=
  if maxCaps < config.allowedCaps.length then none
  else match decodeHello input with
    | .ok (_, hello) => some hello
    | _ => none

/-- The last HELLO that passed decoding. -/
def lastHello (config : ServerConfig) (requests : List Request) : Option Hello :=
  (requests.filterMap (helloOf config ·.1)).getLast?

/-- The id of a request, which the frames of unsupported types do not have. -/
def requestId (input : List UInt8) : UInt32 :=
  if input.head? = some MessageType.hello.code ∨ input.head? = some MessageType.call.code then
    .ofNat (ofLe ((input.drop 1).take 4))
  else 0

end Aivm.Remote
