import Aivm.Lib.ByteReader

/-!
# The remote channel

The codecs of `aivm_remote_channel.c`. A frame is a header of nine bytes, which holds the type, the request id and the
length of the rest, and the fields of its message. A text is written behind its length in two bytes and read back into
a buffer, which every user reads up to the first zero byte.
-/

namespace Aivm.Remote

open ByteReader

def headerSize : Nat := 9
def maxCaps : Nat := 16
def maxText : Nat := 64
def maxErrorText : Nat := 128

/-- `AivmRemoteCodecStatus` of a codec that fails on arguments that are present. -/
inductive CodecStatus where
  | short
  | overflow
  | type
  | format
deriving DecidableEq, Repr

inductive MessageType where
  | hello
  | welcome
  | deny
  | call
  | result
  | error
deriving DecidableEq, Repr

/-- The values of `AivmRemoteMessageType`. -/
def MessageType.code : MessageType → UInt8
  | .hello => 0x01
  | .welcome => 0x02
  | .deny => 0x03
  | .call => 0x10
  | .result => 0x11
  | .error => 0x12

/-! ## Messages -/

/-- What a buffer of `max + 1` bytes holds before its first zero byte. -/
structure Text (max : Nat) where
  bytes : List UInt8
  fits : bytes.length ≤ max
  clean : (0 : UInt8) ∉ bytes
deriving DecidableEq, Repr

/-- The text of a buffer, which ends at the first zero byte. -/
def Text.ofBuffer {max : Nat} (raw : List UInt8) : Text max where
  bytes := (raw.take max).takeWhile (· ≠ 0)
  fits := Nat.le_trans (List.takeWhile_prefix _).length_le (by simp)
  clean h := by simpa using List.mem_takeWhile_imp h

/-- `AivmRemoteHello`. -/
structure Hello where
  protoVersion : UInt16
  clientName : Text maxText
  requestedCaps : List (Text maxText)
deriving DecidableEq, Repr

/-- `AivmRemoteWelcome`. -/
structure Welcome where
  protoVersion : UInt16
  grantedCaps : List (Text maxText)
deriving DecidableEq, Repr

/-- `AivmRemoteDeny` and `AivmRemoteError`. -/
structure Notice where
  errorCode : UInt32
  message : Text maxErrorText
deriving DecidableEq, Repr

/-- `AivmRemoteCall`. -/
structure Call where
  cap : Text maxText
  op : Text maxText
  value : Int64
deriving DecidableEq, Repr

/-- `AivmRemoteResult`. -/
structure Result where
  value : Int64
deriving DecidableEq, Repr

inductive Message where
  | hello (m : Hello)
  | welcome (m : Welcome)
  | deny (m : Notice)
  | call (m : Call)
  | result (m : Result)
  | error (m : Notice)
deriving DecidableEq, Repr

def Message.type : Message → MessageType
  | .hello _ => .hello
  | .welcome _ => .welcome
  | .deny _ => .deny
  | .call _ => .call
  | .result _ => .result
  | .error _ => .error

/-! ## Writing -/

def u16 (x : UInt16) : List UInt8 := le 2 x.toNat
def u32 (x : UInt32) : List UInt8 := le 4 x.toNat
def i64 (x : Int64) : List UInt8 := le 8 x.toUInt64.toNat

/-- Add fixed fields to a body, where the buffer has room for them behind the header. -/
def writeFields (capacity : Nat) (fields body : List UInt8) : Except CodecStatus (List UInt8) :=
  if capacity < headerSize + body.length + fields.length then .error .short else .ok (body ++ fields)

/-- `write_string`. -/
def writeString (capacity maxText : Nat) (text body : List UInt8) : Except CodecStatus (List UInt8) :=
  if maxText < text.length ∨ 65535 < text.length then .error .overflow
  else if capacity < headerSize + body.length + 2 + text.length then .error .short
  else .ok (body ++ le 2 text.length ++ text)

/-- The loop over the capabilities of a message. -/
def writeStrings (capacity maxText : Nat) : List (List UInt8) → List UInt8 → Except CodecStatus (List UInt8)
  | [], body => .ok body
  | text :: texts, body => do
      let body ← writeString capacity maxText text body
      writeStrings capacity maxText texts body

/-- `write_header`: the body gets its header. -/
def writeHeader (type : MessageType) (id : UInt32) (capacity : Nat) (body : List UInt8) :
    Except CodecStatus (List UInt8) :=
  if capacity < headerSize then .error .short
  else .ok ([type.code] ++ u32 id ++ u32 (.ofNat body.length) ++ body)

/-- `aivm_remote_encode_hello`. -/
def encodeHello (id : UInt32) (m : Hello) (capacity : Nat) : Except CodecStatus (List UInt8) :=
  if maxCaps < m.requestedCaps.length then .error .overflow
  else do
    let body ← writeString capacity maxText m.clientName.bytes []
    let body ← writeFields capacity (u16 m.protoVersion ++ u32 (.ofNat m.requestedCaps.length)) body
    let body ← writeStrings capacity maxText (m.requestedCaps.map (·.bytes)) body
    writeHeader .hello id capacity body

/-- `aivm_remote_encode_welcome`. -/
def encodeWelcome (id : UInt32) (m : Welcome) (capacity : Nat) : Except CodecStatus (List UInt8) :=
  if maxCaps < m.grantedCaps.length then .error .overflow
  else do
    let body ← writeFields capacity (u16 m.protoVersion ++ u32 (.ofNat m.grantedCaps.length)) []
    let body ← writeStrings capacity maxText (m.grantedCaps.map (·.bytes)) body
    writeHeader .welcome id capacity body

/-- What `aivm_remote_encode_deny` and `aivm_remote_encode_error` do. -/
def encodeNotice (type : MessageType) (id : UInt32) (m : Notice) (capacity : Nat) :
    Except CodecStatus (List UInt8) := do
  let body ← writeFields capacity (u32 m.errorCode) []
  let body ← writeString capacity maxErrorText m.message.bytes body
  writeHeader type id capacity body

/-- `aivm_remote_encode_deny`. -/
def encodeDeny : UInt32 → Notice → Nat → Except CodecStatus (List UInt8) := encodeNotice .deny

/-- `aivm_remote_encode_error`. -/
def encodeError : UInt32 → Notice → Nat → Except CodecStatus (List UInt8) := encodeNotice .error

/-- `aivm_remote_encode_call`. -/
def encodeCall (id : UInt32) (m : Call) (capacity : Nat) : Except CodecStatus (List UInt8) := do
  let body ← writeString capacity maxText m.cap.bytes []
  let body ← writeString capacity maxText m.op.bytes body
  let body ← writeFields capacity (i64 m.value) body
  writeHeader .call id capacity body

/-- `aivm_remote_encode_result`. -/
def encodeResult (id : UInt32) (m : Result) (capacity : Nat) : Except CodecStatus (List UInt8) := do
  let body ← writeFields capacity (i64 m.value) []
  writeHeader .result id capacity body

/-- The encoder of each type. -/
def encode (id : UInt32) : Message → Nat → Except CodecStatus (List UInt8)
  | .hello m => encodeHello id m
  | .welcome m => encodeWelcome id m
  | .deny m => encodeDeny id m
  | .call m => encodeCall id m
  | .result m => encodeResult id m
  | .error m => encodeError id m

/-! ## Reading -/

/-- `AivmRemoteFrameHeader`. -/
structure FrameHeader where
  type : UInt8
  id : UInt32
  payloadLength : UInt32
deriving DecidableEq, Repr

section Read

variable (bytes : List UInt8)

def readU16 (offset : Nat) : Parse CodecStatus UInt16 := do
  return .ofNat (← readLe bytes 2 offset)

def readU32 (offset : Nat) : Parse CodecStatus UInt32 := do
  return .ofNat (← readLe bytes 4 offset)

def readI64 (offset : Nat) : Parse CodecStatus Int64 := do
  return (UInt64.ofNat (← readLe bytes 8 offset)).toInt64

/-- `read_header`. -/
def readHeader : Parse CodecStatus FrameHeader :=
  if bytes.length < headerSize then .fail .short
  else do
    let type ← readLe bytes 1 0
    let id ← readU32 bytes 1
    let payloadLength ← readU32 bytes 5
    if payloadLength.toNat + headerSize ≠ bytes.length then .fail .format
    else return ⟨.ofNat type, id, payloadLength⟩

/-- `read_header` with `check_type`: the id of a frame of a type. -/
def readHeaderOf (type : MessageType) : Parse CodecStatus UInt32 := do
  let header ← readHeader bytes
  if header.type ≠ type.code then .fail .type else return header.id

/-- `read_string` into a buffer of `max + 1` bytes: the text and where it ends. -/
def readString (max offset : Nat) : Parse CodecStatus (Text max × Nat) :=
  if bytes.length < offset + 2 then .fail .short
  else do
    let length ← readU16 bytes offset
    if max < length.toNat then .fail .overflow
    else if bytes.length < offset + 2 + length.toNat then .fail .short
    else
      let raw ← readBytes bytes (offset + 2) length.toNat
      return (.ofBuffer raw, offset + 2 + length.toNat)

/-- The loop over the capabilities of a frame. -/
def readStrings (max : Nat) : Nat → Nat → Parse CodecStatus (List (Text max) × Nat)
  | 0, offset => return ([], offset)
  | count + 1, offset => do
      let text ← readString bytes max offset
      let texts ← readStrings max count text.2
      return (text.1 :: texts.1, texts.2)

/-- Version and capabilities, up to the end of the frame. -/
def readVersionAndCaps (offset : Nat) : Parse CodecStatus (UInt16 × List (Text maxText)) :=
  if bytes.length < offset + 2 + 4 then .fail .short
  else do
    let version ← readU16 bytes offset
    let count ← readU32 bytes (offset + 2)
    if maxCaps < count.toNat then .fail .overflow
    else
      let caps ← readStrings bytes maxText count.toNat (offset + 6)
      if caps.2 ≠ bytes.length then .fail .format else return (version, caps.1)

/-- `aivm_remote_decode_hello`. -/
def decodeHello : Parse CodecStatus (UInt32 × Hello) := do
  let id ← readHeaderOf bytes .hello
  let client ← readString bytes maxText headerSize
  let rest ← readVersionAndCaps bytes client.2
  return (id, ⟨rest.1, client.1, rest.2⟩)

/-- `aivm_remote_decode_welcome`. -/
def decodeWelcome : Parse CodecStatus (UInt32 × Welcome) := do
  let id ← readHeaderOf bytes .welcome
  let rest ← readVersionAndCaps bytes headerSize
  return (id, ⟨rest.1, rest.2⟩)

/-- What `aivm_remote_decode_deny` and `aivm_remote_decode_error` do. -/
def decodeNotice (type : MessageType) : Parse CodecStatus (UInt32 × Notice) := do
  let id ← readHeaderOf bytes type
  if bytes.length < headerSize + 4 then .fail .short
  else
    let errorCode ← readU32 bytes headerSize
    let message ← readString bytes maxErrorText (headerSize + 4)
    if message.2 ≠ bytes.length then .fail .format else return (id, ⟨errorCode, message.1⟩)

/-- `aivm_remote_decode_deny`. -/
def decodeDeny : Parse CodecStatus (UInt32 × Notice) := decodeNotice bytes .deny

/-- `aivm_remote_decode_error`. -/
def decodeError : Parse CodecStatus (UInt32 × Notice) := decodeNotice bytes .error

/-- `aivm_remote_decode_call`. -/
def decodeCall : Parse CodecStatus (UInt32 × Call) := do
  let id ← readHeaderOf bytes .call
  let cap ← readString bytes maxText headerSize
  let op ← readString bytes maxText cap.2
  if op.2 + 8 ≠ bytes.length then .fail .format
  else
    let value ← readI64 bytes op.2
    return (id, ⟨cap.1, op.1, value⟩)

/-- `aivm_remote_decode_result`. -/
def decodeResult : Parse CodecStatus (UInt32 × Result) := do
  let id ← readHeaderOf bytes .result
  if bytes.length ≠ headerSize + 8 then .fail .format
  else
    let value ← readI64 bytes headerSize
    return (id, ⟨value⟩)

/-- The decoder of each type. -/
def decode : MessageType → Parse CodecStatus (UInt32 × Message)
  | .hello => do let m ← decodeHello bytes; return (m.1, .hello m.2)
  | .welcome => do let m ← decodeWelcome bytes; return (m.1, .welcome m.2)
  | .deny => do let m ← decodeDeny bytes; return (m.1, .deny m.2)
  | .call => do let m ← decodeCall bytes; return (m.1, .call m.2)
  | .result => do let m ← decodeResult bytes; return (m.1, .result m.2)
  | .error => do let m ← decodeError bytes; return (m.1, .error m.2)

end Read

end Aivm.Remote
