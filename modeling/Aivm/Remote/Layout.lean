import Aivm.Remote.Channel

/-!
# Layouts of frames

The bytes of a frame, field by field. A text stands there with all its bytes, also those behind a zero byte, which no
reader of the decoded message sees.
-/

namespace Aivm.Remote

open ByteReader

/-- A text behind its length. -/
def rawText (raw : List UInt8) : List UInt8 := u16 (.ofNat raw.length) ++ raw

def rawTexts (raws : List (List UInt8)) : List UInt8 := raws.flatMap rawText

/-- The fields of a message as they stand in a frame. -/
inductive Layout where
  | hello (version : UInt16) (client : List UInt8) (caps : List (List UInt8))
  | welcome (version : UInt16) (caps : List (List UInt8))
  | deny (code : UInt32) (text : List UInt8)
  | call (cap op : List UInt8) (value : Int64)
  | result (value : Int64)
  | error (code : UInt32) (text : List UInt8)

namespace Layout

def type : Layout → MessageType
  | .hello .. => .hello
  | .welcome .. => .welcome
  | .deny .. => .deny
  | .call .. => .call
  | .result .. => .result
  | .error .. => .error

def versionAndCaps (version : UInt16) (caps : List (List UInt8)) : List UInt8 :=
  u16 version ++ u32 (.ofNat caps.length) ++ rawTexts caps

def payload : Layout → List UInt8
  | .hello version client caps => rawText client ++ versionAndCaps version caps
  | .welcome version caps => versionAndCaps version caps
  | .deny code text => u32 code ++ rawText text
  | .call cap op value => rawText cap ++ rawText op ++ i64 value
  | .result value => i64 value
  | .error code text => u32 code ++ rawText text

/-- The texts, in their order. -/
def texts : Layout → List (List UInt8)
  | .hello _ client caps => client :: caps
  | .welcome _ caps => caps
  | .deny _ text => [text]
  | .call cap op _ => [cap, op]
  | .result _ => []
  | .error _ text => [text]

/-- The texts and the number of capabilities are within the limits. -/
def Fits : Layout → Prop
  | .hello _ client caps => client.length ≤ maxText ∧ caps.length ≤ maxCaps ∧ ∀ cap ∈ caps, cap.length ≤ maxText
  | .welcome _ caps => caps.length ≤ maxCaps ∧ ∀ cap ∈ caps, cap.length ≤ maxText
  | .deny _ text => text.length ≤ maxErrorText
  | .call cap op _ => cap.length ≤ maxText ∧ op.length ≤ maxText
  | .result _ => True
  | .error _ text => text.length ≤ maxErrorText

/-- The message that a layout is read as. -/
def message : Layout → Message
  | .hello version client caps => .hello ⟨version, .ofBuffer client, caps.map .ofBuffer⟩
  | .welcome version caps => .welcome ⟨version, caps.map .ofBuffer⟩
  | .deny code text => .deny ⟨code, .ofBuffer text⟩
  | .call cap op value => .call ⟨.ofBuffer cap, .ofBuffer op, value⟩
  | .result value => .result ⟨value⟩
  | .error code text => .error ⟨code, .ofBuffer text⟩

/-- The whole frame. -/
def frame (id : UInt32) (l : Layout) : List UInt8 :=
  [l.type.code] ++ u32 id ++ u32 (.ofNat l.payload.length) ++ l.payload

end Layout

/-- The layout that a message is written in. -/
def Message.layout : Message → Layout
  | .hello m => .hello m.protoVersion m.clientName.bytes (m.requestedCaps.map (·.bytes))
  | .welcome m => .welcome m.protoVersion (m.grantedCaps.map (·.bytes))
  | .deny m => .deny m.errorCode m.message.bytes
  | .call m => .call m.cap.bytes m.op.bytes m.value
  | .result m => .result m.value
  | .error m => .error m.errorCode m.message.bytes

/-- A message with no more capabilities than its array holds. -/
def Message.WithinLimits : Message → Prop
  | .hello m => m.requestedCaps.length ≤ maxCaps
  | .welcome m => m.grantedCaps.length ≤ maxCaps
  | _ => True

/-! ## The texts of a frame -/

/-- The next texts of a byte string, each behind its length. -/
def textsAt : Nat → List UInt8 → List (List UInt8)
  | 0, _ => []
  | count + 1, bytes =>
      let length := ofLe (bytes.take 2)
      (bytes.drop 2).take length :: textsAt count (bytes.drop (2 + length))

/-- The texts where a frame of a type has them. -/
def frameTexts (type : MessageType) (bytes : List UInt8) : List (List UInt8) :=
  let payload := bytes.drop headerSize
  match type with
  | .hello =>
      let rest := payload.drop (2 + ofLe (payload.take 2))
      textsAt 1 payload ++ textsAt (ofLe ((rest.drop 2).take 4)) (rest.drop 6)
  | .welcome => textsAt (ofLe ((payload.drop 2).take 4)) (payload.drop 6)
  | .deny => textsAt 1 (payload.drop 4)
  | .call => textsAt 2 payload
  | .result => []
  | .error => textsAt 1 (payload.drop 4)

end Aivm.Remote
