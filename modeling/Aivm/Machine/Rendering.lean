import Aivm.Lib.ByteWriter
import Aivm.Machine.Text

/-!
# Rendering into buffers

The loops of `STR_ESCAPE` and `TO_STRING` as they fill their output: which byte is stored at which index, and when a loop
gives up. Buffers are as long as the instruction makes them, and their first contents do not matter.
-/

namespace Aivm

open ByteReader ByteWriter

variable {ε : Type}

/-! ## Escapes -/

/-- The first loop of `push_escaped_string`: the escaped length without the terminator. -/
def escapedLength : List Byte → Nat
  | [] => 0
  | b :: rest => (if b = 92 ∨ b = 34 ∨ b = 10 ∨ b = 13 ∨ b = 9 then 2 else 1) + escapedLength rest

/-- The second loop of `push_escaped_string`. -/
def escapeLoop : List Byte → List Byte → Nat → Parse ε (List Byte × Nat)
  | [], output, outIndex => return (output, outIndex)
  | b :: rest, output, outIndex => do
      let (output, outIndex) ← putAll (escapeByte b) output outIndex
      escapeLoop rest output outIndex

/-- The output of `push_escaped_string` in a buffer of the computed length. -/
def escapeInto (text output : List Byte) : Parse ε (List Byte) := do
  let (output, outIndex) ← escapeLoop text output 0
  put output outIndex 0

/-! ## Numerals -/

/-- The magnitude of `TO_STRING`, which does not negate the least integer. -/
def magnitude (i : Int64) : UInt64 := if i < 0 then (-(i + 1)).toUInt64 + 1 else i.toUInt64

/-- The loop of `TO_STRING`, from the end of the buffer to its start. -/
def digitLoop (magnitude : UInt64) (buffer : List Byte) (index : Nat) : Nat → Parse ε (List Byte × Nat)
  | 0 => .outOfFuel
  | fuel + 1 => do
      let buffer ← put buffer (index - 1) (UInt8.ofNat (48 + (magnitude % 10).toNat))
      if magnitude / 10 = 0 then return (buffer, index - 1) else digitLoop (magnitude / 10) buffer (index - 1) fuel

/-- What C sees of the buffer that `TO_STRING` fills for an integer. -/
def intInto (i : Int64) (buffer : List Byte) : Parse ε (List Byte) := do
  let index := buffer.length - 1
  let buffer ← put buffer index 0
  let (buffer, index) ← digitLoop (magnitude i) buffer index 20
  if i < 0 then
    let buffer ← put buffer (index - 1) 45
    return (buffer.drop (index - 1)).takeWhile (· ≠ 0)
  else return (buffer.drop index).takeWhile (· ≠ 0)

/-! ## Hexadecimal -/

/-- The loop of `TO_STRING` over bytes; it gives up before it would write the terminator's place. -/
def hexLoop (outLength : Nat) : List Byte → Nat → List Byte → Parse Unit (List Byte)
  | [], _, output => return output
  | b :: rest, i, output => do
      let highSlot := 2 + (i + i)
      let lowSlot := highSlot + 1
      if outLength ≤ lowSlot then .fail ()
      else
        let output ← put output highSlot (hexDigit (b.toNat / 16))
        let output ← put output lowSlot (hexDigit (b.toNat % 16))
        hexLoop outLength rest (i + 1) output

def hexLength (data : List Byte) : Nat := 2 + (data.length + data.length)

/-- The output of `TO_STRING` for bytes. -/
def hexInto (data output : List Byte) : Parse Unit (List Byte) := do
  let output ← put output 0 48
  let output ← put output 1 120
  let output ← hexLoop (hexLength data) data 0 output
  put output (hexLength data) 0

end Aivm
