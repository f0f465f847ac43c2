import Aivm.Lib.ByteWriter
import Aivm.Machine.Text

/-!
# Base64 into buffers

The loops of `aivm_bytes_to_base64` and `aivm_bytes_from_base64` as they store their output. The decoder counts its
output also where it has no buffer, and leaves out what lies behind the capacity it is told.
-/

namespace Aivm

open ByteReader ByteWriter

/-! ## Encoding -/

/-- The characters for the one to three bytes of a chunk. -/
def base64Chars (x : Byte) (y z : Option Byte) : List Byte :=
  let value := fun b : Option Byte => (b.map UInt8.toNat).getD 0
  let chunk := x.toNat * 65536 + value y * 256 + value z
  [base64Char (chunk / 262144 % 64), base64Char (chunk / 4096 % 64),
    if y.isSome then base64Char (chunk / 64 % 64) else 61, if z.isSome then base64Char (chunk % 64) else 61]

/-- The loop of `aivm_bytes_to_base64`. -/
def encodeLoop (outCapacity : Nat) : List Byte → List Byte → Nat → Parse Unit (List Byte × Nat)
  | [], output, outIndex => return (output, outIndex)
  | [x], output, outIndex =>
      if outCapacity ≤ outIndex + 4 then .fail () else putAll (base64Chars x none none) output outIndex
  | [x, y], output, outIndex =>
      if outCapacity ≤ outIndex + 4 then .fail () else putAll (base64Chars x (some y) none) output outIndex
  | x :: y :: z :: rest, output, outIndex =>
      if outCapacity ≤ outIndex + 4 then .fail ()
      else do
        let (output, outIndex) ← putAll (base64Chars x (some y) (some z)) output outIndex
        encodeLoop outCapacity rest output outIndex

/-- `aivm_bytes_to_base64` into a buffer of the capacity it is told. -/
def toBase64Into (input output : List Byte) : Parse Unit (List Byte) :=
  if output.length = 0 then .fail ()
  else do
    let (output, outIndex) ← encodeLoop output.length input output 0
    put output outIndex 0

/-- The capacity that `BYTES_TO_BASE64` makes, with a place for the terminator. -/
def base64Capacity (inputLength : Nat) : Nat := (inputLength + 2) / 3 * 4 + 1

/-! ## Decoding -/

/-- The last two characters of a group: their values, and how many of them are padding. -/
def decodeTail (c d : Byte) : Option (Nat × Nat × Nat) :=
  if c = 61 then
    if d ≠ 61 then none else some (0, 0, 2)
  else
    match bytesBase64DecodeChar c with
    | none => none
    | some c2 => if d = 61 then some (c2, 0, 1) else (bytesBase64DecodeChar d).map fun c3 => (c2, c3, 0)

/-- The value of a group of four characters, and its padding. -/
def decodeGroup (last : Bool) (a b c d : Byte) : Option (Nat × Nat) := do
  let c0 ← bytesBase64DecodeChar a
  let c1 ← bytesBase64DecodeChar b
  let (c2, c3, pad) ← decodeTail c d
  if 0 < pad ∧ ¬ last then none else some (c0 * 262144 + c1 * 4096 + c2 * 64 + c3, pad)

/-- The bytes of a group. -/
def groupBytes (chunk pad : Nat) : List Byte :=
  UInt8.ofNat (chunk / 65536) ::
    ((if pad < 2 then [UInt8.ofNat (chunk / 256)] else []) ++ if pad = 0 then [UInt8.ofNat chunk] else [])

/-- Stores that are left out where there is no buffer or no room. -/
def putWithin (outCapacity : Nat) : List Byte → Option (List Byte) → Nat → Parse Unit (Option (List Byte) × Nat)
  | [], outBytes, outIndex => return (outBytes, outIndex)
  | _ :: bs, none, outIndex => putWithin outCapacity bs none (outIndex + 1)
  | b :: bs, some output, outIndex =>
      if outIndex < outCapacity then do putWithin outCapacity bs (some (← put output outIndex b)) (outIndex + 1)
      else putWithin outCapacity bs (some output) (outIndex + 1)

/-- The loop of `aivm_bytes_from_base64`. -/
def decodeLoop (outCapacity : Nat) : List Byte → Option (List Byte) → Nat → Parse Unit (Option (List Byte) × Nat)
  | a :: b :: c :: d :: rest, outBytes, outIndex =>
      match decodeGroup rest.isEmpty a b c d with
      | none => .fail ()
      | some (chunk, pad) => do
          let (outBytes, outIndex) ← putWithin outCapacity (groupBytes chunk pad) outBytes outIndex
          decodeLoop outCapacity rest outBytes outIndex
  | _, outBytes, outIndex => return (outBytes, outIndex)

/-- `aivm_bytes_from_base64`: the output and its length. -/
def fromBase64Into (input : List Byte) (outBytes : Option (List Byte)) (outCapacity : Nat) :
    Parse Unit (Option (List Byte) × Nat) :=
  if input.length % 4 ≠ 0 then .fail ()
  else do
    let (outBytes, outIndex) ← decodeLoop outCapacity input outBytes 0
    if outBytes.isSome ∧ outCapacity < outIndex then .fail () else return (outBytes, outIndex)

end Aivm
