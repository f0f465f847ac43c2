import Aivm.Lib.ByteReader
import Aivm.Machine.Strings

/-!
# Bytes instructions

The bytes instructions of `aivm_step`. The bytes arena is never compacted by an allocation, so a view stays where it is
while its bytes are copied.
-/

namespace Aivm

open Routine

variable (env : Env)

/-- `push_bytes_copy` with the bytes that have been read. -/
def pushBytesCopy (data : List Byte) : Routine env Unit := do
  let d ← allocBytes data
  push (.bytes d data.length)

/-- The bytes of a view. -/
def readBytesView (d : BytesPtr) (n : Nat) : Routine env (List Byte) := do
  let vm ← look
  deref (vm.bytesAt d n)

/-- Pop a view or fail. -/
def popBytes (f : Fault) (h : f.Regular) : Routine env (BytesPtr × Nat) := do
  let v ← pop
  match v with
  | .bytes d n => return (d, n)
  | _ => throw f h

/-- `BYTES_LENGTH`. -/
def bytesLength : Routine env Unit := do
  let (_, n) ← popBytes env ⟨.typeMismatch, "BYTES_LENGTH requires bytes operand."⟩
    (by simp [Fault.Regular, machineDiagnostics])
  push (.int n)

/-- `BYTES_AT`. -/
def bytesAtOp : Routine env Unit := do
  let index ← pop
  let v ← pop
  match v, index with
  | .bytes d n, .int i =>
      if i < 0 ∨ n ≤ i.toNat ∨ d = .null then push (.int (-1))
      else
        let data ← readBytesView env d n
        let b ← deref data[i.toNat]?
        push (.int b.toNat)
  | _, _ => throw ⟨.typeMismatch, "BYTES_AT requires (bytes,int)."⟩

/-- Where `BYTES_SLICE` starts and stops in a view of `n` bytes. The sum is one of `size_t`, which wraps around. -/
def sliceBounds (n : Nat) (start length : Int) : Nat × Nat :=
  let first := if start ≤ 0 then 0 else if n ≤ start.toNat then n else start.toNat
  let stop := (first + if length ≤ 0 then 0 else length.toNat) % 2 ^ 64
  (first, if stop < first ∨ n < stop then n else stop)

/-- `BYTES_SLICE`. -/
def bytesSlice : Routine env Unit := do
  let length ← pop
  let start ← pop
  let v ← pop
  match v, start, length with
  | .bytes d n, .int start, .int length =>
      let (first, stop) := sliceBounds n start length
      if stop ≤ first ∨ d = .null then pushBytesCopy env []
      else
        let data ← readBytesView env d n
        pushBytesCopy env (slice data first (stop - first))
  | _, _, _ => throw ⟨.typeMismatch, "BYTES_SLICE requires (bytes,int,int)."⟩

/-- `BYTES_CONCAT`: room is made before the operands are checked. -/
def bytesConcat : Routine env Unit := do
  let right ← pop
  let left ← pop
  match left, right with
  | .bytes d n, .bytes e m =>
      if 2 ^ 64 ≤ n + m then throw ⟨.memoryPressure, "AIVMM002: bytes arena capacity exceeded."⟩
      else if 0 < n ∧ d = .null then
        let _ ← allocBytes (List.replicate (n + m) 0)
        throw ⟨.typeMismatch, "BYTES_CONCAT requires non-null left bytes data."⟩
      else if 0 < m ∧ e = .null then
        let _ ← allocBytes (List.replicate (n + m) 0)
        throw ⟨.typeMismatch, "BYTES_CONCAT requires non-null right bytes data."⟩
      else
        let front ← readBytesView env d n
        let back ← readBytesView env e m
        pushBytesCopy env (front ++ back)
  | _, _ => throw ⟨.typeMismatch, "BYTES_CONCAT requires (bytes,bytes)."⟩

/-- `BYTES_FROM_UTF8_STRING`. -/
def bytesFromUtf8String : Routine env Unit := do
  let p ← popText env ⟨.typeMismatch, "BYTES_FROM_UTF8_STRING requires string operand."⟩
    (by simp [Fault.Regular, machineDiagnostics])
  let text ← readText env p
  pushBytesCopy env text

/-- `BYTES_TO_UTF8_STRING`. -/
def bytesToUtf8String : Routine env Unit := do
  let (d, n) ← popBytes env ⟨.typeMismatch, "BYTES_TO_UTF8_STRING requires bytes operand."⟩
    (by simp [Fault.Regular, machineDiagnostics])
  if n = 0 then pushStringCopy env (litPtr "")
  else if d = .null then throw ⟨.typeMismatch, "BYTES_TO_UTF8_STRING requires non-null bytes data."⟩
  else
    let data ← readBytesView env d n
    if ¬ bytesIsValidUtf8WithoutNul data then pushStringCopy env (litPtr "")
    else
      let p ← allocString data
      push (.string p)

/-- `BYTES_FROM_BASE64`. -/
def bytesFromBase64Op : Routine env Unit := do
  let p ← popText env ⟨.typeMismatch, "BYTES_FROM_BASE64 requires string operand."⟩
    (by simp [Fault.Regular, machineDiagnostics])
  let text ← readText env p
  match bytesFromBase64 text with
  | none => throw ⟨.invalidProgram, "BYTES_FROM_BASE64 invalid base64 input."⟩
  | some data => pushBytesCopy env data

/-- `BYTES_TO_BASE64`. -/
def bytesToBase64Op : Routine env Unit := do
  let (d, n) ← popBytes env ⟨.typeMismatch, "BYTES_TO_BASE64 requires bytes operand."⟩
    (by simp [Fault.Regular, machineDiagnostics])
  if 0 < n ∧ d = .null then throw ⟨.typeMismatch, "BYTES_TO_BASE64 requires non-null bytes data."⟩
  else
    let data ← readBytesView env d n
    let p ← allocString (bytesToBase64 data)
    push (.string p)

/-- `BYTES_FROM_BYTE`. -/
def bytesFromByte : Routine env Unit := do
  let v ← pop
  match v with
  | .int i =>
      if i < 0 ∨ 255 < i then throw ⟨.typeMismatch, "BYTES_FROM_BYTE requires int in range 0..255."⟩
      else pushBytesCopy env [UInt8.ofNat i.toNat]
  | _ => throw ⟨.typeMismatch, "BYTES_FROM_BYTE requires int in range 0..255."⟩

/-- `BYTES_U32_LE`. -/
def bytesU32Le : Routine env Unit := do
  let v ← pop
  match v with
  | .int i =>
      if i < 0 ∨ 0xFFFFFFFF < i then throw ⟨.typeMismatch, "BYTES_U32_LE requires int in range 0..4294967295."⟩
      else pushBytesCopy env (ByteReader.le 4 i.toNat)
  | _ => throw ⟨.typeMismatch, "BYTES_U32_LE requires int in range 0..4294967295."⟩

/-- `BYTES_I64_LE`: the bytes of the two's complement. -/
def bytesI64Le : Routine env Unit := do
  let v ← pop
  match v with
  | .int i => pushBytesCopy env (ByteReader.le 8 (i % 2 ^ 64).toNat)
  | _ => throw ⟨.typeMismatch, "BYTES_I64_LE requires int operand."⟩

end Aivm
