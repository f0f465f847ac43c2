import Aivm.Machine.Scalars

/-!
# String instructions

The string instructions of `aivm_step`. Runes are found by walking a string.
-/

namespace Aivm

open Routine

variable (env : Env)

/-! ## Operands -/

/-- The text of a string operand; a null string is `none`. -/
def Value.stringPtr : Value → Option StrPtr
  | .string .null => none
  | .string p => some p
  | _ => none

/-- The text at a pointer. -/
def readText (p : StrPtr) : Routine env (List Byte) := do
  let vm ← look
  deref (vm.cstr p)

/-- Pop a string or fail. -/
def popText (f : Fault) (h : f.Regular) : Routine env StrPtr := do
  let v ← pop
  match v.stringPtr with
  | some p => return p
  | none => throw f h

/-- `push_string_copy`. -/
def pushStringCopy (p : StrPtr) : Routine env Unit := do
  let q ← copyString p
  push (.string q)

/-! ## Runes -/

/-- `push_substring_by_runes`. -/
def pushSubstringByRunes (p : StrPtr) (start length : Int) : Routine env Unit :=
  if p = .null ∨ length ≤ 0 then pushStringCopy env (litPtr "")
  else do
    let startByte ← byteOffset p start.toNat
    let rest ← readText env (p.advance startByte)
    let q ← copyRange (p.advance startByte) (walkRunes rest.length length.toNat rest).1
    push (.string q)

/-- `push_remove_by_runes`. A remembered position behind the end of the string is not read from. -/
def pushRemoveByRunes (p : StrPtr) (start length : Int) : Routine env Unit :=
  if p = .null then pushStringCopy env (litPtr "")
  else if length ≤ 0 then pushStringCopy env p
  else do
    let text ← readText env p
    let removed := removedRunes text start length
    let startByte ← byteOffset p removed.1
    let endByte ← byteOffset p removed.2
    if text.length < startByte ∨ text.length < endByte then
      deref none
    let q ← copySplice p startByte (p.advance endByte) (text.length - endByte)
    push (.string q)

/-- The loop of `push_find_by_runes` from a candidate on. -/
def findFrom (p : StrPtr) (text pattern : List Byte) (lastRune : Nat) : Nat → Nat → Nat → Routine env Int
  | 0, _, _ => return -1
  | fuel + 1, candidateRune, candidateByte =>
      if text.length < candidateByte + pattern.length then return -1
      else if (text.drop candidateByte).take pattern.length = pattern then return candidateRune
      else if lastRune ≤ candidateRune then return -1
      else do
        let next ← byteOffset p (candidateRune + 1)
        findFrom p text pattern lastRune fuel (candidateRune + 1) next

/-- `push_find_by_runes`. -/
def pushFindByRunes (p pattern : StrPtr) (start : Int) : Routine env Unit := do
  let text ← readText env p
  let pattern ← readText env pattern
  let textRunes := utf8RuneCount text
  let patternRunes := utf8RuneCount pattern
  let startRune := clampRuneIndex start textRunes
  if patternRunes = 0 then
    push (.int startRune)
  else if textRunes < patternRunes ∨ textRunes - patternRunes < startRune then
    push (.int (-1))
  else
    let candidateByte ← byteOffset p startRune
    let found ← findFrom env p text pattern (textRunes - patternRunes) (textRunes + 1) startRune candidateByte
    push (.int found)

/-! ## Instructions -/

/-- `STR_CONCAT`. -/
def strConcat : Routine env Unit := do
  let right ← pop
  let left ← pop
  match left.stringPtr, right.stringPtr with
  | some p, some q =>
      let prefixText ← readText env p
      let suffixText ← readText env q
      let output ← orFault ⟨.memoryPressure, "String concat allocation failed."⟩
        (copySplice p prefixText.length q suffixText.length)
      push (.string output)
  | _, _ => throw ⟨.typeMismatch, "STR_CONCAT requires string operands."⟩

/-- `TO_STRING`. -/
def toStringOp : Routine env Unit := do
  let v ← pop
  match v with
  | .string p => override ⟨.typeMismatch, "TO_STRING input string must be non-null."⟩ (pushStringCopy env p)
  | .bool b => pushStringCopy env (litPtr (if b then "true" else "false"))
  | .void => pushStringCopy env (litPtr "null")
  | .null => pushStringCopy env (litPtr "null")
  | .int i => pushStringCopy env (.lit (intDecimal i))
  | .number x => pushStringCopy env (.lit (env.floats.format x))
  | .bytes d n =>
      if 0 < n ∧ d = .null then throw ⟨.typeMismatch, "TO_STRING bytes data must be non-null."⟩
      else
        let vm ← look
        let data ← deref (vm.bytesAt d n)
        let output ← allocString (hexText data)
        push (.string output)
  | _ => throw ⟨.typeMismatch, "TO_STRING unsupported value kind."⟩

/-- `STR_ESCAPE` with `push_escaped_string`. -/
def strEscape : Routine env Unit := do
  let p ← popText env ⟨.typeMismatch, "STR_ESCAPE requires string operand."⟩
    (by simp [Fault.Regular, machineDiagnostics])
  let text ← readText env p
  let vm ← look
  if vm.pointerInStringArena p then
    allocate ⟨.memoryPressure, "String escape operand snapshot failed."⟩ "string snapshot"
  let output ← allocString (escapeText text)
  push (.string output)

/-- The operands of the instructions on part of a string. -/
def popRange (f : Fault) (h : f.Regular) : Routine env (StrPtr × Int × Int) := do
  let length ← pop
  let start ← pop
  let text ← pop
  match text, start, length with
  | .string p, .int start, .int length => return (p, start, length)
  | _, _, _ => throw f h

/-- `STR_SUBSTRING`. -/
def strSubstring : Routine env Unit := do
  let (p, start, length) ← popRange env ⟨.typeMismatch, "STR_SUBSTRING requires (string,int,int)."⟩
    (by simp [Fault.Regular, machineDiagnostics])
  pushSubstringByRunes env p start length

/-- `STR_REMOVE`. -/
def strRemove : Routine env Unit := do
  let (p, start, length) ← popRange env ⟨.typeMismatch, "STR_REMOVE requires (string,int,int)."⟩
    (by simp [Fault.Regular, machineDiagnostics])
  pushRemoveByRunes env p start length

/-- `STR_FIND`. -/
def strFind : Routine env Unit := do
  let start ← pop
  let pattern ← pop
  let text ← pop
  match text.stringPtr, pattern.stringPtr, start with
  | some p, some q, .int start => pushFindByRunes env p q start
  | _, _, _ => throw ⟨.typeMismatch, "STR_FIND requires (string,string,int)."⟩

/-- `STR_FROM_CODEPOINT`; the code point is cut to 32 bits. -/
def strFromCodepoint : Routine env Unit := do
  let v ← pop
  match v with
  | .int i =>
      if i < 0 then pushStringCopy env (litPtr "")
      else pushStringCopy env (.lit (codepointText (i.toNat % 2 ^ 32)))
  | _ => throw ⟨.typeMismatch, "STR_FROM_CODEPOINT requires int operand."⟩

/-- `STR_DECODE_UNICODE_HEX4`. -/
def strDecodeUnicodeHex4 : Routine env Unit := do
  let p ← popText env ⟨.typeMismatch, "STR_DECODE_UNICODE_HEX4 requires string operand."⟩
    (by simp [Fault.Regular, machineDiagnostics])
  let text ← readText env p
  match hex4ToU32 text with
  | none => pushStringCopy env (litPtr "")
  | some cp => pushStringCopy env (.lit (codepointText cp))

/-- `STR_DECODE_UNICODE_SURROGATE_PAIR_HEX4`. -/
def strDecodeUnicodeSurrogatePairHex4 : Routine env Unit := do
  let low ← pop
  let high ← pop
  match high.stringPtr, low.stringPtr with
  | some p, some q =>
      let high ← readText env p
      let low ← readText env q
      match hex4ToU32 high, hex4ToU32 low with
      | some h, some l =>
          if h < 0xD800 ∨ 0xDBFF < h ∨ l < 0xDC00 ∨ 0xDFFF < l then pushStringCopy env (litPtr "")
          else pushStringCopy env (.lit (codepointText (0x10000 + (h - 0xD800) * 1024 + (l - 0xDC00))))
      | _, _ => pushStringCopy env (litPtr "")
  | _, _ =>
      throw ⟨.typeMismatch, "STR_DECODE_UNICODE_SURROGATE_PAIR_HEX4 requires (string,string)."⟩

/-- `STR_UTF8_BYTE_COUNT`. -/
def strUtf8ByteCount : Routine env Unit := do
  let p ← popText env ⟨.typeMismatch, "STR_UTF8_BYTE_COUNT requires string operand."⟩
    (by simp [Fault.Regular, machineDiagnostics])
  let text ← readText env p
  push (.int text.length)

/-- `STR_SCALAR_LENGTH`. -/
def strScalarLength : Routine env Unit := do
  let p ← popText env ⟨.typeMismatch, "STR_SCALAR_LENGTH requires string operand."⟩
    (by simp [Fault.Regular, machineDiagnostics])
  let text ← readText env p
  push (.int (scalarLength text))

end Aivm
