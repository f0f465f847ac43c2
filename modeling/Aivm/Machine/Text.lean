import Aivm.Model.Types

/-!
# Text functions

The pure part of the string and bytes instructions: runes, escapes, numerals, code points, hexadecimal and base64.
A text is the bytes before its NUL. Sizes are natural numbers, so the checks for overflow of `size_t` are left out.
-/

namespace Aivm

/-- A C string literal. -/
def ascii (s : String) : List Byte := s.toList.map fun c => UInt8.ofNat c.toNat

/-- A string literal as a pointer. -/
def litPtr (s : String) : StrPtr := .lit (ascii s)

/-- Bytes in a message, one character each. -/
def detailText (text : List Byte) : String := String.ofList (text.map fun b => Char.ofNat b.toNat)

/-! ## Runes -/

/-- A continuation byte. -/
def isContinuation : Option Byte → Bool
  | some b => b &&& 0xC0 = 0x80
  | none => false

/-- `utf8_next_index`: the number of bytes of the first rune of a text that is not empty. -/
def runeLength (text : List Byte) : Nat :=
  let c := fun i => isContinuation text[i]?
  match text with
  | [] => 0
  | b :: _ =>
      if b &&& 0x80 = 0 then 1
      else if b &&& 0xE0 = 0xC0 ∧ c 1 then 2
      else if b &&& 0xF0 = 0xE0 ∧ c 1 ∧ c 2 then 3
      else if b &&& 0xF8 = 0xF0 ∧ c 1 ∧ c 2 ∧ c 3 then 4
      else 1

/-- The bytes of the first `runes` runes and the number of runes walked, which stops at the end of the text. The fuel
is at least the length of the text. -/
def walkRunes : Nat → Nat → List Byte → Nat × Nat
  | 0, _, _ => (0, 0)
  | _, 0, _ => (0, 0)
  | _, _, [] => (0, 0)
  | fuel + 1, runes + 1, text =>
      let n := runeLength text
      let (bytes, walked) := walkRunes fuel runes (text.drop n)
      (n + bytes, walked + 1)

/-- `utf8_rune_count`. -/
def utf8RuneCount (text : List Byte) : Nat := (walkRunes text.length text.length text).2

/-- `clamp_rune_index`. -/
def clampRuneIndex (value : Int) (maxValue : Nat) : Nat := min value.toNat maxValue

/-- `utf8_byte_offset_for_rune` with nothing remembered. -/
def utf8ByteOffset (text : List Byte) (rune : Nat) : Nat := (walkRunes text.length rune text).1

/-- A signed sum in 64 bits, which wraps around. -/
def wrapInt64 (i : Int) : Int := i.bmod (2 ^ 64)

/-- The text of `push_substring_by_runes`. -/
def substringByRunes (text : List Byte) (start length : Int) : List Byte :=
  if length ≤ 0 then []
  else
    let rest := text.drop (utf8ByteOffset text start.toNat)
    rest.take (walkRunes rest.length length.toNat rest).1

/-- The runes that `push_remove_by_runes` removes: the first one, and the one behind the last. -/
def removedRunes (text : List Byte) (start length : Int) : Nat × Nat :=
  let runeCount := utf8RuneCount text
  let startRune := clampRuneIndex start runeCount
  (startRune, max startRune (clampRuneIndex (wrapInt64 (start + length)) runeCount))

/-- The text of `push_remove_by_runes`. -/
def removeByRunes (text : List Byte) (start length : Int) : List Byte :=
  if length ≤ 0 then text
  else
    let (startRune, endRune) := removedRunes text start length
    text.take (utf8ByteOffset text startRune) ++ text.drop (utf8ByteOffset text endRune)

/-- The loop of `push_find_by_runes` from a candidate on. -/
def findRunesFrom (text pattern : List Byte) (lastRune : Nat) : Nat → Nat → Nat → Int
  | 0, _, _ => -1
  | fuel + 1, candidateRune, candidateByte =>
      if text.length < candidateByte + pattern.length then -1
      else if (text.drop candidateByte).take pattern.length = pattern then candidateRune
      else if lastRune ≤ candidateRune then -1
      else
        findRunesFrom text pattern lastRune fuel (candidateRune + 1) (utf8ByteOffset text (candidateRune + 1))

/-- The result of `push_find_by_runes`. -/
def findByRunes (text pattern : List Byte) (start : Int) : Int :=
  let textRunes := utf8RuneCount text
  let patternRunes := utf8RuneCount pattern
  let startRune := clampRuneIndex start textRunes
  if patternRunes = 0 then startRune
  else if textRunes < patternRunes ∨ textRunes - patternRunes < startRune then -1
  else findRunesFrom text pattern (textRunes - patternRunes) (textRunes + 1) startRune (utf8ByteOffset text startRune)

/-- The loop of `STR_SCALAR_LENGTH`. -/
def scalarLength (text : List Byte) : Nat := (text.filter fun b => b &&& 0xC0 ≠ 0x80).length

/-! ## Rendering -/

/-- The character written for a byte by `push_escaped_string`. -/
def escapeByte (b : Byte) : List Byte :=
  if b = 92 then [92, 92]
  else if b = 34 then [92, 34]
  else if b = 10 then [92, 110]
  else if b = 13 then [92, 114]
  else if b = 9 then [92, 116]
  else [b]

def escapeText (text : List Byte) : List Byte := text.flatMap escapeByte

/-- The loop of `TO_STRING` and of `write_u64_decimal`, least digit first. -/
def decimalDigits : Nat → Nat → List Byte
  | 0, _ => []
  | fuel + 1, n =>
      UInt8.ofNat (48 + n % 10) :: if n / 10 = 0 then [] else decimalDigits fuel (n / 10)

/-- A numeral of at most 20 digits. -/
def natDecimal (n : Nat) : List Byte := (decimalDigits 20 n).reverse

def intDecimal (i : Int) : List Byte := if i < 0 then 45 :: natDecimal i.natAbs else natDecimal i.natAbs

def hexDigit (n : Nat) : Byte := if n < 10 then UInt8.ofNat (48 + n) else UInt8.ofNat (87 + n)

def hexText (data : List Byte) : List Byte :=
  [48, 120] ++ data.flatMap fun b => [hexDigit (b.toNat / 16), hexDigit (b.toNat % 16)]

/-- `push_string_from_codepoint`. -/
def codepointText (cp : Nat) : List Byte :=
  if 0x10FFFF < cp ∨ 0xD800 ≤ cp ∧ cp ≤ 0xDFFF then []
  else if cp ≤ 0x7F then [UInt8.ofNat cp]
  else if cp ≤ 0x7FF then [UInt8.ofNat (0xC0 + cp / 64), UInt8.ofNat (0x80 + cp % 64)]
  else if cp ≤ 0xFFFF then
    [UInt8.ofNat (0xE0 + cp / 4096), UInt8.ofNat (0x80 + cp / 64 % 64), UInt8.ofNat (0x80 + cp % 64)]
  else
    [UInt8.ofNat (0xF0 + cp / 262144), UInt8.ofNat (0x80 + cp / 4096 % 64), UInt8.ofNat (0x80 + cp / 64 % 64),
      UInt8.ofNat (0x80 + cp % 64)]

def hexNibble (b : Byte) : Option Nat :=
  if 48 ≤ b ∧ b ≤ 57 then some (b.toNat - 48)
  else if 97 ≤ b ∧ b ≤ 102 then some (b.toNat - 87)
  else if 65 ≤ b ∧ b ≤ 70 then some (b.toNat - 55)
  else none

/-- `aivm_hex4_to_u32`. -/
def hex4ToU32 (text : List Byte) : Option Nat :=
  if text.length ≠ 4 then none
  else text.foldlM (fun value b => do return value * 16 + (← hexNibble b)) 0

/-! ## Base64 -/

/-- `bytes_base64_decode_char`. -/
def bytesBase64DecodeChar (b : Byte) : Option Nat :=
  if 65 ≤ b ∧ b ≤ 90 then some (b.toNat - 65)
  else if 97 ≤ b ∧ b ≤ 122 then some (b.toNat - 71)
  else if 48 ≤ b ∧ b ≤ 57 then some (b.toNat + 4)
  else if b = 43 then some 62
  else if b = 47 then some 63
  else none

/-- One group of four characters, which may end in padding if it is the last one. -/
def base64Group (last : Bool) (a b c d : Byte) : Option (List Byte) := do
  let c0 ← bytesBase64DecodeChar a
  let c1 ← bytesBase64DecodeChar b
  if c = 61 then
    if d = 61 ∧ last then
      let chunk := c0 * 262144 + c1 * 4096
      return [UInt8.ofNat (chunk / 65536)]
    else none
  else
    let c2 ← bytesBase64DecodeChar c
    if d = 61 then
      if last then
        let chunk := c0 * 262144 + c1 * 4096 + c2 * 64
        return [UInt8.ofNat (chunk / 65536), UInt8.ofNat (chunk / 256)]
      else none
    else
      let c3 ← bytesBase64DecodeChar d
      let chunk := c0 * 262144 + c1 * 4096 + c2 * 64 + c3
      return [UInt8.ofNat (chunk / 65536), UInt8.ofNat (chunk / 256), UInt8.ofNat chunk]

/-- `aivm_bytes_from_base64`. -/
def bytesFromBase64 : List Byte → Option (List Byte)
  | [] => some []
  | a :: b :: c :: d :: rest => do
      let group ← base64Group rest.isEmpty a b c d
      return group ++ (← bytesFromBase64 rest)
  | _ => none

/-- A character of the base64 alphabet. -/
def base64Char (n : Nat) : Byte :=
  if n < 26 then UInt8.ofNat (65 + n)
  else if n < 52 then UInt8.ofNat (71 + n)
  else if n < 62 then UInt8.ofNat (n - 4)
  else if n = 62 then 43
  else 47

/-- `aivm_bytes_to_base64`. -/
def bytesToBase64 : List Byte → List Byte
  | [] => []
  | [x] => [base64Char (x.toNat / 4), base64Char (x.toNat % 4 * 16), 61, 61]
  | [x, y] =>
      [base64Char (x.toNat / 4), base64Char (x.toNat % 4 * 16 + y.toNat / 16), base64Char (y.toNat % 16 * 4), 61]
  | x :: y :: z :: rest =>
      base64Char (x.toNat / 4) :: base64Char (x.toNat % 4 * 16 + y.toNat / 16) ::
        base64Char (y.toNat % 16 * 4 + z.toNat / 64) :: base64Char (z.toNat % 64) :: bytesToBase64 rest

/-! ## UTF-8 -/

/-- A byte in a range. -/
def byteIn (lo hi : Byte) : Option Byte → Bool
  | some b => lo ≤ b ∧ b ≤ hi
  | none => false

/-- The number of bytes of a valid first character, or `0`. -/
def validUtf8Length (data : List Byte) : Nat :=
  let c := fun i => isContinuation data[i]?
  let at' := fun i lo hi => byteIn lo hi data[i]?
  match data with
  | [] => 0
  | b :: _ =>
      if b = 0 then 0
      else if b ≤ 0x7F then 1
      else if 0xC2 ≤ b ∧ b ≤ 0xDF then if c 1 then 2 else 0
      else if b = 0xE0 then if at' 1 0xA0 0xBF ∧ c 2 then 3 else 0
      else if 0xE1 ≤ b ∧ b ≤ 0xEC ∨ 0xEE ≤ b ∧ b ≤ 0xEF then if c 1 ∧ c 2 then 3 else 0
      else if b = 0xED then if at' 1 0x80 0x9F ∧ c 2 then 3 else 0
      else if b = 0xF0 then if at' 1 0x90 0xBF ∧ c 2 ∧ c 3 then 4 else 0
      else if 0xF1 ≤ b ∧ b ≤ 0xF3 then if c 1 ∧ c 2 ∧ c 3 then 4 else 0
      else if b = 0xF4 then if at' 1 0x80 0x8F ∧ c 2 ∧ c 3 then 4 else 0
      else 0

/-- `aivm_bytes_is_valid_utf8_without_nul`; the fuel is at least the length. -/
def validUtf8WithoutNul : Nat → List Byte → Bool
  | _, [] => true
  | 0, _ => false
  | fuel + 1, data =>
      let n := validUtf8Length data
      if n = 0 then false else validUtf8WithoutNul fuel (data.drop n)

def bytesIsValidUtf8WithoutNul (data : List Byte) : Bool := validUtf8WithoutNul data.length data

end Aivm
