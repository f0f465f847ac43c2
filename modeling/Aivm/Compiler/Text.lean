import Aivm.Lib.ByteReader
import Aivm.Machine.Text

/-!
# Attribute texts and literals

How the command line reads the attributes of a node and the literals in them. A text is what C sees of a string: the
bytes before its NUL.
-/

namespace Aivm

open ByteReader

abbrev Text := List Byte

instance : LawfulBEq Text := List.instLawfulBEq

/-- A text as C keeps it. -/
abbrev CText := { t : Text // (0 : Byte) ∉ t }

/-- What C sees of a buffer. -/
def CText.ofBuffer (t : Text) : CText :=
  ⟨t.takeWhile (· ≠ 0), fun h => by simpa using List.mem_takeWhile_imp h⟩

/-- The operand of an instruction. -/
abbrev Operand := { i : Int // IsI64 i }

/-- The cast `(int64_t)` of a size. -/
def Operand.ofNat (n : Nat) : Operand := ⟨toI64 (n % 256 ^ 8), toI64_isI64 (Nat.mod_lt _ (by decide))⟩

/-! ## Characters -/

def quote : Byte := 34
def backslash : Byte := 92
def comma : Byte := 44
def equals : Byte := 61
def hash : Byte := 35
def openParen : Byte := 40
def closeParen : Byte := 41
def openBrace : Byte := 123
def closeBrace : Byte := 125

/-- `isspace`. -/
def isSpace (b : Byte) : Bool := b = 32 ∨ (9 ≤ b ∧ b ≤ 13)

/-- The blanks that the attribute reader skips. -/
def isBlank (b : Byte) : Bool := b = 32 ∨ b = 9 ∨ b = 13 ∨ b = 10

def isDigit (b : Byte) : Bool := 48 ≤ b ∧ b ≤ 57

/-! ## Attributes -/

/-- Skip one attribute; the state says whether a string is open, and whether its next byte is escaped. -/
def skipToken : Option Bool → Text → Text
  | _, [] => []
  | none, b :: rest =>
      if isBlank b ∨ b = comma then b :: rest
      else if b = quote then skipToken (some false) rest
      else skipToken none rest
  | some escaped, b :: rest =>
      if ¬ escaped ∧ b = quote then skipToken none rest
      else skipToken (some (¬ escaped ∧ b = backslash)) rest

/-- The value behind `key=` at the head of a text. -/
def keyedValue (key p : Text) : Option Text :=
  if key.isPrefixOf p then
    match (p.drop key.length).dropWhile isBlank with
    | b :: q => if b = equals then some (q.dropWhile isBlank) else none
    | [] => none
  else none

/-- The loop of `parse_attr_value_start`; every round but the last consumes something. -/
def attrValueStartFrom (key : Text) : Nat → Text → Option Text
  | 0, _ => none
  | fuel + 1, attrs =>
      if attrs = [] then none
      else
        let p := attrs.dropWhile fun b => isBlank b ∨ b = comma
        match keyedValue key p with
        | some value => some value
        | none => attrValueStartFrom key fuel (skipToken none p)

/-- `parse_attr_value_start`. -/
def attrValueStart (attrs key : Text) : Option Text :=
  if key = [] then none else attrValueStartFrom key (attrs.length + 1) attrs

/-- A string up to the quote that closes it. -/
def quotedSpan : Bool → Text → Text
  | _, [] => []
  | escaped, b :: rest =>
      if ¬ escaped ∧ b = quote then [] else b :: quotedSpan (¬ escaped ∧ b = backslash) rest

/-- The value at the head of a text. -/
def valueSpan : Text → Text
  | [] => []
  | b :: rest => if b = quote then quotedSpan false rest else (b :: rest).takeWhile fun b => ¬ isBlank b

/-- `parse_attr_span`, into a buffer of `outLen` bytes. -/
def attrSpan (attrs : Text) (key : String) (outLen : Nat) : Option Text := do
  let value := valueSpan (← attrValueStart attrs (ascii key))
  if outLen < value.length + 1 then none else some value

/-- `parse_attr_value_is_quoted`. -/
def attrIsQuoted (attrs : Text) (key : String) : Bool :=
  match attrValueStart attrs (ascii key) with
  | some (b :: _) => b = quote
  | _ => false

/-- `has_attr_key`. -/
def hasAttrKey (attrs : Text) (key : String) : Bool := (attrValueStart attrs (ascii key)).isSome

/-! ## Literals -/

def clampI64 (v : Int) : Int := max (-2 ^ 63) (min v (2 ^ 63 - 1))

theorem clampI64_isI64 (v : Int) : IsI64 (clampI64 v) := by
  unfold IsI64 clampI64
  omega

def digitsValue (digits : Text) : Nat := digits.foldl (fun n b => 10 * n + (b.toNat - 48)) 0

/-- `strtoll` in base ten, when it reads the whole of a text. -/
def strtoll (text : Text) : Option Operand :=
  let unsigned (negative : Bool) (digits : Text) : Option Operand :=
    if digits ≠ [] ∧ digits.all isDigit then
      let magnitude : Int := digitsValue digits
      let v := if negative then -magnitude else magnitude
      some ⟨clampI64 v, clampI64_isI64 v⟩
    else none
  match text.dropWhile isSpace with
  | b :: rest => if b = 45 then unsigned true rest else if b = 43 then unsigned false rest else unsigned false (b :: rest)
  | [] => none

/-- `parse_attr_int64`. -/
def attrInt64 (attrs : Text) (key : String) : Option Operand := do strtoll (← attrSpan attrs key 64)

/-- `parse_attr_bool`. -/
def attrBool (attrs : Text) (key : String) : Option Bool := do
  let text ← attrSpan attrs key 16
  if text = ascii "true" then some true
  else if text = ascii "false" then some false
  else none

def unescapeByte (b : Byte) : Option Byte :=
  if b = 110 then some 10
  else if b = 114 then some 13
  else if b = 116 then some 9
  else if b = quote ∨ b = backslash then some b
  else none

def unescapeText : Text → Option Text
  | [] => some []
  | b :: rest =>
      if b = backslash then
        match rest with
        | [] => none
        | e :: rest => do
            let e ← unescapeByte e
            return e :: (← unescapeText rest)
      else do
        return b :: (← unescapeText rest)

/-- `unescape_string`, into a buffer of `outLen` bytes. -/
def unescapeString (text : Text) (outLen : Nat) : Option Text := do
  let out ← unescapeText text
  if outLen < out.length + 1 then none else some out

/-- A `double` is zero. -/
def isZeroDouble (bits : UInt64) : Bool := bits &&& 0x7FFFFFFFFFFFFFFF = 0

/-- A `double` is not a number. -/
def isNanDouble (bits : UInt64) : Bool := 0x7FF0000000000000 < bits &&& 0x7FFFFFFFFFFFFFFF

/-- The comparison `==` of two doubles. -/
def doubleEq (x y : UInt64) : Bool :=
  ¬ isNanDouble x ∧ ¬ isNanDouble y ∧ (x = y ∨ (isZeroDouble x ∧ isZeroDouble y))

end Aivm
