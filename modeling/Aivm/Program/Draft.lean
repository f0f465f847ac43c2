import Aivm.Compiler.Text
import Aivm.Program.Format

/-!
# Programs under construction

The part of a program record that the two front ends fill: instructions, constants and the string storage behind them.
A draft is always within its storage.
-/

namespace Aivm

open ByteReader

/-- A constant that a front end puts in the table. -/
inductive Literal where
  | int (value : Operand)
  | number (bits : UInt64)
  | bool (value : Bool)
  | string (text : CText)
  | node (handle : Nat)
  | null
  | void
deriving DecidableEq, Repr

namespace Literal

def value : Literal → Value
  | .int value => .int value
  | .number bits => .number bits
  | .bool value => .bool value
  | .string text => .string (.lit text)
  | .node handle => .node handle
  | .null => .null
  | .void => .void

/-- What a constant takes of the string storage, its NUL included. -/
def textSize : Literal → Nat
  | .string text => text.1.length + 1
  | _ => 0

def isNode : Literal → Bool
  | .node _ => true
  | _ => false

end Literal

structure Draft where
  instructions : List Instruction
  constants : List Literal
  instructions_wf : ∀ i ∈ instructions, i.Wf
  instructions_fit : instructions.length ≤ programInlineInstructions
  constants_fit : constants.length ≤ programInlineConstants
  strings_fit : (constants.map Literal.textSize).sum ≤ programMaxStringBytes

namespace Draft

def empty : Draft := ⟨[], [], by simp, by simp, by simp, by simp⟩

instance : Inhabited Draft := ⟨empty⟩

/-- Store an instruction behind the others, if there is room. -/
def emit (d : Draft) (opcode : Opcode) (operand : Operand) : Option Draft :=
  if h : d.instructions.length < programInlineInstructions then
    some
      { d with
        instructions := d.instructions ++ [⟨opcode, operand⟩]
        instructions_wf := by
          intro i hi
          rcases List.mem_append.1 hi with hi | hi
          · exact d.instructions_wf i hi
          · rw [List.mem_singleton.1 hi]
            exact operand.2
        instructions_fit := by
          rw [List.length_append]
          exact h }
  else none

/-- Overwrite the operand of an instruction. -/
def patch (d : Draft) (index : Nat) (operand : Operand) : Draft :=
  { d with
    instructions := d.instructions.modify index fun i => { i with operandInt := operand }
    instructions_wf := by
      intro i hi
      obtain ⟨n, hn⟩ := List.mem_iff_getElem?.1 hi
      rw [List.getElem?_modify] at hn
      obtain ⟨j, hj, rfl⟩ := Option.map_eq_some_iff.1 hn
      split
      · exact operand.2
      · exact d.instructions_wf j (List.mem_of_getElem? hj)
    instructions_fit := by
      rw [List.length_modify]
      exact d.instructions_fit }

/-- Store a constant behind the others, if there is room for it and for its text. -/
def addConstant (d : Draft) (c : Literal) : Option Draft :=
  if h : d.constants.length < programInlineConstants ∧
      (d.constants.map Literal.textSize).sum + c.textSize ≤ programMaxStringBytes then
    some
      { d with
        constants := d.constants ++ [c]
        constants_fit := by
          rw [List.length_append]
          exact h.1
        strings_fit := by
          rw [List.map_append, List.sum_append]
          simpa using h.2 }
  else none

/-- Where a constant stands that is like `c`. -/
def findConstant (d : Draft) (like : Literal → Bool) : Option Nat := d.constants.findIdx? like

end Draft

/-!
## Writing a program

`write_program_as_aibc1`: a first pass adds up the size of the constants section, a second one writes the sections.
-/

/-- The bytes of one constant; a kind without a case of its own is written as void. -/
def writeConstant : Value → List Byte
  | .int value => 1 :: le 8 (ofI64 value)
  | .number bits => 7 :: le 8 bits.toNat
  | .bool value => [2, if value then 1 else 0]
  | .null => [6]
  | .string (.lit text) =>
      let text := (CText.ofBuffer text).1
      3 :: (le 4 text.length ++ text)
  | .string _ => 3 :: le 4 0
  | .bytes (.ext data) length => 5 :: (le 4 length ++ data.take length)
  | .bytes _ length => 5 :: le 4 length
  | _ => [4]

/-- What the first pass counts for a constant. -/
def constantPayloadSize : Value → Nat
  | .int _ => 1 + 8
  | .number _ => 1 + 8
  | .bool _ => 1 + 1
  | .null => 1
  | .string (.lit text) => 1 + 4 + (CText.ofBuffer text).1.length
  | .string _ => 1 + 4
  | .bytes _ length => 1 + 4 + length
  | _ => 1

/-- The lengths that the first pass refuses. -/
def constantTooLong : Value → Bool
  | .string (.lit text) => 0xffffffff < (CText.ofBuffer text).1.length
  | .bytes _ length => 0xffffffff < length
  | _ => false

/-- A section as it is written: its type, the size declared for it, and its payload. -/
structure WrittenSection where
  sectionType : Nat
  declaredSize : Nat
  payload : List Byte
deriving DecidableEq, Repr

def WrittenSection.bytes (s : WrittenSection) : List Byte := le 4 s.sectionType ++ (le 4 s.declaredSize ++ s.payload)

/-- The sections of `write_program_as_aibc1`. -/
def writtenSections (instructions : List Instruction) (constants : List Value) : Option (List WrittenSection) :=
  if instructions = [] ∨ constants.any constantTooLong ∨ (0xffffffff - 4) / 12 < instructions.length then none
  else
    let code : WrittenSection :=
      ⟨sectionInstructions, (4 + instructions.length * 12) % 2 ^ 32,
        le 4 instructions.length ++ instructions.flatMap fun i => le 4 i.opcode.ctorIdx ++ le 8 (ofI64 i.operandInt)⟩
    let table : WrittenSection :=
      ⟨sectionConstants, (4 + (constants.map constantPayloadSize).sum) % 2 ^ 32,
        le 4 constants.length ++ constants.flatMap writeConstant⟩
    some (if 0 < constants.length then [code, table] else [code])

/-- `write_program_as_aibc1`. -/
def writeProgramAsAibc1 (instructions : List Instruction) (constants : List Value) : Option (List Byte) := do
  let sections ← writtenSections instructions constants
  return ascii "AIBC" ++ (le 4 2 ++ (le 4 0 ++ (le 4 sections.length ++ sections.flatMap WrittenSection.bytes)))

end Aivm
