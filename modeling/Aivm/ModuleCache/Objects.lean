import Aivm.Lib.Blocks
import Aivm.Lib.CStrings
import Aivm.Program.Load

/-!
# Programs in memory

An `AivmProgram` with its pointers: its arrays, and what it has allocated, are blocks of a memory. A `const char*` into a
block is `.arena` with the address of the block; other static storage is `.lit`. `contents` follows the pointers and
yields what a reader of the program finds.
-/

namespace Aivm.ModuleCache

open Blocks

/-- An entry of a worker catalog; its artifact is a block of its own. -/
structure CatalogCell where
  functionTarget : Nat
  requiredCapabilities : Nat
  transportAbi : Nat
  bytecodeVersion : Nat
  identity : List Byte
  artifact : Nat
  artifactLength : Nat
deriving DecidableEq, Repr

inductive Block where
  | instructions (items : List Instruction)
  | constants (items : List Value)
  | bytes (data : List Byte)
  | catalog (cells : List CatalogCell)
deriving DecidableEq, Repr

namespace Block

def asInstructions : Block → Option (List Instruction)
  | .instructions items => some items
  | _ => none

def asConstants : Block → Option (List Value)
  | .constants items => some items
  | _ => none

def asBytes : Block → Option (List Byte)
  | .bytes data => some data
  | _ => none

def asCatalog : Block → Option (List CatalogCell)
  | .catalog cells => some cells
  | _ => none

end Block

/-- An `AivmProgram`; the arrays that are members of it have their addresses, too. -/
structure ProgramObject where
  formatVersion : Nat
  formatFlags : Nat
  sections : List ProgramSection
  instructions : Option Nat
  instructionCount : Nat
  constants : Option Nat
  constantCount : Nat
  instructionStorage : Nat
  allocatedInstructionStorage : Option Nat
  constantStorage : Nat
  allocatedConstantStorage : Option Nat
  stringStorage : Nat
  stringStorageUsed : Nat
  bytesStorage : Nat
  bytesStorageUsed : Nat
  catalogEntries : Option Nat
  catalogCount : Nat
deriving DecidableEq, Repr

/-! ## Reading -/

/-- The first `count` items behind a pointer; nothing is read where there are none. -/
def readItems {α : Type} (view : Block → Option (List α)) (m : Memory Block) (pointer : Option Nat) (count : Nat) :
    Option (List α) :=
  if count = 0 then some []
  else do
    let items ← (pointer.bind m).bind view
    if count ≤ items.length then some (items.take count) else none

/-- `length` bytes from `offset` on. -/
def readBytesAt (m : Memory Block) (a offset length : Nat) : Option (List Byte) :=
  if length = 0 then some []
  else do
    let data ← (m a).bind Block.asBytes
    if offset + length ≤ data.length then some ((data.drop offset).take length) else none

/-- A C string. -/
def readText (m : Memory Block) (a offset : Nat) : Option (List Byte) := do
  let data ← (m a).bind Block.asBytes
  CStrings.read 0 (data.drop offset)

/-- A whole array of `size` bytes. -/
def readArray (m : Memory Block) (a size : Nat) : Option (List Byte) := do
  let data ← (m a).bind Block.asBytes
  if data.length = size then some data else none

/-- A constant with its text or its data in place of the pointer. -/
def resolve (m : Memory Block) : Value → Option Value
  | .string (.arena a offset) => (readText m a offset).map fun text => .string (.lit text)
  | .bytes (.arena a offset) length => (readBytesAt m a offset length).map fun data => .bytes (.ext data) length
  | .bytes (.ext data) length => if length ≤ data.length then some (.bytes (.ext (data.take length)) length) else none
  | .bytes .null length => if length = 0 then some (.bytes (.ext []) 0) else none
  | v => some v

/-- An entry of a catalog with its artifact. -/
def readCell (m : Memory Block) (c : CatalogCell) : Option WorkerCatalogEntry :=
  (readBytesAt m c.artifact 0 c.artifactLength).map fun artifact =>
    ⟨c.functionTarget, c.requiredCapabilities, c.transportAbi, c.bytecodeVersion, c.identity, artifact⟩

/-- What a program says. -/
structure Contents where
  formatVersion : Nat
  formatFlags : Nat
  sections : List ProgramSection
  instructions : List Instruction
  constants : List Value
  workerCatalog : List WorkerCatalogEntry
deriving DecidableEq, Repr

namespace ProgramObject

/-- The constants with their texts and data. -/
def readConstants (m : Memory Block) (p : ProgramObject) : Option (List Value) :=
  (readItems Block.asConstants m p.constants p.constantCount).bind (List.mapM (resolve m))

/-- The worker catalog with its artifacts. -/
def readCatalog (m : Memory Block) (p : ProgramObject) : Option (List WorkerCatalogEntry) :=
  (readItems Block.asCatalog m p.catalogEntries p.catalogCount).bind (List.mapM (readCell m))

/-- The contents of a program whose pointers all lead to storage. -/
def contents (m : Memory Block) (p : ProgramObject) : Option Contents := do
  let _ ← readArray m p.stringStorage programMaxStringBytes
  let _ ← readArray m p.bytesStorage programMaxBytesStorage
  let instructions ← readItems Block.asInstructions m p.instructions p.instructionCount
  let constants ← p.readConstants m
  let workerCatalog ← p.readCatalog m
  return ⟨p.formatVersion, p.formatFlags, p.sections, instructions, constants, workerCatalog⟩

/-- The cells of the catalog. -/
def cells (m : Memory Block) (p : ProgramObject) : List CatalogCell :=
  (readItems Block.asCatalog m p.catalogEntries p.catalogCount).getD []

/-- What a program has allocated. -/
def allocated (m : Memory Block) (p : ProgramObject) : List Nat :=
  p.allocatedInstructionStorage.toList ++ p.allocatedConstantStorage.toList ++ p.catalogEntries.toList ++
    (p.cells m).map (·.artifact)

/-- The arrays in a program. -/
def arrays (p : ProgramObject) : List Nat := [p.instructionStorage, p.constantStorage, p.stringStorage, p.bytesStorage]

/-- The addresses that belong to a program. -/
def owned (m : Memory Block) (p : ProgramObject) : List Nat := p.arrays ++ p.allocated m

/-- A constant does not point to anything but the storage of the program. -/
def PointsInside (p : ProgramObject) : Value → Prop
  | .string text => ∃ offset, text = .arena p.stringStorage offset
  | .bytes data _ => data = .null ∨ ∃ offset, data = .arena p.bytesStorage offset
  | _ => True

/-- A program that needs nothing but what belongs to it. -/
structure SelfContained (m : Memory Block) (p : ProgramObject) : Prop where
  instructions : ∀ a, p.instructions = some a → a ∈ p.owned m
  constants : ∀ a, p.constants = some a → a ∈ p.owned m
  values : ∀ values, readItems Block.asConstants m p.constants p.constantCount = some values →
    ∀ v ∈ values, p.PointsInside v

end ProgramObject

end Aivm.ModuleCache
