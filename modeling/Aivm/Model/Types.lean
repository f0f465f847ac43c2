import Mathlib

/-!
# Values and records of the VM

The tagged values of `aivm_types.h` and the record types of `aivm_vm.h`. Handles are natural numbers, `0` being
the invalid handle of the source. A `double` is kept as its 64-bit pattern.
-/

namespace Aivm

abbrev Byte := UInt8

/-- A `const char*`: storage outside the string arena never moves and is kept as the bytes before its NUL. -/
inductive StrPtr where
  | null
  | lit (text : List Byte)
  | arena (block offset : Nat)
deriving DecidableEq, Repr

/-- The `data` member of a bytes view. -/
inductive BytesPtr where
  | null
  | ext (data : List Byte)
  | arena (block offset : Nat)
deriving DecidableEq, Repr

inductive Value where
  | void
  | int (value : Int)
  | number (bits : UInt64)
  | bool (value : Bool)
  | null
  | string (text : StrPtr)
  | bytes (data : BytesPtr) (length : Nat)
  | node (handle : Nat)
  | pair (handle : Nat)
  | unknown
  | nodeBuilder (handle : Nat)
  | mapBuilder (handle : Nat)
  | map (handle : Nat)
  | task (handle : Nat)
  | workerRef (handle : Nat)
  | workerTasks (handle : Nat)
deriving DecidableEq, Repr

/-- The tagged union in an attribute. -/
inductive AttrValue where
  | identifier (text : StrPtr)
  | string (text : StrPtr)
  | int (value : Int)
  | bool (value : Bool)
deriving DecidableEq, Repr

structure NodeAttr where
  key : StrPtr
  value : AttrValue
deriving DecidableEq, Repr

/-- A node: its attributes and children are slices of the two side arenas. -/
structure NodeRecord where
  kind : StrPtr
  id : StrPtr
  attrStart : Nat
  attrCount : Nat
  childStart : Nat
  childCount : Nat
deriving DecidableEq, Repr

structure ScratchPair where
  first : Value
  second : Value
deriving DecidableEq, Repr

/-- An active builder; its kind, id and attribute keys are owned copies outside the arena. -/
structure NodeBuilderRecord where
  kind : List Byte
  id : List Byte
  attrs : List NodeAttr
  children : List Nat
deriving DecidableEq, Repr

structure MapSlot where
  hash : UInt64
  key : List Byte
  value : Int
deriving DecidableEq, Repr

/-- An active map; `frozen` once it has been finished. Slots are probed linearly. -/
structure MapRecord where
  frozen : Bool
  slots : List (Option MapSlot)
  count : Nat
deriving DecidableEq, Repr

/-- A row of the content index of the string arena; hash `0` marks an empty row. -/
structure StringInternEntry where
  hash : UInt64
  offset : Nat
  length : Nat
deriving DecidableEq, Repr

structure CallFrame where
  returnInstructionPointer : Nat
  frameBase : Nat
  localsBase : Nat
deriving DecidableEq, Repr

structure ParContext where
  expectedCount : Nat
  startIndex : Nat
deriving DecidableEq, Repr

inductive TaskState where
  | pending
  | completed
  | failed
  | canceled
deriving DecidableEq, Repr

inductive VmStatus where
  | ready
  | running
  | halted
  | error
deriving DecidableEq, Repr

inductive VmError where
  | none
  | invalidOpcode
  | stackOverflow
  | stackUnderflow
  | frameOverflow
  | frameUnderflow
  | localOutOfRange
  | typeMismatch
  | invalidProgram
  | stringOverflow
  | syscall
  | memoryPressure
deriving DecidableEq, Repr

inductive RuntimeProfile where
  | production
  | debug
  | tooling
deriving DecidableEq, Repr

/-- The error code and detail text with which an operation gives up. -/
structure Fault where
  error : VmError
  detail : String
deriving DecidableEq, Repr

/-! ## The stores that values point into -/

/-- The arenas behind string, bytes, node and pair values. An arena is its used prefix, and `stringBlock` and
`bytesBlock` are the addresses of the two byte arenas, which change when a compaction replaces them. -/
structure Heap where
  stringArena : List Byte
  stringBlock : Nat
  bytesArena : List Byte
  bytesBlock : Nat
  nodes : List NodeRecord
  nodeAttrs : List NodeAttr
  nodeChildren : List Nat
  scratchPairs : List ScratchPair
deriving DecidableEq, Repr

/-- `count` entries of an array from `start` on. -/
def slice {α : Type} (array : List α) (start count : Nat) : List α := (array.drop start).take count

namespace Heap

variable (h : Heap)

def lookupNode (handle : Nat) : Option NodeRecord :=
  if 0 < handle then h.nodes[handle - 1]? else none

def lookupScratchPair (handle : Nat) : Option ScratchPair :=
  if 0 < handle then h.scratchPairs[handle - 1]? else none

/-- The attributes of a node, read from its slice. -/
def attrsOf (n : NodeRecord) : List NodeAttr := slice h.nodeAttrs n.attrStart n.attrCount

/-- The child handles of a node, read from its slice. -/
def childrenOf (n : NodeRecord) : List Nat := slice h.nodeChildren n.childStart n.childCount

end Heap

/-! ## Programs: the instruction set and the data a program carries (`aivm_program.h`) -/

inductive Opcode where
  | nop | halt | stub | pushInt | pop | storeLocal | loadLocal | addInt | jump | jumpIfFalse | pushBool
  | call | ret | eqInt | eq | const | strConcat | toString | strEscape | return_ | strSubstring | strRemove
  | callSys | asyncCall | asyncCallSys | await | parBegin | parFork | parJoin | parCancel | strUtf8ByteCount
  | nodeKind | nodeId | attrCount | attrKey | attrValueKind | attrValueString | attrValueInt | attrValueBool
  | childCount | childAt | makeBlock | appendChild | makeErr | makeLitString | makeLitInt | makeLitBool
  | makeNode | makeFieldString | makeMap | makeNodeEmpty | appendAttr | strFind | strFromCodepoint
  | strDecodeUnicodeHex4 | strDecodeUnicodeSurrogatePairHex4 | bytesLength | bytesAt | bytesSlice | bytesConcat
  | bytesFromUtf8String | bytesToUtf8String | bytesFromBase64 | bytesToBase64 | makePair | pairFirst | pairSecond
  | subNum | mulNum | divNum | modNum | powNum | ltNum | bytesFromByte | bytesU32Le | bytesI64Le
  | strScalarLength | valueKind | nodeBuilderNew | nodeBuilderAppendChild | nodeBuilderAppendAttr
  | nodeBuilderFinish | mapBuilderNew | mapBuilderPutStringInt | mapBuilderFinish | mapCount | mapHasString
  | mapGetStringIntOr | workerRef | workerRun | taskCancel | workerRunAll | workerTaskAt
deriving DecidableEq, Repr

structure Instruction where
  opcode : Opcode
  operandInt : Int
deriving DecidableEq, Repr

/-- A worker that a program can start: a function of another program, which the entry carries as bytes. -/
structure WorkerCatalogEntry where
  functionTarget : Nat
  requiredCapabilities : Nat
  transportAbi : Nat
  bytecodeVersion : Nat
  identity : List Byte
  artifact : List Byte
deriving DecidableEq, Repr

/-- The part of a loaded program that the VM reads while it runs. -/
structure Program where
  instructions : List Instruction
  constants : List Value
  workerCatalog : List WorkerCatalogEntry
deriving DecidableEq, Repr

end Aivm
