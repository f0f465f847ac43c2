import Aivm.Lib.ByteReader
import Aivm.Model.Types

/-!
# The program loader

`aivm_program_load_aibc1` and `aivm_worker_catalog_load`. A program record keeps the instructions and constants that its
counts expose, and whether it owns storage outside the record. Sizes are natural numbers: every length is a 32-bit field
of the input, so no sum of them wraps.
-/

namespace Aivm

open ByteReader

def programMaxSections : Nat := 32
def programInlineInstructions : Nat := 32768
def programInlineConstants : Nat := 1024
def programMaxStringBytes : Nat := 65536
def programMaxBytesStorage : Nat := 32768
def sectionInstructions : Nat := 1
def sectionConstants : Nat := 2
def sectionWorkerCatalog : Nat := 3
def opMax : Nat := 92
def workerTransportAbiBytesV1 : Nat := 1
def workerCatalogMaxEntries : Nat := 1024

inductive ProgramStatus where
  | truncated
  | badMagic
  | unsupported
  | sectionOob
  | sectionLimit
  | invalidSection
  | invalidOpcode
  | invalidConstant
  | stringLimit
  | memory
  | workerCatalog
deriving DecidableEq, Repr

inductive WorkerCatalogStatus where
  | format
  | limit
  | memory
  | identity
  | artifact
  | function
  | abi
  | capability
deriving DecidableEq, Repr

structure ProgramSection where
  sectionType : Nat
  sectionSize : Nat
  sectionOffset : Nat
deriving DecidableEq, Repr

/-- A program record. -/
structure ProgramRecord where
  instructions : List Instruction
  allocatedInstructionStorage : Bool
  constants : List Value
  allocatedConstantStorage : Bool
  formatVersion : Nat
  formatFlags : Nat
  sectionCount : Nat
  sections : List ProgramSection
  stringStorageUsed : Nat
  bytesStorageUsed : Nat
  workerCatalog : List WorkerCatalogEntry
deriving DecidableEq, Repr

/-- The status and offset of a failed load, and the record it leaves behind. -/
structure LoadFailure where
  status : ProgramStatus
  errorOffset : Nat
  program : ProgramRecord
deriving DecidableEq, Repr

/-- Whether the host grants an allocation of `count` items while it loads `bytes`. -/
structure LoadHost where
  instructions : List Byte → (count : Nat) → Bool
  constants : List Byte → (count : Nat) → Bool
  entries : List Byte → (count : Nat) → Bool
  artifact : List Byte → (length : Nat) → Bool

/-! ## The record -/

/-- `aivm_program_clear`. -/
def clearProgram (_ : ProgramRecord) : ProgramRecord := ⟨[], false, [], false, 0, 0, 0, [], 0, 0, []⟩

/-- `aivm_program_release`. -/
def releaseProgram (p : ProgramRecord) : ProgramRecord :=
  { p with
    instructions := []
    allocatedInstructionStorage := false
    constants := []
    allocatedConstantStorage := false
    workerCatalog := [] }

/-- `aivm_program_instructions_reserve`. -/
def instructionsReserve (host : LoadHost) (bytes : List Byte) (count : Nat) (p : ProgramRecord) :
    Option ProgramRecord :=
  if count ≤ programInlineInstructions then some p
  else if host.instructions bytes count then some { p with allocatedInstructionStorage := true }
  else none

/-- `aivm_program_constants_reserve`. -/
def constantsReserve (host : LoadHost) (bytes : List Byte) (count : Nat) (p : ProgramRecord) : Option ProgramRecord :=
  if count ≤ programInlineConstants then some p
  else if host.constants bytes count then some { p with allocatedConstantStorage := true }
  else none

/-- Return an error and leave the record as it is. -/
def loadError {α : Type} (status : ProgramStatus) (offset : Nat) (p : ProgramRecord) : Parse LoadFailure α :=
  .fail ⟨status, offset, p⟩

/-- `constant_load_error`: return an error and release the record. -/
def constantLoadError {α : Type} (status : ProgramStatus) (offset : Nat) (p : ProgramRecord) : Parse LoadFailure α :=
  .fail ⟨status, offset, releaseProgram p⟩

/-! ## Instructions -/

section Loader

variable (host : LoadHost) (bytes : List Byte)

/-- The loop over the instructions; nothing is exposed before it ends. -/
def loadInstructions (p : ProgramRecord) : Nat → Nat → Parse LoadFailure (List Instruction)
  | 0, _ => return []
  | count + 1, cursor => do
      let rawOpcode ← readLe bytes 4 cursor
      let operand ← readLe bytes 8 (cursor + 4)
      if opMax < rawOpcode then
        loadError .invalidOpcode cursor p
      else
        let rest ← loadInstructions p count (cursor + 12)
        return ⟨Opcode.ofNat rawOpcode, toI64 operand⟩ :: rest

/-- The instruction section. -/
def loadInstructionSection (start size : Nat) (p : ProgramRecord) : Parse LoadFailure ProgramRecord :=
  if size < 4 then loadError .invalidSection start p
  else do
    let count ← readLe bytes 4 start
    if size ≠ 4 + count * 12 then
      loadError .invalidSection start p
    else
      match instructionsReserve host bytes count p with
      | none => constantLoadError .memory start p
      | some p => do
          let instructions ← loadInstructions bytes p count (start + 4)
          return { p with instructions := instructions }

/-! ## Constants -/

/-- The checks `next_cursor > section_end` of the constants. -/
def constantRoom (sectionEnd cursor count : Nat) (p : ProgramRecord) : Parse LoadFailure Unit :=
  if sectionEnd < cursor + count then constantLoadError .invalidSection cursor p else return

/-- One constant, and where the next one starts. -/
def loadConstant (sectionEnd cursor : Nat) (p : ProgramRecord) : Parse LoadFailure (Value × Nat × ProgramRecord) :=
  if sectionEnd ≤ cursor then constantLoadError .invalidSection cursor p
  else do
    let kind ← readLe bytes 1 cursor
    if kind = 1 then
      constantRoom sectionEnd (cursor + 1) 8 p
      let bits ← readLe bytes 8 (cursor + 1)
      return (.int (toI64 bits), cursor + 9, p)
    else if kind = 7 then
      constantRoom sectionEnd (cursor + 1) 8 p
      let bits ← readLe bytes 8 (cursor + 1)
      return (.number (UInt64.ofNat bits), cursor + 9, p)
    else if kind = 2 then
      constantRoom sectionEnd (cursor + 1) 1 p
      let byte ← readLe bytes 1 (cursor + 1)
      return (.bool (byte ≠ 0), cursor + 2, p)
    else if kind = 6 then
      return (.null, cursor + 1, p)
    else if kind = 3 then
      constantRoom sectionEnd (cursor + 1) 4 p
      let length ← readLe bytes 4 (cursor + 1)
      constantRoom sectionEnd (cursor + 5) length p
      if programMaxStringBytes < p.stringStorageUsed + length + 1 then
        constantLoadError .stringLimit (cursor + 5) p
      else
        let text ← readBytes bytes (cursor + 5) length
        return (.string (.lit text), cursor + 5 + length,
          { p with stringStorageUsed := p.stringStorageUsed + length + 1 })
    else if kind = 4 then
      return (.void, cursor + 1, p)
    else if kind = 5 then
      constantRoom sectionEnd (cursor + 1) 4 p
      let length ← readLe bytes 4 (cursor + 1)
      constantRoom sectionEnd (cursor + 5) length p
      if programMaxBytesStorage < p.bytesStorageUsed + length then
        constantLoadError .stringLimit (cursor + 5) p
      else
        let data ← readBytes bytes (cursor + 5) length
        return (.bytes (.ext data) length, cursor + 5 + length,
          { p with bytesStorageUsed := p.bytesStorageUsed + length })
    else
      constantLoadError .invalidConstant cursor p

def loadConstants (sectionEnd : Nat) : Nat → Nat → ProgramRecord →
    Parse LoadFailure (List Value × Nat × ProgramRecord)
  | 0, cursor, p => return ([], cursor, p)
  | count + 1, cursor, p => do
      let (v, cursor, p) ← loadConstant bytes sectionEnd cursor p
      let (vs, cursor, p) ← loadConstants sectionEnd count cursor p
      return (v :: vs, cursor, p)

/-- The constants section. -/
def loadConstantSection (start size : Nat) (p : ProgramRecord) : Parse LoadFailure ProgramRecord :=
  if size < 4 then loadError .invalidSection start p
  else do
    let count ← readLe bytes 4 start
    match constantsReserve host bytes count p with
    | none => loadError .memory start p
    | some p => do
        let (constants, cursor, p) ← loadConstants bytes (start + size) count (start + 4) p
        if cursor ≠ start + size then
          constantLoadError .invalidSection cursor p
        else
          return { p with constants := constants }

/-! ## Worker catalogs -/

/-- One round of `aivm_worker_identity` over the eight lanes. -/
def identityRound (state : List UInt32) (b : Byte) : List UInt32 :=
  state.zipIdx.map fun (s, lane) => s * 16777619 + b.toUInt32 + UInt32.ofNat lane

/-- `aivm_worker_identity`. -/
def workerIdentity (functionTarget requiredCapabilities transportAbi bytecodeVersion : Nat) (artifact : List Byte) :
    List Byte :=
  let fields := le 4 functionTarget ++ le 4 requiredCapabilities ++ le 4 transportAbi ++ le 4 bytecodeVersion
  let state := (fields ++ artifact).foldl identityRound
    [2166136261, 2246822519, 3266489917, 668265263, 374761393, 1274126177, 42595009, 2048419325]
  state.flatMap fun s => le 4 s.toNat

/-- One entry of a catalog, read at `cursor`; `load` loads its artifact. -/
def loadCatalogEntry (load : List Byte → Parse LoadFailure ProgramRecord) (cursor : Nat) :
    Parse WorkerCatalogStatus WorkerCatalogEntry :=
  if bytes.length < cursor ∨ bytes.length - cursor < 52 then .fail .format
  else do
    let functionTarget ← readLe bytes 4 cursor
    let requiredCapabilities ← readLe bytes 4 (cursor + 4)
    let transportAbi ← readLe bytes 4 (cursor + 8)
    let bytecodeVersion ← readLe bytes 4 (cursor + 12)
    let length ← readLe bytes 4 (cursor + 16)
    let identity ← readBytes bytes (cursor + 20) 32
    if bytes.length - (cursor + 52) < length then .fail .format
    else if transportAbi ≠ workerTransportAbiBytesV1 then .fail .abi
    else if requiredCapabilities / 65536 ≠ 0 then .fail .capability
    else
      let artifact ← readBytes bytes (cursor + 52) length
      if workerIdentity functionTarget requiredCapabilities transportAbi bytecodeVersion artifact ≠ identity then
        .fail .identity
      else if ¬ host.artifact bytes length then .fail .memory
      else
        match load artifact with
        | .ok worker =>
            if worker.formatVersion ≠ bytecodeVersion then .fail .artifact
            else if worker.instructions.length ≤ functionTarget then .fail .function
            else .ok ⟨functionTarget, requiredCapabilities, transportAbi, bytecodeVersion, identity, artifact⟩
        | .fail _ => .fail .artifact
        | .outOfBounds => .outOfBounds
        | .outOfFuel => .outOfFuel

/-- The loop over the entries. -/
def loadCatalogEntries (load : List Byte → Parse LoadFailure ProgramRecord) : Nat → Nat →
    Parse WorkerCatalogStatus (List WorkerCatalogEntry × Nat)
  | 0, cursor => return ([], cursor)
  | count + 1, cursor => do
      let entry ← loadCatalogEntry host bytes load cursor
      let (entries, cursor) ← loadCatalogEntries load count (cursor + 52 + entry.artifact.length)
      return (entry :: entries, cursor)

/-- `aivm_worker_catalog_load`; a failed load releases what it has built. -/
def loadWorkerCatalog (load : List Byte → Parse LoadFailure ProgramRecord) :
    Parse WorkerCatalogStatus (List WorkerCatalogEntry) :=
  if bytes.length < 4 then .fail .format
  else do
    let count ← readLe bytes 4 0
    if workerCatalogMaxEntries < count then .fail .limit
    else if count = 0 then
      if bytes.length = 4 then return [] else .fail .format
    else if ¬ host.entries bytes count then .fail .memory
    else
      let (entries, cursor) ← loadCatalogEntries host bytes load count 4
      if cursor ≠ bytes.length then .fail .format else return entries

/-- The worker catalog section. -/
def loadCatalogSection (load : List Byte → Parse LoadFailure ProgramRecord) (start size : Nat) (p : ProgramRecord) :
    Parse LoadFailure ProgramRecord := do
  let payload ← readBytes bytes start size
  match loadWorkerCatalog host payload load with
  | .ok entries => return { p with workerCatalog := entries }
  | .fail _ => constantLoadError .workerCatalog start p
  | .outOfBounds => .outOfBounds
  | .outOfFuel => .outOfFuel

/-! ## Sections -/

/-- Which of the known sections have been met. -/
structure SeenSections where
  instructions : Bool
  constants : Bool
  workerCatalog : Bool
deriving DecidableEq, Repr

/-- A section with its payload between `start` and `start + size`. -/
def loadSection (load : List Byte → Parse LoadFailure ProgramRecord) (seen : SeenSections)
    (sectionType start size : Nat) (p : ProgramRecord) : Parse LoadFailure (SeenSections × ProgramRecord) :=
  if sectionType = sectionInstructions then
    if seen.instructions then loadError .invalidSection start p
    else do
      let p ← loadInstructionSection host bytes start size p
      return ({ seen with instructions := true }, p)
  else if sectionType = sectionConstants then
    if seen.constants then loadError .invalidSection start p
    else do
      let p ← loadConstantSection host bytes start size p
      return ({ seen with constants := true }, p)
  else if sectionType = sectionWorkerCatalog then
    if seen.workerCatalog then constantLoadError .invalidSection start p
    else do
      let p ← loadCatalogSection host bytes load start size p
      return ({ seen with workerCatalog := true }, p)
  else
    return (seen, p)

/-- The loop over the section table. -/
def loadSections (load : List Byte → Parse LoadFailure ProgramRecord) : Nat → SeenSections → Nat → ProgramRecord →
    Parse LoadFailure ProgramRecord
  | 0, _, _, p => return p
  | count + 1, seen, cursor, p =>
      if bytes.length < cursor + 8 then loadError .truncated cursor p
      else do
        let sectionType ← readLe bytes 4 cursor
        let size ← readLe bytes 4 (cursor + 4)
        if bytes.length < cursor + 8 + size then
          loadError .sectionOob (cursor + 8) p
        else
          let p := { p with sections := p.sections ++ [⟨sectionType, size, (cursor + 8) % 2 ^ 32⟩] }
          let (seen, p) ← loadSection host bytes load seen sectionType (cursor + 8) size p
          loadSections load count seen (cursor + 8 + size) p

end Loader

/-- `aivm_program_load_aibc1`. An artifact of a worker catalog is loaded in the same way; the fuel bounds the nesting of
artifacts. -/
def loadAibc1 (host : LoadHost) : Nat → List Byte → ProgramRecord → Parse LoadFailure ProgramRecord
  | 0, _, _ => .outOfFuel
  | fuel + 1, bytes, outProgram => do
      let p := clearProgram outProgram
      if bytes.length < 16 then
        loadError .truncated bytes.length p
      else
        let magic ← readBytes bytes 0 4
        if magic ≠ [65, 73, 66, 67] then
          loadError .badMagic 0 p
        else
          let version ← readLe bytes 4 4
          let flags ← readLe bytes 4 8
          let count ← readLe bytes 4 12
          let p := { p with formatVersion := version, formatFlags := flags, sectionCount := count }
          if version ≠ 2 then
            loadError .unsupported 4 p
          else if programMaxSections < count then
            loadError .sectionLimit 12 p
          else
            loadSections host bytes (fun artifact => loadAibc1 host fuel artifact p) count ⟨false, false, false⟩ 16 p

end Aivm
